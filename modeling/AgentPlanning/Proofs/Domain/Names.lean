import AgentPlanning.Domain.Scope
import AgentPlanning.Proofs.Domain.WellFormed
import Mathlib.Data.List.Induction
import Mathlib.Data.List.Nodup

/-!
# What Names Stand for

Declared things are numbered by position, and a name is found exactly if it is declared or known
to the game. Main statements:

* `problems_declareAtoms`, `names_declareAtoms`: atoms are declared without problems if they are
  distinct and fit, and then they are numbered in order;
* `problems_reportRepeated`: repeated names are those of a list with duplicates;
* `problems_condition`, `get?_condition`: facts become a condition if they are consistent, and
  then the condition requires them and nothing else.
-/

namespace AgentPlanning

/-! ## Declaring names -/

/-- Repeated names are reported exactly if there are any. -/
theorem repeatedNames_eq_nil {seen names : List String} :
    repeatedNames seen names = [] ↔ names.Nodup ∧ ∀ name ∈ names, name ∉ seen := by
  induction names generalizing seen with
  | nil => simp [repeatedNames]
  | cons name rest ih =>
    rw [repeatedNames]
    split
    next hseen => simp [hseen]
    next hseen =>
      rw [ih, List.nodup_cons, List.forall_mem_cons]
      simp only [List.mem_cons, not_or, forall_and]
      -- No later name is this one.
      have hfirst : (∀ other ∈ rest, ¬other = name) ↔ name ∉ rest :=
        ⟨fun h hmem => h name hmem rfl, fun h other hmem heq => h (heq ▸ hmem)⟩
      rw [hfirst]
      tauto

theorem problems_reportRepeated {kind : String} {names : List String} :
    (reportRepeated kind names).problems = [] ↔ names.Nodup := by
  rw [reportRepeated, Checked.problems_report, List.map_eq_nil_iff, repeatedNames_eq_nil]
  simp

/-- A name is declared without a problem if it is new and there is room for it. -/
theorem problems_declareAtom {r : AtomRegistry} {name : String} :
    (declareAtom r name).problems = [] ↔ name ∉ r.names ∧ r.names.size < r.capacity := by
  rw [← AtomRegistry.get?_eq_none_iff, declareAtom]
  cases hget : r.get? name with
  | some atom => simp
  | none =>
    by_cases hroom : r.names.size < r.capacity
    · obtain ⟨atom, next, hintern, -, -⟩ := AtomRegistry.exists_intern hget hroom
      simp [hintern, hroom]
    · simp [AtomRegistry.intern_of_full hget hroom, hroom]

theorem value_declareAtom {r : AtomRegistry} {name : String} (hnew : name ∉ r.names)
    (hroom : r.names.size < r.capacity) :
    (declareAtom r name).value.names = r.names.push name ∧
      (declareAtom r name).value.capacity = r.capacity := by
  have hget := AtomRegistry.get?_eq_none_iff.2 hnew
  obtain ⟨atom, next, hintern, -, hnames, hcapacity⟩ := AtomRegistry.exists_intern hget hroom
  rw [declareAtom]
  simp only [hget, hintern]
  exact ⟨hnames, hcapacity⟩

/-- Names are declared one after the other if all of them are new and different, and fit. -/
theorem problems_foldlM_declareAtom {r : AtomRegistry} {names : List String} :
    (names.foldlM declareAtom r).problems = [] ↔
      names.Nodup ∧ (∀ name ∈ names, name ∉ r.names) ∧
        r.names.size + names.length ≤ r.capacity := by
  induction names generalizing r with
  | nil => simpa using r.size_le
  | cons name rest ih =>
    rw [List.foldlM_cons, Checked.problems_bind_eq_nil, problems_declareAtom, ih,
      List.nodup_cons, List.forall_mem_cons, List.length_cons]
    -- The conditions on the rest speak about the registry with the first name.
    have hrest (hnew : name ∉ r.names) (hroom : r.names.size < r.capacity) :
        ((∀ other ∈ rest, other ∉ (declareAtom r name).value.names) ↔
          name ∉ rest ∧ ∀ other ∈ rest, other ∉ r.names) ∧
        (declareAtom r name).value.names.size = r.names.size + 1 ∧
        (declareAtom r name).value.capacity = r.capacity := by
      obtain ⟨hnames, hcapacity⟩ := value_declareAtom hnew hroom
      rw [hnames, hcapacity, Array.size_push]
      refine ⟨?_, rfl, rfl⟩
      simp only [Array.mem_push, not_or, forall_and]
      grind
    constructor
    · rintro ⟨⟨hnew, hroom⟩, hnodup, hothers, hfit⟩
      obtain ⟨hiff, hsize, hcapacity⟩ := hrest hnew hroom
      obtain ⟨hname, hold⟩ := hiff.1 hothers
      exact ⟨⟨hname, hnodup⟩, ⟨hnew, hold⟩, by omega⟩
    · rintro ⟨⟨hname, hnodup⟩, ⟨hnew, hold⟩, hfit⟩
      have hroom : r.names.size < r.capacity := by omega
      obtain ⟨hiff, hsize, hcapacity⟩ := hrest hnew hroom
      exact ⟨⟨hnew, hroom⟩, hnodup, hiff.2 ⟨hname, hold⟩, by omega⟩

theorem problems_declareAtoms {names : List String} :
    (declareAtoms names).problems = [] ↔ names.Nodup ∧ names.length ≤ 256 := by
  rw [declareAtoms, problems_foldlM_declareAtom]
  simp [AtomRegistry.empty, AtomRegistry.ofCapacity]

/-- Declared names are numbered in order. -/
theorem names_foldlM_declareAtom {r : AtomRegistry} {names : List String}
    (h : (names.foldlM declareAtom r).problems = []) :
    (names.foldlM declareAtom r).value.names.toList = r.names.toList ++ names := by
  induction names generalizing r with
  | nil => simp
  | cons name rest ih =>
    rw [List.foldlM_cons, Checked.problems_bind_eq_nil] at h
    obtain ⟨hfirst, hrest⟩ := h
    obtain ⟨hnew, hroom⟩ := problems_declareAtom.1 hfirst
    rw [List.foldlM_cons, Checked.value_bind, ih hrest, (value_declareAtom hnew hroom).1,
      Array.toList_push, List.append_assoc, List.singleton_append]

theorem names_declareAtoms {names : List String} (h : (declareAtoms names).problems = []) :
    (declareAtoms names).value.names.toList = names := by
  rw [declareAtoms, names_foldlM_declareAtom h]
  rfl

/-! ## Looking names up -/

/-- A name that occurs once is found where it occurs. -/
theorem idxOf?_eq_some_iff_of_nodup {names : List String} (hnodup : names.Nodup) {name : String}
    {i : Nat} : names.idxOf? name = some i ↔ names[i]? = some name := by
  rw [List.idxOf?_eq_some_iff, List.getElem?_eq_some_iff]
  constructor
  · rintro ⟨hi, heq, -⟩
    exact ⟨hi, heq⟩
  · rintro ⟨hi, heq⟩
    refine ⟨hi, heq, fun j hj hsame => ?_⟩
    have hij := (hnodup.getElem_inj_iff).1 (hsame.trans heq.symm)
    omega

namespace Scope

/-- The scope is that of the description and the vocabulary, and all atoms have been declared. -/
structure Fits (scope : Scope) (description : Description) (vocabulary : Vocabulary) : Prop where
  vocabulary : scope.vocabulary = vocabulary
  atoms : scope.atoms.names.toList = description.atoms
  overflowed : scope.overflowed = []
  actions : scope.actions = description.actions.map (·.name)
  goals : scope.goals = description.goals.map (·.name)
  tasks : scope.tasks = description.tasks.map (·.name)

theorem fits_ofDescription {description : Description} (vocabulary : Vocabulary)
    (h : (declareAtoms description.atoms).problems = []) :
    (ofDescription description vocabulary (declareAtoms description.atoms)).Fits description
      vocabulary where
  vocabulary := rfl
  atoms := names_declareAtoms h
  overflowed := by rw [ofDescription, h, List.filterMap_nil]
  actions := rfl
  goals := rfl
  tasks := rfl

variable {scope : Scope} {description : Description} {vocabulary : Vocabulary}
  {context name : String} (hfits : scope.Fits description vocabulary)

include hfits

theorem value_atom (context : String) {atom : AtomId} :
    (scope.atom context name).value = some atom ↔ description.atoms[atom.val]? = some name := by
  rw [Scope.atom, hfits.overflowed, if_neg List.not_mem_nil, Checked.value_found,
    AtomRegistry.get?_eq_some_iff, AtomRegistry.name?, ← Array.getElem?_toList, hfits.atoms]

theorem isSome_value_atom :
    (scope.atom context name).value.isSome = true ↔ name ∈ description.atoms := by
  rw [Scope.atom, hfits.overflowed, if_neg List.not_mem_nil, Checked.value_found,
    ← Option.not_isNone, ← hfits.atoms, Array.mem_toList_iff, ← not_iff_not]
  simp [AtomRegistry.get?_eq_none_iff]

theorem problems_atom :
    (scope.atom context name).problems = [] ↔ name ∈ description.atoms := by
  rw [← isSome_value_atom hfits, Scope.atom, hfits.overflowed, if_neg List.not_mem_nil]
  exact Checked.problems_found

theorem problems_tag :
    (scope.tag context name).problems = [] ↔ vocabulary.tags.contains name = true := by
  rw [tag, Checked.problems_found, hfits.vocabulary, KeyMap.contains]

theorem problems_intKey :
    (scope.intKey context name).problems = [] ↔ vocabulary.intKeys.contains name = true := by
  rw [intKey, Checked.problems_found, hfits.vocabulary, KeyMap.contains]

theorem problems_entityKey :
    (scope.entityKey context name).problems = [] ↔ vocabulary.entityKeys.contains name = true := by
  rw [entityKey, Checked.problems_found, hfits.vocabulary, KeyMap.contains]

theorem problems_action :
    (scope.action context name).problems = [] ↔ name ∈ description.actions.map (·.name) := by
  rw [action, Checked.problems_found, hfits.actions, List.isSome_idxOf?]

theorem problems_task :
    (scope.task context name).problems = [] ↔ name ∈ description.tasks.map (·.name) := by
  rw [task, Checked.problems_found, hfits.tasks, List.isSome_idxOf?]

theorem problems_goal :
    (scope.goal context name).problems = [] ↔ name ∈ description.goals.map (·.name) := by
  rw [goal, Checked.problems_found, hfits.goals, List.isSome_idxOf?]

/-- The name of an action that is declared once stands for the position of its declaration. -/
theorem value_action (hnodup : (description.actions.map (·.name)).Nodup) (context : String)
    {id : ActionId} : (scope.action context name).value = some id ↔
      description.actions[id]?.map (·.name) = some name := by
  rw [action, Checked.value_found, hfits.actions, idxOf?_eq_some_iff_of_nodup hnodup,
    List.getElem?_map]

theorem value_task (hnodup : (description.tasks.map (·.name)).Nodup) (context : String)
    {id : Nat} : (scope.task context name).value = some id ↔
      description.tasks[id]?.map (·.name) = some name := by
  rw [task, Checked.value_found, hfits.tasks, idxOf?_eq_some_iff_of_nodup hnodup,
    List.getElem?_map]

theorem value_goal (hnodup : (description.goals.map (·.name)).Nodup) (context : String)
    {id : GoalId} : (scope.goal context name).value = some id ↔
      description.goals[id]?.map (·.name) = some name := by
  rw [goal, Checked.value_found, hfits.goals, idxOf?_eq_some_iff_of_nodup hnodup,
    List.getElem?_map]

/-- The name of a declared atom stands for one atom only. -/
theorem exists_value_atom (context : String) (h : name ∈ description.atoms) :
    ∃ atom, (scope.atom context name).value = some atom ∧
      ∀ other : AtomId, description.atoms[other.val]? = some name ↔ other = atom := by
  obtain ⟨atom, hatom⟩ := Option.isSome_iff_exists.1 ((isSome_value_atom hfits).2 h)
  refine ⟨atom, hatom, fun other => ?_⟩
  rw [← value_atom hfits context, hatom, Option.some.injEq, eq_comm]

/-! ## Facts -/

/-- A fact is added if its atom is declared and does not have the other value already. -/
theorem problems_addFact {condition : Condition} {fact : Description.Fact} :
    (scope.addFact context condition fact).problems = [] ↔
      fact.atom ∈ description.atoms ∧ ∀ atom : AtomId,
        description.atoms[atom.val]? = some fact.atom → condition.get? atom ≠ some !fact.value := by
  rw [addFact, Checked.problems_bind_eq_nil, problems_atom hfits]
  refine and_congr_right fun hmem => ?_
  obtain ⟨atom, hatom, hunique⟩ := exists_value_atom hfits context hmem
  simp only [hatom, hunique, forall_eq]
  by_cases h : condition.get? atom = some !fact.value <;> simp [h]

theorem get?_addFact {condition : Condition} {fact : Description.Fact}
    (h : (scope.addFact context condition fact).problems = []) (atom : AtomId) :
    (scope.addFact context condition fact).value.get? atom =
      if description.atoms[atom.val]? = some fact.atom then some fact.value
      else condition.get? atom := by
  obtain ⟨hmem, hfree⟩ := (problems_addFact hfits).1 h
  obtain ⟨found, hfound, hunique⟩ := exists_value_atom hfits context hmem
  rw [addFact, Checked.value_bind]
  simp only [hunique, forall_eq] at hfree ⊢
  simp [hfound, hfree, eq_comm]

omit hfits in
theorem condition_concat (scope : Scope) (context : String) (before : List Description.Fact)
    (fact : Description.Fact) :
    scope.condition context (before ++ [fact]) =
      scope.condition context before >>= fun condition => scope.addFact context condition fact := by
  rw [condition, List.foldlM_append, ← condition]
  simp only [List.foldlM_cons, List.foldlM_nil, bind_pure]

/-- A condition requires the facts that it was built from, and nothing else. -/
theorem get?_condition {facts : List Description.Fact}
    (h : (scope.condition context facts).problems = []) (atom : AtomId) (value : Bool) :
    (scope.condition context facts).value.get? atom = some value ↔
      ∃ fact ∈ facts, description.atoms[atom.val]? = some fact.atom ∧ fact.value = value := by
  induction facts using List.reverseRecOn with
  | nil => simp [condition]
  | append_singleton before fact ih =>
    rw [condition_concat, Checked.problems_bind_eq_nil] at h
    obtain ⟨hbefore, hfact⟩ := h
    rw [condition_concat, Checked.value_bind, get?_addFact hfits hfact]
    have hagree := ((problems_addFact hfits).1 hfact).2 atom
    split
    next hatom =>
      -- What was required of the atom before is the same.
      constructor
      · intro h
        exact ⟨fact, by simp, hatom, Option.some.inj h⟩
      · rintro ⟨other, hother, hname, rfl⟩
        rcases List.mem_append.1 hother with hother | hother
        · have hne := hagree hatom
          rw [(ih hbefore).2 ⟨other, hother, hname, rfl⟩, ne_eq, Option.some.injEq,
            Bool.eq_not, not_not] at hne
          rw [hne]
        · rw [List.mem_singleton.1 hother]
    next hatom =>
      rw [ih hbefore]
      simp [hatom]

omit hfits in
/-- One more fact has to be about a declared atom and to agree with the facts about this atom. -/
theorem consistent_concat {before : List Description.Fact} {fact : Description.Fact} :
    Description.Fact.Consistent description (before ++ [fact]) ↔
      Description.Fact.Consistent description before ∧ fact.atom ∈ description.atoms ∧
        ∀ other ∈ before, other.atom = fact.atom → other.value = fact.value := by
  constructor
  · rintro ⟨hdeclared, hagree⟩
    have hlast : fact ∈ before ++ [fact] := by simp
    refine ⟨⟨fun other h => hdeclared other (List.mem_append_left _ h), ?_⟩,
      hdeclared fact hlast, fun other h => hagree other (List.mem_append_left _ h) fact hlast⟩
    intro a ha b hb
    exact hagree a (List.mem_append_left _ ha) b (List.mem_append_left _ hb)
  · rintro ⟨⟨hdeclared, hagree⟩, hmem, hlast⟩
    constructor
    · simpa [forall_and, or_imp] using ⟨hdeclared, hmem⟩
    · intro a ha b hb hatom
      simp only [List.mem_append, List.mem_singleton] at ha hb
      rcases ha with ha | rfl <;> rcases hb with hb | rfl
      · exact hagree a ha b hb hatom
      · exact hlast a ha hatom
      · exact (hlast b hb hatom.symm).symm
      · rfl

/-- Facts become a condition without problems if they are consistent. -/
theorem problems_condition {facts : List Description.Fact} :
    (scope.condition context facts).problems = [] ↔
      Description.Fact.Consistent description facts := by
  induction facts using List.reverseRecOn with
  | nil => exact ⟨fun _ => ⟨by simp, by simp⟩, fun _ => rfl⟩
  | append_singleton before fact ih =>
    rw [condition_concat, Checked.problems_bind_eq_nil, consistent_concat,
      problems_addFact hfits, ih]
    refine and_congr_right fun hbefore => and_congr_right fun hmem => ?_
    -- What the condition requires of the atom are the facts about it.
    have hget := get?_condition hfits (ih.2 hbefore)
    obtain ⟨atom, -, hunique⟩ := exists_value_atom hfits context hmem
    simp only [hunique, forall_eq, ne_eq, hget, not_exists, not_and, Bool.not_eq_not]
    refine forall₂_congr fun other hother => ?_
    constructor
    · intro h heq
      exact h (heq ▸ (hunique atom).2 rfl)
    · intro h hname
      have hsame := hname.symm.trans ((hunique atom).2 rfl)
      exact h (Option.some.inj hsame)

end Scope

end AgentPlanning
