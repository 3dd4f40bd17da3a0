import AgentPlanning.Domain.Resolution
import AgentPlanning.Proofs.Domain.References
import Mathlib.Logic.Basic

/-!
# Which Names are Reported

The diagnostics of a description name every reference that does not resolve, each with its own
context and in the order of the references. The only ones that are passed over are those made by
the factors of a goal that is itself unknown: they come to light once the goal is declared. Main
statements:

* `Checked.unknownNames_bind`, `Checked.unknownNames_filterEach`, `Checked.unknownNames_foldlM`:
  the unknown names of a compound are those of its parts;
* `declares_foldlM`: every declared atom is registered, or reported for lack of room;
* `unknownNames_diagnostics`: the unknown names of a description;
* `ghost_not_reported`: a reference that is passed over.
-/

namespace AgentPlanning

/-- Whether the diagnostic says that a name stands for nothing. -/
def Diagnostic.isUnknownName : Diagnostic → Bool
  | unknownAtom .. | unknownTag .. | unknownIntKey .. | unknownEntityKey .. | unknownAction ..
  | unknownTask .. | unknownGoal .. => true
  | _ => false

theorem Diagnostics.toList_of_guard {α : Type} {problems : List Diagnostic} {value : α}
    {batch : Diagnostics} (h : guard ⟨problems⟩ value = .error batch) :
    problems = batch.toList := by
  rw [guard] at h
  split at h <;> cases h
  rfl

/-! ## Unknown names on the way to a value -/

namespace Checked

variable {α β : Type}

/-- The unknown names that were reported while a value was built. -/
def unknownNames (x : Checked α) : List Diagnostic :=
  x.problems.filter (·.isUnknownName)

@[simp] theorem unknownNames_pure (a : α) : (pure a : Checked α).unknownNames = [] := rfl

@[simp] theorem unknownNames_bind (x : Checked α) (f : α → Checked β) :
    (x >>= f).unknownNames = x.unknownNames ++ (f x.value).unknownNames :=
  List.filter_append ..

theorem unknownNames_bind_pure (x : Checked α) (f : α → β) :
    (x >>= fun a => pure (f a)).unknownNames = x.unknownNames := by
  rw [unknownNames, problems_bind_pure, unknownNames]

/-- A problem of another sort reports no unknown name. -/
theorem unknownNames_eq_nil {x : Checked α}
    (h : ∀ problem ∈ x.problems, problem.isUnknownName = false) : x.unknownNames = [] :=
  List.filter_eq_nil_iff.2 fun problem hproblem => by simp [h problem hproblem]

theorem unknownNames_found (x : Option α) {problem : Diagnostic}
    (h : problem.isUnknownName = true) :
    (found x problem).unknownNames = if x.isSome then [] else [problem] := by
  cases x <;> simp [unknownNames, found, h]

theorem unknownNames_each (xs : List α) (f : α → Checked β) :
    (each xs f).unknownNames = xs.flatMap fun x => (f x).unknownNames :=
  List.filter_flatMap

theorem unknownNames_filterEach (xs : List α) (f : α → Checked (Option β)) :
    (filterEach xs f).unknownNames = xs.flatMap fun x => (f x).unknownNames :=
  List.filter_flatMap

/-- What is reported of an element need not depend on its position. -/
theorem unknownNames_filterEach_zipIdx {f : α → Nat → Checked (Option β)}
    {g : α → List Diagnostic} (h : ∀ x i, (f x i).unknownNames = g x) (xs : List α) :
    (filterEach xs.zipIdx fun (x, i) => f x i).unknownNames = xs.flatMap g := by
  rw [unknownNames_filterEach]
  simp only [h]
  rw [← List.flatMap_map Prod.fst g, List.zipIdx_map_fst]

/-- What a pass over a list reports does not depend on what was built before. -/
theorem unknownNames_foldlM {f : β → α → Checked β} {g : α → List Diagnostic}
    (h : ∀ b a, (f b a).unknownNames = g a) (xs : List α) (b : β) :
    (xs.foldlM f b).unknownNames = xs.flatMap g := by
  induction xs generalizing b with
  | nil => rfl
  | cons x rest ih => rw [List.foldlM_cons, unknownNames_bind, h, ih, List.flatMap_cons]

end Checked

/-! ## Declaring atoms -/

/-- What declaring names makes of a registry. Every name is registered or reported for lack of
room, and nothing else is. -/
structure Declares (r : AtomRegistry) (names : List String) (x : Checked AtomRegistry) : Prop where
  capacity : x.value.capacity = r.capacity
  keeps : ∀ name ∈ r.names, name ∈ x.value.names
  registered_or_full : ∀ name ∈ names,
    name ∈ x.value.names ∨ .registryFull ⟨name, r.capacity⟩ ∈ x.problems
  mem_of_registered : ∀ name ∈ x.value.names, name ∈ r.names ∨ name ∈ names
  mem_of_full : ∀ e, .registryFull e ∈ x.problems → e.name ∈ names
  unknownNames : x.unknownNames = []

theorem declares_declareAtom (r : AtomRegistry) (name : String) :
    Declares r [name] (declareAtom r name) := by
  rw [declareAtom]
  cases hget : r.get? name with
  | some atom =>
    have hmem : name ∈ r.names := Decidable.byContradiction fun hnew => by
      rw [AtomRegistry.get?_eq_none_iff.2 hnew] at hget
      cases hget
    constructor <;> simp_all [Checked.unknownNames, Diagnostic.isUnknownName]
  | none =>
    -- A new name joins the registry or, without room, the problems.
    by_cases hroom : r.names.size < r.capacity
    · obtain ⟨atom, next, hintern, -, hnames, hcapacity⟩ := AtomRegistry.exists_intern hget hroom
      constructor <;> simp_all [Checked.unknownNames]
    · constructor <;>
        simp_all [AtomRegistry.intern_of_full, Checked.unknownNames, Diagnostic.isUnknownName]

/-- Names are declared one after the other. -/
theorem Declares.cons {r : AtomRegistry} {name : String} {rest : List String}
    {x : Checked AtomRegistry} {f : AtomRegistry → Checked AtomRegistry}
    (hx : Declares r [name] x) (hf : Declares x.value rest (f x.value)) :
    Declares r (name :: rest) (x >>= f) where
  capacity := hf.capacity.trans hx.capacity
  keeps other hother := hf.keeps other (hx.keeps other hother)
  registered_or_full := by
    rw [List.forall_mem_cons]
    simp only [Checked.value_bind, Checked.problems_bind, List.mem_append]
    constructor
    · exact (hx.registered_or_full name List.mem_cons_self).imp (hf.keeps name) .inl
    · intro other hother
      exact hx.capacity ▸ (hf.registered_or_full other hother).imp_right .inr
  mem_of_registered other hother := by
    rcases hf.mem_of_registered other hother with hfirst | hrest
    · rcases hx.mem_of_registered other hfirst with hold | hnew
      · exact .inl hold
      · exact .inr (List.mem_cons.2 (.inl (List.mem_singleton.1 hnew)))
    · exact .inr (List.mem_cons_of_mem _ hrest)
  mem_of_full e he := by
    rw [Checked.problems_bind] at he
    rcases List.mem_append.1 he with hfirst | hrest
    · exact List.mem_singleton.1 (hx.mem_of_full e hfirst) ▸ List.mem_cons_self
    · exact List.mem_cons_of_mem _ (hf.mem_of_full e hrest)
  unknownNames := by rw [Checked.unknownNames_bind, hx.unknownNames, hf.unknownNames]; rfl

theorem declares_foldlM (r : AtomRegistry) (names : List String) :
    Declares r names (names.foldlM declareAtom r) := by
  induction names generalizing r with
  | nil => constructor <;> simp [Checked.unknownNames]
  | cons name rest ih =>
    rw [List.foldlM_cons]
    exact (declares_declareAtom r name).cons (ih _)

/-! ## Looking names up -/

section Lookup

variable (description : Description) (vocabulary : Vocabulary)

/-- The scope in which the description is resolved. -/
abbrev Description.scope : Scope :=
  .ofDescription description vocabulary (declareAtoms description.atoms)

/-- What is reported of a reference: nothing if it resolves or is hidden. -/
def Reference.reported (r : Reference) : List Diagnostic :=
  if r.resolves description vocabulary || r.place.isHidden description then []
  else [r.diagnostic]

variable {description vocabulary} {place : Place} {name : String}

theorem Checked.unknownNames_lookup {α : Type} {x : Option α} {r : Reference}
    (hvisible : r.place.isHidden description = false)
    (h : x.isSome = r.resolves description vocabulary) :
    (found x r.diagnostic).unknownNames = r.reported description vocabulary := by
  have hunknown : r.diagnostic.isUnknownName = true := by
    rw [Reference.diagnostic]
    cases r.kind <;> rfl
  rw [unknownNames_found x hunknown, h, Reference.reported, hvisible, Bool.or_false]

namespace Scope

/-- A registered atom was declared, and a declared atom that is not registered was reported for
lack of room. -/
theorem isSome_get?_of_notMem_overflowed (h : name ∉ (description.scope vocabulary).overflowed) :
    ((description.scope vocabulary).atoms.get? name).isSome =
      decide (name ∈ description.atoms) := by
  have hdeclares := declares_foldlM .empty description.atoms
  rw [Bool.eq_iff_iff, decide_eq_true_iff, ← Option.ne_none_iff_isSome, ne_eq,
    AtomRegistry.get?_eq_none_iff, Decidable.not_not]
  constructor
  · intro hregistered
    rcases hdeclares.mem_of_registered name hregistered with hempty | hdeclared
    · simp [AtomRegistry.empty, AtomRegistry.ofCapacity] at hempty
    · exact hdeclared
  · intro hdeclared
    refine (hdeclares.registered_or_full name hdeclared).resolve_right fun hfull => h ?_
    exact List.mem_filterMap.2 ⟨_, hfull, rfl⟩

theorem mem_atoms_of_mem_overflowed (h : name ∈ (description.scope vocabulary).overflowed) :
    name ∈ description.atoms := by
  obtain ⟨problem, hproblem, hname⟩ := List.mem_filterMap.1 h
  cases problem <;> cases hname
  exact (declares_foldlM .empty description.atoms).mem_of_full _ hproblem

section Names

variable (hvisible : place.isHidden description = false)

include hvisible

theorem unknownNames_atom :
    ((description.scope vocabulary).atom place.context name).unknownNames =
      Reference.reported description vocabulary ⟨.atom, name, place⟩ := by
  rw [atom]
  split
  next hfull =>
    -- Nothing is reported here, and the name is declared.
    have hresolves : Reference.resolves description vocabulary ⟨.atom, name, place⟩ = true :=
      decide_eq_true (mem_atoms_of_mem_overflowed hfull)
    rw [Reference.reported, hresolves]
    rfl
  next hroom =>
    exact Checked.unknownNames_lookup (r := ⟨.atom, name, place⟩) hvisible
      (isSome_get?_of_notMem_overflowed hroom)

theorem unknownNames_tag :
    ((description.scope vocabulary).tag place.context name).unknownNames =
      Reference.reported description vocabulary ⟨.tag, name, place⟩ :=
  Checked.unknownNames_lookup (r := ⟨.tag, name, place⟩) hvisible rfl

theorem unknownNames_intKey :
    ((description.scope vocabulary).intKey place.context name).unknownNames =
      Reference.reported description vocabulary ⟨.intKey, name, place⟩ :=
  Checked.unknownNames_lookup (r := ⟨.intKey, name, place⟩) hvisible rfl

theorem unknownNames_entityKey :
    ((description.scope vocabulary).entityKey place.context name).unknownNames =
      Reference.reported description vocabulary ⟨.entityKey, name, place⟩ :=
  Checked.unknownNames_lookup (r := ⟨.entityKey, name, place⟩) hvisible rfl

theorem unknownNames_action :
    ((description.scope vocabulary).action place.context name).unknownNames =
      Reference.reported description vocabulary ⟨.action, name, place⟩ :=
  Checked.unknownNames_lookup (r := ⟨.action, name, place⟩) hvisible
    (Bool.eq_iff_iff.2 (List.isSome_idxOf?.trans decide_eq_true_iff.symm))

theorem unknownNames_task :
    ((description.scope vocabulary).task place.context name).unknownNames =
      Reference.reported description vocabulary ⟨.task, name, place⟩ :=
  Checked.unknownNames_lookup (r := ⟨.task, name, place⟩) hvisible
    (Bool.eq_iff_iff.2 (List.isSome_idxOf?.trans decide_eq_true_iff.symm))

theorem unknownNames_goal :
    ((description.scope vocabulary).goal place.context name).unknownNames =
      Reference.reported description vocabulary ⟨.goal, name, place⟩ :=
  Checked.unknownNames_lookup (r := ⟨.goal, name, place⟩) hvisible
    (Bool.eq_iff_iff.2 (List.isSome_idxOf?.trans decide_eq_true_iff.symm))

/-! ## Entries of a description -/

/-- Contradictions aside, every fact reports its own atom. -/
theorem unknownNames_condition (facts : List Description.Fact) :
    ((description.scope vocabulary).condition place.context facts).unknownNames =
      (facts.map (Description.Fact.reference place)).flatMap
        (Reference.reported description vocabulary) := by
  rw [List.flatMap_map]
  refine Checked.unknownNames_foldlM (fun condition fact => ?_) facts _
  rw [addFact, Checked.unknownNames_bind, unknownNames_atom hvisible]
  split
  · exact List.append_nil _
  · split <;> exact List.append_nil _

theorem unknownNames_projectionTest (test : Description.Test) :
    ((description.scope vocabulary).projectionTest place.context test).unknownNames =
      (test.reference place).reported description vocabulary := by
  cases test with
  | intEquals | intAtLeast | intAtMost =>
    rw [projectionTest, Checked.unknownNames_bind_pure]
    exact unknownNames_intKey hvisible
  | entityPresent | entityAbsent =>
    rw [projectionTest, Checked.unknownNames_bind_pure]
    exact unknownNames_entityKey hvisible

theorem unknownNames_binding (binding : Description.Binding) :
    ((description.scope vocabulary).binding place.context binding).unknownNames =
      (binding.reference place).reported description vocabulary := by
  cases binding with
  | intToArg key slot =>
    rw [Scope.binding, Checked.unknownNames_bind, unknownNames_intKey hvisible]
    split <;> exact List.append_nil _
  | entityToTarget | entityToTargetContext =>
    rw [Scope.binding, Checked.unknownNames_bind_pure]
    exact unknownNames_entityKey hvisible

theorem unknownNames_orderTemplate (order : Option Description.Order) :
    ((description.scope vocabulary).orderTemplate place.context order).unknownNames =
      (order.toList.map (Description.Order.reference place)).flatMap
        (Reference.reported description vocabulary) := by
  cases order with
  | none => rfl
  | some order =>
    rw [orderTemplate, Checked.unknownNames_bind_pure, unknownNames_tag hvisible]
    exact (List.append_nil _).symm

theorem unknownNames_subtask (subtask : Description.Subtask) :
    ((description.scope vocabulary).subtask place.context subtask).unknownNames =
      (subtask.reference place).reported description vocabulary := by
  cases subtask with
  | action =>
    rw [Scope.subtask, Checked.unknownNames_bind_pure]
    exact unknownNames_action hvisible
  | task =>
    rw [Scope.subtask, Checked.unknownNames_bind_pure]
    exact unknownNames_task hvisible

theorem unknownNames_consideration (consideration : Description.Consideration) :
    ((description.scope vocabulary).consideration place.context consideration).unknownNames =
      (consideration.reference place).reported description vocabulary := by
  cases consideration with
  | atom =>
    rw [Scope.consideration, Checked.unknownNames_bind_pure]
    exact unknownNames_atom hvisible
  | intRange =>
    rw [Scope.consideration, Checked.unknownNames_bind_pure]
    exact unknownNames_intKey hvisible

end Names

theorem unknownNames_projectionRule (rule : Description.Projection) (i : Nat) :
    ((description.scope vocabulary).projectionRule rule i).unknownNames =
      (rule.references i).flatMap (Reference.reported description vocabulary) := by
  have hvisible : (Place.projection i rule.atom).isHidden description = false := rfl
  rw [projectionRule, Checked.unknownNames_bind, Checked.unknownNames_bind_pure,
    Description.Projection.references, List.flatMap_cons, List.flatMap_singleton]
  exact congrArg₂ (· ++ ·) (unknownNames_atom hvisible)
    (unknownNames_projectionTest hvisible rule.test)

theorem unknownNames_resolveAction (action : Description.Action) :
    ((description.scope vocabulary).resolveAction action).unknownNames =
      action.references.flatMap (Reference.reported description vocabulary) := by
  have hvisible : (Place.action action.name).isHidden description = false := rfl
  have hbindings : (Checked.filterEach action.bindings ((description.scope vocabulary).binding
      (Place.action action.name).context)).unknownNames =
        (action.bindings.map (Description.Binding.reference (.action action.name))).flatMap
          (Reference.reported description vocabulary) := by
    rw [Checked.unknownNames_filterEach, List.flatMap_map]
    simp only [unknownNames_binding hvisible]
  simp only [resolveAction, Checked.unknownNames_bind, Checked.unknownNames_pure, List.append_nil,
    Description.Action.references, List.flatMap_append]
  exact congrArg₂ (· ++ ·) (unknownNames_condition hvisible action.pre)
    (congrArg₂ (· ++ ·) (unknownNames_condition hvisible action.post)
      (congrArg₂ (· ++ ·) (unknownNames_orderTemplate hvisible action.order) hbindings))

theorem unknownNames_resolveGoal (goal : Description.Goal) :
    ((description.scope vocabulary).resolveGoal goal).unknownNames =
      goal.references.flatMap (Reference.reported description vocabulary) := by
  have hvisible : (Place.goal goal.name).isHidden description = false := rfl
  rw [resolveGoal, Checked.unknownNames_bind_pure]
  exact unknownNames_condition hvisible goal.condition

theorem unknownNames_resolveMethod (task : String) (method : Description.Method) :
    ((description.scope vocabulary).resolveMethod task method).unknownNames =
      (method.references task).flatMap (Reference.reported description vocabulary) := by
  have hvisible : (Place.method task method.name).isHidden description = false := rfl
  have hsubtasks : (Checked.filterEach method.subtasks ((description.scope vocabulary).subtask
      (Place.method task method.name).context)).unknownNames =
        (method.subtasks.map (Description.Subtask.reference (.method task method.name))).flatMap
          (Reference.reported description vocabulary) := by
    rw [Checked.unknownNames_filterEach, List.flatMap_map]
    simp only [unknownNames_subtask hvisible]
  simp only [resolveMethod, Checked.unknownNames_bind, Checked.unknownNames_pure, List.append_nil,
    Description.Method.references, List.flatMap_append]
  exact congrArg₂ (· ++ ·) (unknownNames_condition hvisible method.condition) hsubtasks

theorem unknownNames_resolveTask (task : Description.Task) :
    ((description.scope vocabulary).resolveTask task).unknownNames =
      task.references.flatMap (Reference.reported description vocabulary) := by
  rw [resolveTask, Checked.unknownNames_bind_pure, Checked.unknownNames_each,
    Description.Task.references, List.flatMap_assoc]
  simp only [unknownNames_resolveMethod]

theorem unknownNames_goalRoot (goal : Description.Goal) (id : GoalId) :
    ((description.scope vocabulary).goalRoot goal id).unknownNames =
      goal.rootReferences.flatMap (Reference.reported description vocabulary) := by
  have hvisible : (Place.root goal.name).isHidden description = false := rfl
  rw [goalRoot, Description.Goal.rootReferences]
  cases goal.root with
  | none => rfl
  | some task =>
    dsimp only
    rw [Checked.unknownNames_bind_pure]
    exact (unknownNames_task hvisible).trans (List.append_nil _).symm

/-- The factors in the score of a goal are looked at exactly if the goal is declared. -/
theorem unknownNames_goalOption (option : Description.GoalOption) (i : Nat) :
    ((description.scope vocabulary).goalOption description.goals option i).unknownNames =
      (option.references i).flatMap (Reference.reported description vocabulary) := by
  have hvisible : (Place.option i option.goal).isHidden description = false := rfl
  rw [goalOption, Description.GoalOption.references, List.flatMap_cons]
  dsimp only
  rw [Checked.unknownNames_bind]
  refine congrArg₂ (· ++ ·) (unknownNames_goal hvisible) ?_
  rw [List.flatMap_map]
  split
  next hnone =>
    -- Nothing is reported of the factors, which are hidden behind the unknown goal.
    have hhidden : (Place.factor i option.goal).isHidden description = true :=
      decide_eq_true (List.idxOf?_eq_none_iff.1 hnone)
    refine (List.flatMap_eq_nil_iff.2 fun consideration _ => ?_).symm
    have hplace : (consideration.reference (.factor i option.goal)).place =
        .factor i option.goal := by cases consideration <;> rfl
    rw [Reference.reported, hplace, hhidden, Bool.or_true, if_pos rfl]
  next id hid =>
    -- The factors are looked at, whether or not a root is missing.
    have hdeclared : option.goal ∈ description.goals.map (·.name) :=
      List.isSome_idxOf?.1 (Option.isSome_iff_exists.2 ⟨id, hid⟩)
    have hvisible : (Place.factor i option.goal).isHidden description = false :=
      decide_eq_false (not_not_intro hdeclared)
    have hconsiderations : (Checked.filterEach option.considerations
        ((description.scope vocabulary).consideration
          (Place.factor i option.goal).context)).unknownNames =
        option.considerations.flatMap fun consideration =>
          Reference.reported description vocabulary
            (consideration.reference (.factor i option.goal)) := by
      rw [Checked.unknownNames_filterEach]
      simp only [unknownNames_consideration hvisible]
    split
    · -- A missing root is no unknown name.
      rw [Checked.unknownNames_bind, Checked.unknownNames_bind_pure]
      exact hconsiderations
    · rw [Checked.unknownNames_bind_pure]
      exact hconsiderations

/-! ## Parts of a description -/

theorem unknownNames_reportRepeated (kind : String) (names : List String) :
    (reportRepeated kind names).unknownNames = [] :=
  Checked.unknownNames_eq_nil fun problem hproblem => by
    obtain ⟨name, -, rfl⟩ := List.mem_map.1 hproblem
    rfl

/-- Whatever is wrong with resolved tasks, it is no unknown name. -/
theorem isUnknownName_of_ofTasks {tasks : List Task} {actionCount : Nat} {batch : Diagnostics}
    (h : TaskNetwork.ofTasks tasks actionCount = .error batch) :
    ∀ problem ∈ batch.toList, problem.isUnknownName = false := by
  intro problem hproblem
  rw [← Diagnostics.toList_of_guard h] at hproblem
  obtain ⟨task, -, htask⟩ := List.mem_flatMap.1 hproblem
  rcases List.mem_append.1 htask with hempty | hmethods
  · split at hempty
    · rw [List.mem_singleton.1 hempty]
      rfl
    · cases hempty
  · obtain ⟨method, -, hmethod⟩ := List.mem_flatMap.1 hmethods
    obtain ⟨subtask, -, hsubtask⟩ := List.mem_filterMap.1 hmethod
    cases subtask <;>
    · rw [Subtask.problem?] at hsubtask
      split at hsubtask <;> cases hsubtask
      rfl

theorem isUnknownName_of_rootTable {entries : List (GoalId × TaskId)} {network : TaskNetwork}
    {batch : Diagnostics} (h : RootTable.ofList entries network = .error batch) :
    ∀ problem ∈ batch.toList, problem.isUnknownName = false := by
  intro problem hproblem
  rw [← Diagnostics.toList_of_guard h] at hproblem
  obtain ⟨⟨goal, task⟩, -, hroot⟩ := List.mem_filterMap.1 hproblem
  simp only [RootTable.problem?] at hroot
  split at hroot <;> cases hroot
  rfl

theorem unknownNames_projection :
    ((description.scope vocabulary).projection description.projections).unknownNames =
      (description.projections.zipIdx.flatMap fun (rule, i) => rule.references i).flatMap
        (Reference.reported description vocabulary) := by
  rw [projection, Checked.unknownNames_bind_pure, Checked.unknownNames_filterEach,
    List.flatMap_assoc]
  simp only [unknownNames_projectionRule]

theorem unknownNames_actionLibrary :
    ((description.scope vocabulary).actionLibrary description.actions).unknownNames =
      (description.actions.flatMap (·.references)).flatMap
        (Reference.reported description vocabulary) := by
  rw [actionLibrary, Checked.unknownNames_bind, Checked.unknownNames_bind_pure,
    Checked.unknownNames_each, unknownNames_reportRepeated, List.flatMap_assoc, List.nil_append]
  simp only [unknownNames_resolveAction]

theorem unknownNames_goalTable :
    ((description.scope vocabulary).goalTable description.goals).unknownNames =
      (description.goals.flatMap (·.references)).flatMap
        (Reference.reported description vocabulary) := by
  rw [goalTable, Checked.unknownNames_bind, Checked.unknownNames_bind_pure,
    Checked.unknownNames_each, unknownNames_reportRepeated, List.flatMap_assoc, List.nil_append]
  simp only [unknownNames_resolveGoal]

theorem unknownNames_taskNetwork :
    ((description.scope vocabulary).taskNetwork description.tasks).unknownNames =
      (description.tasks.flatMap (·.references)).flatMap
        (Reference.reported description vocabulary) := by
  rw [taskNetwork, Checked.unknownNames_bind, Checked.unknownNames_bind,
    Checked.unknownNames_each, unknownNames_reportRepeated, List.flatMap_assoc, List.nil_append]
  simp only [unknownNames_resolveTask]
  refine (congrArg (_ ++ ·) ?_).trans (List.append_nil _)
  split
  next => rfl
  next batch hbatch => exact Checked.unknownNames_eq_nil (isUnknownName_of_ofTasks hbatch)

theorem unknownNames_rootTable (network : Option TaskNetwork) :
    ((description.scope vocabulary).rootTable network description.goals).unknownNames =
      (description.goals.flatMap (·.rootReferences)).flatMap
        (Reference.reported description vocabulary) := by
  rw [rootTable, Checked.unknownNames_bind,
    Checked.unknownNames_filterEach_zipIdx unknownNames_goalRoot, List.flatMap_assoc]
  refine (congrArg (_ ++ ·) ?_).trans (List.append_nil _)
  split
  next => rfl
  next =>
    split
    next => rfl
    next batch hbatch => exact Checked.unknownNames_eq_nil (isUnknownName_of_rootTable hbatch)

theorem unknownNames_goalSelector :
    ((description.scope vocabulary).goalSelector description).unknownNames =
      (description.options.zipIdx.flatMap fun (option, i) => option.references i).flatMap
        (Reference.reported description vocabulary) := by
  rw [goalSelector, Checked.unknownNames_bind_pure, Checked.unknownNames_filterEach,
    List.flatMap_assoc]
  simp only [unknownNames_goalOption]

end Scope

end Lookup

namespace Domain

variable (description : Description) (vocabulary : Vocabulary)

/-- The diagnostics with which a description is refused; none if it is accepted. -/
def diagnostics : List Diagnostic :=
  match ofDescription description vocabulary with
  | .ok _ => []
  | .error batch => batch.toList

theorem diagnostics_eq :
    diagnostics description vocabulary = (resolve description vocabulary).problems := by
  rw [diagnostics, ofDescription, Checked.toExcept]
  cases hproblems : (resolve description vocabulary).problems <;> rfl

theorem unknownNames_resolve : (resolve description vocabulary).unknownNames =
    description.references.flatMap (Reference.reported description vocabulary) := by
  have hatoms := (declares_foldlM .empty description.atoms).unknownNames
  simp only [resolve, Checked.unknownNames_bind, Checked.unknownNames_pure, List.append_nil,
    Description.references, List.flatMap_append]
  rw [declareAtoms, hatoms, List.nil_append]
  exact congrArg₂ (· ++ ·) Scope.unknownNames_projection <|
    congrArg₂ (· ++ ·) Scope.unknownNames_actionLibrary <|
    congrArg₂ (· ++ ·) Scope.unknownNames_goalTable <|
    congrArg₂ (· ++ ·) Scope.unknownNames_taskNetwork <|
    congrArg₂ (· ++ ·) (Scope.unknownNames_rootTable _) Scope.unknownNames_goalSelector

theorem filter_map_eq_flatMap (refs : List Reference) :
    (refs.filter fun r =>
        !(r.resolves description vocabulary || r.place.isHidden description)).map
          Reference.diagnostic =
      refs.flatMap (Reference.reported description vocabulary) := by
  induction refs with
  | nil => rfl
  | cons r rest ih =>
    rw [List.flatMap_cons, Reference.reported, ← ih, List.filter_cons]
    cases r.resolves description vocabulary || r.place.isHidden description <;> rfl

/-- A description is refused with one diagnostic for each reference that does not resolve, with
the name and the context of that reference and in the order of the references. The exceptions are
references made by the factors of a goal that is not declared, which are not reported as long as
the goal is unknown. A declared atom for which there is no room resolves; its declaration is
reported. -/
theorem unknownNames_diagnostics :
    (diagnostics description vocabulary).filter (·.isUnknownName) =
      (description.references.filter fun r =>
        !(r.resolves description vocabulary || r.place.isHidden description)).map
          Reference.diagnostic ∧
    ∀ name ∈ description.atoms,
      (declareAtoms description.atoms).value.get? name = none →
        .registryFull ⟨name, 256⟩ ∈ diagnostics description vocabulary := by
  rw [diagnostics_eq, filter_map_eq_flatMap]
  refine ⟨unknownNames_resolve description vocabulary, fun name hname hnone => ?_⟩
  have hdeclares := declares_foldlM .empty description.atoms
  have hfull := (hdeclares.registered_or_full name hname).resolve_left
    (AtomRegistry.get?_eq_none_iff.1 hnone)
  -- The problems of the atoms come first.
  exact List.mem_append_left _ hfull

/-- A goal to choose from that is not declared, and whose score depends on an atom that is not
declared either. -/
def haunted : Description :=
  { options := [{ goal := "nobody", considerations := [.atom "ghost" 1 0] }] }

/-- The reference to the atom. -/
def ghost : Reference := ⟨.atom, "ghost", .factor 0 "nobody"⟩

/-- Only the goal is reported. The atom is reported after the goal has been declared. -/
theorem ghost_not_reported :
    ghost ∈ haunted.references ∧ ghost.resolves haunted {} = false ∧
    diagnostics haunted {} = [.unknownGoal ghost.place.context "nobody"] ∧
    ghost.diagnostic ∉ diagnostics haunted {} ∧
    ghost.diagnostic ∈ diagnostics { haunted with goals := [{ name := "nobody" }] } {} := by
  decide +kernel

end Domain

end AgentPlanning
