import AgentPlanning.Proofs.Action.Tables
import AgentPlanning.Proofs.Domain.Acceptance
import AgentPlanning.Proofs.Domain.Meaning
import AgentPlanning.Proofs.Domain.Yields
import AgentPlanning.Proofs.Utility.Tables

/-!
# Resolution Represents the Description

If a part of a description is resolved without problems, then what it is resolved to represents it.
Main statements:

* `Scope.yields_condition`, `Scope.yields_effect`: facts become a condition that requires, or an
  effect that writes, exactly these facts;
* `Scope.yields_actionLibrary`, `Scope.yields_taskNetwork`, `Scope.yields_rootTable`: the tables;
* `Domain.representedBy_of_ofDescription`: a domain represents the description that it is made from.
-/

namespace AgentPlanning

namespace Scope

open Checked

variable {scope : Scope} {description : Description} {vocabulary : Vocabulary}
  {context name : String}

section Parts

variable (hfits : scope.Fits description vocabulary)

include hfits

/-! ## Names -/

theorem yields_atom : (scope.atom context name).Yields fun y =>
    ∃ atom ∈ y, description.atomName? atom = some name := by
  intro hproblems
  obtain ⟨atom, hatom⟩ := Option.isSome_iff_exists.1
    ((isSome_value_atom hfits).2 ((problems_atom hfits).1 hproblems))
  exact ⟨atom, hatom, (value_atom hfits context).1 hatom⟩

theorem yields_tag : (scope.tag context name).Yields fun y =>
    ∃ tag ∈ y, vocabulary.tags.get? name = some tag := by
  rw [tag, hfits.vocabulary]
  exact yields_found (fun _ hfound => hfound) _

theorem yields_intKey : (scope.intKey context name).Yields fun y =>
    ∃ key ∈ y, vocabulary.intKeys.get? name = some key := by
  rw [intKey, hfits.vocabulary]
  exact yields_found (fun _ hfound => hfound) _

theorem yields_entityKey : (scope.entityKey context name).Yields fun y =>
    ∃ key ∈ y, vocabulary.entityKeys.get? name = some key := by
  rw [entityKey, hfits.vocabulary]
  exact yields_found (fun _ hfound => hfound) _

theorem yields_action (hnodup : (description.actions.map (·.name)).Nodup) :
    (scope.action context name).Yields fun y =>
      ∃ action ∈ y, description.actionName? action = some name :=
  yields_found (fun _ hfound => (value_action hfits hnodup context).1 hfound) _

theorem yields_task (hnodup : (description.tasks.map (·.name)).Nodup) :
    (scope.task context name).Yields fun y =>
      ∃ task ∈ y, description.taskName? task = some name :=
  yields_found (fun _ hfound => (value_task hfits hnodup context).1 hfound) _

theorem yields_goal (hnodup : (description.goals.map (·.name)).Nodup) :
    (scope.goal context name).Yields fun y =>
      ∃ goal ∈ y, description.goalName? goal = some name :=
  yields_found (fun _ hfound => (value_goal hfits hnodup context).1 hfound) _

/-! ## Conditions and effects -/

theorem yields_condition {facts : List Description.Fact} :
    (scope.condition context facts).Yields (Description.Fact.RequiredBy description facts) := by
  intro hproblems state
  have hget := get?_condition hfits hproblems
  have hdeclared := ((problems_condition hfits).1 hproblems).declared
  rw [WorldState.satisfies_iff]
  constructor
  · intro hstate fact hfact
    obtain ⟨atom, -, hunique⟩ := exists_value_atom hfits context (hdeclared fact hfact)
    have hname := (hunique atom).2 rfl
    exact ⟨atom, hname, hstate atom fact.value ((hget atom fact.value).2 ⟨fact, hfact, hname, rfl⟩)⟩
  · intro hfacts atom value hrequired
    obtain ⟨fact, hfact, hname, rfl⟩ := (hget atom value).1 hrequired
    obtain ⟨other, hother, hvalue⟩ := hfacts fact hfact
    -- Both atoms have the name of the fact.
    obtain ⟨_, -, hunique⟩ := exists_value_atom hfits context (hdeclared fact hfact)
    rwa [(hunique atom).1 hname, ← (hunique other).1 hother]

theorem yields_effect {facts : List Description.Fact} :
    (scope.condition context facts).Yields (Description.Fact.WrittenBy description facts) := by
  intro hproblems
  have hget := get?_condition hfits hproblems
  have hdeclared := ((problems_condition hfits).1 hproblems).declared
  constructor
  · intro fact hfact
    obtain ⟨atom, -, hunique⟩ := exists_value_atom hfits context (hdeclared fact hfact)
    have hname := (hunique atom).2 rfl
    refine ⟨atom, hname, fun state => ?_⟩
    rw [WorldState.get_apply, (hget atom fact.value).2 ⟨fact, hfact, hname, rfl⟩, Option.getD_some]
  · intro atom hother state
    have hnone : (scope.condition context facts).value.get? atom = none := by
      refine Option.eq_none_iff_forall_ne_some.2 fun value hvalue => ?_
      obtain ⟨fact, hfact, hname, -⟩ := (hget atom value).1 hvalue
      exact hother fact hfact hname
    rw [WorldState.get_apply, hnone, Option.getD_none]

/-! ## The projection -/

theorem yields_projectionTest {test : Description.Test} :
    (scope.projectionTest context test).Yields fun y =>
      ∃ found ∈ y, test.RepresentedBy vocabulary found := by
  cases test with
  | intEquals => exact (yields_intKey hfits).map fun _ hkey => .intEquals _ hkey
  | intAtLeast => exact (yields_intKey hfits).map fun _ hkey => .intAtLeast _ hkey
  | intAtMost => exact (yields_intKey hfits).map fun _ hkey => .intAtMost _ hkey
  | entityPresent => exact (yields_entityKey hfits).map fun _ hkey => .entityPresent hkey
  | entityAbsent => exact (yields_entityKey hfits).map fun _ hkey => .entityAbsent hkey

theorem yields_projectionRule (rule : Description.Projection) (i : Nat) :
    (scope.projectionRule rule i).Yields fun y =>
      ∃ found ∈ y, rule.RepresentedBy description vocabulary found := by
  refine (yields_atom hfits).bind ?_
  rintro _ ⟨atom, rfl, hatom⟩
  refine (yields_projectionTest hfits).bind ?_
  rintro _ ⟨test, rfl, htest⟩
  exact yields_pure ⟨⟨atom, test⟩, rfl, hatom, htest⟩

theorem yields_projection {rules : List Description.Projection} :
    (scope.projection rules).Yields fun projection =>
      List.Forall₂ (Description.Projection.RepresentedBy description vocabulary) rules
        projection.rules :=
  (yields_filterEach_zipIdx (yields_projectionRule hfits)).bind fun _ hrules => yields_pure hrules

/-! ## Actions -/

theorem yields_binding (binding : Description.Binding) :
    (scope.binding context binding).Yields fun y =>
      ∃ found ∈ y, binding.RepresentedBy vocabulary found := by
  cases binding with
  | intToArg name slot =>
    refine (yields_intKey hfits).bind ?_
    rintro _ ⟨key, rfl, hkey⟩
    by_cases hslot : slot < 4
    · rw [if_pos hslot]
      exact yields_pure ⟨_, rfl, .intToArg slot hkey⟩
    · rw [if_neg hslot]
      exact fun hproblems => absurd hproblems (List.cons_ne_nil _ _)
  | entityToTarget => exact (yields_entityKey hfits).map fun _ hkey => .entityToTarget hkey
  | entityToTargetContext =>
    exact (yields_entityKey hfits).map fun _ hkey => .entityToTargetContext hkey

theorem yields_orderTemplate {order : Option Description.Order} :
    (scope.orderTemplate context order).Yields
      (Description.Order.RepresentedBy vocabulary order) := by
  cases order with
  | none => exact yields_pure .absent
  | some order =>
    refine (yields_tag hfits).bind ?_
    rintro _ ⟨tag, rfl, htag⟩
    exact yields_pure (.present htag)

theorem yields_resolveAction (action : Description.Action) :
    (scope.resolveAction action).Yields (action.RepresentedBy description vocabulary) := by
  refine (yields_condition hfits).bind fun pre hpre => ?_
  refine (yields_effect hfits).bind fun post hpost => ?_
  refine (yields_orderTemplate hfits).bind fun order horder => ?_
  refine (yields_filterEach (yields_binding hfits)).bind fun bindings hbindings => ?_
  exact yields_pure ⟨rfl, hpre, hpost, rfl, rfl, horder, hbindings⟩

theorem yields_actionLibrary {actions : List Description.Action} :
    (scope.actionLibrary actions).Yields fun library => ∀ action : ActionId,
      Option.Rel (Description.Action.RepresentedBy description vocabulary) actions[action]?
        (library.get? action) := by
  refine (yields_true _).bind fun _ _ => ?_
  refine (yields_each (yields_resolveAction hfits)).bind fun resolved hresolved => ?_
  refine yields_pure fun action => ?_
  rw [ActionLibrary.get?_ofList]
  exact rel_getElem? hresolved action

/-! ## Goals -/

theorem yields_resolveGoal (goal : Description.Goal) :
    (scope.resolveGoal goal).Yields (goal.RepresentedBy description) :=
  (yields_condition hfits).bind fun _ hcondition => yields_pure ⟨rfl, hcondition, rfl⟩

theorem yields_goalTable {goals : List Description.Goal} :
    (scope.goalTable goals).Yields fun table => ∀ goal : GoalId,
      Option.Rel (Description.Goal.RepresentedBy description) goals[goal]? table.goals[goal]? := by
  refine (yields_true _).bind fun _ _ => ?_
  refine (yields_each (yields_resolveGoal hfits)).bind fun resolved hresolved => ?_
  refine yields_pure fun goal => ?_
  rw [GoalTable.ofList, List.getElem?_toArray]
  exact rel_getElem? hresolved goal

/-! ## Tasks -/

theorem yields_subtask (hactions : (description.actions.map (·.name)).Nodup)
    (htasks : (description.tasks.map (·.name)).Nodup) (subtask : Description.Subtask) :
    (scope.subtask context subtask).Yields fun y =>
      ∃ found ∈ y, subtask.RepresentedBy description found := by
  cases subtask with
  | action => exact (yields_action hfits hactions).map fun _ hid => .action hid
  | task => exact (yields_task hfits htasks).map fun _ hid => .task hid

theorem yields_resolveMethod (hactions : (description.actions.map (·.name)).Nodup)
    (htasks : (description.tasks.map (·.name)).Nodup) (task : String)
    (method : Description.Method) :
    (scope.resolveMethod task method).Yields (method.RepresentedBy description) := by
  refine (yields_condition hfits).bind fun condition hcondition => ?_
  refine (yields_filterEach (yields_subtask hfits hactions htasks)).bind ?_
  intro subtasks hsubtasks
  exact yields_pure ⟨rfl, hcondition, rfl, hsubtasks⟩

theorem yields_resolveTask (hactions : (description.actions.map (·.name)).Nodup)
    (htasks : (description.tasks.map (·.name)).Nodup) (task : Description.Task) :
    (scope.resolveTask task).Yields fun found => found.name = task.name ∧
      List.Forall₂ (Description.Method.RepresentedBy description) task.methods found.methods :=
  (yields_each (yields_resolveMethod hfits hactions htasks task.name)).bind fun _ hmethods =>
    yields_pure ⟨rfl, hmethods⟩

omit hfits in
/-- The methods of a task are those of its row, since the tables hold the tasks. -/
theorem representedBy_of_holdsTask {network : TaskNetwork} {task : Description.Task}
    {found : AgentPlanning.Task} {row : TaskRow} (hname : found.name = task.name)
    (hmethods : List.Forall₂ (Description.Method.RepresentedBy description) task.methods
      found.methods) (h : network.HoldsTask found row) :
    task.RepresentedBy description network row := by
  refine ⟨h.name.trans hname, (forall₂_comp hmethods h.methods).imp ?_⟩
  rintro method id ⟨_, hmethod, methodRow, hrow⟩
  exact ⟨methodRow, hrow.found, hrow.methodOf_eq ▸ hmethod⟩

theorem yields_taskNetwork (hactions : (description.actions.map (·.name)).Nodup)
    (htasks : (description.tasks.map (·.name)).Nodup) {tasks : List Description.Task} :
    (scope.taskNetwork tasks).Yields fun y => ∃ network ∈ y, ∀ task : TaskId,
      Option.Rel (Description.Task.RepresentedBy description network) tasks[task]?
        (network.task? task) := by
  refine (yields_true _).bind fun _ _ => ?_
  refine (yields_each (yields_resolveTask hfits hactions htasks)).bind fun resolved hresolved => ?_
  rw [TaskNetwork.ofTasks]
  by_cases hproblems : resolved.flatMap (·.problems scope.actions.length resolved.length) = []
  · rw [Diagnostics.guard_of_nil hproblems]
    refine yields_pure ⟨.flatten resolved, rfl, fun task => ?_⟩
    have hheld := forall₂_comp hresolved (TaskNetwork.forall₂_flatten resolved)
    rw [TaskNetwork.task?, ← Array.getElem?_toList]
    refine rel_getElem? (hheld.imp ?_) task
    rintro source row ⟨found, ⟨hname, hmethods⟩, hrow⟩
    exact representedBy_of_holdsTask hname hmethods hrow
  · rw [Diagnostics.guard_of_ne_nil hproblems]
    exact fun hnone => absurd hnone hproblems

/-! ## Roots -/

omit hfits in
theorem value_goalRoot (goal : Description.Goal) (id : GoalId) :
    (scope.goalRoot goal id).value = (goal.root.bind scope.tasks.idxOf?).map (id, ·) := by
  rw [goalRoot]
  cases goal.root <;> rfl

theorem yields_rootTable (htasks : (description.tasks.map (·.name)).Nodup)
    {network : TaskNetwork} (hsize : network.size = scope.tasks.length)
    {goals : List Description.Goal} :
    (scope.rootTable (some network) goals).Yields fun table => ∀ goal : GoalId,
      Option.Rel (fun name task => description.taskName? task = some name)
        (goals[goal]?.bind (·.root)) (table.root? goal) := by
  intro hproblems id
  have hdeclared := (problems_rootTable hfits fun n hn => Option.some.inj hn ▸ hsize).1 hproblems
  have hvalue : (scope.rootTable (some network) goals).value.root? id =
      goals[id]?.bind fun goal => goal.root.bind scope.tasks.idxOf? := by
    -- The network accepts all roots that were found, so they are the entries of the table.
    have hok := ofList_goalRoots hsize goals
    simp only [value_goalRoot] at hok
    rw [← KeyMap.get?_ofList_zipIdx]
    simp only [rootTable, value_bind, Checked.filterEach, value_goalRoot, hok]
    rfl
  rw [hvalue]
  cases hgoal : goals[id]? with
  | none => exact .none
  | some goal =>
    rw [Option.bind_some, Option.bind_some]
    cases hroot : goal.root with
    | none => exact .none
    | some name =>
      have hmem := hdeclared goal (List.mem_of_getElem? hgoal) name hroot
      rw [← hfits.tasks, ← List.isSome_idxOf?] at hmem
      obtain ⟨task, htask⟩ := Option.isSome_iff_exists.1 hmem
      rw [Option.bind_some, htask]
      exact .some ((value_task hfits htasks "").1 htask)

/-! ## Goals to choose from -/

theorem yields_consideration (consideration : Description.Consideration) :
    (scope.consideration context consideration).Yields fun y =>
      ∃ found ∈ y, consideration.RepresentedBy description vocabulary found := by
  cases consideration with
  | atom => exact (yields_atom hfits).map fun _ hatom => .atom _ _ hatom
  | intRange => exact (yields_intKey hfits).map fun _ hkey => .intRange _ _ _ _ hkey

theorem yields_goalOption (hgoals : (description.goals.map (·.name)).Nodup)
    (option : Description.GoalOption) (i : Nat) :
    (scope.goalOption description.goals option i).Yields fun y =>
      ∃ found ∈ y, option.RepresentedBy description vocabulary found := by
  refine (yields_goal hfits hgoals).bind ?_
  rintro _ ⟨goal, rfl, hgoal⟩
  dsimp only
  split
  · exact fun hproblems => absurd hproblems (List.cons_ne_nil _ _)
  · refine (yields_filterEach (yields_consideration hfits)).bind fun found hfound => ?_
    exact yields_pure ⟨_, rfl, hgoal, rfl, rfl, hfound⟩

theorem yields_goalSelector (hgoals : (description.goals.map (·.name)).Nodup) :
    (scope.goalSelector description).Yields fun selector =>
      List.Forall₂ (Description.GoalOption.RepresentedBy description vocabulary)
        description.options selector.table.options ∧
        selector.threshold = description.threshold := by
  refine (yields_filterEach_zipIdx (yields_goalOption hfits hgoals)).bind fun goals hoptions => ?_
  refine yields_pure ⟨?_, rfl⟩
  rw [GoalSelector.options_ofList]
  exact hoptions

end Parts

end Scope

/-! ## The domain -/

/-- A name is found in a table at the position where the list of names has it. -/
theorem findIdx?_eq_some_iff {ρ : Type} {rows : Array ρ} {f : ρ → String} {names : List String}
    (hnodup : names.Nodup) (hrows : ∀ i : Nat, rows[i]?.map f = names[i]?) {name : String}
    {i : Nat} : rows.findIdx? (f · == name) = some i ↔ names[i]? = some name := by
  have hnames : rows.toList.map f = names :=
    List.ext_getElem? fun i => by rw [List.getElem?_map, Array.getElem?_toList, hrows i]
  rw [← idxOf?_eq_some_iff_of_nodup hnodup, ← hnames, List.idxOf?, List.findIdx?_map,
    ← List.findIdx?_toArray]
  rfl

namespace Domain

variable {description : Description} {vocabulary : Vocabulary} {domain : Domain}

/-- The domain of a description has everything that the description says, and nothing else. -/
theorem representedBy_of_ofDescription
    (h : ofDescription description vocabulary = .ok domain) :
    description.RepresentedBy vocabulary domain := by
  obtain ⟨hproblems, rfl⟩ := Checked.toExcept_eq_ok_iff.1 h
  have hwell := problems_resolve.1 hproblems
  simp only [resolve, Checked.problems_bind_eq_nil, Checked.problems_bind_pure] at hproblems
  obtain ⟨hatoms, hprojection, hactions, hgoals, htasks, hroots, hoptions⟩ := hproblems
  have hfits := Scope.fits_ofDescription vocabulary hatoms
  -- There is a network, against which the roots were checked.
  obtain ⟨network, hnetwork, hrows⟩ :=
    Scope.yields_taskNetwork hfits hwell.actions_nodup hwell.tasks_nodup htasks
  have hsize := Scope.size_taskNetwork hfits network hnetwork
  rw [hnetwork] at hroots
  have hlibrary := Scope.yields_actionLibrary hfits hactions
  have htable := Scope.yields_goalTable hfits hgoals
  obtain ⟨hoptions, hthreshold⟩ := Scope.yields_goalSelector hfits hwell.goals_nodup hoptions
  have hatomName (atom : AtomId) : (resolve description vocabulary).value.atoms.name? atom =
      description.atomName? atom := by
    rw [AtomRegistry.name?, ← Array.getElem?_toList]
    exact congrArg (·[atom.val]?) hfits.atoms
  have htasksEq : (resolve description vocabulary).value.tasks = network :=
    congrArg (fun n : Option TaskNetwork => n.getD {}) hnetwork
  have hrootsEq : (resolve description vocabulary).value.roots =
      (Scope.rootTable _ (some network) description.goals).value :=
    congrArg (fun n => (Scope.rootTable _ n description.goals).value) hnetwork
  exact
    { atoms := hatomName
      atom?_eq := fun name atom => by
        rw [← hatomName]
        exact AtomRegistry.get?_eq_some_iff
      action?_eq := fun name action => by
        rw [Description.actionName?, ← List.getElem?_map]
        refine findIdx?_eq_some_iff hwell.actions_nodup fun i => ?_
        rw [List.getElem?_map, ← ActionLibrary.map_name_get?]
        exact map_eq_of_rel (hlibrary i) fun _ _ h => h.name
      goal?_eq := fun name goal => by
        rw [Description.goalName?, ← List.getElem?_map]
        refine findIdx?_eq_some_iff hwell.goals_nodup fun i => ?_
        rw [List.getElem?_map]
        exact map_eq_of_rel (htable i) fun _ _ h => h.name
      task?_eq := fun name task => by
        rw [Description.taskName?, ← List.getElem?_map, task?, htasksEq]
        refine findIdx?_eq_some_iff hwell.tasks_nodup fun i => ?_
        rw [List.getElem?_map]
        exact map_eq_of_rel (hrows i) fun _ _ h => h.name
      projection := Scope.yields_projection hfits hprojection
      actions := hlibrary
      goals := htable
      roots := by
        rw [hrootsEq]
        exact Scope.yields_rootTable hfits hwell.tasks_nodup hsize hroots
      tasks := by
        rw [htasksEq]
        exact hrows
      options := hoptions
      threshold := hthreshold }

end Domain

/-- A camp where a fire can be made of wood, which may have to be gathered first. -/
def camp : Description where
  atoms := ["has wood", "is warm"]
  projections := [{ atom := "has wood", test := .intAtLeast "wood" 1 }]
  actions := [
    { name := "gather", pre := [⟨"has wood", false⟩], post := [⟨"has wood", true⟩], cost := 2
      order := some { tag := "work" }, bindings := [.intToArg "wood" 0, .entityToTarget "tree"] },
    { name := "light", pre := [⟨"has wood", true⟩]
      post := [⟨"has wood", false⟩, ⟨"is warm", true⟩] }]
  goals := [{ name := "warmth", condition := [⟨"is warm", true⟩], root := some "make fire" }]
  tasks := [{
    name := "make fire"
    methods := [
      { name := "at once", condition := [⟨"has wood", true⟩], subtasks := [.action "light"] },
      { name := "later", cost := 1, subtasks := [.action "gather", .task "make fire"] }] }]
  options := [{
    goal := "warmth", strategy := .decomposition
    considerations := [.atom "is warm" 0 1, .intRange "wood" 0 5 0.25 1] }]

/-- What the game knows of the camp. -/
def campVocabulary : Vocabulary := .ofLists [("work", 7)] [("wood", 3)] [("tree", 1)]

namespace Domain

theorem representedBy_camp :
    ofDescription camp campVocabulary = .ok (resolve camp campVocabulary).value ∧
      camp.RepresentedBy campVocabulary (resolve camp campVocabulary).value := by
  have hproblems : (resolve camp campVocabulary).problems = [] := by decide +kernel
  have hok := Checked.toExcept_eq_ok_iff.2 ⟨hproblems, rfl⟩
  exact ⟨hok, representedBy_of_ofDescription hok⟩

end Domain

end AgentPlanning
