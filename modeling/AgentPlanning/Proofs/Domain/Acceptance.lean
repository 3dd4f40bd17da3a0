import AgentPlanning.Domain.Resolution
import AgentPlanning.Proofs.Domain.Names
import AgentPlanning.Proofs.TaskNetwork.Tables

/-!
# Which Descriptions are Accepted

Each part of a description is resolved without problems exactly if it is well formed, and so is
the description as a whole. Main statements:

* `problems_projection`, `problems_actionLibrary`, `problems_goalTable`, `problems_taskNetwork`,
  `problems_rootTable`, `problems_goalSelector`: the parts of a description;
* `exists_ofDescription_iff`: a description is accepted if and only if it is well formed.
-/

namespace AgentPlanning

namespace Scope

variable {scope : Scope} {description : Description} {vocabulary : Vocabulary}
  {context : String}

section Parts

variable (hfits : scope.Fits description vocabulary)

include hfits

/-! ## Projections -/

theorem problems_projectionTest {test : Description.Test} :
    (scope.projectionTest context test).problems = [] ↔ test.WellFormed vocabulary := by
  cases test with
  | intEquals | intAtLeast | intAtMost =>
    rw [projectionTest, Checked.problems_bind_pure]
    exact problems_intKey hfits
  | entityPresent | entityAbsent =>
    rw [projectionTest, Checked.problems_bind_pure]
    exact problems_entityKey hfits

theorem problems_projectionRule (rule : Description.Projection) (i : Nat) :
    (scope.projectionRule rule i).problems = [] ↔ rule.WellFormed description vocabulary := by
  simp only [projectionRule, Checked.problems_bind_eq_nil, Checked.problems_bind_pure,
    problems_atom hfits, problems_projectionTest hfits]
  exact ⟨fun ⟨hatom, htest⟩ => ⟨hatom, htest⟩, fun ⟨hatom, htest⟩ => ⟨hatom, htest⟩⟩

theorem problems_projection {rules : List Description.Projection} :
    (scope.projection rules).problems = [] ↔
      ∀ rule ∈ rules, rule.WellFormed description vocabulary := by
  rw [projection, Checked.problems_bind_pure]
  exact Checked.problems_filterEach_zipIdx (problems_projectionRule hfits) rules

/-! ## Actions -/

theorem problems_binding {binding : Description.Binding} :
    (scope.binding context binding).problems = [] ↔ binding.WellFormed vocabulary := by
  cases binding with
  | intToArg key slot =>
    rw [Scope.binding, Checked.problems_bind_eq_nil, problems_intKey hfits]
    refine and_congr_right fun _ => ?_
    by_cases h : slot < 4 <;> simp [h]
  | entityToTarget | entityToTargetContext =>
    rw [Scope.binding, Checked.problems_bind_pure]
    exact problems_entityKey hfits

theorem problems_orderTemplate {order : Option Description.Order} :
    (scope.orderTemplate context order).problems = [] ↔
      ∀ o ∈ order, vocabulary.tags.contains o.tag = true := by
  cases order with
  | none => simp [orderTemplate]
  | some order =>
    rw [orderTemplate, Checked.problems_bind_pure, problems_tag hfits]
    simp

theorem problems_resolveAction {action : Description.Action} :
    (scope.resolveAction action).problems = [] ↔ action.WellFormed description vocabulary := by
  simp only [resolveAction, Checked.problems_bind_eq_nil, Checked.problems_bind_pure,
    Checked.problems_filterEach, problems_condition hfits, problems_orderTemplate hfits,
    problems_binding hfits]
  constructor
  · rintro ⟨hpre, hpost, horder, hbindings⟩
    exact ⟨hpre, hpost, horder, hbindings⟩
  · rintro ⟨hpre, hpost, horder, hbindings⟩
    exact ⟨hpre, hpost, horder, hbindings⟩

theorem problems_actionLibrary {actions : List Description.Action} :
    (scope.actionLibrary actions).problems = [] ↔
      (actions.map (·.name)).Nodup ∧
        ∀ action ∈ actions, action.WellFormed description vocabulary := by
  simp only [actionLibrary, Checked.problems_bind_eq_nil, Checked.problems_bind_pure,
    problems_reportRepeated, Checked.problems_each, problems_resolveAction hfits]

/-! ## Goals -/

theorem problems_goalTable {goals : List Description.Goal} :
    (scope.goalTable goals).problems = [] ↔
      (goals.map (·.name)).Nodup ∧
        ∀ goal ∈ goals, Description.Fact.Consistent description goal.condition := by
  simp only [goalTable, resolveGoal, Checked.problems_bind_eq_nil, Checked.problems_bind_pure,
    problems_reportRepeated, Checked.problems_each, problems_condition hfits]

theorem problems_goalRoot (goal : Description.Goal) (id : GoalId) :
    (scope.goalRoot goal id).problems = [] ↔
      ∀ task ∈ goal.root, task ∈ description.tasks.map (·.name) := by
  rw [goalRoot]
  cases goal.root with
  | none => simp
  | some task =>
    dsimp only
    rw [Checked.problems_bind_pure, problems_task hfits]
    simp

/-! ## Tasks -/

theorem problems_subtask {subtask : Description.Subtask} :
    (scope.subtask context subtask).problems = [] ↔ subtask.WellFormed description := by
  cases subtask with
  | action =>
    rw [Scope.subtask, Checked.problems_bind_pure]
    exact problems_action hfits
  | task =>
    rw [Scope.subtask, Checked.problems_bind_pure]
    exact problems_task hfits

theorem problems_resolveMethod {task : String} {method : Description.Method} :
    (scope.resolveMethod task method).problems = [] ↔ method.WellFormed description := by
  simp only [resolveMethod, Checked.problems_bind_eq_nil, Checked.problems_bind_pure,
    Checked.problems_filterEach, problems_condition hfits, problems_subtask hfits]
  constructor
  · rintro ⟨hcondition, hsubtasks⟩
    exact ⟨hcondition, hsubtasks⟩
  · rintro ⟨hcondition, hsubtasks⟩
    exact ⟨hcondition, hsubtasks⟩

theorem problems_resolveTask {task : Description.Task} :
    (scope.resolveTask task).problems = [] ↔
      ∀ method ∈ task.methods, method.WellFormed description := by
  simp only [resolveTask, Checked.problems_bind_pure, Checked.problems_each,
    problems_resolveMethod hfits]

omit hfits in
/-- A name that was found stands for an action or a task that exists. -/
theorem problem?_of_value_subtask {subtask : Description.Subtask} {found : Subtask}
    (h : (scope.subtask context subtask).value = some found) (place : String) :
    found.problem? place scope.actions.length scope.tasks.length = none := by
  cases subtask with
  | action name =>
    obtain ⟨id, hid, rfl⟩ := Option.map_eq_some_iff.1 h
    obtain ⟨hlt, -⟩ := List.idxOf?_eq_some_iff.1 hid
    exact if_pos hlt
  | task name =>
    obtain ⟨id, hid, rfl⟩ := Option.map_eq_some_iff.1 h
    obtain ⟨hlt, -⟩ := List.idxOf?_eq_some_iff.1 hid
    exact if_pos hlt

omit hfits in
/-- All that can be wrong with a resolved task is that it has no method. -/
theorem problems_value_resolveTask {task : Description.Task} :
    (scope.resolveTask task).value.problems scope.actions.length scope.tasks.length = [] ↔
      task.methods ≠ [] := by
  have hmethods : (scope.resolveTask task).value.methods.flatMap
      (·.problems (scope.resolveTask task).value.name scope.actions.length
        scope.tasks.length) = [] := by
    refine List.flatMap_eq_nil_iff.2 fun method hmethod => ?_
    obtain ⟨source, -, rfl⟩ := List.mem_map.1 hmethod
    refine List.filterMap_eq_nil_iff.2 fun found hfound => ?_
    obtain ⟨subtask, -, hsubtask⟩ := List.mem_filterMap.1 hfound
    exact problem?_of_value_subtask hsubtask _
  have hempty : (scope.resolveTask task).value.methods.isEmpty = task.methods.isEmpty :=
    List.isEmpty_map
  rw [Task.problems, List.append_eq_nil_iff, and_iff_left hmethods, hempty]
  cases task.methods <;> simp

/-- All that can be wrong with resolved tasks is that one of them has no method. -/
theorem problems_value_resolveTasks :
    (description.tasks.map fun task => (scope.resolveTask task).value).flatMap
        (·.problems scope.actions.length
          (description.tasks.map fun task => (scope.resolveTask task).value).length) = [] ↔
      ∀ task ∈ description.tasks, task.methods ≠ [] := by
  have hlength : (description.tasks.map fun task => (scope.resolveTask task).value).length =
      scope.tasks.length := by
    rw [hfits.tasks, List.length_map, List.length_map]
  rw [hlength, List.flatMap_eq_nil_iff, List.forall_mem_map]
  exact forall₂_congr fun task _ => problems_value_resolveTask

theorem problems_taskNetwork :
    (scope.taskNetwork description.tasks).problems = [] ↔
      (description.tasks.map (·.name)).Nodup ∧
        ∀ task ∈ description.tasks, task.WellFormed description := by
  have hresolved := problems_value_resolveTasks hfits
  simp only [taskNetwork, Checked.problems_bind_eq_nil, problems_reportRepeated,
    Checked.problems_each, problems_resolveTask hfits, Checked.value_each, TaskNetwork.ofTasks]
  refine and_congr_right fun _ => ?_
  by_cases h : ∀ task ∈ description.tasks, task.methods ≠ []
  · rw [Diagnostics.guard_of_nil (hresolved.2 h)]
    simp only [Checked.problems_pure, and_true]
    exact ⟨fun hmethods task htask => ⟨h task htask, hmethods task htask⟩,
      fun htasks task htask => (htasks task htask).methods⟩
  · rw [Diagnostics.guard_of_ne_nil (mt hresolved.1 h)]
    exact iff_of_false (fun ⟨_, hbatch⟩ => h (hresolved.1 hbatch))
      fun htasks => h fun task htask => (htasks task htask).nonempty

omit hfits in
/-- A network that is built holds all tasks. -/
theorem value_taskNetwork {tasks : List Description.Task} {network : TaskNetwork}
    (h : (scope.taskNetwork tasks).value = some network) :
    network = .flatten (tasks.map fun task => (scope.resolveTask task).value) := by
  simp only [taskNetwork, Checked.value_bind, Checked.value_each, TaskNetwork.ofTasks] at h
  by_cases hproblems : (tasks.map fun task => (scope.resolveTask task).value).flatMap
      (·.problems scope.actions.length
        (tasks.map fun task => (scope.resolveTask task).value).length) = []
  · rw [Diagnostics.guard_of_nil hproblems] at h
    exact (Option.some.inj h).symm
  · rw [Diagnostics.guard_of_ne_nil hproblems] at h
    contradiction

theorem size_taskNetwork : ∀ network ∈ (scope.taskNetwork description.tasks).value,
    network.size = scope.tasks.length := by
  intro network hnetwork
  rw [value_taskNetwork hnetwork, TaskNetwork.size_flatten, hfits.tasks, List.length_map,
    List.length_map]

omit hfits in
/-- The root of a goal is a task that exists. -/
theorem problem?_of_value_goalRoot {goal : Description.Goal} {id : GoalId}
    {root : GoalId × TaskId} {network : TaskNetwork} (hsize : network.size = scope.tasks.length)
    (h : (scope.goalRoot goal id).value = some root) :
    RootTable.problem? network root.1 root.2 = none := by
  rw [goalRoot] at h
  split at h
  · contradiction
  · obtain ⟨task, htask, rfl⟩ := Option.map_eq_some_iff.1 h
    obtain ⟨hlt, -⟩ := List.idxOf?_eq_some_iff.1 htask
    exact if_pos (hsize ▸ hlt)

omit hfits in
/-- The network has no objection to roots that were found. -/
theorem ofList_goalRoots {network : TaskNetwork} (hsize : network.size = scope.tasks.length)
    (goals : List Description.Goal) :
    RootTable.ofList (goals.zipIdx.filterMap fun (goal, id) => (scope.goalRoot goal id).value)
      network = .ok ⟨.ofList (goals.zipIdx.filterMap fun (goal, id) =>
        (scope.goalRoot goal id).value)⟩ := by
  refine Diagnostics.guard_of_nil (List.filterMap_eq_nil_iff.2 fun root hroot => ?_) _
  obtain ⟨⟨goal, id⟩, -, hvalue⟩ := List.mem_filterMap.1 hroot
  exact problem?_of_value_goalRoot hsize hvalue

theorem problems_rootTable {network : Option TaskNetwork}
    (hsize : ∀ n ∈ network, n.size = scope.tasks.length) {goals : List Description.Goal} :
    (scope.rootTable network goals).problems = [] ↔
      ∀ goal ∈ goals, ∀ task ∈ goal.root, task ∈ description.tasks.map (·.name) := by
  rw [rootTable, Checked.problems_bind_eq_nil,
    Checked.problems_filterEach_zipIdx (problems_goalRoot hfits)]
  refine and_iff_left ?_
  cases network with
  | none => rfl
  | some network =>
    have hok := ofList_goalRoots (hsize network rfl) goals
    dsimp only [Checked.filterEach]
    rw [hok]
    rfl

theorem problems_consideration {consideration : Description.Consideration} :
    (scope.consideration context consideration).problems = [] ↔
      consideration.WellFormed description vocabulary := by
  cases consideration with
  | atom =>
    rw [Scope.consideration, Checked.problems_bind_pure]
    exact problems_atom hfits
  | intRange =>
    rw [Scope.consideration, Checked.problems_bind_pure]
    exact problems_intKey hfits

omit hfits in
/-- Goals have different names, so only one goal can be meant. -/
theorem wellFormed_goalOption_iff (hnodup : (description.goals.map (·.name)).Nodup)
    {option : Description.GoalOption} {goal : Description.Goal} (hmem : goal ∈ description.goals)
    (hname : goal.name = option.goal) :
    option.WellFormed description vocabulary ↔
      (option.strategy = .decomposition → goal.root.isSome = true) ∧
        ∀ consideration ∈ option.considerations,
          consideration.WellFormed description vocabulary := by
  constructor
  · intro h
    obtain ⟨other, hother, heq, hroot⟩ := h.goal
    obtain rfl := List.inj_on_of_nodup_map hnodup hother hmem (heq.trans hname.symm)
    exact ⟨hroot, h.considerations⟩
  · rintro ⟨hroot, hconsiderations⟩
    exact ⟨⟨goal, hmem, hname, hroot⟩, hconsiderations⟩

theorem problems_goalOption (hnodup : (description.goals.map (·.name)).Nodup)
    (option : Description.GoalOption) (i : Nat) :
    (scope.goalOption description.goals option i).problems = [] ↔
      option.WellFormed description vocabulary := by
  rw [goalOption]
  dsimp only
  rw [Checked.problems_bind_eq_nil, problems_goal hfits]
  split
  next hnone =>
    have hunknown : option.goal ∉ description.goals.map (·.name) := by
      rw [goal, Checked.value_found, hfits.goals] at hnone
      exact List.idxOf?_eq_none_iff.1 hnone
    refine iff_of_false (fun h => hunknown h.1) fun h => ?_
    obtain ⟨goal, hgoal, hname, -⟩ := h.goal
    exact hunknown (List.mem_map.2 ⟨goal, hgoal, hname⟩)
  next id hid =>
    obtain ⟨goal, hgoal, hname⟩ := Option.map_eq_some_iff.1 ((value_goal hfits hnodup _).1 hid)
    have hmem : goal ∈ description.goals := List.mem_of_getElem? hgoal
    have hknown : option.goal ∈ description.goals.map (·.name) :=
      List.mem_map.2 ⟨goal, hmem, hname⟩
    rw [and_iff_right hknown, wellFormed_goalOption_iff hnodup hmem hname, hgoal, Option.any_some]
    have hmissing : (option.strategy = .decomposition ∧ (!goal.root.isSome) = true) ↔
        ¬(option.strategy = .decomposition → goal.root.isSome = true) := by
      rw [Classical.not_imp, Bool.not_eq_true', Bool.not_eq_true]
    by_cases hroot : option.strategy = .decomposition → goal.root.isSome = true
    · rw [if_neg (mt hmissing.1 (not_not_intro hroot)), Checked.problems_bind_pure,
        Checked.problems_filterEach, and_iff_right hroot]
      simp only [problems_consideration hfits]
    · rw [if_pos (hmissing.2 hroot)]
      exact iff_of_false (List.cons_ne_nil _ _) fun h => hroot h.1

theorem problems_goalSelector (hnodup : (description.goals.map (·.name)).Nodup) :
    (scope.goalSelector description).problems = [] ↔
      ∀ option ∈ description.options, option.WellFormed description vocabulary := by
  rw [goalSelector, Checked.problems_bind_pure]
  exact Checked.problems_filterEach_zipIdx (problems_goalOption hfits hnodup) description.options

end Parts

end Scope

namespace Domain

variable {description : Description} {vocabulary : Vocabulary}

/-- A description is resolved without problems exactly if it is well formed. -/
theorem problems_resolve :
    (resolve description vocabulary).problems = [] ↔ description.WellFormed vocabulary := by
  simp only [resolve, Checked.problems_bind_eq_nil, Checked.problems_bind_pure]
  constructor
  · rintro ⟨hatoms, hprojections, hactions, hgoals, htasks, hroots, hoptions⟩
    have hfits := Scope.fits_ofDescription vocabulary hatoms
    obtain ⟨hatomsNodup, hatomsFit⟩ := problems_declareAtoms.1 hatoms
    obtain ⟨hactionsNodup, hactions⟩ := (Scope.problems_actionLibrary hfits).1 hactions
    obtain ⟨hgoalsNodup, hconditions⟩ := (Scope.problems_goalTable hfits).1 hgoals
    obtain ⟨htasksNodup, htasks⟩ := (Scope.problems_taskNetwork hfits).1 htasks
    have hroots := (Scope.problems_rootTable hfits (Scope.size_taskNetwork hfits)).1 hroots
    exact
      { atoms_nodup := hatomsNodup
        atoms_fit := hatomsFit
        actions_nodup := hactionsNodup
        goals_nodup := hgoalsNodup
        tasks_nodup := htasksNodup
        projections := (Scope.problems_projection hfits).1 hprojections
        actions := hactions
        goals := fun goal hgoal => ⟨hconditions goal hgoal, hroots goal hgoal⟩
        tasks := htasks
        options := (Scope.problems_goalSelector hfits hgoalsNodup).1 hoptions }
  · intro h
    have hatoms := problems_declareAtoms.2 ⟨h.atoms_nodup, h.atoms_fit⟩
    have hfits := Scope.fits_ofDescription vocabulary hatoms
    refine ⟨hatoms, (Scope.problems_projection hfits).2 h.projections,
      (Scope.problems_actionLibrary hfits).2 ⟨h.actions_nodup, h.actions⟩,
      (Scope.problems_goalTable hfits).2 ⟨h.goals_nodup, fun goal hgoal => ?condition⟩,
      (Scope.problems_taskNetwork hfits).2 ⟨h.tasks_nodup, h.tasks⟩,
      (Scope.problems_rootTable hfits (Scope.size_taskNetwork hfits)).2 fun goal hgoal => ?root,
      (Scope.problems_goalSelector hfits h.goals_nodup).2 h.options⟩
    case condition => exact (h.goals goal hgoal).condition
    case root => exact (h.goals goal hgoal).root

/-- Whether a description is well formed can be found out by resolving it. -/
instance : Decidable (description.WellFormed vocabulary) :=
  decidable_of_iff _ problems_resolve

/-- A domain is handed out for the well-formed descriptions, and for no other. -/
theorem exists_ofDescription_iff (description : Description) (vocabulary : Vocabulary) :
    (∃ domain, ofDescription description vocabulary = .ok domain) ↔
      description.WellFormed vocabulary := by
  simp only [ofDescription, Checked.toExcept_eq_ok_iff]
  rw [exists_and_left, and_iff_left ⟨_, rfl⟩, problems_resolve]

-- A task without methods is no part of a well-formed description, whether or not it is used.
example : ¬ Description.WellFormed { tasks := [{ name := "rest" }] } {} := by decide +kernel

end Domain

end AgentPlanning
