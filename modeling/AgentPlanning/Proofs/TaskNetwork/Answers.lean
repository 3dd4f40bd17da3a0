import AgentPlanning.Proofs.TaskNetwork.Refinement
import AgentPlanning.Proofs.TaskNetwork.Trees

/-!
# What the Answers of a Task Planner Mean

An attempt that goes through leaves the tree of what it did, and an attempt that fails has left
nothing untried: since the state does not change, whether a task can be decomposed depends neither
on the output so far nor on the counters. Main statements:

* `meets_ofSubtasks`, `meets_attemptMethods`, `meets_attempt`: what success and failure mean for
  the subtasks of a method, for the methods of a task and for a task;
* `exists_preferred_of_plan`: a plan is what a preferred decomposition tree has for leaves;
* `outcome_of_plan`: only a task without a decomposition tree is called undecomposable.
-/

namespace AgentPlanning

/-! ## What an attempt has shown -/

namespace Attempt

variable {success success' : List ActionId → Prop} {failure failure' : Prop}

/-- If the attempt succeeds then its output meets `success`, if it fails then `failure` holds, and
it stops only when a budget runs out. -/
def Meets (success : List ActionId → Prop) (failure : Prop) : Attempt → Prop
  | done output _ => success output
  | failed _ => failure
  | stopped reason _ => reason.isOutOfBudget = true

theorem Meets.mono {attempt : Attempt} (h : attempt.Meets success failure)
    (hsuccess : ∀ output, success output → success' output) (hfailure : failure → failure') :
    attempt.Meets success' failure' := by
  cases attempt with
  | done output => exact hsuccess output h
  | failed => exact hfailure h
  | stopped => exact h

theorem Meets.andThen {attempt : Attempt}
    {next : List ActionId → DecompositionStats → Attempt} (h : attempt.Meets success failure)
    (hnext : ∀ output stats, success output → (next output stats).Meets success' failure')
    (hfailure : failure → failure') : (attempt.andThen next).Meets success' failure' := by
  cases attempt with
  | done output stats => exact hnext output stats h
  | failed => exact hfailure h
  | stopped => exact h

theorem Meets.orElse {attempt : Attempt} {next : DecompositionStats → Attempt}
    (h : attempt.Meets success failure) (hsuccess : ∀ output, success output → success' output)
    (hnext : failure → ∀ stats, (next stats).Meets success' failure') :
    (attempt.orElse next).Meets success' failure' := by
  cases attempt with
  | done output => exact hsuccess output h
  | failed => exact hnext h _
  | stopped => exact h

theorem Meets.select {budget : DecompositionBudget} {next : DecompositionStats → Attempt}
    (h : ∀ stats, (next stats).Meets success failure) (stats : DecompositionStats) :
    (Attempt.select budget stats next).Meets success failure := by
  unfold Attempt.select
  dsimp only
  split
  · rfl
  · exact h _

end Attempt

namespace TaskNetwork

open DecompositionTree

variable {network : TaskNetwork} {state : WorldState} {budget : DecompositionBudget}
  {nested : TaskId → List ActionId → DecompositionStats → Attempt}

/-- The actions emitted after `output` are the leaves of trees for the given subtasks, in which
every task is done by its best method. -/
def DoneBy (network : TaskNetwork) (state : WorldState) (output : List ActionId)
    (subtasks : List Subtask) (final : List ActionId) : Prop :=
  ∃ parts : List DecompositionTree, parts.map subtask = subtasks ∧
    (∀ part ∈ parts, part.IsDecomposition network state ∧ part.IsPreferred network state) ∧
    final = output ++ parts.flatMap leaves

theorem DoneBy.nil (output : List ActionId) : network.DoneBy state output [] output :=
  ⟨[], rfl, by simp, by simp⟩

theorem DoneBy.action (output : List ActionId) (action : ActionId) :
    network.DoneBy state output [.action action] (output ++ [action]) := by
  refine ⟨[.action action], rfl, ?_, ?_⟩
  · intro part hpart
    obtain rfl := List.mem_singleton.1 hpart
    exact ⟨.action action, .action action⟩
  · rw [List.flatMap_singleton, leaves]

theorem DoneBy.append {output middle final : List ActionId} {first second : List Subtask}
    (hfirst : network.DoneBy state output first middle)
    (hsecond : network.DoneBy state middle second final) :
    network.DoneBy state output (first ++ second) final := by
  obtain ⟨parts, rfl, hparts, rfl⟩ := hfirst
  obtain ⟨others, rfl, hothers, rfl⟩ := hsecond
  refine ⟨parts ++ others, List.map_append, ?_, ?_⟩
  · exact List.forall_mem_append.2 ⟨hparts, hothers⟩
  · rw [List.flatMap_append, List.append_assoc]

/-- An attempt at a task emits the leaves of a tree for it, or shows that it has none. -/
def Decides (network : TaskNetwork) (state : WorldState)
    (nested : TaskId → List ActionId → DecompositionStats → Attempt) : Prop :=
  ∀ task output stats, (nested task output stats).Meets
    (network.DoneBy state output [.compound task]) (¬network.Decomposable state task)

/-- A method gets through if its subtasks are feasible, and fails if they are not. -/
theorem meets_ofSubtasks (hnested : network.Decides state nested) (subtasks : List Subtask)
    (output : List ActionId) (stats : DecompositionStats) :
    (Attempt.ofSubtasks budget nested subtasks output stats).Meets
      (network.DoneBy state output subtasks) (¬network.Feasible state subtasks) := by
  induction subtasks generalizing output stats with
  | nil => exact .nil output
  | cons first rest ih =>
    -- What makes the rest infeasible makes the whole infeasible.
    have hrest (hnot : ¬network.Feasible state rest) : ¬network.Feasible state (first :: rest) :=
      fun hfeasible => hnot fun task htask => hfeasible task (List.mem_cons_of_mem _ htask)
    cases first with
    | action action =>
      rw [Attempt.ofSubtasks]
      split
      · refine (ih _ _).mono ?_ hrest
        intro final hfinal
        exact (DoneBy.action output action).append hfinal
      · rfl
    | compound task =>
      rw [Attempt.ofSubtasks]
      refine (hnested task output stats).andThen ?_ ?_
      · intro middle stats hmiddle
        refine (ih _ _).mono ?_ hrest
        intro final hfinal
        exact hmiddle.append hfinal
      · intro hnot hfeasible
        exact hnot (hfeasible task List.mem_cons_self)

/-- The methods are done by the first that is feasible, or none of them is. -/
theorem meets_attemptMethods (hnested : network.Decides state nested) (output : List ActionId)
    {keys : List MethodKey} (hordered : keys.Pairwise (·.lt · = true))
    (stats : DecompositionStats) :
    (network.attemptMethods budget nested output keys stats).Meets
      (fun final => ∃ key ∈ keys, network.DoneBy state output (network.subtasksAt key) final ∧
        ∀ other ∈ keys, network.Feasible state (network.subtasksAt other) → key.le other = true)
      (∀ key ∈ keys, ¬network.Feasible state (network.subtasksAt key)) := by
  induction keys generalizing stats with
  | nil =>
    rw [attemptMethods]
    exact .select (fun _ => by simp [Attempt.Meets]) stats
  | cons key rest ih =>
    obtain ⟨hfirst, hrest⟩ := List.pairwise_cons.1 hordered
    rw [attemptMethods]
    refine .select (fun stats => ?_) stats
    refine (meets_ofSubtasks hnested _ output stats).orElse ?_ ?_
    · intro final hdone
      refine ⟨key, List.mem_cons_self, hdone, List.forall_mem_cons.2 ⟨?_, ?_⟩⟩
      · exact fun _ => MethodKey.le_iff.2 (.inr ⟨rfl, Nat.le_refl _⟩)
      · exact fun other hother _ => MethodKey.le_of_lt (hfirst other hother)
    · intro hnot stats
      refine (ih hrest stats).mono ?_ fun hnone => List.forall_mem_cons.2 ⟨hnot, hnone⟩
      rintro final ⟨chosen, hchosen, hdone, hleast⟩
      -- The first method is preferred to the chosen one, but it is not feasible.
      refine ⟨chosen, List.mem_cons_of_mem _ hchosen, hdone, List.forall_mem_cons.2 ⟨?_, hleast⟩⟩
      exact fun hfeasible => absurd hfeasible hnot

theorem DoneBy.feasible {output final : List ActionId} {subtasks : List Subtask}
    (h : network.DoneBy state output subtasks final) : network.Feasible state subtasks := by
  obtain ⟨parts, hsubtasks, hparts, -⟩ := h
  exact feasible_of_parts hsubtasks fun part hpart => (hparts part hpart).1

/-- The trees for the subtasks of the best method become the tree of its task. -/
theorem DoneBy.of_best {output final : List ActionId} {task : TaskId} {id : MethodId}
    {row : MethodRow} (hbest : network.IsBestMethod state task id row)
    (h : network.DoneBy state output (network.subtasksOf row) final) :
    network.DoneBy state output [.compound task] final := by
  obtain ⟨parts, hsubtasks, hparts, rfl⟩ := h
  refine ⟨[.task task id parts], rfl, ?_, ?_⟩
  · intro part hpart
    obtain rfl := List.mem_singleton.1 hpart
    exact ⟨.task hbest.method hsubtasks fun part hpart => (hparts part hpart).1,
      .task hbest fun part hpart => (hparts part hpart).2⟩
  · rw [List.flatMap_singleton, leaves]

/-- A recursive attempt decides whether a task can be decomposed, whatever room there is for
nested tasks. -/
theorem decides_attempt (network : TaskNetwork) (state : WorldState)
    (budget : DecompositionBudget) (room : Nat) :
    network.Decides state (network.attempt state budget room) := by
  induction room with
  | zero =>
    intro task output stats
    rfl
  | succ room ih =>
    intro task output stats
    rw [attempt]
    refine (meets_attemptMethods ih output (network.pairwise_preferences task state) _).mono ?_ ?_
    · rintro final ⟨key, hkey, hdone, hleast⟩
      obtain ⟨row, hmethod, hcost⟩ := mem_preferences.1 hkey
      rw [hmethod.subtasksAt_eq key.cost] at hdone
      refine hdone.of_best ⟨hmethod, hdone.feasible, fun other otherRow hother hfeasible => ?_⟩
      -- Another method that applies has a key that was tried as well.
      have hle := hleast ⟨otherRow.cost.toNat, other⟩
        (mem_preferences.2 ⟨otherRow, hother, rfl⟩) (by rwa [hother.subtasksAt_eq])
      rw [MethodKey.le_iff, hcost] at hle
      rwa [UInt32.lt_iff_toNat_lt, ← UInt32.toNat_inj]
    · intro hnone hdecomposable
      obtain ⟨id, row, hmethod, hfeasible⟩ := exists_feasible_of_decomposable hdecomposable
      refine hnone ⟨row.cost.toNat, id⟩ (mem_preferences.2 ⟨row, hmethod, rfl⟩) ?_
      rwa [hmethod.subtasksAt_eq]

theorem lt_size_of_decomposable {task : TaskId} (h : network.Decomposable state task) :
    task < network.size := by
  obtain ⟨id, row, hmethod, -⟩ := exists_feasible_of_decomposable h
  obtain ⟨entry, hentry, -⟩ := hmethod.own
  exact (Array.getElem?_eq_some_iff.1 hentry).1

end TaskNetwork

/-! ## The answers of a planner -/

namespace TaskPlanner

open DecompositionTree

/-- Three ways to travel (task 0), two of them with tasks inside. Nobody can board (task 1) unless
atom 0 holds, so a horse is saddled (task 2) the plain way and there is no cruise (task 3). -/
def journey : TaskNetwork := .flatten [
  { name := "travel", methods := [
    { name := "walk", cost := 2, subtasks := [.action 0] },
    { name := "fly", cost := 1, subtasks := [.action 1, .compound 1] },
    { name := "ride", cost := 1, subtasks := [.compound 2, .action 2] }] },
  { name := "board", methods := [
    { name := "queue", condition := Condition.free.require (Fin.last _) true,
      subtasks := [.action 3] }] },
  { name := "saddle", methods := [
    { name := "festive", subtasks := [.action 5, .compound 1] },
    { name := "plain", cost := 4, subtasks := [.action 4] }] },
  { name := "cruise", methods := [
    { name := "ride there", subtasks := [.compound 2, .compound 1] },
    { name := "board", cost := 3, subtasks := [.compound 1] }] }]

variable (planner : TaskPlanner) (network : TaskNetwork) (state : WorldState) (root : TaskId)

/-- A planner answers what the recursive attempt at the root comes to. -/
theorem exists_attempt_of_plan (hroot : root < network.size) :
    ∃ attempt : Attempt, attempt.Meets (network.DoneBy state [] [.compound root])
        (¬network.Decomposable state root) ∧
      (planner.plan network state root).1 = match attempt with
        | .done plan _ => .ok plan
        | .failed _ => .error (.undecomposable root)
        | .stopped reason _ => .error reason := by
  obtain ⟨r, hend, hrun⟩ := Decomposition.exists_run_eq state planner.budget hroot
  refine ⟨_, network.decides_attempt state planner.budget planner.budget.depth root [] {}, ?_⟩
  rw [plan, Decomposition.run_left planner.latest, hrun]
  generalize network.attempt state planner.budget planner.budget.depth root [] {} = a at hend ⊢
  cases hend with
  | done => rfl
  | failed => rfl
  | stopped => rfl

theorem fst_plan_of_size_le (hroot : ¬root < network.size) :
    (planner.plan network state root).1 = .error (.unknownTask root) := by
  simp only [plan, Decomposition.run, if_neg hroot]

variable {planner network state root}

/-- A plan that is returned consists of the leaves, from left to right, of a decomposition tree of
the root in which every task is done by its best method: the least one, by cost and then by
position, of those that apply and whose subtasks can be decomposed at all. -/
theorem exists_preferred_of_plan {plan : List ActionId}
    (h : (planner.plan network state root).1 = .ok plan) :
    ∃ tree : DecompositionTree, tree.subtask = .compound root ∧
      tree.IsDecomposition network state ∧ tree.IsPreferred network state ∧
      tree.leaves = plan := by
  by_cases hroot : root < network.size
  · obtain ⟨attempt, hmeets, hplan⟩ := planner.exists_attempt_of_plan network state root hroot
    rw [hplan] at h
    cases attempt with
    | done output =>
      obtain rfl := Except.ok.inj h
      obtain ⟨parts, hsubtasks, hparts, rfl⟩ := hmeets
      obtain ⟨tree, rfl, hsubtask⟩ := List.map_eq_singleton_iff.1 hsubtasks
      obtain ⟨htree, hpreferred⟩ := hparts tree (List.mem_singleton_self tree)
      exact ⟨tree, hsubtask, htree, hpreferred, by simp⟩
    | failed => cases h
    | stopped => cases h
  · rw [planner.fst_plan_of_size_le network state root hroot] at h
    cases h

/-- The ride comes before the walk, and the flight is given up with the packing for it. -/
theorem exists_preferred_journey :
    ((ofBudget {}).plan journey .empty 0).1 = .ok [4, 2] ∧
    ∃ tree : DecompositionTree, tree.subtask = .compound 0 ∧
      tree.IsDecomposition journey .empty ∧ tree.IsPreferred journey .empty ∧
      tree.leaves = [4, 2] := by
  have hplan : ((ofBudget {}).plan journey .empty 0).1 = .ok [4, 2] := by decide +kernel
  exact ⟨hplan, exists_preferred_of_plan hplan⟩

/-- A root without a decomposition tree is the only one that is called undecomposable: if there is
a tree, then either a plan is returned or a budget has run out. -/
theorem outcome_of_plan :
    (∀ task, (planner.plan network state root).1 = .error (.undecomposable task) →
      ¬network.Decomposable state root) ∧
    (network.Decomposable state root →
      (∃ plan, (planner.plan network state root).1 = .ok plan) ∨
      ∃ reason, (planner.plan network state root).1 = .error reason ∧
        reason.isOutOfBudget = true) := by
  by_cases hroot : root < network.size
  · obtain ⟨attempt, hmeets, hplan⟩ := planner.exists_attempt_of_plan network state root hroot
    rw [hplan]
    cases attempt with
    | done output => exact ⟨fun _ => nofun, fun _ => .inl ⟨output, rfl⟩⟩
    | failed => exact ⟨fun _ _ => hmeets, fun h => absurd h hmeets⟩
    | stopped reason =>
      refine ⟨fun task h => ?_, fun _ => .inr ⟨reason, rfl, hmeets⟩⟩
      -- Running out of budget is a different class of error.
      obtain rfl := Except.error.inj h
      cases hmeets
  · rw [planner.fst_plan_of_size_le network state root hroot]
    exact ⟨fun _ => nofun, fun h => absurd (TaskNetwork.lt_size_of_decomposable h) hroot⟩

theorem decomposable_journey : journey.Decomposable .empty 0 := by
  have hride : journey.HasMethod .empty 0 2 ⟨"ride", .free, 1, ⟨3, 2⟩⟩ :=
    ⟨⟨⟨"travel", ⟨0, 3⟩⟩, by decide +kernel, by decide⟩, by decide +kernel, by decide⟩
  have hplain : journey.HasMethod .empty 2 5 ⟨"plain", .free, 4, ⟨8, 1⟩⟩ :=
    ⟨⟨⟨"saddle", ⟨4, 2⟩⟩, by decide +kernel, by decide⟩, by decide +kernel, by decide⟩
  have hsaddle : IsDecomposition journey .empty (.task 2 5 [.action 4]) :=
    .task hplain (by decide +kernel) (List.forall_mem_singleton.2 (.action 4))
  refine ⟨.task 0 2 [.task 2 5 [.action 4], .action 2], .task hride (by decide +kernel) ?_, rfl⟩
  exact List.forall_mem_cons.2 ⟨hsaddle, List.forall_mem_singleton.2 (.action 2)⟩

/-- The cruise is called undecomposable because it is. The journey is not, even where there is no
room for the tasks inside it. -/
theorem outcome_journey :
    (((ofBudget {}).plan journey .empty 3).1 = .error (.undecomposable 3) ∧
      ¬journey.Decomposable .empty 3) ∧
    journey.Decomposable .empty 0 ∧
      ((∃ plan, ((ofBudget { depth := 1 }).plan journey .empty 0).1 = .ok plan) ∨
        ∃ reason, ((ofBudget { depth := 1 }).plan journey .empty 0).1 = .error reason ∧
          reason.isOutOfBudget = true) := by
  have hplan : ((ofBudget {}).plan journey .empty 3).1 = .error (.undecomposable 3) := by
    decide +kernel
  exact ⟨⟨hplan, outcome_of_plan.1 3 hplan⟩, decomposable_journey,
    outcome_of_plan.2 decomposable_journey⟩

end TaskPlanner

end AgentPlanning
