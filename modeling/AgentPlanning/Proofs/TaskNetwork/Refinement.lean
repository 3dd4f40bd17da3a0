import AgentPlanning.Proofs.TaskNetwork.Recursive
import AgentPlanning.Proofs.TaskNetwork.Termination
import AgentPlanning.TaskNetwork.Planner

/-!
# Frames Carry out the Recursion

A decomposition with a stack of frames takes exactly the way of the recursive one. While a task
is being decomposed, the frames below it stay as they are. In the end its frame is gone and the
output has grown, or the method of the frame below has failed and the output is again what it was
when that frame was entered. Main statements:

* `carries_ofSubtasks`: the subtasks of a method, if nested tasks are carried out;
* `carries_attemptMethods`: the methods of a task, one after the other;
* `carries_attempt`: a task, by induction on the room for nested tasks.
-/

namespace AgentPlanning

namespace Decomposition

variable {network : TaskNetwork} {state : WorldState} {budget : DecompositionBudget}
  {root : TaskId} {below : List Frame} {output : List ActionId} {stats : DecompositionStats}

/-! ## Carrying out an attempt -/

/-- What the attempt at a method comes to, if it is that of the frame `f` on top of `below`, which
was entered with the given output. After a failure the frame selects anew. -/
inductive MethodEnd (f : Frame) (below : List Frame) (output : List ActionId) :
    Attempt → Except DecompositionEnd Decomposition → Prop where
  /-- The frame is gone. -/
  | done {final : List ActionId} {stats : DecompositionStats} (grows : output <+: final) :
      MethodEnd f below output (.done final stats) (.ok ⟨below, final.toArray, stats⟩)
  /-- The method was given up. -/
  | failed {stats : DecompositionStats} (position : Nat) :
      MethodEnd f below output (.failed stats)
        (.ok ⟨{ f with method := none, position } :: below, output.toArray,
          { stats with backtracks := stats.backtracks + 1 }⟩)
  /-- The decomposition has ended. -/
  | stopped (last : Decomposition) {reason : PlanError} :
      MethodEnd f below output (.stopped reason last.stats) (.error ⟨last, .error reason⟩)

/-- The position of the frame before the attempt does not matter. -/
theorem MethodEnd.of_position {f : Frame} {position : Nat} {output : List ActionId}
    {attempt : Attempt} {r : Except DecompositionEnd Decomposition}
    (h : MethodEnd { f with position } below output attempt r) :
    MethodEnd f below output attempt r := by
  cases h with
  | done hgrows => exact .done hgrows
  | failed position => exact .failed position
  | stopped last => exact .stopped last

/-- What the attempt at a task comes to, if it was entered on top of `below` with the given
output. -/
inductive TaskEnd (root : TaskId) (below : List Frame) (output : List ActionId) :
    Attempt → Except DecompositionEnd Decomposition → Prop where
  /-- The frame of the task is gone. -/
  | done {final : List ActionId} {stats : DecompositionStats} (grows : output <+: final) :
      TaskEnd root below output (.done final stats) (.ok ⟨below, final.toArray, stats⟩)
  /-- The method of the frame below has failed. -/
  | failed (stats : DecompositionStats) :
      TaskEnd root below output (.failed stats) (backtrack root below output stats)
  /-- The decomposition has ended. -/
  | stopped (last : Decomposition) {reason : PlanError} :
      TaskEnd root below output (.stopped reason last.stats) (.error ⟨last, .error reason⟩)

/-- Entering a task on top of `depth` frames leads to what `nested` says. -/
def Carries (network : TaskNetwork) (state : WorldState) (budget : DecompositionBudget)
    (root : TaskId) (depth : Nat)
    (nested : TaskId → List ActionId → DecompositionStats → Attempt) : Prop :=
  ∀ (task : TaskId) (below : List Frame) (output : List ActionId) (stats : DecompositionStats),
    below.length = depth → ∃ r, TaskEnd root below output (nested task output stats) r ∧
      Leads (step network state budget root) (enter budget ⟨below, output.toArray, stats⟩ task) r

variable {nested : TaskId → List ActionId → DecompositionStats → Attempt}

/-- A frame carries out the subtasks that its method has left. -/
theorem carries_ofSubtasks
    (hnested : Carries network state budget root (below.length + 1) nested) (f : Frame)
    (output : List ActionId) (stats : DecompositionStats) {id : MethodId}
    (hmethod : f.method = some id) {entry : MethodRow}
    (hentry : network.method? id = some entry) {rest : List Subtask}
    (hrest : (network.subtasksOf entry).drop f.position = rest) {start : List ActionId}
    (hstart : f.outputStart = start.length) (hgrown : start <+: output) :
    ∃ r, MethodEnd f below start (Attempt.ofSubtasks budget nested rest output stats) r ∧
      Leads (step network state budget root) (.ok ⟨f :: below, output.toArray, stats⟩) r := by
  induction rest generalizing f output stats with
  | nil =>
    -- The frame drops out, and leaves the output as it is.
    have hget : (network.subtasksOf entry)[f.position]? = none := by
      rw [← List.head?_drop, hrest, List.head?_nil]
    refine ⟨_, .done hgrown, .head ?_⟩
    rw [step_of_subtasks_done hmethod hentry hget]
    exact .refl _
  | cons subtask rest ih =>
    have hget : (network.subtasksOf entry)[f.position]? = some subtask := by
      rw [← List.head?_drop, hrest, List.head?_cons]
    have hdrop : (network.subtasksOf entry).drop (f.position + 1) = rest := by
      rw [← List.drop_drop, hrest, List.drop_one, List.tail_cons]
    cases subtask with
    | action action =>
      rw [Attempt.ofSubtasks]
      split
      next hlt =>
        -- The action joins the output, and the rest of the subtasks is left.
        obtain ⟨r, hend, hleads⟩ := ih { f with position := f.position + 1 } (output ++ [action])
          stats hmethod hdrop hstart (hgrown.trans (List.prefix_append _ _))
        refine ⟨r, hend.of_position, .head ?_⟩
        rw [step_of_action hmethod hentry hget, emit, List.size_toArray, if_pos hlt]
        simpa using hleads
      next hlimit =>
        refine ⟨_, .stopped ⟨{ f with position := f.position + 1 } :: below, output.toArray, stats⟩,
          .head ?_⟩
        rw [step_of_action hmethod hentry hget, emit, List.size_toArray, if_neg hlimit]
        exact .refl _
    | compound task =>
      rw [Attempt.ofSubtasks]
      obtain ⟨r, hend, hleads⟩ := hnested task ({ f with position := f.position + 1 } :: below)
        output stats rfl
      rw [← step_of_compound hmethod hentry state budget root hget] at hleads
      generalize nested task output stats = a at hend
      cases hend with
      | @done final stats hgrows =>
        -- The nested task is done, and the frame goes on after it.
        obtain ⟨r, hend, hrest⟩ := ih { f with position := f.position + 1 } final stats hmethod
          hdrop hstart (hgrown.trans hgrows)
        exact ⟨r, hend.of_position, .head (hleads.trans hrest)⟩
      | failed stats =>
        -- The frame falls back to the output with which it was entered, which the nested task
        -- was entered with too, and more.
        have htake : output.take f.outputStart = start := by
          rw [hstart]
          exact (List.prefix_iff_eq_take.1 hgrown).symm
        refine ⟨_, .failed (f.position + 1), .head ?_⟩
        rw [← htake]
        exact hleads
      | stopped last => exact ⟨_, .stopped last, .head hleads⟩

/-- A frame without a method counts a selection first, and that is all if the budget for
selections is used up. -/
theorem carries_select {f : Frame} (hmethod : f.method = none) (stats : DecompositionStats)
    {next : DecompositionStats → Attempt}
    (hnext : ¬budget.selections < stats.selections + 1 → ∃ r,
      TaskEnd root below output (next { stats with selections := stats.selections + 1 }) r ∧
      Leads (step network state budget root)
        (step network state budget root ⟨f :: below, output.toArray, stats⟩) r) :
    ∃ r, TaskEnd root below output (Attempt.select budget stats next) r ∧
      Leads (step network state budget root) (.ok ⟨f :: below, output.toArray, stats⟩) r := by
  rw [Attempt.select]
  dsimp only
  split
  next hlimit =>
    refine ⟨_, .stopped ⟨f :: below, output.toArray, _⟩, .head ?_⟩
    rw [step_of_tooManySelections hmethod hlimit]
    exact .refl _
  next hlimit =>
    obtain ⟨r, hend, hleads⟩ := hnext hlimit
    exact ⟨r, hend, .head hleads⟩

/-- A frame without a method tries the methods that remain for it. -/
theorem carries_attemptMethods
    (hnested : Carries network state budget root (below.length + 1) nested) (f : Frame)
    (stats : DecompositionStats) (hmethod : f.method = none) {keys : List MethodKey}
    (hkeys : network.remaining f.task state f.lastTried = keys)
    (hstart : f.outputStart = output.length) :
    ∃ r, TaskEnd root below output (network.attemptMethods budget nested output keys stats) r ∧
      Leads (step network state budget root) (.ok ⟨f :: below, output.toArray, stats⟩) r := by
  induction keys generalizing f stats with
  | nil =>
    have hnext : network.nextMethod? f.task state f.lastTried = none := by
      rw [TaskNetwork.nextMethod?_eq_head?, hkeys, List.head?_nil]
    refine carries_select hmethod stats fun hlimit => ⟨_, .failed _, ?_⟩
    rw [step_of_nextMethod?_none hmethod hlimit hnext hstart]
    exact .refl _
  | cons key keys ih =>
    have hnext : network.nextMethod? f.task state f.lastTried = some key := by
      rw [TaskNetwork.nextMethod?_eq_head?, hkeys, List.head?_cons]
    obtain ⟨entry, hentry⟩ := TaskNetwork.exists_method_of_remaining hkeys
    -- The selected method begins with its first subtask.
    refine carries_select hmethod stats fun hlimit => ?_
    rw [TaskNetwork.subtasksAt, hentry, step_of_nextMethod?_some root hmethod hlimit hnext]
    obtain ⟨r, hend, hleads⟩ := carries_ofSubtasks hnested
      { f with method := some key.method, position := 0, lastTried := some key } output
      { stats with selections := stats.selections + 1 } rfl hentry List.drop_zero hstart
      (List.prefix_refl output)
    dsimp only
    generalize Attempt.ofSubtasks budget nested (network.subtasksOf entry) output _ = a at hend ⊢
    cases hend with
    | done hgrows => exact ⟨_, .done hgrows, hleads⟩
    | @failed stats position =>
      -- The frame selects again, among the methods after this one.
      have hrest : network.remaining f.task state (some key) = keys :=
        TaskNetwork.remaining_some hkeys
      obtain ⟨r, hend, hmore⟩ := ih { f with method := none, position, lastTried := some key }
        { stats with backtracks := stats.backtracks + 1 } rfl hrest hstart
      exact ⟨r, hend, hleads.trans hmore⟩
    | stopped last => exact ⟨_, .stopped last, hleads⟩

/-- Entering a task carries out the recursive attempt at it. -/
theorem carries_attempt (network : TaskNetwork) (state : WorldState) (root : TaskId) (room : Nat)
    {depth : Nat} (hroom : depth + room = budget.depth) :
    Carries network state budget root depth (network.attempt state budget room) := by
  induction room generalizing depth with
  | zero =>
    intro task below output stats hdepth
    -- There are as many frames as there may be.
    have hfull : ¬below.length < budget.depth := by omega
    refine ⟨_, .stopped ⟨below, output.toArray, stats⟩, ?_⟩
    rw [enter, if_neg hfull]
    exact .refl _
  | succ room ih =>
    intro task below output stats hdepth
    have hspace : below.length < budget.depth := by omega
    have hdeepest : budget.depth - room = below.length + 1 := by omega
    rw [enter, if_pos hspace, TaskNetwork.attempt, hdeepest]
    refine carries_attemptMethods (ih (by omega)) ⟨task, none, 0, none, output.length⟩
      { stats with deepest := max stats.deepest (below.length + 1) } rfl ?_ rfl
    exact network.remaining_none task state

/-! ## The whole decomposition -/

/-- How a decomposition ends that comes to the given result without a frame left. -/
def finish : Except DecompositionEnd Decomposition → DecompositionEnd
  | .ok d => ⟨d, .ok ()⟩
  | .error ended => ended

theorem leads_finish {a : Attempt} {r : Except DecompositionEnd Decomposition}
    (h : TaskEnd root [] [] a r) :
    Leads (step network state budget root) r (.error (finish r)) := by
  cases h with
  | done => exact .head (.refl _)
  | failed => exact .refl _
  | stopped => exact .refl _

/-- A run ends as the recursive attempt at the root says. -/
theorem exists_run_eq (state : WorldState) (budget : DecompositionBudget)
    (hroot : root < network.size) :
    ∃ r, TaskEnd root [] [] (network.attempt state budget budget.depth root [] {}) r ∧
      run network state budget root = finish r := by
  obtain ⟨r, hend, hleads⟩ := carries_attempt network state root budget.depth
    (Nat.zero_add budget.depth) root [] [] {} rfl
  refine ⟨r, hend, ?_⟩
  have hfinish := hleads.trans (leads_finish hend)
  change Leads _ (enter budget {} root) _ at hfinish
  cases henter : enter budget {} root with
  | error ended =>
    -- There is no room for the root itself.
    rw [henter] at hfinish
    cases hfinish
    rw [run, reset_eq, if_pos hroot, henter]
  | ok d =>
    rw [henter] at hfinish
    -- The bound leaves the run enough steps to come to the end that the steps lead to.
    obtain ⟨n, hn⟩ := exists_runWithin_of_leads hfinish
    exact runWithin_unique (runWithin_of_enter state hroot henter) hn

end Decomposition

namespace TaskPlanner

/-- A planner returns the plan of the recursive decomposition, or its reason for giving up, and
counts what it counts. -/
theorem plan_eq_decompose (planner : TaskPlanner) (network : TaskNetwork) (state : WorldState)
    (root : TaskId) :
    ((planner.plan network state root).1, (planner.plan network state root).2.latestStats) =
      network.decompose state planner.budget root := by
  rw [TaskNetwork.decompose]
  split
  next hroot =>
    obtain ⟨r, hend, hrun⟩ := Decomposition.exists_run_eq state planner.budget hroot
    rw [plan, Decomposition.run_left planner.latest, hrun]
    generalize network.attempt state planner.budget planner.budget.depth root [] {} = a at hend ⊢
    cases hend with
    | done => rfl
    | failed => rfl
    | stopped => rfl
  next hroot =>
    simp only [plan, Decomposition.run, if_neg hroot]
    rfl

/-- A flight that cannot be boarded is given up with the packing that belongs to it. -/
example : (TaskNetwork.flatten [
    { name := "travel", methods := [
      { name := "walk", cost := 2, subtasks := [.action 1] },
      { name := "fly", cost := 1, subtasks := [.action 0, .compound 1] }] },
    { name := "board", methods := [
      { name := "queue", condition := Condition.free.require 0 true, subtasks := [.action 2] }] }
    ]).decompose .empty {} 0 =
      (.ok [1], { selections := 3, backtracks := 1, deepest := 2 }) := by
  decide +kernel

end TaskPlanner

end AgentPlanning
