import AgentPlanning.Iteration
import AgentPlanning.PlanError
import AgentPlanning.TaskNetwork.Selection

/-!
# Decomposing Tasks

A decomposition breaks a root task down to actions, depth first and from left to right, with
backtracking over methods. The state does not change while it runs: all conditions are tested
in the state for which the plan is made.

The tasks being decomposed form a stack of frames. A frame without a method selects the next
one; a frame with a method takes up its next subtask, emitting an action or putting a frame for
a task on top; a frame whose method has no subtask left is done. When a frame finds no method,
its parent's method has failed: what the two emitted is taken back, and the parent selects anew.

A run is a sequence of `Decomposition.step`s within budgets for the stack, the plan and the
number of selections.
-/

namespace AgentPlanning

/-- The budgets of a decomposition. -/
structure DecompositionBudget where
  /-- The largest number of frames. -/
  depth : Nat := 32
  /-- The length of the longest plan. -/
  planLength : Nat := 64
  /-- The largest number of method selections. -/
  selections : Nat := 1024
deriving DecidableEq, Inhabited, Repr

/-- What a decomposition has done. -/
structure DecompositionStats where
  /-- The number of method selections, successful or not. -/
  selections : Nat := 0
  /-- The number of methods that were given up because a subtask could not be decomposed. -/
  backtracks : Nat := 0
  /-- The largest number of frames so far. -/
  deepest : Nat := 0
deriving DecidableEq, Inhabited, Repr

/-- A task being decomposed. -/
structure Frame where
  task : TaskId
  /-- The method being carried out; `none` while a method is to be selected. -/
  method : Option MethodId := none
  position : Nat := 0
  /-- The method that was selected last; the next selection comes after it. -/
  lastTried : Option MethodKey := none
  /-- The number of actions that were emitted before the frame. -/
  outputStart : Nat
deriving DecidableEq, Repr

/-- A decomposition in progress. -/
structure Decomposition where
  /-- The tasks being decomposed, the innermost first. -/
  frames : List Frame := []
  /-- The emitted actions. -/
  output : Array ActionId := #[]
  stats : DecompositionStats := {}
deriving DecidableEq, Inhabited, Repr

/-- A decomposition that has ended. -/
structure DecompositionEnd where
  /-- The decomposition as it was in the end. -/
  last : Decomposition
  /-- Success, or the reason for giving up. -/
  outcome : Except PlanError Unit

namespace Decomposition

/-- The decomposition without frames, actions and counts again. -/
def reset (d : Decomposition) : Decomposition :=
  { d with frames := [], output := #[], stats := {} }

theorem reset_eq (d : Decomposition) : d.reset = {} := rfl

/-- Ends the decomposition without a plan. -/
def giveUp {α : Type} (d : Decomposition) (reason : PlanError) : Except DecompositionEnd α :=
  .error ⟨d, .error reason⟩

/-- Puts a frame for `task` on top of the stack. -/
def enter (budget : DecompositionBudget) (d : Decomposition) (task : TaskId) :
    Except DecompositionEnd Decomposition :=
  if d.frames.length < budget.depth then
    let frames := { task, outputStart := d.output.size } :: d.frames
    .ok { d with
      frames
      stats := { d.stats with deepest := max d.stats.deepest frames.length } }
  else d.giveUp (.tooDeep budget.depth)

/-- Adds an action to the plan. -/
def emit (budget : DecompositionBudget) (d : Decomposition) (action : ActionId) :
    Except DecompositionEnd Decomposition :=
  if d.output.size < budget.planLength then .ok { d with output := d.output.push action }
  else d.giveUp (.planTooLong (d.output.size + 1) budget.planLength)

/-- Lets the frame `top` select its next method. Without one the frame is dropped and the
method of its parent fails; if there is no parent, the root cannot be decomposed. -/
def select (network : TaskNetwork) (state : WorldState) (budget : DecompositionBudget)
    (root : TaskId) (top : Frame) (below : List Frame) (d : Decomposition) :
    Except DecompositionEnd Decomposition :=
  let d := { d with stats := { d.stats with selections := d.stats.selections + 1 } }
  -- The selection that exceeds the limit is counted but not made.
  if budget.selections < d.stats.selections then
    d.giveUp (.tooManySelections budget.selections)
  else
    match network.nextMethod? top.task state top.lastTried with
    | some key =>
      let top := { top with method := some key.method, position := 0, lastTried := some key }
      .ok { d with frames := top :: below }
    | none =>
      let output := d.output.take top.outputStart
      match below with
      | [] => giveUp { d with frames := [], output } (.undecomposable root)
      | parent :: rest =>
        -- The parent keeps the key of the failed method and goes on after it.
        .ok { frames := { parent with method := none } :: rest
              output := output.take parent.outputStart
              stats := { d.stats with backtracks := d.stats.backtracks + 1 } }

/-- Lets the frame `top` take up the next subtask of its method. -/
def advance (network : TaskNetwork) (budget : DecompositionBudget) (top : Frame) (method : MethodId)
    (below : List Frame) (d : Decomposition) : Except DecompositionEnd Decomposition :=
  match network.method? method with
  | none => d.giveUp (.unknownTask top.task)
  | some entry =>
    match (network.subtasksOf entry)[top.position]? with
    | none => .ok { d with frames := below }
    | some subtask =>
      let d := { d with frames := { top with position := top.position + 1 } :: below }
      match subtask with
      | .action action => emit budget d action
      | .compound task => enter budget d task

/-- Goes on with the innermost task. Without a task left the decomposition is complete. -/
def step (network : TaskNetwork) (state : WorldState) (budget : DecompositionBudget) (root : TaskId)
    (d : Decomposition) : Except DecompositionEnd Decomposition :=
  match d.frames with
  | [] => .error ⟨d, .ok ()⟩
  | top :: below =>
    match top.method with
    | none => select network state budget root top below d
    | some method => advance network budget top method below d

/-- A number of steps within which every decomposition ends: each selection is followed by at
most one step for each subtask of a method and one that drops the frame. -/
def stepBound (network : TaskNetwork) (budget : DecompositionBudget) : Nat :=
  (budget.selections + 1) * (network.subtasks.size + 2) + 1

/-- Decomposes the task `root` in `state`, in what the decomposition before it has left. -/
def run (network : TaskNetwork) (state : WorldState) (budget : DecompositionBudget)
    (root : TaskId) (left : Decomposition := {}) : DecompositionEnd :=
  let d := left.reset
  if root < network.size then
    match enter budget d root with
    | .error ended => ended
    | .ok d =>
      (runWithin (step network state budget root) (stepBound network budget) d).getD
        ⟨d, .error (.undecomposable root)⟩
  else ⟨d, .error (.unknownTask root)⟩

/-- Nothing that an earlier decomposition has left is taken over. -/
theorem run_left {network : TaskNetwork} {state : WorldState} {budget : DecompositionBudget}
    {root : TaskId} (left : Decomposition) :
    run network state budget root left = run network state budget root := by
  rw [run, run, left.reset_eq, reset_eq]

end Decomposition

end AgentPlanning
