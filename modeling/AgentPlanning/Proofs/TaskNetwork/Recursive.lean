import AgentPlanning.Proofs.TaskNetwork.Selection
import AgentPlanning.TaskNetwork.Decomposition

/-!
# Decomposing Tasks Recursively

What it means to decompose a task, without a stack: the methods that apply are tried in order of
preference, the subtasks of a method are done from left to right, and when a nested task cannot be
decomposed, the method is given up with everything it emitted and the next one is tried. The
budgets end the decomposition as a whole. This is the meaning that decomposition with a stack of
frames is compared with.
-/

namespace AgentPlanning

/-- How an attempt to decompose something ends. -/
inductive Attempt where
  /-- It succeeds, and these are the actions that have been emitted so far. -/
  | done (output : List ActionId) (stats : DecompositionStats)
  /-- There is no decomposition. -/
  | failed (stats : DecompositionStats)
  /-- A budget ran out. -/
  | stopped (reason : PlanError) (stats : DecompositionStats)
deriving DecidableEq, Repr

namespace Attempt

/-- Goes on after a success. -/
def andThen (attempt : Attempt) (next : List ActionId → DecompositionStats → Attempt) : Attempt :=
  match attempt with
  | done output stats => next output stats
  | failed stats => .failed stats
  | stopped reason stats => .stopped reason stats

/-- Tries something else after a failure, which counts as a backtrack. -/
def orElse (attempt : Attempt) (next : DecompositionStats → Attempt) : Attempt :=
  match attempt with
  | done output stats => .done output stats
  | failed stats => next { stats with backtracks := stats.backtracks + 1 }
  | stopped reason stats => .stopped reason stats

/-- Counts the selection of a method, and goes on within the budget for selections. -/
def select (budget : DecompositionBudget) (stats : DecompositionStats)
    (next : DecompositionStats → Attempt) : Attempt :=
  -- The selection that exceeds the budget is counted all the same.
  let stats := { stats with selections := stats.selections + 1 }
  if budget.selections < stats.selections then
    .stopped (.tooManySelections budget.selections) stats
  else next stats

/-- Does the subtasks one after the other, with `nested` for the tasks among them. -/
def ofSubtasks (budget : DecompositionBudget)
    (nested : TaskId → List ActionId → DecompositionStats → Attempt) :
    List Subtask → List ActionId → DecompositionStats → Attempt
  | [], output, stats => .done output stats
  | .action action :: rest, output, stats =>
    if output.length < budget.planLength then
      ofSubtasks budget nested rest (output ++ [action]) stats
    else .stopped (.planTooLong (output.length + 1) budget.planLength) stats
  | .compound task :: rest, output, stats =>
    -- If the nested task fails, so does the whole list, and its output is forgotten.
    (nested task output stats).andThen (ofSubtasks budget nested rest)

end Attempt

namespace TaskNetwork

/-- The subtasks of a method that is given by its key. -/
def subtasksAt (network : TaskNetwork) (key : MethodKey) : List Subtask :=
  match network.method? key.method with
  | none => []
  | some method => network.subtasksOf method

/-- Tries the methods one after the other, each with the same output to go on from. That no
method is left takes another selection to find out. -/
def attemptMethods (network : TaskNetwork) (budget : DecompositionBudget)
    (nested : TaskId → List ActionId → DecompositionStats → Attempt) (output : List ActionId) :
    List MethodKey → DecompositionStats → Attempt
  | [], stats => .select budget stats .failed
  | key :: rest, stats =>
    .select budget stats fun stats =>
      -- The next method gets the output that this one got, not the one that it left.
      (Attempt.ofSubtasks budget nested (network.subtasksAt key) output stats).orElse
        (attemptMethods network budget nested output rest)

/-- Decomposes a task, with room for the given number of tasks inside each other. -/
def attempt (network : TaskNetwork) (state : WorldState) (budget : DecompositionBudget) :
    Nat → TaskId → List ActionId → DecompositionStats → Attempt
  | 0, _, _, stats => .stopped (.tooDeep budget.depth) stats
  | room + 1, task, output, stats =>
    network.attemptMethods budget (attempt network state budget room) output
      (network.preferences task state)
      { stats with deepest := max stats.deepest (budget.depth - room) }

/-- The plan for a task, or the reason why there is none, and the counters. -/
def decompose (network : TaskNetwork) (state : WorldState) (budget : DecompositionBudget)
    (root : TaskId) : Except PlanError (List ActionId) × DecompositionStats :=
  if root < network.size then
    match network.attempt state budget budget.depth root [] {} with
    | .done plan stats => (.ok plan, stats)
    | .failed stats => (.error (.undecomposable root), stats)
    | .stopped reason stats => (.error reason, stats)
  else (.error (.unknownTask root), {})

end TaskNetwork

end AgentPlanning
