/-!
# Planning Errors

The reasons why a planning call returns no plan. They fall into three classes: the request has
no solution, a budget ran out before the answer was known, or the request names something that
does not exist.
-/

namespace AgentPlanning

/-- The class of a planning error. -/
inductive FailureKind where
  /-- The request has no solution. -/
  | unsolvable
  /-- A budget ran out. -/
  | exhausted
  /-- The request names an unknown task or goal. -/
  | invalid
deriving DecidableEq, Repr

/-- The number of the class in trace events. -/
def FailureKind.code : FailureKind → Nat
  | unsolvable => 1
  | exhausted => 2
  | invalid => 3

/-- Why a planning call returned no plan. -/
inductive PlanError where
  /-- No sequence of actions reaches the goal. -/
  | unreachable
  /-- The root task cannot be decomposed. -/
  | undecomposable (task : Nat)
  /-- No goal scored high enough. -/
  | noChoice
  /-- The search reached more states than it may keep. -/
  | tooManyStates (capacity : Nat)
  /-- The open list has no room for another entry. -/
  | tooManyOpen (capacity : Nat)
  /-- The table of visited states has no free slot. -/
  | tableFull (capacity : Nat)
  /-- The plan is longer than the space for it. -/
  | planTooLong (needed capacity : Nat)
  /-- Tasks are nested too deeply. -/
  | tooDeep (limit : Nat)
  /-- Methods were selected too often. -/
  | tooManySelections (limit : Nat)
  /-- There is no such task. -/
  | unknownTask (task : Nat)
  /-- There is no such goal. -/
  | unknownGoal (goal : Nat)
deriving DecidableEq, Repr

namespace PlanError

/-- The class of the error. -/
def kind : PlanError → FailureKind
  | unreachable | undecomposable _ | noChoice => .unsolvable
  | unknownTask _ | unknownGoal _ => .invalid
  | tooManyStates _ | tooManyOpen _ | tableFull _ | planTooLong _ _
  | tooDeep _ | tooManySelections _ => .exhausted

/-- Whether a budget ran out. -/
def isOutOfBudget (e : PlanError) : Bool :=
  e.kind = .exhausted

/-- The wording of the error. -/
def message : PlanError → String
  | unreachable => "no action sequence reaches the goal"
  | undecomposable task => s!"no applicable method decomposes task {task}"
  | noChoice => "no goal scored above the selection threshold"
  | tooManyStates capacity => s!"node pool exhausted ({capacity} nodes)"
  | tooManyOpen capacity => s!"open list full ({capacity} entries)"
  | tableFull capacity => s!"visited-state table full ({capacity} slots)"
  | planTooLong needed capacity =>
    s!"plan needs {needed} steps but the output buffer holds {capacity}"
  | tooDeep limit => s!"task decomposition deeper than {limit} frames"
  | tooManySelections limit => s!"expansion limit of {limit} reached"
  | unknownTask task => s!"unknown task id {task}"
  | unknownGoal goal => s!"unknown goal preset id {goal}"

end PlanError

end AgentPlanning
