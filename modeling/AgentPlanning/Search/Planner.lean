import AgentPlanning.Goal
import AgentPlanning.Search.AStar

/-!
# The Goal-Oriented Action Planner

The planner answers planning requests by search. It keeps the storage of its latest search for the
next one, and the space for the plans that it returns as a whole. Any plan is written either there
or to a buffer of the caller, if it fits, and in the same way.
-/

namespace AgentPlanning

/-- The budgets of a planner. -/
structure SearchBudget where
  /-- The number of states that a search may keep. -/
  nodes : Nat := 4096
  /-- The length of the longest plan that is returned as a whole. -/
  planLength : Nat := 32
deriving DecidableEq, Inhabited, Repr

/-- A planner between two calls. -/
structure SearchPlanner where
  budget : SearchBudget
  /-- The latest search, as it ended. -/
  latest : Search
  /-- The space for a plan that is returned as a whole. -/
  output : Array ActionId
  /-- The length of the plan that the latest call returned as a whole. -/
  outputLength : Nat
  size_output : output.size = budget.planLength

namespace SearchPlanner

/-- A planner that has not been called. -/
def ofBudget (budget : SearchBudget) : SearchPlanner where
  budget := budget
  latest := .initial (.ofCapacity budget.nodes)
  output := Array.replicate budget.planLength 0
  outputLength := 0
  size_output := Array.size_replicate

/-- The plan that the latest call returned as a whole. -/
def latestPlan (planner : SearchPlanner) : List ActionId :=
  planner.output.toList.take planner.outputLength

/-- The counters of the latest call. -/
def latestStats (planner : SearchPlanner) : SearchStats := planner.latest.stats

/-- Writes the plan to the node in which a search ended to the first cells of a buffer, if it
fits, and returns its length. The path is measured before it is written. -/
def fillBuffer (ended : SearchEnd) (buffer : Array ActionId) :
    Except PlanError Nat × Array ActionId :=
  match ended.outcome with
  | .error reason => (.error reason, buffer)
  | .ok node =>
    let length := depth ended.search.nodes node
    if buffer.size < length then (.error (.planTooLong length buffer.size), buffer)
    else (.ok length, writePath ended.search.nodes length node buffer)

@[simp]
theorem size_fillBuffer (ended : SearchEnd) (buffer : Array ActionId) :
    (fillBuffer ended buffer).2.size = buffer.size := by
  rw [fillBuffer]
  split
  · rfl
  · dsimp only
    split
    · rfl
    · exact size_writePath ..

/-- The planner after a search, without a plan of its own. -/
def concluded (planner : SearchPlanner) (ended : SearchEnd) : SearchPlanner :=
  { planner with latest := ended.search, outputLength := 0 }

/-- Plans for a condition with the given weight of the heuristic. -/
def plan (planner : SearchPlanner) (library : ActionLibrary) (start : WorldState)
    (goal : Condition) (weight : UInt32) : Except PlanError (List ActionId) × SearchPlanner :=
  let problem : SearchProblem := ⟨library, start, goal, weight⟩
  let ended := problem.search planner.budget.nodes planner.latest
  let filled := fillBuffer ended planner.output
  let planner : SearchPlanner :=
    { planner.concluded ended with
      output := filled.2
      outputLength := filled.1.toOption.getD 0
      size_output := (size_fillBuffer ended planner.output).trans planner.size_output }
  (filled.1.map fun _ => planner.latestPlan, planner)

/-- Plans for a goal. -/
def planFor (planner : SearchPlanner) (library : ActionLibrary) (start : WorldState)
    (goal : Goal) : Except PlanError (List ActionId) × SearchPlanner :=
  planner.plan library start goal.condition goal.weight

/-- Plans into a buffer and returns the length of the plan. On failure nothing is written. -/
def planToBuffer (planner : SearchPlanner) (library : ActionLibrary) (start : WorldState)
    (goal : Condition) (weight : UInt32) (buffer : Array ActionId) :
    Except PlanError Nat × Array ActionId × SearchPlanner :=
  let problem : SearchProblem := ⟨library, start, goal, weight⟩
  let ended := problem.search planner.budget.nodes planner.latest
  let filled := fillBuffer ended buffer
  (filled.1, filled.2, planner.concluded ended)

end SearchPlanner

end AgentPlanning
