import AgentPlanning.TaskNetwork.Decomposition

/-!
# The Hierarchical Planner

The planner answers planning requests by decomposition. It keeps the storage of its latest
decomposition for the next one, and reads the plan and the counters of the latest call off it.
-/

namespace AgentPlanning

/-- A planner between two calls. -/
structure TaskPlanner where
  budget : DecompositionBudget
  /-- The latest decomposition as it ended, but without its actions if it failed. -/
  latest : Decomposition
deriving DecidableEq, Repr

namespace TaskPlanner

/-- A planner that has not been called. -/
def ofBudget (budget : DecompositionBudget) : TaskPlanner := ⟨budget, {}⟩

/-- The plan of the latest call; empty if the call failed. -/
def latestPlan (planner : TaskPlanner) : List ActionId := planner.latest.output.toList

/-- The counters of the latest call. -/
def latestStats (planner : TaskPlanner) : DecompositionStats := planner.latest.stats

/-- Plans the task `root` in `state`. -/
def plan (planner : TaskPlanner) (network : TaskNetwork) (state : WorldState) (root : TaskId) :
    Except PlanError (List ActionId) × TaskPlanner :=
  let ended := Decomposition.run network state planner.budget root planner.latest
  match ended.outcome with
  | .ok () =>
    let planner := { planner with latest := ended.last }
    (.ok planner.latestPlan, planner)
  | .error reason => (.error reason, { planner with latest := { ended.last with output := #[] } })

end TaskPlanner

end AgentPlanning
