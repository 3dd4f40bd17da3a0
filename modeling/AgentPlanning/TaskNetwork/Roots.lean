import AgentPlanning.Goal
import AgentPlanning.KeyMap
import AgentPlanning.TaskNetwork.Basic

/-!
# Root Tasks of Goals

A goal that is planned by decomposition names the task to begin with, its root.
-/

namespace AgentPlanning

/-- The root task of each goal that has one. -/
structure RootTable where
  roots : KeyMap GoalId TaskId := .empty
deriving DecidableEq, Inhabited

namespace RootTable

/-- The problem with a root that is no task of the network. -/
def problem? (network : TaskNetwork) (goal : GoalId) (task : TaskId) : Option Diagnostic :=
  if task < network.size then none
  else some (.noSuchTask s!"htn root for goal preset {goal}" task network.size)

/-- The table of the given roots, or all problems. Of two roots for a goal the later counts. -/
def ofList (entries : List (GoalId × TaskId)) (network : TaskNetwork) :
    Except Diagnostics RootTable :=
  Diagnostics.guard ⟨entries.filterMap fun (goal, task) => problem? network goal task⟩
    ⟨.ofList entries⟩

/-- The root task of a goal. -/
def root? (table : RootTable) (goal : GoalId) : Option TaskId :=
  table.roots.get? goal

/-- The goals with their roots, in ascending order of the goals. -/
def toList (table : RootTable) : List (GoalId × TaskId) :=
  table.roots.entries

end RootTable

end AgentPlanning
