import AgentPlanning.Condition

/-!
# Goals

A goal names a condition that planning should bring about and the weight of the search
heuristic. Goals are addressed by their position in a table.
-/

namespace AgentPlanning

/-- A goal: its position in the table of goals. -/
abbrev GoalId := Nat

/-- How a goal is planned for. -/
inductive PlanningStrategy where
  | search
  | decomposition
deriving DecidableEq, Inhabited, Repr

/-- A condition to bring about. -/
structure Goal where
  /-- What must hold in the end. -/
  condition : Condition
  /-- The estimated cost of each unsatisfied atom. -/
  weight : UInt32 := 1
deriving DecidableEq

/-- Whether the goal holds in `state`. -/
def Goal.holdsIn (goal : Goal) (state : WorldState) : Bool :=
  state.satisfies goal.condition

/-- Named goals in the order of their ids. -/
structure GoalTable where
  goals : Array (String × Goal)
deriving DecidableEq

namespace GoalTable

/-- The table of the given goals. -/
def ofList (goals : List (String × Goal)) : GoalTable := ⟨goals.toArray⟩

/-- The number of goals. -/
def size (table : GoalTable) : Nat := table.goals.size

/-- The goal of an id. -/
def get? (table : GoalTable) (goal : GoalId) : Option Goal :=
  table.goals[goal]?.map Prod.snd

/-- The name of a goal. -/
def name? (table : GoalTable) (goal : GoalId) : Option String :=
  table.goals[goal]?.map Prod.fst

/-- The first goal of the given name. -/
def find? (table : GoalTable) (name : String) : Option GoalId :=
  table.goals.findIdx? (·.1 == name)

/-- The goals with their ids in ascending order. -/
def toList (table : GoalTable) : List (GoalId × Goal) :=
  table.goals.toList.zipIdx.map fun ((_, goal), id) => (id, goal)

end GoalTable

end AgentPlanning
