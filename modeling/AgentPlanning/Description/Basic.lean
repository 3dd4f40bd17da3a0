import AgentPlanning.Goal
import AgentPlanning.Order.Basic
import AgentPlanning.Action.Basic

/-!
# Domain Descriptions

A domain is described with names: atoms, actions, goals, tasks and blackboard values are all
referred to by the names under which they are declared or known to the game. Reading and
watching files is the host's business; here a description is a value.
-/

namespace AgentPlanning

/-- One atom and its required or written value. -/
structure Description.Fact where
  atom : String
  value : Bool := true
deriving DecidableEq, Inhabited

/-- A test of one blackboard value, which is referred to by name. -/
inductive Description.Test where
  /-- The integer is present and equal to `value`. -/
  | intEquals (key : String) (value : Int32)
  /-- The integer is present and at least `value`. -/
  | intAtLeast (key : String) (value : Int32)
  /-- The integer is present and at most `value`. -/
  | intAtMost (key : String) (value : Int32)
  /-- The entity is present. -/
  | entityPresent (key : String)
  /-- The entity is absent. -/
  | entityAbsent (key : String)
deriving DecidableEq

/-- An atom and the test that decides it. -/
structure Description.Projection where
  atom : String
  test : Description.Test
deriving DecidableEq

/-- The fixed part of an action's order. -/
structure Description.Order where
  /-- The name of the order tag. -/
  tag : String
  /-- How the order is submitted. -/
  mode : SubmitMode := .replace
  /-- The player on whose behalf the order is given. -/
  player : UInt32 := 0
deriving DecidableEq

/-- A parameter that an order takes from the blackboard. -/
inductive Description.Binding where
  /-- An integer becomes the argument in a slot. -/
  | intToArg (key : String) (slot : UInt8)
  /-- An entity becomes the target. -/
  | entityToTarget (key : String)
  /-- An entity becomes the context of the target. -/
  | entityToTargetContext (key : String)
deriving DecidableEq

/-- An action. -/
structure Description.Action where
  name : String
  /-- The facts that the action needs. -/
  pre : List Description.Fact := []
  /-- The facts that the action brings about. -/
  post : List Description.Fact := []
  cost : UInt32 := 1
  /-- How the action is carried out. -/
  executor : Executor := .submitOrder
  /-- The order of the action; without one the default order is submitted. -/
  order : Option Description.Order := none
  /-- The parameters of the order. -/
  bindings : List Description.Binding := []
deriving DecidableEq

/-- A goal. Its position among the goals is its id. -/
structure Description.Goal where
  name : String
  /-- The facts that the goal asks for. -/
  condition : List Description.Fact := []
  /-- The estimated cost of each unsatisfied fact. -/
  weight : UInt32 := 1
  /-- The task that is decomposed when the goal is planned by decomposition. -/
  root : Option String := none
deriving DecidableEq

/-- A part of what a method does, referred to by name. -/
inductive Description.Subtask where
  | action (name : String)
  | task (name : String)
deriving DecidableEq

/-- A method of a task. -/
structure Description.Method where
  name : String
  /-- The facts under which the method applies. -/
  condition : List Description.Fact := []
  /-- The method of the least cost is tried first. -/
  cost : UInt32 := 0
  /-- What the method does, in order. -/
  subtasks : List Description.Subtask := []
deriving DecidableEq

/-- A compound task. -/
structure Description.Task where
  name : String
  /-- The methods; of methods of equal cost the earlier is preferred. -/
  methods : List Description.Method := []
deriving DecidableEq

/-- One factor in the score of a goal. -/
inductive Description.Consideration where
  /-- One of two scores, depending on whether an atom holds. -/
  | atom (atom : String) (ifTrue ifFalse : Float32)
  /-- A score that goes from `low` to `high` while an integer goes from `min` to `max`. -/
  | intRange (key : String) (min max : Int32) (low high : Float32)
deriving DecidableEq

/-- A goal that an agent may choose. -/
structure Description.GoalOption where
  goal : String
  /-- How the goal is planned for. -/
  strategy : PlanningStrategy := .search
  /-- The score before any consideration. -/
  base : Float32 := 1
  /-- The factors of the score. -/
  considerations : List Description.Consideration := []
deriving DecidableEq

/-- The description of a domain. -/
structure Description where
  /-- The names of the atoms in the order of their ids. -/
  atoms : List String := []
  /-- How atoms are derived from the blackboard. -/
  projections : List Description.Projection := []
  /-- The actions in the order of their ids. -/
  actions : List Description.Action := []
  /-- The goals in the order of their ids. -/
  goals : List Description.Goal := []
  /-- The tasks in the order of their ids. -/
  tasks : List Description.Task := []
  /-- The goals that an agent may choose. -/
  options : List Description.GoalOption := []
  /-- A goal that scores less is never chosen. -/
  threshold : Float32 := 0
deriving DecidableEq

end AgentPlanning
