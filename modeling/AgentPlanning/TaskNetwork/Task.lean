import AgentPlanning.Action.Basic

/-!
# Tasks and Methods

A compound task is done by one of its methods. A method applies in the states that satisfy its
condition and breaks the task down into actions and further tasks, to be done in order. Methods
of lower cost are preferred, and among methods of equal cost the one that is declared first.
-/

namespace AgentPlanning

/-- A compound task: its position in the list of tasks. -/
abbrev TaskId := Nat

/-- A method: its position in the list of the methods of all tasks. -/
abbrev MethodId := Nat

/-- One part of what a method does. -/
inductive Subtask where
  /-- An action to take. -/
  | action (action : ActionId)
  /-- A task to break down further. -/
  | compound (task : TaskId)
deriving DecidableEq, Repr

/-- One way to do a task. -/
structure Method where
  name : String
  /-- Where the method applies. -/
  condition : Condition := .free
  /-- The method of the least cost is tried first. -/
  cost : UInt32 := 0
  /-- What the method does, in order. -/
  subtasks : List Subtask := []
deriving DecidableEq, Repr

/-- A compound task and the ways to do it. -/
structure Task where
  name : String
  /-- The methods in order of declaration. -/
  methods : List Method := []
deriving DecidableEq, Repr

end AgentPlanning
