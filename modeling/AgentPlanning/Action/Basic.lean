import AgentPlanning.Condition
import AgentPlanning.Order.Basic

/-!
# Actions

An action can be taken in the states that satisfy its precondition, changes the state by its
postcondition, and is carried out by submitting an order.
-/

namespace AgentPlanning

/-- An action: its position in the list of actions. -/
abbrev ActionId := Nat

/-- How an action is carried out. -/
inductive Executor where
  /-- By submitting an order. -/
  | submitOrder
deriving DecidableEq, Inhabited

/-- What an action needs, what it changes, what it costs, and the order that carries it out. -/
structure Action where
  name : String
  /-- What must hold for the action to be taken. -/
  pre : Condition
  /-- What the action writes to the state. -/
  post : Condition
  cost : UInt32
  /-- How the action is carried out. -/
  executor : Executor := .submitOrder
  /-- The fixed part of the order. -/
  order : OrderTemplate := {}
  /-- The parameters that the order takes from the blackboard. -/
  bindings : List Binding := []
deriving DecidableEq

end AgentPlanning
