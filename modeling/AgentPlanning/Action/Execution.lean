import AgentPlanning.Action.Library
import AgentPlanning.Order.Queue

/-!
# Executing Actions

Executing an action submits its order: the order's parameters are bound from the blackboard
and the order joins the queue. A failed execution leaves the queue as it was.
-/

namespace AgentPlanning

/-- Why an action was not executed. -/
inductive ExecutionError where
  /-- The library has no such action. -/
  | unknownAction (action : ActionId)
  /-- The queue refused the order. -/
  | queueFull (action : ActionId)
deriving DecidableEq, Repr

/-- The wording of the error. -/
def ExecutionError.message : ExecutionError → String
  | unknownAction action => s!"unknown action id {action}"
  | queueFull action => s!"order queue is full; order for action {action} dropped"

/-- The order of an action, given by `actor` with the values of the blackboard. -/
def Action.orderFor (action : Action) (actor : EntityRef)
    (view : BlackboardView) : Order :=
  (Order.ofTemplate action.order actor).bindAll action.bindings view

/-- Submits the order of an action and returns it together with the queue. -/
def ActionLibrary.execute (library : ActionLibrary) (action : ActionId) (actor : EntityRef)
    (view : BlackboardView) (queue : OrderQueue) : Except ExecutionError Order × OrderQueue :=
  match library.get? action with
  | none => (.error (.unknownAction action), queue)
  | some planned =>
    match planned.executor with
    | .submitOrder =>
      let order := planned.orderFor actor view
      match queue.enqueue? order with
      | some queue => (.ok order, queue)
      | none => (.error (.queueFull action), queue)

end AgentPlanning
