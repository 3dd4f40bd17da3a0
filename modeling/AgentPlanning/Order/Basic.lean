import AgentPlanning.Blackboard

/-!
# Orders

An order asks the game to let an actor do something. The template of an order is fixed by
the action; its parameters are bound from the blackboard when the action is executed.
-/

namespace AgentPlanning

/-- The kind of an order, as the game numbers them. -/
abbrev OrderTag := UInt32

/-- How an order joins the orders that its actor already has. -/
inductive SubmitMode where
  /-- The order replaces the others. -/
  | replace
  /-- The order goes after the others. -/
  | append
  /-- The order goes before the others. -/
  | prepend
deriving DecidableEq, Inhabited

/-- The part of an order that the action fixes. -/
structure OrderTemplate where
  /-- The kind of the order. -/
  tag : OrderTag := 0
  /-- How the order is submitted. -/
  mode : SubmitMode := .replace
  /-- The player on whose behalf the order is given. -/
  player : UInt32 := 0
deriving DecidableEq, Inhabited

/-- Takes one parameter of an order from the blackboard. -/
inductive Binding where
  /-- An integer becomes the argument in a slot. -/
  | intToArg (key : IntKey) (slot : UInt8)
  /-- An entity becomes the target. -/
  | entityToTarget (key : EntityKey)
  /-- An entity becomes the context of the target. -/
  | entityToTargetContext (key : EntityKey)
deriving DecidableEq

/-- An order with its parameters. -/
structure Order where
  /-- The kind of the order. -/
  tag : OrderTag
  /-- How the order is submitted. -/
  mode : SubmitMode
  /-- The player on whose behalf the order is given. -/
  player : UInt32
  /-- The entity that carries the order out. -/
  actor : EntityRef
  /-- The entity that the order is about. -/
  target : Option EntityRef
  /-- A second entity that qualifies the target. -/
  targetContext : Option EntityRef
  /-- The integer arguments. -/
  args : Vector Int32 4
deriving DecidableEq

namespace Order

/-- The order of a template, with no parameter bound yet. -/
def ofTemplate (template : OrderTemplate) (actor : EntityRef) : Order where
  tag := template.tag
  mode := template.mode
  player := template.player
  actor := actor
  target := none
  targetContext := none
  args := Vector.replicate 4 0

/-- Binds one parameter. A slot that the order does not have and a key without a value leave
the order as it is. -/
def bindOne (view : BlackboardView) (order : Order) : Binding → Order
  | .intToArg key slot =>
    if h : slot.toNat < 4 then
      match view.int? key with
      | some value => { order with args := order.args.set slot.toNat value h }
      | none => order
    else order
  | .entityToTarget key =>
    match view.entity? key with
    | some entity => { order with target := some entity }
    | none => order
  | .entityToTargetContext key =>
    match view.entity? key with
    | some entity => { order with targetContext := some entity }
    | none => order

/-- Binds parameters in order, so of two bindings for one field the later counts. -/
def bindAll (order : Order) (bindings : List Binding) (view : BlackboardView) : Order :=
  bindings.foldl (bindOne view) order

end Order

end AgentPlanning
