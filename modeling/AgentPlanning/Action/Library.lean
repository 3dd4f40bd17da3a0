import AgentPlanning.Action.Index
import AgentPlanning.Span

/-!
# Action Libraries

A library holds the actions that a planner may use, addressed by position, together with the
index of candidates. The parameters of all orders stand in one flat table, of which each action has
a range. An id that is not in the library is never applicable, changes no state and has no cost.
-/

namespace AgentPlanning

/-- A row of the table of actions. -/
structure ActionRow where
  name : String
  /-- What must hold for the action to be taken. -/
  pre : Condition
  /-- What the action writes to the state. -/
  post : Condition
  cost : UInt32
  /-- How the action is carried out. -/
  executor : Executor
  /-- The fixed part of the order. -/
  order : OrderTemplate
  /-- The rows of the order's parameters. -/
  bindings : Span
deriving DecidableEq

/-- Actions and the parameters of their orders in flat tables. -/
structure ActionTable where
  actions : Array ActionRow := #[]
  bindings : Array Binding := #[]
deriving DecidableEq

namespace ActionTable

/-- The tables with an action added to them. -/
def add (table : ActionTable) (action : Action) : ActionTable :=
  let entry : ActionRow :=
    { name := action.name
      pre := action.pre
      post := action.post
      cost := action.cost
      executor := action.executor
      order := action.order
      bindings := ⟨table.bindings.size, action.bindings.length⟩ }
  { actions := table.actions.push entry
    bindings := table.bindings.appendList action.bindings }

/-- The tables of the given actions. -/
def ofList (actions : List Action) : ActionTable :=
  actions.foldl add {}

/-- The action of a row. -/
def actionOf (table : ActionTable) (row : ActionRow) : Action where
  name := row.name
  pre := row.pre
  post := row.post
  cost := row.cost
  executor := row.executor
  order := row.order
  bindings := row.bindings.read table.bindings

end ActionTable

/-- Indexed actions. -/
structure ActionLibrary extends ActionTable where
  /-- The candidates of each state. -/
  index : ActionIndex
  /-- The index is that of the actions' preconditions. -/
  index_eq : index = .build (actions.toList.map (·.pre))
deriving DecidableEq

namespace ActionLibrary

/-- The library of the given actions. -/
def ofList (actions : List Action) : ActionLibrary :=
  let table := ActionTable.ofList actions
  { table with
    index := .build (table.actions.toList.map (·.pre))
    index_eq := rfl }

/-- The number of actions. -/
def size (library : ActionLibrary) : Nat := library.actions.size

/-- A row of the table of actions. -/
def row? (library : ActionLibrary) (action : ActionId) : Option ActionRow :=
  library.actions[action]?

/-- The action of an id. -/
def get? (library : ActionLibrary) (action : ActionId) : Option Action :=
  (library.row? action).map library.actionOf

/-- Whether the id belongs to an action of the library. -/
def contains (library : ActionLibrary) (action : ActionId) : Bool :=
  action < library.size

/-- The ids of all actions in ascending order. -/
def ids (library : ActionLibrary) : List ActionId :=
  List.range library.size

/-- The first action of the given name. -/
def find? (library : ActionLibrary) (name : String) : Option ActionId :=
  library.actions.findIdx? (·.name == name)

/-- The cost of an action. -/
def cost? (library : ActionLibrary) (action : ActionId) : Option UInt32 :=
  (library.row? action).map (·.cost)

/-- Whether the action can be taken in `state`. -/
def isApplicable (library : ActionLibrary) (action : ActionId) (state : WorldState) : Bool :=
  (library.row? action).any fun row => state.satisfies row.pre

/-- The state after the action. -/
def apply (library : ActionLibrary) (action : ActionId) (state : WorldState) : WorldState :=
  match library.row? action with
  | some row => state.apply row.post
  | none => state

/-- The actions worth testing in `state`. -/
def candidates (library : ActionLibrary) (state : WorldState) : List ActionId :=
  library.index.candidates state

/-- The actions that can be taken in `state`, in the order of candidates. -/
def applicable (library : ActionLibrary) (state : WorldState) : List ActionId :=
  (library.candidates state).filter (library.isApplicable · state)

/-- The sum of the costs of a plan; `none` if one of its ids is not in the library. -/
def planCost? (library : ActionLibrary) : List ActionId → Option Nat
  | [] => some 0
  | action :: rest => do
    let cost ← library.cost? action
    let sum ← library.planCost? rest
    return cost.toNat + sum

end ActionLibrary

end AgentPlanning
