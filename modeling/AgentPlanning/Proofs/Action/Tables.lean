import AgentPlanning.Action.Library
import AgentPlanning.Proofs.Span

/-!
# Reading Actions back from their Tables

Actions are added to the end of two tables, so the range of an action's parameters keeps its rows.
Main statement:

* `ActionLibrary.get?_ofList`: the library of a list of actions has each of them at its position,
  with its parameters in order, and no other.
-/

namespace AgentPlanning

namespace ActionTable

/-- The action of a row whose parameters are the given ones. -/
def ofRow (row : ActionRow) (bindings : List Binding) : Action where
  name := row.name
  pre := row.pre
  post := row.post
  cost := row.cost
  executor := row.executor
  order := row.order
  bindings := bindings

/-- The tables of a list of actions are read back as the list. -/
theorem map_actionOf_ofList (actions : List Action) :
    (ofList actions).actions.toList.map (ofList actions).actionOf = actions := by
  have hadd (table : ActionTable) (action : Action) :
      ∃ row, (table.add action).actions.toList = table.actions.toList ++ [row] ∧
        (table.add action).bindings = table.bindings ++ action.bindings.toArray ∧
        row.bindings = ⟨table.bindings.size, action.bindings.length⟩ ∧
        ofRow row action.bindings = action :=
    ⟨_, Array.toList_push, Span.appendList_eq_append_toArray .., rfl, rfl⟩
  exact (Span.foldl_fills (fun table => table.actions.toList) ActionTable.bindings
    ActionRow.bindings Action.bindings ofRow hadd {} rfl rfl actions).2

end ActionTable

theorem ActionLibrary.map_name_get? (library : ActionLibrary) (action : ActionId) :
    (library.get? action).map (·.name) = library.actions[action]?.map (·.name) := by
  rw [get?, Option.map_map]
  rfl

/-- A library has the actions that it was built from at their positions. -/
theorem ActionLibrary.get?_ofList (actions : List Action) (id : ActionId) :
    (ofList actions).get? id = actions[id]? := by
  conv_rhs => rw [← ActionTable.map_actionOf_ofList actions]
  rw [List.getElem?_map, Array.getElem?_toList]
  rfl

end AgentPlanning
