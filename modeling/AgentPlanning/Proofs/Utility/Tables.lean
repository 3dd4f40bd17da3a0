import AgentPlanning.Proofs.Span
import AgentPlanning.Utility

/-!
# Reading Goals back from their Tables

A goal to choose from is added to the end of two tables, so the range of its considerations keeps
its rows. Main statement:

* `GoalRows.options_ofList`: the tables are read back as the goals they were made from, each with
  its own considerations in order.
-/

namespace AgentPlanning

namespace GoalRows

/-- The goal of a row whose considerations are the given ones. -/
def ofRow (row : GoalRow) (considerations : List Consideration) : GoalOption where
  goal := row.goal
  strategy := row.strategy
  base := row.base
  considerations := considerations

/-- The tables of a list of goals are read back as the list. -/
theorem options_ofList (options : List GoalOption) : (ofList options).options = options := by
  have hadd (table : GoalRows) (option : GoalOption) :
      ∃ row, (table.add option).rows.toList = table.rows.toList ++ [row] ∧
        (table.add option).considerations =
          table.considerations ++ option.considerations.toArray ∧
        row.considerations = ⟨table.considerations.size, option.considerations.length⟩ ∧
        ofRow row option.considerations = option :=
    ⟨_, Array.toList_push, Span.appendList_eq_append_toArray .., rfl, rfl⟩
  exact (Span.foldl_fills (fun table => table.rows.toList) GoalRows.considerations
    GoalRow.considerations GoalOption.considerations ofRow hadd {} rfl rfl options).2

end GoalRows

@[simp]
theorem GoalSelector.options_ofList (goals : List GoalOption) (threshold : Float32) :
    (ofList goals threshold).table.options = goals :=
  GoalRows.options_ofList goals

end AgentPlanning
