import AgentPlanning.Proofs.Search.MapRefinement

/-!
# Searches and what Came before Them

The table of visited states outlives a search, and with it the entries of earlier searches. None
of them shows: after any history of calls the table is of the size that the budget asks for, and
a search with such a table ends as the search with a plain map does. Main statements:

* `ready_afterAll`: the table after a history of calls;
* `Ready.plan_eq`: two planners of the same budgets find the same plan, whatever they did before;
* `answer_eq_mapSearch`: a call answers and counts as the search with a plain map does.
-/

namespace AgentPlanning

/-- A search leaves a table of the same size. -/
theorem size_search (problem : SearchProblem) (nodeLimit : Nat) (left : Search) :
    (problem.search nodeLimit left).search.table.slots.size = left.table.slots.size :=
  Search.table_search (P := fun t => t.slots.size = left.table.slots.size)
    (fun stored slot index h => (stored.size_store slot index).trans h) problem nodeLimit
    left.table.size_clear

/-! ## Planners with different histories -/

namespace SearchPlanner

variable {budget : SearchBudget} {planner other : SearchPlanner}

/-- The planner has the given budgets and a table for them. -/
structure Ready (planner : SearchPlanner) (budget : SearchBudget) : Prop where
  budget_eq : planner.budget = budget
  bounded : planner.latest.table.Bounded
  size_eq : planner.latest.table.slots.size = StateTable.slotCount budget.nodes

theorem ready_ofBudget (budget : SearchBudget) : (ofBudget budget).Ready budget where
  budget_eq := rfl
  bounded := StateTable.bounded_ofCapacity budget.nodes
  size_eq := Array.size_replicate

theorem Ready.after (h : planner.Ready budget) (call : Call) :
    (planner.after call).Ready budget := by
  obtain ⟨htable, hbudget⟩ := planner.after_eq call
  refine ⟨hbudget.trans h.budget_eq, ?_, ?_⟩
  · rw [htable]
    exact Search.bounded_search _ _ h.bounded
  · rw [htable]
    exact (size_search _ _ _).trans h.size_eq

/-- After any history of calls the table has the size that the budget asks for. -/
theorem ready_afterAll (budget : SearchBudget) (history : List Call) :
    (afterAll budget history).Ready budget :=
  List.foldlRecOn history after (motive := fun planner => planner.Ready budget)
    (ready_ofBudget budget) fun _ h call _ => h.after call

/-- A planner searches as one without a table does. -/
theorem Ready.mapSearch_eq (h : planner.Ready budget) (problem : SearchProblem) :
    (∀ space, (problem.mapSearch budget.nodes).plan space =
      extractPlan (problem.search budget.nodes planner.latest) space) ∧
    (problem.mapSearch budget.nodes).search.stats =
      (problem.search budget.nodes planner.latest).search.stats :=
  problem.mapSearch_eq h.bounded (h.size_eq ▸ StateTable.lt_slotCount budget.nodes)

variable (library : ActionLibrary) (start : WorldState) (goal : Condition) (weight : UInt32)

theorem Ready.plan (h : planner.Ready budget) :
    (planner.plan library start goal weight).2.Ready budget :=
  h.after (.plan library start goal weight)

/-- What a planner answers depends on its budgets only. -/
theorem Ready.plan_eq (h : planner.Ready budget) (h' : other.Ready budget) :
    (planner.plan library start goal weight).1 = (other.plan library start goal weight).1 := by
  rw [plan_fst, plan_fst, h.budget_eq, h'.budget_eq, ← (h.mapSearch_eq _).1,
    ← (h'.mapSearch_eq _).1]

/-- A planner keeps the plan that it answered with, and no plan if it failed. -/
theorem latestPlan_plan (planner : SearchPlanner) :
    (planner.plan library start goal weight).2.latestPlan =
      (planner.plan library start goal weight).1.toOption.getD [] := by
  rw [plan]
  dsimp only [latestPlan]
  cases (fillBuffer _ planner.output).1 <;> rfl

variable (budget) (history : List Call) (call : Call)

theorem answer_eq_plan : (afterAll budget history).answer call =
    (call.problem.mapSearch budget.nodes).plan (call.space budget) := by
  rw [answer_eq, budget_afterAll]
  exact (((ready_afterAll budget history).mapSearch_eq call.problem).1 _).symm

theorem latestStats_eq_stats : ((afterAll budget history).after call).latestStats =
    (call.problem.mapSearch budget.nodes).search.stats := by
  rw [latestStats_after, budget_afterAll]
  exact ((ready_afterAll budget history).mapSearch_eq call.problem).2.symm

/-- The table is an optimisation only. Whatever calls a planner has answered before, a call answers
and counts as the search with a plain map does that is empty when the call begins. -/
theorem answer_eq_mapSearch :
    (afterAll budget history).answer call =
        (call.problem.mapSearch budget.nodes).plan (call.space budget) ∧
      ((afterAll budget history).after call).latestStats =
        (call.problem.mapSearch budget.nodes).search.stats :=
  ⟨answer_eq_plan budget history call, latestStats_eq_stats budget history call⟩

end SearchPlanner

end AgentPlanning
