import AgentPlanning.Proofs.Search.Calls
import AgentPlanning.Proofs.Search.CostBound

/-!
# What the Answers of a Search Planner Mean

The answer of a call does not depend on luck: a plan leads from the start to the goal, a call
without a solution has none, and the cost of a plan is bounded by that of every other. All of
this holds whatever calls the planner has answered before. Main statements:

* `executes_of_answer`: a plan can be carried out, reaches the goal and visits no state twice;
* `not_solvable_of_answer`: if the goal is called unreachable then no plan reaches it;
* `planCost_le_of_answer`: a plan costs at most a multiple of what any other plan costs, for a
  heuristic that is consistent up to this multiple.
-/

namespace AgentPlanning

namespace SearchPlanner

/-- Two ways across a wall: a leap, or a walk to the wall (atom 0) and a climb to the other side
(atom 1). The leap is found first, and the climb replaces it. -/
def crossing : ActionLibrary := .ofList [
  { name := "leap", pre := .free, post := (Condition.free.require 0 true).require 1 true,
    cost := 9 },
  { name := "walk", pre := .free, post := Condition.free.require 0 true, cost := 1 },
  { name := "climb", pre := Condition.free.require 0 true, post := Condition.free.require 1 true,
    cost := 1 }]

/-- Asks for a way across the wall. -/
def crossingCall : Call := .plan crossing .empty (Condition.free.require 1 true) 0

/-- Asks for a way across the wall, with an estimate of one as long as the wall is not crossed. -/
def guidedCall : Call := .plan crossing .empty (Condition.free.require 1 true) 1

/-- Asks for a way across the wall, without space for it. -/
def crampedCall : Call := .planToBuffer crossing .empty (Condition.free.require 1 true) 0 #[]

/-- Asks for a way to a place that no action leads to (atom 2). -/
def vainCall : Call := .planToBuffer crossing .empty (Condition.free.require 2 true) 5 #[7, 8]

/-- Two chores: sweeping (atom 0), which takes a broom (atom 2), and airing (atom 1). -/
def chores : ActionLibrary := .ofList [
  { name := "sweep", pre := Condition.free.require 2 true, post := Condition.free.require 0 true,
    cost := 3 },
  { name := "air", pre := .free, post := Condition.free.require 1 true, cost := 3 }]

/-- Asks for both chores to be done, where a broom is at hand. -/
def choresCall : Call :=
  .plan chores (WorldState.empty.set 2 true) ((Condition.free.require 0 true).require 1 true) 0

theorem answer_crossingCall :
    (afterAll ⟨3, 2⟩ [crampedCall]).answer crossingCall = .ok [1, 2] := by
  decide +kernel

variable {budget : SearchBudget} {history : List Call} {call : Call} {plan : List ActionId}

/-- A plan that is returned consists of actions of the library, can be carried out from the
start, ends in a state that satisfies the goal, and visits no state twice. -/
theorem executes_of_answer (h : (afterAll budget history).answer call = .ok plan) :
    (∀ action ∈ plan, call.problem.library.contains action = true) ∧
    ∃ final, call.problem.library.Executes call.problem.start plan final ∧
      final.satisfies call.problem.goal = true ∧
      (call.problem.library.visited call.problem.start plan).Nodup := by
  obtain ⟨i, hok, rfl⟩ := exists_of_answer_ok h
  obtain ⟨tree, node, hnode, hgoal⟩ := Search.exists_of_search_ok (bounded_afterAll _ _) hok
  -- The node was reached on a route of the tree, which is what the answer reads off.
  obtain ⟨route, hroute⟩ := tree.routed (lt_size_of_getElem? hnode)
  rw [hroute.pathTo_eq tree]
  have hexecutes := tree.executes_of_route hroute hnode
  exact ⟨hexecutes.contains, node.state, hexecutes, hgoal, tree.nodup_visited hroute⟩

theorem executes_crossing :
    (afterAll ⟨3, 2⟩ [crampedCall]).answer crossingCall = .ok [1, 2] ∧
    (∀ action ∈ [1, 2], crossing.contains action = true) ∧
    ∃ final, crossing.Executes .empty [1, 2] final ∧
      final.satisfies (Condition.free.require 1 true) = true ∧
      (crossing.visited .empty [1, 2]).Nodup :=
  ⟨answer_crossingCall, executes_of_answer answer_crossingCall⟩

/-- If the answer is that the goal cannot be reached, then no plan reaches it. -/
theorem not_solvable_of_answer (h : (afterAll budget history).answer call = .error .unreachable) :
    ¬∃ plan final, call.problem.library.Executes call.problem.start plan final ∧
      final.satisfies call.problem.goal = true := by
  rintro ⟨plan, final, hexecutes, hgoal⟩
  have hnot := Search.not_executes_of_search_unreachable (bounded_afterAll budget history)
    (outcome_of_answer_unreachable h) hexecutes
  rw [hgoal] at hnot
  cases hnot

theorem not_solvable_vain :
    (afterAll ⟨3, 2⟩ [crossingCall]).answer vainCall = .error .unreachable ∧
    ¬∃ plan final, crossing.Executes .empty plan final ∧
      final.satisfies (Condition.free.require 2 true) = true := by
  have hanswer : (afterAll ⟨3, 2⟩ [crossingCall]).answer vainCall = .error .unreachable := by
    decide +kernel
  exact ⟨hanswer, not_solvable_of_answer hanswer⟩

/-- A plan that is returned costs at most `factor` times as much as any other plan that reaches
the goal, if no action lowers the weighted count of unsatisfied atoms by more than `factor`
times its cost. The costs in question have to be ones that a search can distinguish. -/
theorem planCost_le_of_answer {factor : Nat} (hconsistent : call.problem.Consistent factor)
    (hfactor : 1 ≤ factor) (h : (afterAll budget history).answer call = .ok plan)
    {other : List ActionId} {final : WorldState}
    (hexecutes : call.problem.library.Executes call.problem.start other final)
    (hgoal : final.satisfies call.problem.goal = true) :
    ∃ cost otherCost, call.problem.library.planCost? plan = some cost ∧
      call.problem.library.planCost? other = some otherCost ∧
      (factor * otherCost < maxCost → cost ≤ factor * otherCost) := by
  obtain ⟨i, hok, rfl⟩ := exists_of_answer_ok h
  obtain ⟨tree, node, hnode, -⟩ := Search.exists_of_search_ok (bounded_afterAll _ _) hok
  obtain ⟨route, hroute⟩ := tree.routed (lt_size_of_getElem? hnode)
  rw [hroute.pathTo_eq tree]
  obtain ⟨cost, hcost⟩ := (tree.executes_of_route hroute hnode).exists_planCost?
  obtain ⟨otherCost, hother⟩ := hexecutes.exists_planCost?
  refine ⟨cost, otherCost, hcost, hother, fun hrange => ?_⟩
  have hle := Search.cost_le_of_search_ok (bounded_afterAll _ _) hconsistent hfactor hok hnode
    hexecutes hgoal hother
  -- The node costs less than the greatest cost, so its cost is that of the route or more.
  obtain ⟨routeCost, hrouteCost, hrouteLe⟩ :=
    tree.planCost_le hroute hnode (Nat.lt_of_le_of_lt hle hrange)
  obtain rfl := Option.some.inj (hcost.symm.trans hrouteCost)
  exact Nat.le_trans hrouteLe hle

/-- Without a heuristic the walk and the climb cost no more than the leap. -/
theorem planCost_le_crossing :
    crossingCall.problem.Consistent 1 ∧ 1 ≤ 1 ∧
    (afterAll ⟨3, 2⟩ [crampedCall]).answer crossingCall = .ok [1, 2] ∧
    crossing.Executes .empty [0] (crossing.apply 0 .empty) ∧
    (crossing.apply 0 .empty).satisfies (Condition.free.require 1 true) = true ∧
    ∃ cost otherCost, crossing.planCost? [1, 2] = some cost ∧
      crossing.planCost? [0] = some otherCost ∧
      (1 * otherCost < maxCost → cost ≤ 1 * otherCost) := by
  have hconsistent : crossingCall.problem.Consistent 1 := by
    intro action state _
    show 0 * _ ≤ _
    rw [Nat.zero_mul]
    exact Nat.zero_le _
  have hexecutes : crossing.Executes .empty [0] (crossing.apply 0 .empty) :=
    .cons (by decide +kernel) (.nil _)
  have hgoal : (crossing.apply 0 .empty).satisfies (Condition.free.require 1 true) = true := by
    decide +kernel
  exact ⟨hconsistent, Nat.le_refl 1, answer_crossingCall, hexecutes, hgoal,
    planCost_le_of_answer hconsistent (Nat.le_refl 1) answer_crossingCall hexecutes hgoal⟩

end SearchPlanner

end AgentPlanning
