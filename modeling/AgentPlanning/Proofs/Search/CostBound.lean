import AgentPlanning.Proofs.Search.Outcome
import AgentPlanning.Proofs.WorldState.Atomwise

/-!
# The Cost of the Plan that is Found

If an action lowers the weighted count of unsatisfied atoms by at most a multiple of its cost,
then the estimate of a state is at most that multiple of the cost of any plan from there to the
goal. Along every such plan there is an open node until the search ends, and its estimated total
cost is no more than the multiple of the cost of the plan. The node that is found came up before
it. Main statements:

* `weighted_mismatches_le`: the estimate along a plan;
* `exists_open_of_executes`: the open entry along a plan;
* `cost_le_of_search_ok`: the bound on the node that is found.
-/

namespace AgentPlanning

/-- No action lowers the weighted count of unsatisfied atoms by more than `factor` times its
cost. -/
def SearchProblem.Consistent (problem : SearchProblem) (factor : Nat) : Prop :=
  ∀ action state, problem.library.isApplicable action state = true →
    problem.weight.toNat * problem.goal.mismatches state ≤
      problem.weight.toNat * problem.goal.mismatches (problem.library.apply action state) +
        factor * problem.library.actionCost action

variable {problem : SearchProblem} {factor : Nat}

theorem SearchProblem.estimate_le (problem : SearchProblem) (state : WorldState) :
    problem.estimate state ≤ problem.weight.toNat * problem.goal.mismatches state := by
  rw [estimate, Nat.mul_comm problem.weight.toNat]
  exact Nat.min_le_left _ _

/-- A plan that reaches the goal costs at least the weighted count of unsatisfied atoms, divided
by the factor. -/
theorem weighted_mismatches_le (hconsistent : problem.Consistent factor) {start final : WorldState}
    {plan : List ActionId} (h : problem.library.Executes start plan final)
    (hgoal : final.satisfies problem.goal = true) {cost : Nat}
    (hcost : problem.library.planCost? plan = some cost) :
    problem.weight.toNat * problem.goal.mismatches start ≤ factor * cost := by
  induction h generalizing cost with
  | nil => rw [Condition.mismatches_eq_zero_iff.2 hgoal, Nat.mul_zero]; exact Nat.zero_le _
  | @cons state _ action rest applicable _ ih =>
    rw [ActionLibrary.planCost?_cons _ (ActionLibrary.contains_of_isApplicable applicable)] at hcost
    obtain ⟨costRest, hrest, rfl⟩ := Option.map_eq_some_iff.1 hcost
    calc problem.weight.toNat * problem.goal.mismatches state
        ≤ problem.weight.toNat * problem.goal.mismatches (problem.library.apply action state) +
            factor * problem.library.actionCost action := hconsistent action state applicable
      _ ≤ factor * costRest + factor * problem.library.actionCost action :=
          Nat.add_le_add_right (ih hgoal hrest) _
      _ = factor * (problem.library.actionCost action + costRest) := by
          rw [Nat.mul_add, Nat.add_comm]

namespace Search

variable {nodeLimit : Nat} {s : Search}

/-- An open node on the way to the goal has an entry within the bound. -/
theorem exists_estimate_le (hestimated : Estimated problem s)
    (hconsistent : problem.Consistent factor) {i : NodeIndex} (hopen : IsOpen s i) {node : Node}
    (hnode : s.nodes[i]? = some node) {final : WorldState} {plan : List ActionId}
    (h : problem.library.Executes node.state plan final)
    (hgoal : final.satisfies problem.goal = true) {cost : Nat}
    (hcost : problem.library.planCost? plan = some cost) :
    ∃ entry ∈ s.openList.toList, entry.estimate ≤ node.cost + factor * cost := by
  obtain ⟨known, hknown, entry, hmem, hindex, hentry⟩ := hopen
  obtain rfl := Option.some.inj (hnode.symm.trans hknown)
  obtain ⟨own, hown, hestimate⟩ := hestimated entry hmem
  rw [hindex] at hown
  obtain rfl := Option.some.inj (hnode.symm.trans hown)
  refine ⟨entry, hmem, ?_⟩
  calc entry.estimate
      = addCost node.cost (problem.estimate node.state) := by rw [hestimate, hentry]
    _ ≤ node.cost + problem.estimate node.state := Nat.min_le_left _ _
    _ ≤ node.cost + problem.weight.toNat * problem.goal.mismatches node.state :=
        Nat.add_le_add_left (problem.estimate_le _) _
    _ ≤ node.cost + factor * cost :=
        Nat.add_le_add_left (weighted_mismatches_le hconsistent h hgoal hcost) _

/-- Along a plan to the goal, from a node whose cost and `factor` times the cost of the plan stay
within a bound, there is an open entry whose estimate stays within it. -/
theorem exists_open_of_executes (hfrontier : Frontier problem s)
    (hconsistent : problem.Consistent factor) (hfactor : 1 ≤ factor) {start final : WorldState}
    {plan : List ActionId} (h : problem.library.Executes start plan final)
    (hgoal : final.satisfies problem.goal = true) {cost bound : Nat}
    (hcost : problem.library.planCost? plan = some cost) {i : NodeIndex} {node : Node}
    (hnode : s.nodes[i]? = some node) (hstate : node.state = start)
    (hbound : node.cost + factor * cost ≤ bound) :
    ∃ entry ∈ s.openList.toList, entry.estimate ≤ bound := by
  induction h generalizing cost i node with
  | @nil state =>
    subst hstate
    rcases hfrontier.covered i (lt_size_of_getElem? hnode) with hopen | hexpanded
    · -- As long as the node is open, the whole rest of the plan is still ahead of its entry.
      obtain ⟨entry, hmem, hle⟩ :=
        exists_estimate_le hfrontier.estimated hconsistent hopen hnode (.nil _) hgoal hcost
      exact ⟨entry, hmem, Nat.le_trans hle hbound⟩
    · -- An expanded node does not satisfy the goal.
      obtain ⟨known, hknown, hnot, -⟩ := hexpanded
      obtain rfl := Option.some.inj (hnode.symm.trans hknown)
      cases hgoal.symm.trans hnot
  | @cons state final action rest applicable executes ih =>
    subst hstate
    rcases hfrontier.covered i (lt_size_of_getElem? hnode) with hopen | hexpanded
    · obtain ⟨entry, hmem, hle⟩ := exists_estimate_le hfrontier.estimated hconsistent hopen hnode
        (.cons applicable executes) hgoal hcost
      exact ⟨entry, hmem, Nat.le_trans hle hbound⟩
    · -- An expanded node reaches the next state of the plan, at the cost of the action.
      obtain ⟨known, hknown, -, hreaches⟩ := hexpanded
      obtain rfl := Option.some.inj (hnode.symm.trans hknown)
      obtain ⟨j, next, hnext, hsame, hle⟩ := hreaches action applicable
      rw [ActionLibrary.planCost?_cons _
        (ActionLibrary.contains_of_isApplicable applicable)] at hcost
      obtain ⟨costRest, hrest, rfl⟩ := Option.map_eq_some_iff.1 hcost
      refine ih hgoal hrest hnext hsame ?_
      have hadd : addCost node.cost (problem.library.actionCost action) ≤
          node.cost + problem.library.actionCost action := Nat.min_le_left _ _
      have hscaled : problem.library.actionCost action ≤
          factor * problem.library.actionCost action := Nat.le_mul_of_pos_left _ hfactor
      rw [Nat.mul_add] at hbound
      omega

/-- A node that is found costs at most `factor` times as much as any plan to the goal. -/
theorem cost_le_of_search_ok {left : Search} (hbounded : left.table.Bounded)
    (hconsistent : problem.Consistent factor) (hfactor : 1 ≤ factor) {i : NodeIndex}
    (hok : (problem.search nodeLimit left).outcome = .ok i) {node : Node}
    (hnode : (problem.search nodeLimit left).search.nodes[i]? = some node)
    {plan : List ActionId} {final : WorldState}
    (h : problem.library.Executes problem.start plan final)
    (hgoal : final.satisfies problem.goal = true) {cost : Nat}
    (hcost : problem.library.planCost? plan = some cost) : node.cost ≤ factor * cost := by
  rcases search_cases problem nodeLimit hbounded with hend | ⟨s, hfrontier, hstopped⟩
  · cases hend with
    | noRoom houtcome => cases hok.symm.trans houtcome
    | atGoal _ hnodes houtcome =>
      obtain rfl := Except.ok.inj (hok.symm.trans houtcome)
      rw [hnodes] at hnode
      obtain rfl := Option.some.inj hnode
      exact Nat.zero_le _
  · generalize problem.search nodeLimit left = ended at hok hnode hstopped
    cases hstopped with
    | exhausted => cases hok
    | @found entry rest known hpop hknown hlive _ =>
      -- At the last step there was an open entry along the plan, and it came up no earlier.
      obtain rfl := Except.ok.inj hok
      obtain rfl := Option.some.inj (hknown.symm.trans hnode)
      obtain ⟨hperm, hfirst⟩ := OpenList.toList_of_pop? hpop
      obtain ⟨other, hother, hle⟩ := exists_open_of_executes hfrontier hconsistent hfactor h hgoal
        hcost hfrontier.tree.root rfl (Nat.le_of_eq (Nat.zero_add _))
      have hestimate : entry.estimate ≤ other.estimate := by
        rcases List.mem_cons.1 (hperm.mem_iff.1 hother) with rfl | hrest
        · exact Nat.le_refl _
        · rcases OpenList.Entry.le_iff.1 (hfirst other hrest) with hlt | ⟨heq, -⟩
          · exact Nat.le_of_lt hlt
          · exact Nat.le_of_eq heq
      -- And it is no cheaper than its node.
      have hmem : entry ∈ s.openList.toList := hperm.mem_iff.2 List.mem_cons_self
      obtain ⟨own, -, hown⟩ := hfrontier.estimated entry hmem
      calc known.cost
          ≤ addCost known.cost (problem.estimate own.state) :=
            le_addCost (hfrontier.tree.cost_le hknown) _
        _ = entry.estimate := by rw [hown, hlive]
        _ ≤ factor * cost := Nat.le_trans hestimate hle
    | gaveUp _ _ _ _ _ hout =>
      obtain ⟨reason, hreason, -⟩ := hout.outOfBudget.reason
      cases hok.symm.trans hreason

end Search

end AgentPlanning
