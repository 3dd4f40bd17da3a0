import AgentPlanning.Proofs.Search.Calls
import AgentPlanning.Proofs.Search.CostBound

/-!
# Plan Lengths under Unit Costs

If every action costs one and an unsatisfied atom is estimated at one, the search is guided by
the number of goal atoms that are still to be brought about. That number overestimates the way
to the goal as soon as one action brings about several of them, and then the plan that is found
need not be a shortest one. How far it can be off is the greatest number of goal atoms that one
action brings about. Main statements:

* `mismatches_le_add_gain`: what an effect takes from the number of unsatisfied atoms;
* `consistent_of_gain_le`, `consistent_of_unitCost`: the estimate is off by at most the greatest
  gain of an action, measured by its cost;
* `length_le_of_answer`: a plan is at most that many times as long as any other;
* `answer_litCall_not_shortest`: where one action brings about three goal atoms, a plan of three
  actions is found, though two would do.
-/

namespace AgentPlanning

/-! ## What an effect brings about -/

/-- A predicate that is covered by two others holds no more often than the two together. -/
theorem countP_le_add {α : Type} {p q r : α → Bool}
    (h : ∀ a, p a = true → q a = true ∨ r a = true) (l : List α) :
    l.countP p ≤ l.countP q + l.countP r := by
  induction l with
  | nil => exact Nat.zero_le _
  | cons a rest ih =>
    have ha := h a
    simp only [List.countP_cons]
    split
    next hp => rcases ha hp with hq | hr <;> simp only [*, if_true] <;> omega
    next => omega

namespace Condition

/-- The number of atoms that the goal constrains and to which the effect gives the value that the
goal requires. -/
def gain (goal effect : Condition) : Nat :=
  (List.finRange 256).countP fun a => (goal.get? a).isSome && effect.get? a == goal.get? a

/-- An effect removes no more mismatches than it has atoms in common with the goal. -/
theorem mismatches_le_add_gain (goal effect : Condition) (s : WorldState) :
    goal.mismatches s ≤ goal.mismatches (s.apply effect) + goal.gain effect := by
  rw [mismatches_eq_countP, mismatches_eq_countP, gain]
  refine countP_le_add (fun a hbefore => ?_) _
  obtain ⟨value, hvalue, hne⟩ := (Option.any_eq_true ..).1 hbefore
  rw [WorldState.get_apply, hvalue, Option.any_some]
  -- The effect either writes the required value, or the mismatch stays.
  by_cases hwrites : effect.get? a = some value
  · right
    rw [hwrites, Option.isSome_some, Bool.true_and, beq_self_eq_true]
  · left
    cases heffect : effect.get? a with
    | none => exact hne
    | some written =>
      rw [heffect] at hwrites
      exact bne_iff_ne.2 fun heq => hwrites (congrArg some heq.symm)

end Condition

/-- If the goal atoms that an action brings about weigh no more than `factor` times what it costs,
then the estimate is consistent up to this factor. -/
theorem SearchProblem.consistent_of_gain_le {problem : SearchProblem} {factor : Nat}
    (hgain : ∀ row ∈ problem.library.actions,
      problem.weight.toNat * problem.goal.gain row.post ≤ factor * row.cost.toNat) :
    problem.Consistent factor := by
  intro action state happlicable
  obtain ⟨row, hrow, -⟩ := ActionLibrary.isApplicable_iff.1 happlicable
  have happly : problem.library.apply action state = state.apply row.post := by
    rw [ActionLibrary.apply, hrow]
  have hcost : problem.library.actionCost action = row.cost.toNat := by
    rw [ActionLibrary.actionCost, ActionLibrary.cost?, hrow, Option.map_some, Option.getD_some]
  rw [happly, hcost]
  calc problem.weight.toNat * problem.goal.mismatches state
      ≤ problem.weight.toNat *
          (problem.goal.mismatches (state.apply row.post) + problem.goal.gain row.post) :=
        Nat.mul_le_mul_left _ (Condition.mismatches_le_add_gain ..)
    _ = problem.weight.toNat * problem.goal.mismatches (state.apply row.post) +
          problem.weight.toNat * problem.goal.gain row.post := Nat.mul_add ..
    _ ≤ problem.weight.toNat * problem.goal.mismatches (state.apply row.post) +
          factor * row.cost.toNat :=
        Nat.add_le_add_left (hgain row (Array.mem_of_getElem? hrow)) _

/-! ## Unit costs -/

namespace ActionLibrary

/-- Every action costs one. -/
def UnitCost (library : ActionLibrary) : Prop :=
  ∀ row ∈ library.actions, row.cost = 1

instance (library : ActionLibrary) : Decidable library.UnitCost :=
  inferInstanceAs (Decidable (∀ row ∈ library.actions, row.cost = 1))

variable {library : ActionLibrary}

theorem actionCost_of_unitCost (hunit : library.UnitCost) {action : ActionId}
    (h : library.contains action = true) : library.actionCost action = 1 := by
  have hlt : action < library.actions.size := of_decide_eq_true h
  rw [actionCost, cost?, row?, Array.getElem?_eq_getElem hlt, Option.map_some, Option.getD_some,
    hunit _ (Array.getElem_mem hlt)]
  rfl

/-- The cost of a plan that can be carried out is its length. -/
theorem planCost?_of_unitCost (hunit : library.UnitCost) {start final : WorldState}
    {plan : List ActionId} (h : library.Executes start plan final) :
    library.planCost? plan = some plan.length := by
  induction h with
  | nil => rfl
  | cons applicable _ ih =>
    have hcontains := contains_of_isApplicable applicable
    rw [planCost?_cons _ hcontains, ih, actionCost_of_unitCost hunit hcontains, Option.map_some,
      List.length_cons, Nat.add_comm]

end ActionLibrary

/-- Every action costs one, an unsatisfied atom is estimated at one, and no action brings about
more than `maxGain` atoms of the goal. -/
structure SearchProblem.UnitCost (problem : SearchProblem) (maxGain : Nat) : Prop where
  library : problem.library.UnitCost
  weight : problem.weight = 1
  gain_le : ∀ row ∈ problem.library.actions, problem.goal.gain row.post ≤ maxGain

/-- Under unit costs the estimate is off by no more than what a single action brings about. -/
theorem SearchProblem.consistent_of_unitCost {problem : SearchProblem} {maxGain : Nat}
    (hunit : problem.UnitCost maxGain) : problem.Consistent maxGain := by
  refine consistent_of_gain_le fun row hrow => ?_
  rw [hunit.weight, hunit.library row hrow]
  show 1 * _ ≤ _ * 1
  rw [Nat.one_mul, Nat.mul_one]
  exact hunit.gain_le row hrow

namespace SearchPlanner

/-- The condition that the atom of the given number holds as well. -/
def holding (atom : UInt8) (rest : Condition := .free) : Condition :=
  rest.require atom.toFin true

/-- Three lamps (atoms 0, 1 and 2), which are lit one by one, or all at once with a switch that
is a walk away (atom 3). -/
def lamps : ActionLibrary := .ofList [
  { name := "light first", pre := .free, post := holding 0, cost := 1 },
  { name := "light second", pre := .free, post := holding 1, cost := 1 },
  { name := "light third", pre := .free, post := holding 2, cost := 1 },
  { name := "walk to the switch", pre := .free, post := holding 3, cost := 1 },
  { name := "throw the switch", pre := holding 3,
    post := holding 2 (holding 1 (holding 0)), cost := 1 }]

/-- All lamps are lit. -/
def lit : Condition := holding 2 (holding 1 (holding 0))

/-- Asks for light. -/
def litCall : Call := .plan lamps .empty lit 1

theorem unitCost_litCall : litCall.problem.UnitCost 3 where
  library := by decide +kernel
  weight := rfl
  gain_le := by decide +kernel

theorem answer_litCall : (afterAll ⟨16, 4⟩ []).answer litCall = .ok [0, 1, 2] := by
  decide +kernel

/-- With the switch the lamps are lit in two steps. -/
theorem executes_lamps : lamps.Executes .empty [3, 4] (lamps.apply 4 (lamps.apply 3 .empty)) :=
  .cons (by decide +kernel) (.cons (by decide +kernel) (.nil _))

theorem satisfies_lamps : (lamps.apply 4 (lamps.apply 3 .empty)).satisfies lit = true := by
  decide +kernel

variable {budget : SearchBudget} {history : List Call} {call : Call} {plan : List ActionId}
  {maxGain : Nat}

/-- A plan that is returned is at most `maxGain` times as long as any plan that reaches the goal,
if an action brings about at most `maxGain` atoms of the goal. So it is a shortest plan where no
action brings about two of them. Lengths beyond the greatest cost are not told apart. -/
theorem length_le_of_answer (hunit : call.problem.UnitCost maxGain) (hgain : 1 ≤ maxGain)
    (h : (afterAll budget history).answer call = .ok plan) {other : List ActionId}
    {final : WorldState} (hexecutes : call.problem.library.Executes call.problem.start other final)
    (hgoal : final.satisfies call.problem.goal = true) :
    min plan.length maxCost ≤ maxGain * other.length := by
  obtain ⟨i, hok, rfl⟩ := exists_of_answer_ok h
  obtain ⟨tree, node, hnode, hroute⟩ :=
    Search.exists_route_of_search_ok (bounded_afterAll _ _) hok
  have hother := ActionLibrary.planCost?_of_unitCost hunit.library hexecutes
  have hle : node.cost ≤ maxGain * other.length :=
    Search.cost_le_of_search_ok (bounded_afterAll _ _)
      (SearchProblem.consistent_of_unitCost hunit) hgain hok hnode hexecutes hgoal hother
  -- The cost of the node is the length of its route, unless it is the greatest cost.
  by_cases hrange : node.cost < maxCost
  · obtain ⟨cost, hcost, hcostLe⟩ := tree.planCost_le hroute hnode hrange
    have hlength := ActionLibrary.planCost?_of_unitCost hunit.library
      (tree.executes_of_route hroute hnode)
    obtain rfl := Option.some.inj (hcost.symm.trans hlength)
    exact Nat.le_trans (Nat.min_le_left _ _) (Nat.le_trans hcostLe hle)
  · exact Nat.le_trans (Nat.min_le_right _ _) (Nat.le_trans (Nat.le_of_not_lt hrange) hle)

/-- The switch lights three lamps, so the plan is at most three times as long as needed. -/
theorem length_le_litCall :
    litCall.problem.UnitCost 3 ∧ 1 ≤ 3 ∧ (afterAll ⟨16, 4⟩ []).answer litCall = .ok [0, 1, 2] ∧
    lamps.Executes .empty [3, 4] (lamps.apply 4 (lamps.apply 3 .empty)) ∧
    (lamps.apply 4 (lamps.apply 3 .empty)).satisfies lit = true ∧
    min [0, 1, 2].length maxCost ≤ 3 * [3, 4].length :=
  ⟨unitCost_litCall, by decide, answer_litCall, executes_lamps, satisfies_lamps,
    length_le_of_answer unitCost_litCall (by decide) answer_litCall executes_lamps
      satisfies_lamps⟩

/-- Unit costs alone do not make the plan a shortest one: the lamps are lit one by one. -/
theorem answer_litCall_not_shortest :
    litCall.problem.library.UnitCost ∧ litCall.problem.weight = 1 ∧
    (afterAll ⟨16, 4⟩ []).answer litCall = .ok [0, 1, 2] ∧
    ∃ other final, litCall.problem.library.Executes litCall.problem.start other final ∧
      final.satisfies litCall.problem.goal = true ∧ other.length < [0, 1, 2].length :=
  ⟨unitCost_litCall.library, rfl, answer_litCall, [3, 4], _, executes_lamps, satisfies_lamps,
    by decide⟩

end SearchPlanner

end AgentPlanning
