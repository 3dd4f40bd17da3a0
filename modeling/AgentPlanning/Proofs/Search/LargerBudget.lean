import AgentPlanning.Proofs.Search.Answers
import AgentPlanning.Proofs.Search.History

/-!
# Searching with a Larger Budget

A budget shows only when it runs out: with a larger one a search takes the same steps, until it
ends as before or the smaller budget has run out. This is shown for the search with a plain map,
where the budget does not decide on the form of a table. Main statements:

* `step_larger`: a step with a larger budget;
* `SearchProblem.mapSearch_larger`: a search with a larger budget;
* `answer_larger`: what a planner with larger budgets answers.
-/

namespace AgentPlanning

/-- The search gave up for lack of budget. -/
def MapSearchEnd.OutOfBudget (ended : MapSearchEnd) : Prop :=
  ∃ reason, ended.outcome = .error reason ∧ reason.isOutOfBudget = true

namespace MapSearch

variable {nodeLimit larger : Nat}

section Operations

variable (hle : nodeLimit ≤ larger) (problem : SearchProblem)

include hle

theorem enqueue_larger (s : MapSearch) (node : NodeIndex) (state : WorldState) (cost : Nat) :
    SameUnless MapSearchEnd.OutOfBudget (enqueue problem nodeLimit s node state cost)
      (enqueue problem larger s node state cost) := by
  rw [enqueue, enqueue]
  -- The open list of the larger budget has room whenever that of the smaller one has.
  have hopen : openLimit nodeLimit ≤ openLimit larger := by
    rw [openLimit, openLimit]
    omega
  by_cases hroom : s.openList.size < openLimit nodeLimit
  · simp only [if_pos hroom, if_pos (Nat.lt_of_lt_of_le hroom hopen)]
    exact .same _
  · simp only [if_neg hroom]
    exact .answered ⟨_, rfl, rfl⟩ _

theorem reach_larger (s : MapSearch) (state : WorldState) (arrival : Arrival) (cost : Nat) :
    SameUnless MapSearchEnd.OutOfBudget (reach problem nodeLimit s state arrival cost)
      (reach problem larger s state arrival cost) := by
  rw [reach, reach]
  cases s.known state with
  | some node =>
    -- A known state needs no node, only room in the open list.
    dsimp only
    split
    · exact enqueue_larger hle problem _ _ _ _
    · exact .same _
  | none =>
    by_cases hroom : s.nodes.size < nodeLimit
    · simp only [if_pos hroom, if_pos (Nat.lt_of_lt_of_le hroom hle)]
      exact enqueue_larger hle problem _ _ _ _
    · simp only [if_neg hroom]
      exact .answered ⟨_, rfl, rfl⟩ _

theorem tryAction_larger (parent : NodeIndex) (state : WorldState) (cost : Nat) (s : MapSearch)
    (action : ActionId) :
    SameUnless MapSearchEnd.OutOfBudget (tryAction problem nodeLimit parent state cost s action)
      (tryAction problem larger parent state cost s action) := by
  rw [tryAction, tryAction]
  split
  · dsimp only
    split
    · exact .same _
    · exact reach_larger hle problem _ _ _ _
  · exact .same _

/-- With a larger budget a step comes to the same, unless the smaller budget runs out. -/
theorem step_larger (s : MapSearch) :
    SameUnless MapSearchEnd.OutOfBudget (step problem nodeLimit s) (step problem larger s) := by
  rw [step, step]
  cases s.openList.pop? with
  | none => exact .same _
  | some first =>
    -- What becomes of the first entry depends on the budget only if its node is expanded.
    dsimp only
    split
    · exact .same _
    · split
      · exact .same _
      · split
        · exact .same _
        · exact .foldlM (tryAction_larger hle problem _ _ _) _ _

end Operations

/-- A search from the start ends within its bound, as the search with a table does. -/
theorem exists_runWithin_withRoot (problem : SearchProblem) (hlimit : nodeLimit ≠ 0) :
    ∃ ended, runWithin (step problem nodeLimit) (Search.stepBound nodeLimit)
      (withRoot problem .initial) = some ended := by
  have hclean := StateTable.clean_clear (StateTable.bounded_ofCapacity nodeLimit)
  have hslots : nodeLimit < (StateTable.ofCapacity nodeLimit).clear.slots.size := by
    rw [StateTable.size_clear, StateTable.ofCapacity, Array.size_replicate]
    exact StateTable.lt_slotCount nodeLimit
  obtain ⟨ended, hended⟩ :=
    Search.exists_runWithin_stepBound problem (Search.potential_withRoot hclean hlimit)
  rw [Search.withRoot_toMap problem hclean, Search.runWithin_toMap
    (Search.frontier_withRoot hclean) (Search.fits_withRoot problem hclean hlimit hslots), hended]
  exact ⟨ended.toMap, rfl⟩

theorem run_larger (hle : nodeLimit ≤ larger) (problem : SearchProblem) (hlimit : nodeLimit ≠ 0)
    (h : ¬(run problem nodeLimit (withRoot problem .initial)).OutOfBudget) :
    run problem larger (withRoot problem .initial) =
      run problem nodeLimit (withRoot problem .initial) := by
  obtain ⟨ended, hended⟩ := exists_runWithin_withRoot problem hlimit
  rw [run, hended, Option.getD_some] at h
  have hsame := SameUnless.runWithin (step_larger hle problem) hended h
  -- The larger budget also comes with more steps, none of which is needed.
  have hbound : Search.stepBound nodeLimit ≤ Search.stepBound larger :=
    Nat.succ_le_succ (Nat.mul_le_mul_right _ hle)
  rw [run, run, hended, runWithin_mono hbound hsame]

end MapSearch

/-- With a larger budget a search ends in the same way, unless the smaller budget ran out. -/
theorem SearchProblem.mapSearch_larger {nodeLimit larger : Nat} (hle : nodeLimit ≤ larger)
    (problem : SearchProblem) (h : ¬(problem.mapSearch nodeLimit).OutOfBudget) :
    problem.mapSearch larger = problem.mapSearch nodeLimit := by
  have hlimit : nodeLimit ≠ 0 := by
    rintro rfl
    exact h ⟨_, rfl, rfl⟩
  have hlarger : larger ≠ 0 := by omega
  rw [mapSearch, mapSearch]
  rw [mapSearch] at h
  simp only [if_neg hlimit, if_neg hlarger] at h ⊢
  split
  · rfl
  next hgoal =>
    rw [if_neg hgoal] at h
    exact MapSearch.run_larger hle problem hlimit h

namespace MapSearchEnd

variable {ended : MapSearchEnd} {space larger : Nat}

theorem not_outOfBudget_of_plan
    (h : (∃ plan, ended.plan space = .ok plan) ∨ ended.plan space = .error .unreachable) :
    ¬ended.OutOfBudget := by
  rintro ⟨reason, houtcome, hbudget⟩
  rw [plan, houtcome] at h
  rcases h with ⟨plan, heq⟩ | heq
  · cases heq
  · cases heq
    cases hbudget

/-- A plan that fits some space fits a larger one. -/
theorem plan_larger (hle : space ≤ larger)
    (h : (∃ plan, ended.plan space = .ok plan) ∨ ended.plan space = .error .unreachable) :
    ended.plan larger = ended.plan space := by
  rw [plan] at h
  rw [plan, plan]
  cases houtcome : ended.outcome with
  | error reason => rfl
  | ok node =>
    rw [houtcome] at h
    dsimp only at h ⊢
    by_cases hlong : space < (pathTo ended.search.nodes node).length
    · rw [if_pos hlong] at h
      rcases h with ⟨plan, heq⟩ | heq <;> cases heq
    · rw [if_neg hlong, if_neg fun hlt => hlong (Nat.lt_of_le_of_lt hle hlt)]

end MapSearchEnd

namespace SearchPlanner

/-- The space for a plan grows with the budget, or is that of a buffer. -/
theorem Call.space_le {budget larger : SearchBudget} (h : budget.planLength ≤ larger.planLength)
    (call : Call) : call.space budget ≤ call.space larger := by
  cases call with
  | plan => exact h
  | planFor => exact h
  | planToBuffer => exact Nat.le_refl _

/-- What a planner answers and counts, with a plan or because the goal cannot be reached, it also
answers and counts with larger budgets, whatever calls the two planners have answered before. -/
theorem answer_larger {budget larger : SearchBudget} (hnodes : budget.nodes ≤ larger.nodes)
    (hlength : budget.planLength ≤ larger.planLength) (history otherHistory : List Call)
    (call : Call)
    (h : (∃ plan, (afterAll budget history).answer call = .ok plan) ∨
      (afterAll budget history).answer call = .error .unreachable) :
    (afterAll larger otherHistory).answer call = (afterAll budget history).answer call ∧
      ((afterAll larger otherHistory).after call).latestStats =
        ((afterAll budget history).after call).latestStats := by
  rw [answer_eq_plan] at h
  have hsearch := call.problem.mapSearch_larger hnodes (MapSearchEnd.not_outOfBudget_of_plan h)
  constructor
  · rw [answer_eq_plan, answer_eq_plan, hsearch]
    exact MapSearchEnd.plan_larger (call.space_le hlength) h
  · rw [latestStats_eq_stats, latestStats_eq_stats, hsearch]

/-- The three nodes and two actions that the way across the wall takes are enough, and more do not
change it. -/
theorem answer_larger_crossing :
    (3 ≤ 5 ∧ 2 ≤ 4) ∧ (afterAll ⟨3, 2⟩ [crampedCall]).answer crossingCall = .ok [1, 2] ∧
      (afterAll ⟨5, 4⟩ [vainCall]).answer crossingCall =
        (afterAll ⟨3, 2⟩ [crampedCall]).answer crossingCall ∧
      ((afterAll ⟨5, 4⟩ [vainCall]).after crossingCall).latestStats =
        ((afterAll ⟨3, 2⟩ [crampedCall]).after crossingCall).latestStats := by
  have hnodes : (⟨3, 2⟩ : SearchBudget).nodes ≤ (⟨5, 4⟩ : SearchBudget).nodes := by decide
  have hlength : (⟨3, 2⟩ : SearchBudget).planLength ≤ (⟨5, 4⟩ : SearchBudget).planLength := by
    decide
  exact ⟨⟨hnodes, hlength⟩, answer_crossingCall,
    answer_larger hnodes hlength [crampedCall] [vainCall] crossingCall
      (.inl ⟨_, answer_crossingCall⟩)⟩

end SearchPlanner

end AgentPlanning
