import AgentPlanning.Proofs.TaskNetwork.Answers

/-!
# Decomposing with a Larger Budget

A budget that runs out ends the decomposition as a whole; it never makes a method fail. So with
larger budgets a decomposition takes the same steps, backtracking included, until it ends as before
or one of the smaller budgets has run out. Main statements:

* `step_larger`: a step with larger budgets;
* `run_larger`: a decomposition with larger budgets;
* `answersLike_of_withinBudget`: answers for which the budgets are enough do not depend on them.
-/

namespace AgentPlanning

/-- Every budget is at most the corresponding one of `larger`. -/
structure DecompositionBudget.Within (budget larger : DecompositionBudget) : Prop where
  depth : budget.depth ≤ larger.depth
  planLength : budget.planLength ≤ larger.planLength
  selections : budget.selections ≤ larger.selections

/-- The greater of the two budgets of each kind. -/
def DecompositionBudget.join (budget other : DecompositionBudget) : DecompositionBudget where
  depth := max budget.depth other.depth
  planLength := max budget.planLength other.planLength
  selections := max budget.selections other.selections

theorem DecompositionBudget.within_join_left (budget other : DecompositionBudget) :
    budget.Within (budget.join other) :=
  ⟨Nat.le_max_left .., Nat.le_max_left .., Nat.le_max_left ..⟩

theorem DecompositionBudget.within_join_right (budget other : DecompositionBudget) :
    other.Within (budget.join other) :=
  ⟨Nat.le_max_right .., Nat.le_max_right .., Nat.le_max_right ..⟩

/-- The decomposition gave up for lack of budget. -/
def DecompositionEnd.OutOfBudget (ended : DecompositionEnd) : Prop :=
  ∃ reason, ended.outcome = .error reason ∧ reason.isOutOfBudget = true

namespace Decomposition

variable {budget larger : DecompositionBudget}

section Operations

variable (h : budget.Within larger)

include h

theorem enter_larger (d : Decomposition) (task : TaskId) :
    SameUnless DecompositionEnd.OutOfBudget (enter budget d task) (enter larger d task) := by
  rw [enter, enter]
  by_cases hroom : d.frames.length < budget.depth
  · rw [if_pos hroom, if_pos (Nat.lt_of_lt_of_le hroom h.depth)]
    exact .same _
  · rw [if_neg hroom]
    exact .answered ⟨_, rfl, rfl⟩ _

theorem emit_larger (d : Decomposition) (action : ActionId) :
    SameUnless DecompositionEnd.OutOfBudget (emit budget d action) (emit larger d action) := by
  rw [emit, emit]
  by_cases hroom : d.output.size < budget.planLength
  · rw [if_pos hroom, if_pos (Nat.lt_of_lt_of_le hroom h.planLength)]
    exact .same _
  · rw [if_neg hroom]
    exact .answered ⟨_, rfl, rfl⟩ _

theorem select_larger (network : TaskNetwork) (state : WorldState) (root : TaskId) (top : Frame)
    (below : List Frame) (d : Decomposition) :
    SameUnless DecompositionEnd.OutOfBudget (select network state budget root top below d)
      (select network state larger root top below d) := by
  rw [select, select]
  dsimp only
  by_cases hlimit : budget.selections < d.stats.selections + 1
  · rw [if_pos hlimit]
    exact .answered ⟨_, rfl, rfl⟩ _
  · -- Within the smaller budget the selection does not look at the budget at all.
    rw [if_neg hlimit, if_neg fun hlt => hlimit (Nat.lt_of_le_of_lt h.selections hlt)]
    exact .same _

theorem advance_larger (network : TaskNetwork) (top : Frame) (method : MethodId)
    (below : List Frame) (d : Decomposition) :
    SameUnless DecompositionEnd.OutOfBudget (advance network budget top method below d)
      (advance network larger top method below d) := by
  rw [advance, advance]
  split
  · exact .same _
  · split
    · exact .same _
    · dsimp only
      split
      · exact emit_larger h _ _
      · exact enter_larger h _ _

/-- With larger budgets a step comes to the same, unless one of the smaller budgets runs out. -/
theorem step_larger (network : TaskNetwork) (state : WorldState) (root : TaskId)
    (d : Decomposition) :
    SameUnless DecompositionEnd.OutOfBudget (step network state budget root d)
      (step network state larger root d) := by
  rw [step, step]
  split
  · exact .same _
  · split
    · exact select_larger h network state root _ _ d
    · exact advance_larger h network _ _ _ d

theorem stepBound_larger (network : TaskNetwork) :
    stepBound network budget ≤ stepBound network larger :=
  Nat.succ_le_succ (Nat.mul_le_mul_right _ (Nat.succ_le_succ h.selections))

/-- With larger budgets a decomposition ends in the same way, unless one of the smaller budgets
ran out. -/
theorem run_larger {network : TaskNetwork} {state : WorldState} {root : TaskId}
    (hnot : ¬(run network state budget root).OutOfBudget) :
    run network state larger root = run network state budget root := by
  by_cases hroot : root < network.size
  · have hsame := enter_larger h {} root
    cases henter : enter budget {} root with
    | error ended =>
      -- The only reason not to enter the root is that there is no room for it.
      rw [run, reset_eq, if_pos hroot, henter] at hnot
      rw [henter] at hsame
      rw [run, run, reset_eq, if_pos hroot, if_pos hroot, henter]
      generalize enter larger {} root = second at hsame ⊢
      cases hsame with
      | same => rfl
      | answered hended => exact absurd hended hnot
    | ok d =>
      have hentered : enter larger {} root = .ok d := by
        rw [henter] at hsame
        generalize enter larger {} root = second at hsame ⊢
        cases hsame
        rfl
      have hlarger := SameUnless.runWithin (step_larger h network state root)
        (runWithin_of_enter state hroot henter) hnot
      -- The larger budgets also come with more steps, none of which is needed.
      exact runWithin_unique (runWithin_of_enter state hroot hentered)
        (runWithin_mono (stepBound_larger h network) hlarger)
  · rw [run, run, if_neg hroot, if_neg hroot]

end Operations

end Decomposition

namespace TaskPlanner

variable {planner other : TaskPlanner} {network : TaskNetwork} {state : WorldState} {root : TaskId}

/-- The planner's budgets are enough to answer the request, with or without a plan. -/
def WithinBudget (planner : TaskPlanner) (network : TaskNetwork) (state : WorldState)
    (root : TaskId) : Prop :=
  ∀ reason, (planner.plan network state root).1 = .error reason → reason.isOutOfBudget = false

/-- Two planners answer the request with the same plan or the same error, and with the same
counters. -/
def AnswersLike (planner other : TaskPlanner) (network : TaskNetwork) (state : WorldState)
    (root : TaskId) : Prop :=
  (planner.plan network state root).1 = (other.plan network state root).1 ∧
    (planner.plan network state root).2.latestStats = (other.plan network state root).2.latestStats

theorem not_outOfBudget_of_withinBudget (h : planner.WithinBudget network state root) :
    ¬(Decomposition.run network state planner.budget root).OutOfBudget := by
  rintro ⟨reason, houtcome, hbudget⟩
  rw [← Decomposition.run_left planner.latest] at houtcome
  have hnot := h reason (by simp only [plan, houtcome])
  rw [hbudget] at hnot
  cases hnot

theorem answersLike_of_run_eq (h : Decomposition.run network state planner.budget root =
    Decomposition.run network state other.budget root) :
    planner.AnswersLike other network state root := by
  rw [AnswersLike, plan, plan, Decomposition.run_left planner.latest,
    Decomposition.run_left other.latest, h]
  dsimp only
  split <;> exact ⟨rfl, rfl⟩

theorem answersLike_of_within (hle : planner.budget.Within other.budget)
    (h : planner.WithinBudget network state root) :
    other.AnswersLike planner network state root :=
  answersLike_of_run_eq (Decomposition.run_larger hle (not_outOfBudget_of_withinBudget h))

/-- If the budgets of a planner are enough for a request, then planners with larger budgets answer
it likewise, with the same counters, and so does every planner whose own budgets are enough. -/
theorem answersLike_of_withinBudget (h : planner.WithinBudget network state root)
    (other : TaskPlanner) :
    (planner.budget.Within other.budget → other.AnswersLike planner network state root) ∧
    (other.WithinBudget network state root → other.AnswersLike planner network state root) := by
  refine ⟨fun hle => answersLike_of_within hle h, fun hother => ?_⟩
  -- Both are compared with a planner that has the greater one of their budgets each time.
  let joint := ofBudget (planner.budget.join other.budget)
  have hplanner : joint.AnswersLike planner network state root :=
    answersLike_of_within (planner.budget.within_join_left other.budget) h
  have hjoint : joint.AnswersLike other network state root :=
    answersLike_of_within (planner.budget.within_join_right other.budget) hother
  exact ⟨hjoint.1.symm.trans hplanner.1, hjoint.2.symm.trans hplanner.2⟩

/-- Three frames, two actions and six selections are just enough for the journey, flight and festive
saddling included, which are given up. One of the two other planners has more of everything, the
other one fewer selections than it. -/
theorem answersLike_journey :
    ((ofBudget ⟨3, 2, 6⟩).WithinBudget journey .empty 0 ∧
      (ofBudget ⟨3, 2, 6⟩).budget.Within (ofBudget ⟨5, 4, 9⟩).budget) ∧
    (ofBudget ⟨5, 4, 9⟩).AnswersLike (ofBudget ⟨3, 2, 6⟩) journey .empty 0 ∧
    (ofBudget ⟨4, 9, 6⟩).WithinBudget journey .empty 0 ∧
    (ofBudget ⟨4, 9, 6⟩).AnswersLike (ofBudget ⟨5, 4, 9⟩) journey .empty 0 := by
  have hwithin (planner : TaskPlanner)
      (hplan : (planner.plan journey .empty 0).1 = .ok [4, 2]) :
      planner.WithinBudget journey .empty 0 := by
    intro reason herror
    rw [hplan] at herror
    cases herror
  have hsmall := hwithin (ofBudget ⟨3, 2, 6⟩) (by decide +kernel)
  have hwide := hwithin (ofBudget ⟨5, 4, 9⟩) (by decide +kernel)
  have hlong := hwithin (ofBudget ⟨4, 9, 6⟩) (by decide +kernel)
  have hle : (ofBudget ⟨3, 2, 6⟩).budget.Within (ofBudget ⟨5, 4, 9⟩).budget :=
    ⟨by decide, by decide, by decide⟩
  exact ⟨⟨hsmall, hle⟩, (answersLike_of_withinBudget hsmall _).1 hle, hlong,
    (answersLike_of_withinBudget hwide _).2 hlong⟩

end TaskPlanner

end AgentPlanning
