import AgentPlanning.Proofs.Search.Outcome
import AgentPlanning.Search.Planner

/-!
# Calls of a Search Planner

A planner is called again and again, each time with a request of its own. A search begins in what
the one before it has left, of which it takes over the table of visited states only
(`SearchProblem.search_congr`), and every search leaves that in a form that the next one can use.
Main statements:

* `map_take_fillBuffer`: the cells that are filled hold the plan of the search;
* `answer_eq`: what a call answers is read off a search in what the latest one has left;
* `bounded_afterAll`: after any history of calls the table can be used.
-/

namespace AgentPlanning

namespace SearchPlanner

/-! ## Calls and their answers -/

/-- A call of a planner. -/
inductive Call where
  /-- A plan for a condition, returned as a whole. -/
  | plan (library : ActionLibrary) (start : WorldState) (goal : Condition) (weight : UInt32)
  /-- A plan for a goal, returned as a whole. -/
  | planFor (library : ActionLibrary) (start : WorldState) (goal : Goal)
  /-- A plan for a condition, written to a buffer. -/
  | planToBuffer (library : ActionLibrary) (start : WorldState) (goal : Condition)
      (weight : UInt32) (buffer : Array ActionId)

/-- What the call asks for. -/
def Call.problem : Call → SearchProblem
  | plan library start goal weight => ⟨library, start, goal, weight⟩
  | planFor library start goal => ⟨library, start, goal.condition, goal.weight⟩
  | planToBuffer library start goal weight _ => ⟨library, start, goal, weight⟩

/-- The length of the longest plan that the call may return. -/
def Call.space (budget : SearchBudget) : Call → Nat
  | plan .. | planFor .. => budget.planLength
  | planToBuffer _ _ _ _ buffer => buffer.size

/-- The plan that the call returns, or finds in its buffer, or the reason why there is none. -/
def answer (planner : SearchPlanner) : Call → Except PlanError (List ActionId)
  | .plan library start goal weight => (planner.plan library start goal weight).1
  | .planFor library start goal => (planner.planFor library start goal).1
  | .planToBuffer library start goal weight buffer =>
    match planner.planToBuffer library start goal weight buffer with
    | (.ok length, written, _) => .ok (written.toList.take length)
    | (.error reason, _, _) => .error reason

/-- The planner after the call. -/
def after (planner : SearchPlanner) : Call → SearchPlanner
  | .plan library start goal weight => (planner.plan library start goal weight).2
  | .planFor library start goal => (planner.planFor library start goal).2
  | .planToBuffer library start goal weight buffer =>
    (planner.planToBuffer library start goal weight buffer).2.2

/-- A planner of the given budgets after the calls of its history. -/
def afterAll (budget : SearchBudget) (history : List Call) : SearchPlanner :=
  history.foldl after (ofBudget budget)

/-! ## The search behind a call -/

/-- The plan to the node in which a search ended, if it fits the given space. -/
def extractPlan (ended : SearchEnd) (space : Nat) : Except PlanError (List ActionId) :=
  match ended.outcome with
  | .error reason => .error reason
  | .ok node =>
    let plan := pathTo ended.search.nodes node
    if space < plan.length then .error (.planTooLong plan.length space) else .ok plan

theorem length_le_of_extractPlan {ended : SearchEnd} {space : Nat} {plan : List ActionId}
    (h : extractPlan ended space = .ok plan) : plan.length ≤ space := by
  simp only [extractPlan] at h
  split at h
  · cases h
  · split at h
    · cases h
    next hfits =>
      obtain rfl := Except.ok.inj h
      exact Nat.le_of_not_lt hfits

/-- A plan that is read off a search is the path to the node that was found. -/
theorem exists_of_extractPlan_ok {ended : SearchEnd} {space : Nat} {plan : List ActionId}
    (h : extractPlan ended space = .ok plan) :
    ∃ i : NodeIndex, ended.outcome = .ok i ∧ plan = pathTo ended.search.nodes i := by
  simp only [extractPlan] at h
  split at h
  · cases h
  next i houtcome =>
    split at h
    · cases h
    · exact ⟨i, houtcome, (Except.ok.inj h).symm⟩

/-- If there is no plan to be read off then the search found no node, or there is no space. -/
theorem outcome_of_extractPlan_error {ended : SearchEnd} {space : Nat} {reason : PlanError}
    (h : extractPlan ended space = .error reason) :
    ended.outcome = .error reason ∨ ∃ needed, reason = .planTooLong needed space := by
  simp only [extractPlan] at h
  split at h
  next houtcome => exact .inl (Except.error.inj h ▸ houtcome)
  next =>
    split at h
    · exact .inr ⟨_, (Except.error.inj h).symm⟩
    · cases h

/-- A plan that is read off fills the first cells of a buffer that is large enough, and the other
cells are left as they were. -/
theorem fillBuffer_of_extractPlan_ok {ended : SearchEnd} {buffer : Array ActionId}
    {plan : List ActionId} (h : extractPlan ended buffer.size = .ok plan) :
    ∃ written, fillBuffer ended buffer = (.ok plan.length, written) ∧
      written.toList = plan ++ buffer.toList.drop plan.length := by
  obtain ⟨i, houtcome, rfl⟩ := exists_of_extractPlan_ok h
  have hfits := length_le_of_extractPlan h
  rw [length_pathTo] at hfits ⊢
  refine ⟨_, ?_, toList_writePath hfits⟩
  rw [fillBuffer, houtcome]
  exact if_neg (Nat.not_lt_of_le hfits)

/-- If no plan is read off then nothing is written, for the same reason. -/
theorem fillBuffer_of_extractPlan_error {ended : SearchEnd} {buffer : Array ActionId}
    {reason : PlanError} (h : extractPlan ended buffer.size = .error reason) :
    fillBuffer ended buffer = (.error reason, buffer) := by
  rw [extractPlan] at h
  rw [fillBuffer]
  cases houtcome : ended.outcome with
  | error other =>
    rw [houtcome] at h
    rw [Except.error.inj h]
  | ok i =>
    rw [houtcome] at h
    dsimp only at h ⊢
    rw [length_pathTo] at h
    split at h
    next hlong => rw [if_pos hlong, Except.error.inj h]
    next => cases h

/-- The cells that are filled hold the plan that is read off. -/
theorem map_take_fillBuffer (ended : SearchEnd) (buffer : Array ActionId) :
    (fillBuffer ended buffer).1.map (fun length => (fillBuffer ended buffer).2.toList.take length) =
      extractPlan ended buffer.size := by
  cases hplan : extractPlan ended buffer.size with
  | error reason =>
    rw [fillBuffer_of_extractPlan_error hplan]
    rfl
  | ok plan =>
    obtain ⟨written, hfill, hwritten⟩ := fillBuffer_of_extractPlan_ok hplan
    rw [hfill, Except.map, hwritten]
    exact congrArg Except.ok List.take_left

/-- A plan that is returned as a whole is read off the search. -/
theorem plan_fst (planner : SearchPlanner) (library : ActionLibrary) (start : WorldState)
    (goal : Condition) (weight : UInt32) : (planner.plan library start goal weight).1 =
      extractPlan (SearchProblem.search ⟨library, start, goal, weight⟩ planner.budget.nodes
        planner.latest) planner.budget.planLength := by
  rw [← planner.size_output, ← map_take_fillBuffer, plan]
  dsimp only [latestPlan]
  cases (fillBuffer _ planner.output).1 <;> rfl

/-- A call answers with the plan of one search. -/
theorem answer_eq (planner : SearchPlanner) (call : Call) :
    planner.answer call = extractPlan
      (call.problem.search planner.budget.nodes planner.latest) (call.space planner.budget) := by
  cases call with
  | plan library start goal weight => exact planner.plan_fst library start goal weight
  | planFor library start goal => exact planner.plan_fst library start goal.condition goal.weight
  | planToBuffer library start goal weight buffer =>
    rw [answer, planToBuffer, Call.problem, Call.space, ← map_take_fillBuffer]
    cases (fillBuffer _ buffer).1 <;> rfl

/-- A call leaves what its search leaves, and the budgets as they were. -/
theorem after_eq (planner : SearchPlanner) (call : Call) :
    (planner.after call).latest =
        (call.problem.search planner.budget.nodes planner.latest).search ∧
      (planner.after call).budget = planner.budget := by
  cases call <;> exact ⟨rfl, rfl⟩

/-- A call keeps the counters of its search. -/
theorem latestStats_after (planner : SearchPlanner) (call : Call) :
    (planner.after call).latestStats =
      (call.problem.search planner.budget.nodes planner.latest).search.stats := by
  rw [latestStats, (planner.after_eq call).1]

theorem budget_afterAll (budget : SearchBudget) (history : List Call) :
    (afterAll budget history).budget = budget := by
  refine List.foldlRecOn history after (motive := fun planner => planner.budget = budget) ?_ ?_
  · rfl
  · intro planner hplanner call _
    rw [(planner.after_eq call).2, hplanner]

/-- After any history of calls the next search can use the table. -/
theorem bounded_afterAll (budget : SearchBudget) (history : List Call) :
    (afterAll budget history).latest.table.Bounded := by
  refine List.foldlRecOn history after
    (motive := fun planner => planner.latest.table.Bounded) ?_ ?_
  · exact StateTable.bounded_ofCapacity budget.nodes
  · intro planner hplanner call _
    rw [(planner.after_eq call).1]
    exact Search.bounded_search _ _ hplanner

/-- Behind an answered call there is a search that found a node, and the answer is its path. -/
theorem exists_of_answer_ok {budget : SearchBudget} {history : List Call} {call : Call}
    {plan : List ActionId} (h : (afterAll budget history).answer call = .ok plan) :
    ∃ i : NodeIndex,
      (call.problem.search budget.nodes (afterAll budget history).latest).outcome = .ok i ∧
      plan = pathTo
        (call.problem.search budget.nodes (afterAll budget history).latest).search.nodes i := by
  rw [answer_eq, budget_afterAll] at h
  exact exists_of_extractPlan_ok h

/-- Behind a call without a solution there is a search that gave up for the same reason, unless
the plan was too long. -/
theorem outcome_of_answer_unreachable {budget : SearchBudget} {history : List Call} {call : Call}
    (h : (afterAll budget history).answer call = .error .unreachable) :
    (call.problem.search budget.nodes (afterAll budget history).latest).outcome =
      .error .unreachable := by
  rw [answer_eq, budget_afterAll] at h
  refine (outcome_of_extractPlan_error h).resolve_right ?_
  rintro ⟨needed, hneeded⟩
  cases hneeded

end SearchPlanner

end AgentPlanning
