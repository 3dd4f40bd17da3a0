import AgentPlanning.Proofs.Search.Answers
import AgentPlanning.Proofs.Search.History

/-!
# Plans in the Buffer of a Caller

A caller may provide a buffer for the plan. What the search finds does not depend on the buffer;
only whether it is delivered does. A plan that fits takes up the first cells of the buffer, of one
that does not fit the length is reported, and a buffer of that length is enough. Main statements:

* `outcome_ne_planTooLong`: a search itself never complains about the length of a plan;
* `exists_finds`: what a search finds is the route to the node in which it ended;
* `delivered_planToBuffer`: what becomes of the buffer, and of the planner, in a call.
-/

namespace AgentPlanning

/-- What a search finds, whatever space there is for it: the actions on the way from the first
node to the one in which it ended, or the reason why it found no node. -/
inductive SearchEnd.Finds (ended : SearchEnd) : Except PlanError (List ActionId) → Prop where
  | plan {i : NodeIndex} {plan : List ActionId} (outcome : ended.outcome = .ok i)
      (route : Route ended.search.nodes i plan) : ended.Finds (.ok plan)
  | failure {reason : PlanError} (outcome : ended.outcome = .error reason) :
      ended.Finds (.error reason)

/-- What the caller gets who provides a buffer for what a search finds. -/
structure Delivered (found : Except PlanError (List ActionId)) (buffer : Array ActionId)
    (result : Except PlanError Nat) (written : Array ActionId) : Prop where
  /-- A length is returned if and only if it is that of the plan and the buffer is as long. -/
  ok_iff : ∀ n, result = .ok n ↔ ∃ plan, found = .ok plan ∧ plan.length = n ∧ n ≤ buffer.size
  /-- A plan that fits takes up the first cells, and the other cells are as they were. -/
  cells : ∀ plan, found = .ok plan → plan.length ≤ buffer.size →
    written.toList = plan ++ buffer.toList.drop plan.length
  /-- Of a plan that does not fit the length is reported. -/
  tooLong : ∀ plan, found = .ok plan → buffer.size < plan.length →
    result = .error (.planTooLong plan.length buffer.size)
  /-- The reason why no plan was found is passed on. -/
  failed : ∀ reason, found = .error reason → result = .error reason
  /-- Without a plan in it the buffer is as it was. -/
  unchanged : ∀ reason, result = .error reason → written = buffer

namespace Delivered

variable {plan : List ActionId} {buffer written : Array ActionId}

theorem of_le (hfits : plan.length ≤ buffer.size)
    (hwritten : written.toList = plan ++ buffer.toList.drop plan.length) :
    Delivered (.ok plan) buffer (.ok plan.length) written where
  ok_iff n := by
    constructor
    · intro h
      obtain rfl := Except.ok.inj h
      exact ⟨plan, rfl, rfl, hfits⟩
    · rintro ⟨other, hother, rfl, -⟩
      rw [Except.ok.inj hother]
  cells other hother _ := by
    obtain rfl := Except.ok.inj hother
    exact hwritten
  tooLong other hother hlong := by
    obtain rfl := Except.ok.inj hother
    exact absurd hfits (Nat.not_le_of_lt hlong)
  failed reason hreason := by cases hreason
  unchanged reason hreason := by cases hreason

theorem of_lt (hlong : buffer.size < plan.length) :
    Delivered (.ok plan) buffer (.error (.planTooLong plan.length buffer.size)) buffer where
  ok_iff n := by
    constructor
    · intro h
      cases h
    · rintro ⟨other, hother, rfl, hfits⟩
      obtain rfl := Except.ok.inj hother
      exact absurd hfits (Nat.not_le_of_lt hlong)
  cells other hother hfits := by
    obtain rfl := Except.ok.inj hother
    exact absurd hfits (Nat.not_le_of_lt hlong)
  tooLong other hother _ := by rw [Except.ok.inj hother]
  failed reason hreason := by cases hreason
  unchanged _ _ := rfl

theorem of_error (reason : PlanError) (buffer : Array ActionId) :
    Delivered (.error reason) buffer (.error reason) buffer where
  ok_iff n := by
    constructor
    · intro h
      cases h
    · rintro ⟨other, hother, -⟩
      cases hother
  cells other hother := by cases hother
  tooLong other hother := by cases hother
  failed other hother := by rw [Except.error.inj hother]
  unchanged _ _ := rfl

variable {found : Except PlanError (List ActionId)} {result : Except PlanError Nat}

/-- A complaint about the length of a plan tells the length, unless it is that of the search. -/
theorem exists_plan_of_tooLong {needed space : Nat}
    (h : Delivered found buffer (.error (.planTooLong needed space)) written)
    (hfound : ∀ needed space, found ≠ .error (.planTooLong needed space)) :
    ∃ plan, found = .ok plan ∧ plan.length = needed := by
  cases found with
  | error reason =>
    have hreason := h.failed reason rfl
    exact absurd (congrArg Except.error (Except.error.inj hreason).symm) (hfound needed space)
  | ok plan =>
    refine ⟨plan, rfl, ?_⟩
    rcases Nat.lt_or_ge buffer.size plan.length with hlong | hfits
    · have hreason := Except.error.inj (h.tooLong plan rfl hlong)
      exact (PlanError.planTooLong.inj hreason).1.symm
    · cases (h.ok_iff plan.length).2 ⟨plan, rfl, rfl, hfits⟩

/-- A buffer that is as long as the plan is filled with it. -/
theorem of_size_eq (h : Delivered (.ok plan) buffer result written)
    (hsize : plan.length = buffer.size) : result = .ok buffer.size ∧ written.toList = plan := by
  refine ⟨(h.ok_iff buffer.size).2 ⟨plan, rfl, hsize, Nat.le_refl _⟩, ?_⟩
  rw [h.cells plan rfl (Nat.le_of_eq hsize), hsize, ← Array.length_toList, List.drop_length,
    List.append_nil]

end Delivered

namespace Search

variable {problem : SearchProblem} {nodeLimit : Nat}

theorem Overrun.outcome_ne_planTooLong {s : Search} {state : WorldState} {arrival : Arrival}
    {cost : Nat} {ended : SearchEnd} (h : Overrun problem nodeLimit s state arrival cost ended)
    (needed space : Nat) : ended.outcome ≠ .error (.planTooLong needed space) := by
  intro hlong
  cases h with
  | tooManyStates => cases hlong
  | tooManyOpen => cases hlong
  | tableFull => cases hlong

/-- How long a plan is becomes an issue only after the search. -/
theorem outcome_ne_planTooLong {left : Search} (hbounded : left.table.Bounded)
    (needed space : Nat) :
    (problem.search nodeLimit left).outcome ≠ .error (.planTooLong needed space) := by
  intro hlong
  rcases search_cases problem nodeLimit hbounded with hend | ⟨s, -, hstopped⟩
  · cases hend with
    | noRoom houtcome => cases hlong.symm.trans houtcome
    | atGoal _ _ houtcome => cases hlong.symm.trans houtcome
  · generalize problem.search nodeLimit left = ended at hlong hstopped
    cases hstopped with
    | exhausted => cases hlong
    | found => cases hlong
    | gaveUp _ _ _ _ _ hrefused => exact hrefused.overrun.outcome_ne_planTooLong _ _ hlong

end Search

namespace SearchPlanner

/-- A plan that was found, if there is enough space for it. -/
def fitted (found : Except PlanError (List ActionId)) (space : Nat) :
    Except PlanError (List ActionId) :=
  found.bind fun plan =>
    if space < plan.length then .error (.planTooLong plan.length space) else .ok plan

theorem fitted_of_le {plan : List ActionId} {space : Nat} (h : plan.length ≤ space) :
    fitted (.ok plan) space = .ok plan := if_neg (Nat.not_lt_of_le h)

theorem fitted_of_lt {plan : List ActionId} {space : Nat} (h : space < plan.length) :
    fitted (.ok plan) space = .error (.planTooLong plan.length space) := if_pos h

/-- A search finds something, and if it is a plan then that is what is read off. -/
theorem exists_finds (problem : SearchProblem) (nodeLimit : Nat) {left : Search}
    (hbounded : left.table.Bounded) :
    ∃ found, (problem.search nodeLimit left).Finds found ∧
      (∀ needed space, found ≠ .error (.planTooLong needed space)) ∧
      ∀ space, extractPlan (problem.search nodeLimit left) space = fitted found space := by
  cases houtcome : (problem.search nodeLimit left).outcome with
  | error reason =>
    refine ⟨.error reason, .failure houtcome, fun needed space heq => ?_, fun space => ?_⟩
    · exact Search.outcome_ne_planTooLong hbounded needed space (houtcome.trans
        (congrArg Except.error (Except.error.inj heq)))
    · rw [extractPlan, houtcome]
      rfl
  | ok i =>
    obtain ⟨-, -, -, hroute⟩ := Search.exists_route_of_search_ok hbounded houtcome
    refine ⟨.ok _, .plan houtcome hroute, fun needed space heq => ?_, fun space => ?_⟩
    · cases heq
    · rw [extractPlan, houtcome]
      rfl

/-- The cells that are filled hold the plan, if there is enough space for it. -/
theorem map_take_of_delivered {found : Except PlanError (List ActionId)}
    {buffer written : Array ActionId} {result : Except PlanError Nat}
    (h : Delivered found buffer result written) :
    result.map (fun n => written.toList.take n) = fitted found buffer.size := by
  cases found with
  | error reason => rw [h.failed reason rfl]; rfl
  | ok plan =>
    rcases Nat.lt_or_ge buffer.size plan.length with hlong | hfits
    · rw [h.tooLong plan rfl hlong, fitted_of_lt hlong]
      rfl
    · rw [(h.ok_iff plan.length).2 ⟨plan, rfl, rfl, hfits⟩, fitted_of_le hfits]
      refine congrArg Except.ok ?_
      dsimp only
      rw [h.cells plan rfl hfits, List.take_left]

/-- What a planner finds and counts if it searches. -/
structure Yields (planner : SearchPlanner) (problem : SearchProblem)
    (found : Except PlanError (List ActionId)) (stats : SearchStats) : Prop where
  extractPlan_eq : ∀ space,
    extractPlan (problem.search planner.budget.nodes planner.latest) space = fitted found space
  stats_eq : (problem.search planner.budget.nodes planner.latest).search.stats = stats

/-- After any history of calls a planner finds something. -/
theorem exists_yields (budget : SearchBudget) (history : List Call) (problem : SearchProblem) :
    ∃ found stats,
      (problem.search budget.nodes (afterAll budget history).latest).Finds found ∧
      (∀ needed space, found ≠ .error (.planTooLong needed space)) ∧
      (afterAll budget history).Yields problem found stats := by
  obtain ⟨found, hfinds, hlong, hfitted⟩ :=
    exists_finds problem budget.nodes (bounded_afterAll budget history)
  refine ⟨found, _, hfinds, hlong, ⟨fun space => ?_, rfl⟩⟩
  rw [budget_afterAll, hfitted]

section Yields

variable {planner other : SearchPlanner} {budget budget' : SearchBudget} {problem : SearchProblem}
  {found : Except PlanError (List ActionId)} {stats : SearchStats}

/-- Planners that may keep equally many states find and count the same. -/
theorem Yields.of_ready (h : planner.Yields problem found stats) (hplanner : planner.Ready budget)
    (hother : other.Ready budget') (hnodes : budget'.nodes = budget.nodes) :
    other.Yields problem found stats := by
  obtain ⟨hextract, hstats⟩ := h
  obtain ⟨hplan, hcount⟩ := hplanner.mapSearch_eq problem
  obtain ⟨hplan', hcount'⟩ := hother.mapSearch_eq problem
  rw [hplanner.budget_eq] at hextract hstats
  rw [hnodes] at hplan' hcount'
  constructor
  · intro space
    rw [hother.budget_eq, hnodes, ← hplan' space, hplan space, hextract space]
  · rw [hother.budget_eq, hnodes, ← hcount', hcount, hstats]

variable {library : ActionLibrary} {start : WorldState} {goal : Condition} {weight : UInt32}

/-- A planner delivers what it finds. -/
theorem Yields.delivered (h : planner.Yields ⟨library, start, goal, weight⟩ found stats)
    (buffer : Array ActionId) :
    Delivered found buffer (planner.planToBuffer library start goal weight buffer).1
      (planner.planToBuffer library start goal weight buffer).2.1 := by
  have hplan := h.extractPlan_eq buffer.size
  rw [planToBuffer]
  dsimp only
  cases found with
  | error reason =>
    rw [fillBuffer_of_extractPlan_error hplan]
    exact .of_error reason buffer
  | ok plan =>
    rcases Nat.lt_or_ge buffer.size plan.length with hlong | hfits
    · rw [fitted_of_lt hlong] at hplan
      rw [fillBuffer_of_extractPlan_error hplan]
      exact .of_lt hlong
    · rw [fitted_of_le hfits] at hplan
      obtain ⟨written, hfill, hwritten⟩ := fillBuffer_of_extractPlan_ok hplan
      rw [hfill]
      exact .of_le hfits hwritten

theorem Yields.latest_planToBuffer (h : planner.Yields ⟨library, start, goal, weight⟩ found stats)
    (buffer : Array ActionId) :
    (planner.planToBuffer library start goal weight buffer).2.2.latestPlan = [] ∧
      (planner.planToBuffer library start goal weight buffer).2.2.latestStats = stats :=
  ⟨rfl, h.stats_eq⟩

/-- A plan that is returned as a whole is what the planner finds, if it is short enough. -/
theorem Yields.plan_eq (h : planner.Yields ⟨library, start, goal, weight⟩ found stats) :
    (planner.plan library start goal weight).1 = fitted found planner.budget.planLength ∧
      (planner.plan library start goal weight).2.latestStats = stats := by
  rw [plan_fst]
  exact ⟨h.extractPlan_eq _,
    (planner.latestStats_after (.plan library start goal weight)).trans h.stats_eq⟩

end Yields

/-- A call with a buffer, after any history of calls. What the search finds and counts does not
depend on the buffer. A length is returned if and only if a plan was found that fits; then the plan
takes up the first cells and nothing else is touched. Otherwise the buffer is as it was. In no
case does the planner keep the plan. If the plan is too long then a buffer of the reported length
is enough for it. A planner that returns plans as a whole, if they are no longer than the buffer,
answers with the cells that are filled, or fails for the same reason. -/
theorem delivered_planToBuffer (budget : SearchBudget) (history : List Call)
    (library : ActionLibrary) (start : WorldState) (goal : Condition) (weight : UInt32) :
    ∃ found stats,
      (SearchProblem.search ⟨library, start, goal, weight⟩ budget.nodes
        (afterAll budget history).latest).Finds found ∧
      ∀ buffer : Array ActionId,
        let call := (afterAll budget history).planToBuffer library start goal weight buffer
        Delivered found buffer call.1 call.2.1 ∧
        call.2.2.latestPlan = [] ∧ call.2.2.latestStats = stats ∧
        (∀ larger : Array ActionId, call.1 = .error (.planTooLong larger.size buffer.size) →
          let retry := call.2.2.planToBuffer library start goal weight larger
          retry.1 = .ok larger.size ∧ found = .ok retry.2.1.toList ∧
            retry.2.2.latestStats = stats) ∧
        ∀ others : List Call,
          let whole := (afterAll ⟨budget.nodes, buffer.size⟩ others).plan library start goal weight
          whole.1 = call.1.map (fun n => call.2.1.toList.take n) ∧
            whole.2.latestStats = stats := by
  have hready := ready_afterAll budget history
  obtain ⟨found, stats, hfinds, hlong, hyields⟩ :=
    exists_yields budget history ⟨library, start, goal, weight⟩
  refine ⟨found, stats, hfinds, fun buffer => ?_⟩
  intro call
  have hdelivered : Delivered found buffer call.1 call.2.1 := hyields.delivered buffer
  obtain ⟨hplan, hstats⟩ := hyields.latest_planToBuffer buffer
  refine ⟨hdelivered, hplan, hstats, fun larger hneeded => ?_, fun others => ?_⟩
  · intro retry
    rw [hneeded] at hdelivered
    obtain ⟨plan, rfl, hlength⟩ := hdelivered.exists_plan_of_tooLong hlong
    -- The planner is ready again after the call, so it finds the same plan.
    have hagain := hyields.of_ready hready
      (hready.after (.planToBuffer library start goal weight buffer)) rfl
    obtain ⟨hresult, hwritten⟩ := (hagain.delivered larger).of_size_eq hlength
    exact ⟨hresult, congrArg Except.ok hwritten.symm, (hagain.latest_planToBuffer larger).2⟩
  · intro whole
    have hother := hyields.of_ready hready (ready_afterAll ⟨budget.nodes, buffer.size⟩ others) rfl
    obtain ⟨hwhole, hcount⟩ := hother.plan_eq
    rw [budget_afterAll] at hwhole
    exact ⟨hwhole.trans (map_take_of_delivered hdelivered).symm, hcount⟩

/-- The way across the wall takes two actions. Without a cell they are not delivered, with two
cells they are. -/
theorem delivered_crossing :
    let call := (afterAll ⟨3, 0⟩ []).planToBuffer crossing .empty
      (Condition.free.require 1 true) 0 #[]
    let retry := call.2.2.planToBuffer crossing .empty (Condition.free.require 1 true) 0 #[7, 8]
    call.1 = .error (.planTooLong 2 0) ∧ retry.1 = .ok 2 ∧
      (SearchProblem.search ⟨crossing, .empty, Condition.free.require 1 true, 0⟩ 3
        (afterAll ⟨3, 0⟩ []).latest).Finds (.ok retry.2.1.toList) := by
  intro call retry
  have hcall : call.1 = .error (.planTooLong 2 0) := by decide +kernel
  obtain ⟨found, stats, hfinds, hbuffer⟩ := delivered_planToBuffer ⟨3, 0⟩ [] crossing .empty
    (Condition.free.require 1 true) 0
  obtain ⟨-, -, -, hretry, -⟩ := hbuffer #[]
  -- The two cells of the second buffer are as many as were called for.
  obtain ⟨hresult, rfl, -⟩ := hretry #[7, 8] hcall
  dsimp only [call, retry]
  exact ⟨hcall, hresult, hfinds⟩

end SearchPlanner

end AgentPlanning
