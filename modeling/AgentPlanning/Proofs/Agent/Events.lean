import AgentPlanning.Proofs.Agent.Safety
import AgentPlanning.Proofs.Order.Binding
import AgentPlanning.Proofs.Trace

/-!
# Events about Calls

Every call is reported to the sink of the agent, with two exceptions: observing and moving the
clock are not reported, and a request for a goal that is unknown or has no root is refused
silently. Main statements:

* `sink_after`: a call sends its reports to the sink, stamped with the tick;
* `tags_events`: the tags of the events tell the kind of the call and whether it succeeded;
* `describes_of_mem_events`: the numbers of an event are those of the call;
* `exists_events_after`: what a call appends to the events of the run before it;
* `exists_describes_of_mem_events`: every event of a run is about one of its calls.
-/

namespace AgentPlanning

/-- The report about choosing a goal. -/
def AgentReport.ofChoice : Option GoalChoice → AgentReport
  | some choice => .goalChosen choice
  | none => .noGoalChosen

/-- The report about executing an action. -/
def AgentReport.ofOrder (action : ActionId) : Except ExecutionError Order → AgentReport
  | .ok order => .orderSubmitted action order.tag
  | .error _ => .orderDropped action

theorem AgentReport.tick_event (r : AgentReport) (tick : Nat) : (r.event tick).tick = tick := by
  cases r with
  | planFound strategy | planMissed strategy => cases strategy <;> rfl
  | goalChosen | noGoalChosen | orderSubmitted | orderDropped => rfl

namespace Agent

variable {σ : Type}

/-- What a planner of the agent has counted in its latest call: the nodes that a search expanded,
or the methods that a decomposition selected. -/
def effort (agent : Agent σ) : PlanningStrategy → Nat
  | .search => agent.searcher.latestStats.expanded
  | .decomposition => agent.decomposer.latestStats.selections

variable [TraceSink σ]

/-! ## The reports of a call -/

/-- The reports about planning for a goal; none if no planner is asked. -/
def pursuitReports (agent : Agent σ) (state : WorldState) (goal : GoalId)
    (strategy : PlanningStrategy) : List AgentReport :=
  (plannerFor? agent.domain goal strategy).toList.map fun planner =>
    .ofResult planner ((agent.pursue state goal strategy).2.effort planner)
      (agent.pursue state goal strategy).1

/-- The reports about a call, in the order in which they are sent. -/
def reports (agent : Agent σ) : Call → List AgentReport
  | .observe _ | .atTick _ => []
  | .chooseGoal state view => [.ofChoice (agent.domain.selector.select state view)]
  | .searchGoal state goal => agent.pursuitReports state goal .search
  | .searchCondition state goal weight =>
    let (result, later) := agent.searchCondition state goal weight
    [.ofResult .search (later.effort .search) result]
  | .decompose state root =>
    let (result, later) := agent.decompose state root
    [.ofResult .decomposition (later.effort .decomposition) result]
  | .pursue state goal strategy => agent.pursuitReports state goal strategy
  | .planNext state view =>
    match agent.domain.selector.select state view with
    | none => [.ofChoice none]
    | some choice =>
      .ofChoice (some choice) :: agent.pursuitReports state choice.goal choice.strategy
  | .execute action actor view queue => [.ofOrder action (agent.execute action actor view queue).1]

/-- The events of the reports at the agent's tick. -/
def events (agent : Agent σ) (call : Call) : List TraceEvent :=
  (agent.reports call).map (·.event agent.tick)

theorem sink_pursue (agent : Agent σ) (state : WorldState) (goal : GoalId)
    (strategy : PlanningStrategy) :
    (agent.pursue state goal strategy).2.sink =
      ((agent.pursuitReports state goal strategy).map (·.event agent.tick)).foldl
        TraceSink.receive agent.sink := by
  rw [pursuitReports]
  cases strategy with
  | search =>
    simp only [pursue, searchGoal, plannerFor?]
    cases agent.domain.goals.get? goal <;> rfl
  | decomposition =>
    simp only [pursue, plannerFor?]
    cases agent.domain.roots.root? goal <;> rfl

/-- What planning for a goal comes to, and the effort, do not depend on what was reported before. -/
theorem pursue_report (agent : Agent σ) (r : AgentReport) (state : WorldState) (goal : GoalId)
    (strategy : PlanningStrategy) :
    ((agent.report r).pursue state goal strategy).1 = (agent.pursue state goal strategy).1 ∧
      ((agent.report r).pursue state goal strategy).2.effort =
        (agent.pursue state goal strategy).2.effort := by
  cases strategy with
  | search =>
    simp only [pursue, searchGoal, report]
    cases agent.domain.goals.get? goal <;> exact ⟨rfl, rfl⟩
  | decomposition =>
    simp only [pursue, report]
    cases agent.domain.roots.root? goal <;> exact ⟨rfl, rfl⟩

theorem pursuitReports_report (agent : Agent σ) (r : AgentReport) (state : WorldState)
    (goal : GoalId) (strategy : PlanningStrategy) :
    (agent.report r).pursuitReports state goal strategy =
      agent.pursuitReports state goal strategy := by
  obtain ⟨hresult, heffort⟩ := agent.pursue_report r state goal strategy
  rw [pursuitReports, pursuitReports, hresult, heffort]
  rfl

/-- A call sends its reports to the sink, one after the other. -/
theorem sink_after (agent : Agent σ) (call : Call) :
    (agent.after call).sink = (agent.events call).foldl TraceSink.receive agent.sink := by
  rw [events]
  cases call with
  | observe | atTick | searchCondition | decompose => rfl
  | searchGoal state goal => exact sink_pursue agent state goal .search
  | pursue state goal strategy => exact sink_pursue agent state goal strategy
  | chooseGoal state view =>
    simp only [after, chooseGoal, reports]
    cases agent.domain.selector.select state view <;> rfl
  | planNext state view =>
    rw [reports]
    cases hchoice : agent.domain.selector.select state view with
    | none =>
      rw [after, planNext_of_none hchoice]
      rfl
    | some choice =>
      rw [after, planNext_of_some hchoice]
      dsimp only
      rw [sink_pursue, pursuitReports_report]
      rfl
  | execute action actor view queue =>
    simp only [after, reports, execute]
    cases (agent.domain.actions.execute action actor view queue).1 <;> rfl

/-! ## The tags of the events -/

/-- The call names a goal that is unknown, or that has no root although it is to be planned for by
decomposition. -/
def Call.isRefused (domain : Domain) : Call → Bool
  | .searchGoal _ goal | .pursue _ goal .search => (domain.goals.get? goal).isNone
  | .pursue _ goal .decomposition => (domain.roots.root? goal).isNone
  | _ => false

/-- The call returned what it was made for: a choice, a plan or an order. -/
def Answer.isSuccess : Answer → Bool
  | choice chosen => chosen.isSome
  | plan result => result.isOk
  | chosenPlan result => result.isOk
  | order result _ => result.isOk
  | state _ | done => true

/-- The tag of an event about planning. -/
def planTag : PlanningStrategy → Bool → String
  | .search, true => "goap.plan.ok"
  | .search, false => "goap.plan.fail"
  | .decomposition, true => "htn.plan.ok"
  | .decomposition, false => "htn.plan.fail"

/-- The tags that belong to a call. Choosing a goal and planning for it are two events. -/
def Call.tags (domain : Domain) (success : Bool) : Call → List String
  | .observe _ | .atTick _ => []
  | .chooseGoal .. => [if success then "utility.select" else "utility.none"]
  | .searchGoal .. | .searchCondition .. => [planTag .search success]
  | .decompose .. => [planTag .decomposition success]
  | .pursue _ _ strategy => [planTag strategy success]
  | .planNext state view =>
    match domain.selector.select state view with
    | none => ["utility.none"]
    | some choice => ["utility.select", planTag choice.strategy success]
  | .execute .. => [if success then "exec.submit" else "exec.drop"]

theorem tag_ofResult (strategy : PlanningStrategy) (effort tick : Nat)
    (result : Except PlanError (List ActionId)) :
    ((AgentReport.ofResult strategy effort result).event tick).tag =
      planTag strategy result.isOk := by
  cases result <;> cases strategy <;> rfl

theorem isOk_map {ε α β : Type} (f : α → β) (result : Except ε α) :
    (result.map f).isOk = result.isOk := by
  cases result <;> rfl

/-- A request reaches the planner of its strategy, if it is not refused. -/
theorem plannerFor?_eq (domain : Domain) (state : WorldState) (goal : GoalId)
    (strategy : PlanningStrategy) :
    plannerFor? domain goal strategy =
      if (Call.pursue state goal strategy).isRefused domain then none else some strategy := by
  cases strategy with
  | search =>
    rw [plannerFor?, Call.isRefused]
    cases hgoal : domain.goals.get? goal <;> rfl
  | decomposition =>
    rw [plannerFor?, Call.isRefused]
    cases hroot : domain.roots.root? goal <;> rfl

theorem tags_pursuit (agent : Agent σ) (state : WorldState) (goal : GoalId)
    (strategy : PlanningStrategy) :
    (agent.pursuitReports state goal strategy).map (fun r => (r.event agent.tick).tag) =
      if (Call.pursue state goal strategy).isRefused agent.domain then []
      else [planTag strategy (agent.pursue state goal strategy).1.isOk] := by
  rw [pursuitReports, plannerFor?_eq agent.domain state]
  split
  · rfl
  · rw [Option.toList_some, List.map_singleton, List.map_singleton, tag_ofResult]

/-- In a closed domain the goal that is chosen is not refused. -/
theorem isRefused_of_select {domain : Domain} (hclosed : domain.Closed) {state : WorldState}
    {view : BlackboardView} {choice : GoalChoice}
    (h : domain.selector.select state view = some choice) :
    (Call.pursue state choice.goal choice.strategy).isRefused domain = false := by
  obtain ⟨option, hoption, hgoal, hstrategy⟩ := GoalSelector.exists_of_select h
  have hexists := hclosed.chosenGoals option hoption
  have hroot := hclosed.chosenRoots option hoption
  rw [← hgoal] at hexists hroot
  rw [← hstrategy] at hroot
  generalize choice.strategy = strategy at hroot ⊢
  cases strategy with
  | search => rw [Call.isRefused, Option.isNone_eq_false_iff, hexists]
  | decomposition => rw [Call.isRefused, Option.isNone_eq_false_iff, hroot rfl]

/-- The tags of the reports are those that belong to the call, unless the call is refused. -/
theorem tags_events (agent : Agent σ) (hclosed : agent.domain.Closed) (call : Call) :
    (agent.events call).map (·.tag) =
      if call.isRefused agent.domain then []
      else call.tags agent.domain (agent.answer call).isSuccess := by
  rw [events, List.map_map]
  cases call with
  | observe | atTick => rfl
  | searchGoal state goal => exact tags_pursuit agent state goal .search
  | pursue state goal strategy => exact tags_pursuit agent state goal strategy
  | searchCondition state goal weight =>
    exact congrArg ([·]) (tag_ofResult .search _ _ _)
  | decompose state root => exact congrArg ([·]) (tag_ofResult .decomposition _ _ _)
  | chooseGoal state view =>
    simp only [reports, answer, chooseGoal]
    cases agent.domain.selector.select state view <;> rfl
  | planNext state view =>
    rw [reports]
    cases hchoice : agent.domain.selector.select state view with
    | none =>
      rw [answer, planNext_of_none hchoice]
      simp only [Call.tags, hchoice]
      rfl
    | some choice =>
      rw [answer, planNext_of_some hchoice, (agent.pursue_report _ _ _ _).1]
      have htags := tags_pursuit agent state choice.goal choice.strategy
      rw [isRefused_of_select hclosed hchoice] at htags
      simp only [Call.tags, hchoice, Answer.isSuccess, isOk_map]
      exact congrArg ("utility.select" :: ·) htags
  | execute action actor view queue =>
    simp only [reports, answer, execute]
    cases (agent.domain.actions.execute action actor view queue).1 <;> rfl

/-! ## The numbers of the events -/

/-- What the call returned, if it asked for a plan. -/
def Answer.result? : Answer → Option (Except PlanError (List ActionId))
  | plan result => some result
  | chosenPlan result => some (result.map (·.2))
  | _ => none

/-- The event tells about the call what its tag is documented to tell; only of an order that was
dropped it does not tell the tag. -/
inductive Describes (agent : Agent σ) : Call → TraceEvent → Prop where
  /-- The length of the plan and the effort of the planner that found it. -/
  | planFound {call : Call} {planner : PlanningStrategy} {plan : List ActionId}
      (asked : call.planner? agent.domain = some planner)
      (found : (agent.answer call).result? = some (.ok plan)) :
      Describes agent call
        ⟨agent.tick, planTag planner true, plan.length, (agent.after call).effort planner⟩
  /-- The class of the error and the effort of the planner that gave up. -/
  | planMissed {call : Call} {planner : PlanningStrategy} {reason : PlanError}
      (asked : call.planner? agent.domain = some planner)
      (missed : (agent.answer call).result? = some (.error reason)) :
      Describes agent call
        ⟨agent.tick, planTag planner false, reason.kind.code, (agent.after call).effort planner⟩
  /-- The goal that was chosen and its position in the order of declaration. -/
  | goalChosen {call : Call} {state : WorldState} {view : BlackboardView} {choice : GoalChoice}
      {option : GoalOption} (asked : call = .chooseGoal state view ∨ call = .planNext state view)
      (chosen : agent.domain.selector.select state view = some choice)
      (declared : agent.domain.selector.table.options[choice.index]? = some option)
      (goal : choice.goal = option.goal) :
      Describes agent call ⟨agent.tick, "utility.select", choice.goal, choice.index⟩
  | noGoalChosen {call : Call} {state : WorldState} {view : BlackboardView}
      (asked : call = .chooseGoal state view ∨ call = .planNext state view)
      (notChosen : agent.domain.selector.select state view = none) :
      Describes agent call ⟨agent.tick, "utility.none", 0, 0⟩
  /-- The action and the tag of its order. -/
  | orderSubmitted {action : ActionId} {actor : EntityRef} {view : BlackboardView}
      {queue : OrderQueue} {row : ActionRow} (known : agent.domain.actions.row? action = some row)
      (submitted : (agent.execute action actor view queue).1.isOk = true) :
      Describes agent (.execute action actor view queue)
        ⟨agent.tick, "exec.submit", action, row.order.tag.toNat⟩
  /-- The action, but not the tag of its order. -/
  | orderDropped {action : ActionId} {actor : EntityRef} {view : BlackboardView}
      {queue : OrderQueue} (dropped : (agent.execute action actor view queue).1.isOk = false) :
      Describes agent (.execute action actor view queue) ⟨agent.tick, "exec.drop", action, 0⟩

section Alike

variable {τ : Type} [TraceSink τ] {agent : Agent σ} {other : Agent τ} {domain : Domain}
  {budgets : AgentBudgets} (h : agent.Ready domain budgets) (h' : other.Ready domain budgets)

include h h'

end Alike

/-! ## Runs with a window that keeps everything -/

/-- An agent after the calls of its history, with a window without a limit that had kept some
events before. -/
def traced (domain : Domain) (budgets : AgentBudgets) (earlier : Array TraceEvent)
    (history : List Call) : Agent TraceWindow :=
  afterAll domain budgets ⟨earlier, none⟩ history

theorem sink_after_of_unlimited {agent : Agent TraceWindow} (h : agent.sink.limit = none)
    (call : Call) :
    (agent.after call).sink = ⟨agent.sink.events ++ agent.events call, none⟩ := by
  rw [sink_after]
  generalize agent.events call = events
  generalize agent.sink = window at h ⊢
  obtain ⟨earlier, limit⟩ := window
  obtain rfl : limit = none := h
  exact TraceWindow.foldl_receive earlier events

theorem limit_traced (domain : Domain) (budgets : AgentBudgets) (earlier : Array TraceEvent)
    (history : List Call) : (traced domain budgets earlier history).sink.limit = none := by
  refine List.foldlRecOn history after
    (motive := fun agent : Agent TraceWindow => agent.sink.limit = none) rfl ?_
  intro agent hagent call _
  rw [sink_after_of_unlimited hagent]

/-- A request for a goal that does not exist leaves no event. -/
theorem unknownGoal_not_reported :
    Domain.ofDescription camp campVocabulary = .ok campDomain ∧
    (traced campDomain ⟨⟨4, 4⟩, {}⟩ #[] []).answer (.searchGoal .empty 1) =
      .plan (.error (.unknownGoal 1)) ∧
    ((traced campDomain ⟨⟨4, 4⟩, {}⟩ #[] []).after (.searchGoal .empty 1)).sink.events = #[] :=
  ⟨ofDescription_camp, by decide +kernel, by decide +kernel⟩

/-- A call adds its events to the window: they bear the tick of the agent, and their tags are those
that belong to the call and tell whether it succeeded. Only a request for a goal that is unknown, or
that has no root although it is to be planned for by decomposition, adds none. -/
theorem exists_events_after {description : Description} {vocabulary : Vocabulary} {domain : Domain}
    (h : Domain.ofDescription description vocabulary = .ok domain) (budgets : AgentBudgets)
    (earlier : Array TraceEvent) (history : List Call) (call : Call) :
    ∃ events : List TraceEvent,
      ((traced domain budgets earlier history).after call).sink.events =
        (traced domain budgets earlier history).sink.events ++ events ∧
      (∀ event ∈ events, event.tick = (traced domain budgets earlier history).tick) ∧
      events.map (·.tag) = if call.isRefused domain then []
        else call.tags domain ((traced domain budgets earlier history).answer call).isSuccess := by
  have hdomain : (traced domain budgets earlier history).domain = domain :=
    (ready_afterAll domain budgets _ history).domain_eq
  have hclosed := Domain.closed_of_ofDescription h
  refine ⟨(traced domain budgets earlier history).events call, ?_, ?_, ?_⟩
  · rw [sink_after_of_unlimited (limit_traced ..)]
  · intro event hevent
    obtain ⟨r, -, rfl⟩ := List.mem_map.1 hevent
    exact AgentReport.tick_event ..
  · rw [tags_events _ (hdomain.symm ▸ hclosed), hdomain]

/-- The plan for warmth is reported at the tick to which the clock was moved. -/
theorem exists_events_camp :
    Domain.ofDescription camp campVocabulary = .ok campDomain ∧
    ∃ events : List TraceEvent,
      ((traced campDomain ⟨⟨4, 4⟩, {}⟩ #[] [.atTick 5]).after warmthCall).sink.events =
        (traced campDomain ⟨⟨4, 4⟩, {}⟩ #[] [.atTick 5]).sink.events ++ events ∧
      (∀ event ∈ events, event.tick = 5) ∧ events.map (·.tag) = ["htn.plan.ok"] := by
  obtain ⟨events, hevents, htick, htags⟩ :=
    exists_events_after ofDescription_camp ⟨⟨4, 4⟩, {}⟩ #[] [.atTick 5] warmthCall
  have hrefused : warmthCall.isRefused campDomain = false := by decide +kernel
  have hsuccess :
      ((traced campDomain ⟨⟨4, 4⟩, {}⟩ #[] [.atTick 5]).answer warmthCall).isSuccess = true := by
    decide +kernel
  rw [hrefused, hsuccess] at htags
  exact ⟨ofDescription_camp, events, hevents, htick, htags⟩

end Agent

end AgentPlanning
