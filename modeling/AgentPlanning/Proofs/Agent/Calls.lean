import AgentPlanning.Agent
import AgentPlanning.Proofs.Search.History
import AgentPlanning.Proofs.TaskNetwork.Budgets

/-!
# Calls of an Agent

An agent observes, chooses goals, plans and executes, in any order. What it keeps from one call
to the next are its planners, its sink and its tick, and none of them shows in what a later call
returns. Main statements:

* `Ready.after`: a call leaves the domain and the budgets as they were, and planners that can be
  used again;
* `answer_eq_of_ready`: agents with one domain and one set of budgets answer alike;
* `latestPlan_after`: a planner keeps the plan that is returned;
* `answer_afterAll`: a call is answered as if it were the first.
-/

namespace AgentPlanning

namespace TaskPlanner

variable (planner : TaskPlanner) (network : TaskNetwork) (state : WorldState) (root : TaskId)

theorem budget_plan : (planner.plan network state root).2.budget = planner.budget := by
  rw [plan]
  split <;> rfl

/-- What a planner answers depends on its budgets only. -/
theorem plan_eq_of_budget {other : TaskPlanner} (h : planner.budget = other.budget) :
    (planner.plan network state root).1 = (other.plan network state root).1 := by
  rw [plan, plan, h, Decomposition.run_left planner.latest, Decomposition.run_left other.latest]

/-- A planner keeps the plan that it answered with, and no plan if it failed. -/
theorem latestPlan_plan :
    (planner.plan network state root).2.latestPlan =
      (planner.plan network state root).1.toOption.getD [] := by
  rw [plan]
  split <;> rfl

end TaskPlanner

namespace Agent

/-! ## Calls and their answers -/

/-- A call of an agent. -/
inductive Call where
  | observe (view : BlackboardView)
  | chooseGoal (state : WorldState) (view : BlackboardView)
  | searchGoal (state : WorldState) (goal : GoalId)
  | searchCondition (state : WorldState) (goal : Condition) (weight : UInt32)
  | decompose (state : WorldState) (root : TaskId)
  | pursue (state : WorldState) (goal : GoalId) (strategy : PlanningStrategy)
  | planNext (state : WorldState) (view : BlackboardView)
  | execute (action : ActionId) (actor : EntityRef) (view : BlackboardView) (queue : OrderQueue)
  | atTick (tick : Nat)

/-- What a call returns. -/
inductive Answer where
  | state (observed : WorldState)
  | choice (chosen : Option GoalChoice)
  | plan (result : Except PlanError (List ActionId))
  | chosenPlan (result : Except PlanError (GoalChoice × List ActionId))
  /-- An order, and the queue that was handed in. -/
  | order (result : Except ExecutionError Order) (queue : OrderQueue)
  /-- Nothing. -/
  | done
deriving DecidableEq

/-- The plan that is returned; empty if none is. -/
def Answer.actions : Answer → List ActionId
  | plan (.ok actions) | chosenPlan (.ok (_, actions)) => actions
  | _ => []

/-- The planner that a request for a goal is handed to, if the goal is one that it can be asked
for. -/
def plannerFor? (domain : Domain) (goal : GoalId) : PlanningStrategy → Option PlanningStrategy
  | .search => (domain.goals.get? goal).map fun _ => .search
  | .decomposition => (domain.roots.root? goal).map fun _ => .decomposition

/-- The planner that a call reaches, if it reaches one. -/
def Call.planner? (domain : Domain) : Call → Option PlanningStrategy
  | searchGoal _ goal => plannerFor? domain goal .search
  | searchCondition .. => some .search
  | decompose .. => some .decomposition
  | pursue _ goal strategy => plannerFor? domain goal strategy
  | planNext state view =>
    (domain.selector.select state view).bind fun choice =>
      plannerFor? domain choice.goal choice.strategy
  | observe .. | chooseGoal .. | execute .. | atTick .. => none

variable {σ τ : Type}

/-- The plan that a planner of the agent keeps. -/
def latestPlan (agent : Agent σ) : PlanningStrategy → List ActionId
  | .search => agent.searcher.latestPlan
  | .decomposition => agent.decomposer.latestPlan

variable [TraceSink σ] [TraceSink τ]

/-- What the agent returns. -/
def answer (agent : Agent σ) : Call → Answer
  | .observe view => .state (agent.observe view)
  | .chooseGoal state view => .choice (agent.chooseGoal state view).1
  | .searchGoal state goal => .plan (agent.searchGoal state goal).1
  | .searchCondition state goal weight => .plan (agent.searchCondition state goal weight).1
  | .decompose state root => .plan (agent.decompose state root).1
  | .pursue state goal strategy => .plan (agent.pursue state goal strategy).1
  | .planNext state view => .chosenPlan (agent.planNext state view).1
  | .execute action actor view queue =>
    .order (agent.execute action actor view queue).1 (agent.execute action actor view queue).2.1
  | .atTick _ => .done

/-- The agent after the call. -/
def after (agent : Agent σ) : Call → Agent σ
  | .observe _ => agent
  | .chooseGoal state view => (agent.chooseGoal state view).2
  | .searchGoal state goal => (agent.searchGoal state goal).2
  | .searchCondition state goal weight => (agent.searchCondition state goal weight).2
  | .decompose state root => (agent.decompose state root).2
  | .pursue state goal strategy => (agent.pursue state goal strategy).2
  | .planNext state view => (agent.planNext state view).2
  | .execute action actor view queue => (agent.execute action actor view queue).2.2
  | .atTick tick => agent.atTick tick

/-- An agent after the calls of its history. -/
def afterAll (domain : Domain) (budgets : AgentBudgets) (sink : σ) (history : List Call) :
    Agent σ :=
  history.foldl after (reportingTo domain budgets sink)

/-! ## What a call leaves -/

/-- The agent has the given domain and budgets, and its planners can be used. -/
structure Ready (agent : Agent σ) (domain : Domain) (budgets : AgentBudgets) : Prop where
  domain_eq : agent.domain = domain
  searcher : agent.searcher.Ready budgets.search
  decomposer : agent.decomposer.budget = budgets.decomposition

variable {agent : Agent σ} {other : Agent τ} {domain : Domain} {budgets : AgentBudgets}

omit [TraceSink σ] in
theorem ready_reportingTo (domain : Domain) (budgets : AgentBudgets) (sink : σ) :
    (reportingTo domain budgets sink).Ready domain budgets where
  domain_eq := rfl
  searcher := SearchPlanner.ready_ofBudget budgets.search
  decomposer := rfl

theorem planNext_of_none {state : WorldState} {view : BlackboardView}
    (h : agent.domain.selector.select state view = none) :
    agent.planNext state view = (.error .noChoice, agent.report .noGoalChosen) := by
  rw [planNext, chooseGoal, h]

theorem planNext_of_some {state : WorldState} {view : BlackboardView} {choice : GoalChoice}
    (h : agent.domain.selector.select state view = some choice) :
    agent.planNext state view =
      (((agent.report (.goalChosen choice)).pursue state choice.goal choice.strategy).1.map
        (choice, ·),
      ((agent.report (.goalChosen choice)).pursue state choice.goal choice.strategy).2) := by
  rw [planNext, chooseGoal, h]

namespace Ready

variable (h : agent.Ready domain budgets)

include h

theorem report (r : AgentReport) : (agent.report r).Ready domain budgets :=
  ⟨h.domain_eq, h.searcher, h.decomposer⟩

theorem searchCondition (state : WorldState) (goal : Condition) (weight : UInt32) :
    (agent.searchCondition state goal weight).2.Ready domain budgets :=
  ⟨h.domain_eq, h.searcher.plan .., h.decomposer⟩

theorem searchGoal (state : WorldState) (goal : GoalId) :
    (agent.searchGoal state goal).2.Ready domain budgets := by
  rw [Agent.searchGoal]
  split
  · exact h
  · exact h.searchCondition ..

theorem decompose (state : WorldState) (root : TaskId) :
    (agent.decompose state root).2.Ready domain budgets :=
  ⟨h.domain_eq, h.searcher, (TaskPlanner.budget_plan ..).trans h.decomposer⟩

theorem pursue (state : WorldState) (goal : GoalId) (strategy : PlanningStrategy) :
    (agent.pursue state goal strategy).2.Ready domain budgets := by
  cases strategy with
  | search => exact h.searchGoal state goal
  | decomposition =>
    rw [Agent.pursue]
    split
    · exact h
    · exact h.decompose ..

theorem planNext (state : WorldState) (view : BlackboardView) :
    (agent.planNext state view).2.Ready domain budgets := by
  cases hchoice : agent.domain.selector.select state view with
  | none =>
    rw [planNext_of_none hchoice]
    exact h.report _
  | some choice =>
    rw [planNext_of_some hchoice]
    exact (h.report _).pursue ..

theorem execute (action : ActionId) (actor : EntityRef) (view : BlackboardView)
    (queue : OrderQueue) : (agent.execute action actor view queue).2.2.Ready domain budgets := by
  rw [Agent.execute]
  dsimp only
  split <;> exact h.report _

/-- No call changes what the agent can be used for. -/
theorem after (call : Call) : (agent.after call).Ready domain budgets := by
  cases call with
  | observe => exact h
  | chooseGoal state view =>
    rw [Agent.after, chooseGoal]
    split <;> exact h.report _
  | searchGoal => exact h.searchGoal ..
  | searchCondition => exact h.searchCondition ..
  | decompose => exact h.decompose ..
  | pursue => exact h.pursue ..
  | planNext => exact h.planNext ..
  | execute => exact h.execute ..
  | atTick => exact ⟨h.domain_eq, h.searcher, h.decomposer⟩

end Ready

theorem ready_afterAll (domain : Domain) (budgets : AgentBudgets) (sink : σ)
    (history : List Call) : (afterAll domain budgets sink history).Ready domain budgets :=
  List.foldlRecOn history after (motive := fun agent : Agent σ => agent.Ready domain budgets)
    (ready_reportingTo domain budgets sink) fun _ hagent call _ => hagent.after call

/-! ## What a call returns -/

section Alike

variable (h : agent.Ready domain budgets) (h' : other.Ready domain budgets)

include h h'

theorem searchCondition_eq (state : WorldState) (goal : Condition) (weight : UInt32) :
    (agent.searchCondition state goal weight).1 = (other.searchCondition state goal weight).1 := by
  show (agent.searcher.plan agent.domain.actions state goal weight).1 =
    (other.searcher.plan other.domain.actions state goal weight).1
  rw [h.domain_eq, h'.domain_eq]
  exact h.searcher.plan_eq _ _ _ _ h'.searcher

theorem searchGoal_eq (state : WorldState) (goal : GoalId) :
    (agent.searchGoal state goal).1 = (other.searchGoal state goal).1 := by
  rw [searchGoal, searchGoal, h.domain_eq, h'.domain_eq]
  cases domain.goals.get? goal with
  | none => rfl
  | some goal => exact searchCondition_eq h h' ..

theorem decompose_eq (state : WorldState) (root : TaskId) :
    (agent.decompose state root).1 = (other.decompose state root).1 := by
  show (agent.decomposer.plan agent.domain.tasks state root).1 =
    (other.decomposer.plan other.domain.tasks state root).1
  rw [h.domain_eq, h'.domain_eq]
  exact TaskPlanner.plan_eq_of_budget _ _ _ _ (h.decomposer.trans h'.decomposer.symm)

theorem pursue_eq (state : WorldState) (goal : GoalId) (strategy : PlanningStrategy) :
    (agent.pursue state goal strategy).1 = (other.pursue state goal strategy).1 := by
  cases strategy with
  | search => exact searchGoal_eq h h' state goal
  | decomposition =>
    rw [pursue, pursue, h.domain_eq, h'.domain_eq]
    cases domain.roots.root? goal with
    | none => rfl
    | some root => exact decompose_eq h h' state root

theorem planNext_eq (state : WorldState) (view : BlackboardView) :
    (agent.planNext state view).1 = (other.planNext state view).1 := by
  -- The choice depends on the domain only, so both agents make the same one.
  cases hchoice : domain.selector.select state view with
  | none =>
    rw [planNext_of_none (h.domain_eq ▸ hchoice), planNext_of_none (h'.domain_eq ▸ hchoice)]
  | some choice =>
    rw [planNext_of_some (h.domain_eq ▸ hchoice), planNext_of_some (h'.domain_eq ▸ hchoice)]
    exact congrArg (Except.map (choice, ·)) (pursue_eq (h.report _) (h'.report _) ..)

/-- Agents that know the same and have the same budgets answer alike. -/
theorem answer_eq_of_ready (call : Call) : agent.answer call = other.answer call := by
  cases call with
  | observe view => rw [answer, answer, observe, observe, h.domain_eq, h'.domain_eq]
  | chooseGoal state view =>
    rw [answer, answer, chooseGoal, chooseGoal, h.domain_eq, h'.domain_eq]
    cases domain.selector.select state view <;> rfl
  | searchGoal state goal => exact congrArg Answer.plan (searchGoal_eq h h' ..)
  | searchCondition => exact congrArg Answer.plan (searchCondition_eq h h' ..)
  | decompose => exact congrArg Answer.plan (decompose_eq h h' ..)
  | pursue => exact congrArg Answer.plan (pursue_eq h h' ..)
  | planNext => exact congrArg Answer.chosenPlan (planNext_eq h h' ..)
  | execute action actor view queue =>
    rw [answer, answer, execute, execute, h.domain_eq, h'.domain_eq]
    dsimp only
    cases (domain.actions.execute action actor view queue).1 <;> rfl
  | atTick => rfl

end Alike

/-! ## The plans that the planners keep -/

theorem actions_plan (result : Except PlanError (List ActionId)) :
    (Answer.plan result).actions = result.toOption.getD [] := by
  cases result <;> rfl

theorem actions_chosenPlan (choice : GoalChoice) (result : Except PlanError (List ActionId)) :
    (Answer.chosenPlan (result.map (choice, ·))).actions = result.toOption.getD [] := by
  cases result <;> rfl

theorem latestPlan_pursue (agent : Agent σ) (state : WorldState) {goal : GoalId}
    {strategy planner : PlanningStrategy}
    (h : plannerFor? agent.domain goal strategy = some planner) :
    (agent.pursue state goal strategy).2.latestPlan planner =
      (agent.pursue state goal strategy).1.toOption.getD [] := by
  cases strategy with
  | search =>
    obtain ⟨found, hfound, rfl⟩ := Option.map_eq_some_iff.1 h
    rw [pursue, searchGoal, hfound]
    exact SearchPlanner.latestPlan_plan ..
  | decomposition =>
    obtain ⟨root, hroot, rfl⟩ := Option.map_eq_some_iff.1 h
    rw [pursue, hroot]
    exact TaskPlanner.latestPlan_plan ..

/-- A planner that a call reaches keeps the plan that is returned, and none if none is. -/
theorem latestPlan_after {call : Call} {planner : PlanningStrategy}
    (h : call.planner? agent.domain = some planner) :
    (agent.after call).latestPlan planner = (agent.answer call).actions := by
  cases call with
  | observe | chooseGoal | execute | atTick => cases h
  | searchGoal state goal =>
    rw [answer, actions_plan]
    exact latestPlan_pursue agent state
      (show plannerFor? agent.domain goal .search = some planner from h)
  | searchCondition state goal weight =>
    obtain rfl := Option.some.inj h
    rw [answer, actions_plan]
    exact SearchPlanner.latestPlan_plan ..
  | decompose state root =>
    obtain rfl := Option.some.inj h
    rw [answer, actions_plan]
    exact TaskPlanner.latestPlan_plan ..
  | pursue state goal strategy =>
    rw [answer, actions_plan]
    exact latestPlan_pursue agent state h
  | planNext state view =>
    -- Reporting the choice touches neither planner.
    obtain ⟨choice, hchoice, hplanner⟩ := Option.bind_eq_some_iff.1 h
    rw [after, answer, planNext_of_some hchoice, actions_chosenPlan]
    exact latestPlan_pursue (agent.report (.goalChosen choice)) state hplanner

/-! ## Any history -/

/-- A domain with a goal (the last atom) that no action leads to. -/
def idleDomain : Domain where
  atoms := .empty
  projection := ⟨[]⟩
  actions := .ofList []
  goals := .ofList [("work", { condition := Condition.free.require (Fin.last _) true })]
  tasks := {}
  roots := {}
  selector := {}

/-- Calls that find a plan without actions, name a task and a goal that do not exist, and move
the clock. -/
def idleCalls : List Call :=
  [.searchCondition .empty .free 1, .decompose .empty 3, .atTick 5, .pursue .empty 7 .search]

/-- An agent in the domain after those calls, with a log of all reports. -/
def idleAgent : Agent TraceLog := afterAll idleDomain ⟨⟨4, 4⟩, {}⟩ {} idleCalls

theorem answer_idleAgent :
    idleAgent.answer (.searchGoal .empty 0) = .plan (.error .unreachable) := by
  decide +kernel

/-- Whatever calls came before, and whoever listened, a call returns what a new agent would
return. A planner that the call reaches keeps the returned plan; if it found none, it keeps no
plan. -/
theorem answer_afterAll (domain : Domain) (budgets : AgentBudgets) (sink : σ) (fresh : τ)
    (history : List Call) (call : Call) :
    (afterAll domain budgets sink history).answer call =
      (reportingTo domain budgets fresh).answer call ∧
    ∀ planner ∈ call.planner? domain,
      ((afterAll domain budgets sink history).after call).latestPlan planner =
        ((afterAll domain budgets sink history).answer call).actions := by
  have hready := ready_afterAll domain budgets sink history
  refine ⟨answer_eq_of_ready hready (ready_reportingTo domain budgets fresh) call, ?_⟩
  intro planner hplanner
  exact latestPlan_after (hready.domain_eq.symm ▸ hplanner)

/-- The goal is out of reach before and after the calls, and no plan for it is kept. -/
theorem latestPlan_idleAgent :
    (Call.searchGoal .empty 0).planner? idleDomain = some .search ∧
    idleAgent.answer (.searchGoal .empty 0) = .plan (.error .unreachable) ∧
    (reportingTo idleDomain ⟨⟨4, 4⟩, {}⟩ NullSink.mk).answer (.searchGoal .empty 0) =
      .plan (.error .unreachable) ∧
    (idleAgent.after (.searchGoal .empty 0)).latestPlan .search = [] := by
  obtain ⟨halike, hkept⟩ := answer_afterAll idleDomain ⟨⟨4, 4⟩, {}⟩ ({} : TraceLog) NullSink.mk
    idleCalls (.searchGoal .empty 0)
  refine ⟨rfl, answer_idleAgent, halike.symm.trans answer_idleAgent, ?_⟩
  exact (hkept .search rfl).trans (congrArg Answer.actions answer_idleAgent)

end Agent

end AgentPlanning
