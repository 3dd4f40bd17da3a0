import AgentPlanning.Action.Execution
import AgentPlanning.Domain.Resolution
import AgentPlanning.Search.Planner
import AgentPlanning.TaskNetwork.Planner
import AgentPlanning.Trace

/-!
# Planning Agents

An agent reads a domain, chooses goals, plans for them with one of two planners and
executes planned actions. Calls report to the agent's trace sink, stamped with its tick; a
call that names an unknown goal is refused before anything is planned, and is not reported.
-/

namespace AgentPlanning

/-- What an agent reports about its calls. -/
inductive AgentReport where
  /-- A goal was chosen. -/
  | goalChosen (choice : GoalChoice)
  /-- No goal was good enough. -/
  | noGoalChosen
  /-- A plan of the given length was found with the given effort. -/
  | planFound (strategy : PlanningStrategy) (length effort : Nat)
  /-- No plan was found with the given effort. -/
  | planMissed (strategy : PlanningStrategy) (kind : FailureKind) (effort : Nat)
  /-- The order of an action was submitted. -/
  | orderSubmitted (action : ActionId) (tag : OrderTag)
  /-- The order of an action was not submitted. -/
  | orderDropped (action : ActionId)
deriving DecidableEq

/-- The trace event of a report at the given tick. -/
def AgentReport.event (tick : Nat) : AgentReport → TraceEvent
  | goalChosen choice => ⟨tick, "utility.select", choice.goal, choice.index⟩
  | noGoalChosen => ⟨tick, "utility.none", 0, 0⟩
  | planFound .search length effort => ⟨tick, "goap.plan.ok", length, effort⟩
  | planFound .decomposition length effort => ⟨tick, "htn.plan.ok", length, effort⟩
  | planMissed .search kind effort => ⟨tick, "goap.plan.fail", kind.code, effort⟩
  | planMissed .decomposition kind effort => ⟨tick, "htn.plan.fail", kind.code, effort⟩
  | orderSubmitted action tag => ⟨tick, "exec.submit", action, tag.toNat⟩
  | orderDropped action => ⟨tick, "exec.drop", action, 0⟩

/-- The report about a planning call. -/
def AgentReport.ofResult (strategy : PlanningStrategy) (effort : Nat) :
    Except PlanError (List ActionId) → AgentReport
  | .ok plan => planFound strategy plan.length effort
  | .error e => planMissed strategy e.kind effort

/-- The budgets of an agent's planners. -/
structure AgentBudgets where
  search : SearchBudget := {}
  decomposition : DecompositionBudget := {}
deriving DecidableEq, Inhabited, Repr

/-- An agent between two calls, with a trace sink of type `σ`. -/
structure Agent (σ : Type) where
  /-- What the agent knows. -/
  domain : Domain
  searcher : SearchPlanner
  decomposer : TaskPlanner
  /-- The receiver of trace events. -/
  sink : σ
  /-- The time stamp of trace events. -/
  tick : Nat

namespace Agent

variable {σ : Type}

/-- An agent that has not been called. -/
def reportingTo (domain : Domain) (budgets : AgentBudgets) (sink : σ) : Agent σ where
  domain := domain
  searcher := .ofBudget budgets.search
  decomposer := .ofBudget budgets.decomposition
  sink := sink
  tick := 0

/-- An agent with default budgets that reports to no one. -/
def ofDomain (domain : Domain) : Agent NullSink :=
  reportingTo domain {} {}

/-- The budgets of the agent's planners. -/
def budgets (agent : Agent σ) : AgentBudgets :=
  ⟨agent.searcher.budget, agent.decomposer.budget⟩

/-- The agent with another time stamp. -/
def atTick (agent : Agent σ) (tick : Nat) : Agent σ :=
  { agent with tick }

/-- The world state as the agent sees it. -/
def observe (agent : Agent σ) (view : BlackboardView) : WorldState :=
  agent.domain.projection.state view

variable [TraceSink σ]

/-- Sends a report to the sink. -/
def report (agent : Agent σ) (report : AgentReport) : Agent σ :=
  { agent with sink := TraceSink.receive agent.sink (report.event agent.tick) }

/-- Chooses a goal. -/
def chooseGoal (agent : Agent σ) (state : WorldState) (view : BlackboardView) :
    Option GoalChoice × Agent σ :=
  match agent.domain.selector.select state view with
  | some choice => (some choice, agent.report (.goalChosen choice))
  | none => (none, agent.report .noGoalChosen)

/-- Plans for a condition by search. -/
def searchCondition (agent : Agent σ) (state : WorldState) (goal : Condition) (weight : UInt32) :
    Except PlanError (List ActionId) × Agent σ :=
  let (result, searcher) := agent.searcher.plan agent.domain.actions state goal weight
  let agent := { agent with searcher }
  (result, agent.report (.ofResult .search searcher.latestStats.expanded result))

/-- Plans for a goal by search. -/
def searchGoal (agent : Agent σ) (state : WorldState) (goal : GoalId) :
    Except PlanError (List ActionId) × Agent σ :=
  match agent.domain.goals.get? goal with
  | none => (.error (.unknownGoal goal), agent)
  | some goal => agent.searchCondition state goal.condition goal.weight

/-- Plans a task by decomposition. -/
def decompose (agent : Agent σ) (state : WorldState) (root : TaskId) :
    Except PlanError (List ActionId) × Agent σ :=
  let (result, decomposer) := agent.decomposer.plan agent.domain.tasks state root
  let agent := { agent with decomposer }
  (result, agent.report (.ofResult .decomposition decomposer.latestStats.selections result))

/-- Plans for a goal with the given strategy. Decomposition begins with the goal's root task. -/
def pursue (agent : Agent σ) (state : WorldState) (goal : GoalId)
    (strategy : PlanningStrategy) : Except PlanError (List ActionId) × Agent σ :=
  match strategy with
  | .search => agent.searchGoal state goal
  | .decomposition =>
    match agent.domain.roots.root? goal with
    | none => (.error (.unknownGoal goal), agent)
    | some root => agent.decompose state root

/-- Chooses a goal and plans for it with its strategy. -/
def planNext (agent : Agent σ) (state : WorldState) (view : BlackboardView) :
    Except PlanError (GoalChoice × List ActionId) × Agent σ :=
  match agent.chooseGoal state view with
  | (none, agent) => (.error .noChoice, agent)
  | (some choice, agent) =>
    let (result, agent) := agent.pursue state choice.goal choice.strategy
    (result.map (choice, ·), agent)

/-- Submits the order of a planned action. -/
def execute (agent : Agent σ) (action : ActionId) (actor : EntityRef) (view : BlackboardView)
    (queue : OrderQueue) : Except ExecutionError Order × OrderQueue × Agent σ :=
  let (result, queue) := agent.domain.actions.execute action actor view queue
  match result with
  | .ok order => (.ok order, queue, agent.report (.orderSubmitted action order.tag))
  | .error e => (.error e, queue, agent.report (.orderDropped action))

end Agent

end AgentPlanning
