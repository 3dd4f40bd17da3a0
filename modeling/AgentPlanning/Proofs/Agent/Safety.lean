import AgentPlanning.Proofs.Agent.Calls
import AgentPlanning.Proofs.Domain.Closed
import AgentPlanning.Proofs.Order.Calls
import AgentPlanning.Proofs.TaskNetwork.Answers
import AgentPlanning.Proofs.Utility.Tables

/-!
# Safe Use of a Domain

In a closed domain an agent never comes across a number of nothing: the goals that it chooses can be
planned for, and the actions that it plans can be executed. What still can go wrong is that there is
no plan, that a budget runs out, or that the queue of orders is full. Main statements:

* `SearchPlanner.contains_of_plan`, `Domain.Closed.contains_of_plan`: plans consist of actions of
  the domain;
* `Agent.kind_of_planNext_error`: a chosen goal is never an invalid request;
* `Agent.safe_of_ofDescription`: the domain of a description can be used safely.
-/

namespace AgentPlanning

theorem PlanError.kind_ne_invalid {reason : PlanError} (h : reason.isOutOfBudget = true) :
    reason.kind ≠ .invalid := by
  have hkind : reason.kind = .exhausted := of_decide_eq_true h
  rw [hkind]
  nofun

/-! ## Goals that are chosen -/

namespace GoalSelector

theorem eq_or_mem_of_better {best : Option GoalChoice} {next choice : GoalChoice}
    (h : choice ∈ better best next) : choice = next ∨ choice ∈ best := by
  cases best with
  | none => exact .inl (Option.some.inj h).symm
  | some previous =>
    simp only [better] at h
    split at h
    · exact .inl (Option.some.inj h).symm
    · exact .inr h

/-- A choice is that of the goal at its index among the goals to choose from. -/
theorem getElem?_of_select {selector : GoalSelector} {state : WorldState} {view : BlackboardView}
    {choice : GoalChoice} (h : selector.select state view = some choice) :
    ∃ option, selector.table.options[choice.index]? = some option ∧ choice.goal = option.goal ∧
      choice.strategy = option.strategy := by
  obtain ⟨hbest, -⟩ := Option.filter_eq_some_iff.1 h
  -- The best choice so far is that of a goal which the scan has passed.
  have hscan : ∀ choice ∈ selector.best? state view, ∃ option,
      selector.table.options[choice.index]? = some option ∧ choice.goal = option.goal ∧
        choice.strategy = option.strategy := by
    rw [best?]
    refine List.foldlRecOn (motive := fun best : Option GoalChoice => ∀ choice ∈ best, ∃ option,
      selector.table.options[choice.index]? = some option ∧ choice.goal = option.goal ∧
        choice.strategy = option.strategy) _ _ (fun _ hnone => by cases hnone) ?_
    rintro best hbefore ⟨option, index⟩ hoption choice hchoice
    rcases eq_or_mem_of_better hchoice with rfl | hmem
    · exact ⟨option, List.mem_zipIdx_iff_getElem?.1 hoption, rfl, rfl⟩
    · exact hbefore choice hmem
  exact hscan choice hbest

/-- A choice is one of the goals to choose from. -/
theorem exists_of_select {selector : GoalSelector} {state : WorldState} {view : BlackboardView}
    {choice : GoalChoice} (h : selector.select state view = some choice) :
    ∃ option ∈ selector.table.options,
      choice.goal = option.goal ∧ choice.strategy = option.strategy := by
  obtain ⟨option, hoption, hequal⟩ := getElem?_of_select h
  exact ⟨option, List.mem_of_getElem? hoption, hequal⟩

end GoalSelector

/-! ## Plans found by search -/

namespace SearchPlanner

variable {planner : SearchPlanner} {library : ActionLibrary} {start : WorldState}
  {goal : Condition} {weight : UInt32} (hbounded : planner.latest.table.Bounded)

include hbounded

/-- A search plans actions of its library only. -/
theorem contains_of_plan {plan : List ActionId}
    (h : (planner.plan library start goal weight).1 = .ok plan) :
    ∀ action ∈ plan, library.contains action = true := by
  rw [plan_fst] at h
  obtain ⟨i, hok, rfl⟩ := exists_of_extractPlan_ok h
  obtain ⟨tree, node, hnode, hroute⟩ := Search.exists_route_of_search_ok hbounded hok
  exact (tree.executes_of_route hroute hnode).contains

theorem kind_of_plan_error {reason : PlanError}
    (h : (planner.plan library start goal weight).1 = .error reason) :
    reason.kind ≠ .invalid := by
  rw [plan_fst] at h
  rcases outcome_of_extractPlan_error h with herror | ⟨needed, rfl⟩
  · rcases Search.reason_of_search_error hbounded herror with rfl | hbudget
    · nofun
    · exact PlanError.kind_ne_invalid hbudget
  · nofun

end SearchPlanner

/-! ## Plans found by decomposition -/

theorem TaskPlanner.kind_of_plan_error {planner : TaskPlanner} {network : TaskNetwork}
    {state : WorldState} {root : TaskId} (hroot : root < network.size) {reason : PlanError}
    (h : (planner.plan network state root).1 = .error reason) : reason.kind ≠ .invalid := by
  obtain ⟨attempt, hmeets, hplan⟩ := planner.exists_attempt_of_plan network state root hroot
  rw [hplan] at h
  cases attempt with
  | done => cases h
  | failed =>
    obtain rfl := Except.error.inj h
    nofun
  | stopped =>
    obtain rfl := Except.error.inj h
    exact PlanError.kind_ne_invalid hmeets

namespace Domain.Closed

variable {domain : Domain} (hclosed : domain.Closed)

include hclosed

/-- The leaves of a tree are actions of the domain, if its root exists. -/
theorem contains_of_mem_leaves {state : WorldState} {tree : DecompositionTree}
    (htree : tree.IsDecomposition domain.tasks state) (hroot : tree.subtask.ExistsIn domain) :
    ∀ action ∈ tree.leaves, domain.actions.contains action = true := by
  induction htree with
  | action id =>
    intro action haction
    rw [DecompositionTree.leaves, List.mem_singleton] at haction
    rw [haction]
    exact hroot
  | @task task id row parts hmethod hsubtasks _ ih =>
    intro action haction
    rw [DecompositionTree.leaves] at haction
    obtain ⟨part, hpart, hleaf⟩ := List.mem_flatMap.1 haction
    -- The part is a subtask of a method of the domain, so it exists as well.
    obtain ⟨entry, hentry, hid⟩ := hmethod.own
    have hmem : part.subtask ∈ domain.tasks.subtasksOf row :=
      hsubtasks ▸ List.mem_map_of_mem hpart
    exact ih part hpart
      (hclosed.subtasks task entry hentry id hid row hmethod.found part.subtask hmem) action hleaf

/-- A decomposition plans actions of the domain only. -/
theorem contains_of_plan {planner : TaskPlanner} {state : WorldState} {root : TaskId}
    {plan : List ActionId} (h : (planner.plan domain.tasks state root).1 = .ok plan) :
    ∀ action ∈ plan, domain.actions.contains action = true := by
  by_cases hroot : root < domain.tasks.size
  · obtain ⟨attempt, hmeets, hplan⟩ :=
      planner.exists_attempt_of_plan domain.tasks state root hroot
    rw [hplan] at h
    cases attempt with
    | done output =>
      obtain rfl := Except.ok.inj h
      obtain ⟨parts, hsubtasks, hparts, rfl⟩ := hmeets
      obtain ⟨tree, rfl, hsubtask⟩ := List.map_eq_singleton_iff.1 hsubtasks
      intro action haction
      rw [List.nil_append, List.flatMap_singleton] at haction
      have hexists : tree.subtask.ExistsIn domain := by rw [hsubtask]; exact hroot
      exact hclosed.contains_of_mem_leaves (hparts tree (List.mem_singleton_self tree)).1 hexists
        action haction
    | failed => cases h
    | stopped => cases h
  · -- A root that does not exist is not planned for.
    rw [planner.fst_plan_of_size_le domain.tasks state root hroot] at h
    cases h

end Domain.Closed

/-! ## Execution -/

/-- The only obstacle to executing an action of the library is a full queue. -/
theorem ActionLibrary.execute_error {library : ActionLibrary} {action : ActionId}
    (hcontains : library.contains action = true) {actor : EntityRef} {view : BlackboardView}
    {queue : OrderQueue} {reason : ExecutionError}
    (h : (library.execute action actor view queue).1 = .error reason) :
    reason = .queueFull action := by
  obtain ⟨hunknown, -⟩ | ⟨-, -, hfull⟩ := execute_eq_error_iff.1 h
  · cases hunknown.symm.trans hcontains
  · exact hfull

/-! ## The agent -/

namespace Agent

/-- Without a plan there are no actions. -/
theorem forall_mem_result {result : Except PlanError (List ActionId)} {p : ActionId → Prop}
    (h : ∀ plan, result = .ok plan → ∀ action ∈ plan, p action) :
    ∀ action ∈ result.toOption.getD [], p action := by
  cases result with
  | ok plan => exact h plan rfl
  | error => exact fun _ hnone => by cases hnone

variable {σ : Type} [TraceSink σ] {agent : Agent σ} {domain : Domain} {budgets : AgentBudgets}
  (hclosed : domain.Closed) (h : agent.Ready domain budgets)

include h

theorem contains_of_searchCondition {state : WorldState} {goal : Condition} {weight : UInt32}
    {plan : List ActionId} (hplan : (agent.searchCondition state goal weight).1 = .ok plan) :
    ∀ action ∈ plan, domain.actions.contains action = true := by
  rw [← h.domain_eq]
  exact SearchPlanner.contains_of_plan h.searcher.bounded hplan

theorem contains_of_searchGoal {state : WorldState} {goal : GoalId} {plan : List ActionId}
    (hplan : (agent.searchGoal state goal).1 = .ok plan) :
    ∀ action ∈ plan, domain.actions.contains action = true := by
  rw [searchGoal] at hplan
  split at hplan
  · cases hplan
  · exact contains_of_searchCondition h hplan

include hclosed

theorem contains_of_decompose {state : WorldState} {root : TaskId} {plan : List ActionId}
    (hplan : (agent.decompose state root).1 = .ok plan) :
    ∀ action ∈ plan, domain.actions.contains action = true := by
  have hdomain := h.domain_eq
  subst hdomain
  exact hclosed.contains_of_plan hplan

theorem contains_of_pursue {state : WorldState} {goal : GoalId} {strategy : PlanningStrategy}
    {plan : List ActionId} (hplan : (agent.pursue state goal strategy).1 = .ok plan) :
    ∀ action ∈ plan, domain.actions.contains action = true := by
  cases strategy with
  | search => exact contains_of_searchGoal h hplan
  | decomposition =>
    rw [pursue] at hplan
    split at hplan
    · cases hplan
    · exact contains_of_decompose hclosed h hplan

/-- A request for a goal that exists, and has a root if it is to be planned by decomposition, is
not invalid. -/
theorem kind_of_pursue_error {state : WorldState} {goal : GoalId} {strategy : PlanningStrategy}
    (hgoal : (domain.goals.get? goal).isSome = true)
    (hroot : strategy = .decomposition → (domain.roots.root? goal).isSome = true)
    {reason : PlanError} (herror : (agent.pursue state goal strategy).1 = .error reason) :
    reason.kind ≠ .invalid := by
  have hdomain := h.domain_eq
  subst hdomain
  -- With the goal or its root at hand, the request reaches a planner.
  cases strategy with
  | search =>
    obtain ⟨found, hfound⟩ := Option.isSome_iff_exists.1 hgoal
    rw [pursue, searchGoal, hfound] at herror
    exact SearchPlanner.kind_of_plan_error h.searcher.bounded herror
  | decomposition =>
    obtain ⟨root, hfound⟩ := Option.isSome_iff_exists.1 (hroot rfl)
    rw [pursue, hfound] at herror
    exact TaskPlanner.kind_of_plan_error (hclosed.roots goal root hfound) herror

/-- The goal that is chosen can be planned for. -/
theorem kind_of_planNext_error {state : WorldState} {view : BlackboardView} {reason : PlanError}
    (herror : (agent.planNext state view).1 = .error reason) : reason.kind ≠ .invalid := by
  cases hchoice : agent.domain.selector.select state view with
  | none =>
    rw [planNext_of_none hchoice] at herror
    obtain rfl := Except.error.inj herror
    nofun
  | some choice =>
    rw [planNext_of_some hchoice] at herror
    rw [h.domain_eq] at hchoice
    -- The choice is an option of the closed domain, so its goal and its root exist.
    obtain ⟨option, hoption, hgoal, hstrategy⟩ := GoalSelector.exists_of_select hchoice
    have hexists := hclosed.chosenGoals option hoption
    have hroot := hclosed.chosenRoots option hoption
    rw [← hgoal] at hexists hroot
    rw [← hstrategy] at hroot
    generalize hresult :
      ((agent.report (.goalChosen choice)).pursue state choice.goal choice.strategy).1 = result
      at herror
    cases result with
    | ok => cases herror
    | error =>
      obtain rfl := Except.error.inj herror
      exact kind_of_pursue_error hclosed (h.report (.goalChosen choice)) hexists hroot hresult

/-- Whatever is asked for, the plan consists of actions of the domain. -/
theorem contains_of_mem_actions (call : Call) :
    ∀ action ∈ (agent.answer call).actions, domain.actions.contains action = true := by
  cases call with
  | observe | chooseGoal | execute | atTick => exact fun _ hnone => by cases hnone
  | searchGoal state goal =>
    rw [answer, actions_plan]
    exact forall_mem_result fun _ => contains_of_searchGoal h
  | searchCondition state goal weight =>
    rw [answer, actions_plan]
    exact forall_mem_result fun _ => contains_of_searchCondition h
  | decompose state root =>
    rw [answer, actions_plan]
    exact forall_mem_result fun _ => contains_of_decompose hclosed h
  | pursue state goal strategy =>
    rw [answer, actions_plan]
    exact forall_mem_result fun _ => contains_of_pursue hclosed h
  | planNext state view =>
    cases hchoice : agent.domain.selector.select state view with
    | none =>
      rw [answer, planNext_of_none hchoice]
      exact fun _ hnone => by cases hnone
    | some choice =>
      rw [answer, planNext_of_some hchoice, actions_chosenPlan]
      exact forall_mem_result fun _ => contains_of_pursue hclosed (h.report (.goalChosen choice))

omit hclosed in
theorem execute_error {action : ActionId} (hcontains : domain.actions.contains action = true)
    {actor : EntityRef} {view : BlackboardView} {queue : OrderQueue} {reason : ExecutionError}
    (herror : (agent.execute action actor view queue).1 = .error reason) :
    reason = .queueFull action := by
  rw [execute, h.domain_eq] at herror
  dsimp only at herror
  split at herror
  · cases herror
  next hfailed =>
    obtain rfl := Except.error.inj herror
    exact ActionLibrary.execute_error hcontains hfailed

omit hclosed h

/-- The domain of the camp. -/
def campDomain : Domain := (Domain.resolve camp campVocabulary).value

theorem ofDescription_camp : Domain.ofDescription camp campVocabulary = .ok campDomain := by
  have hproblems : (Domain.resolve camp campVocabulary).problems = [] := by decide +kernel
  exact Checked.toExcept_eq_ok_iff.2 ⟨hproblems, rfl⟩

/-- Asks for warmth where there is wood. -/
def warmthCall : Call :=
  .pursue (.ofAtoms (campDomain.atom? "has wood").toList) 0 .decomposition

theorem answer_warmthCall :
    (afterAll campDomain ⟨⟨4, 4⟩, {}⟩ NullSink.mk []).answer warmthCall = .plan (.ok [1]) := by
  decide +kernel

/-- Whatever an agent for the domain of a description was asked before, it never plans for a goal
that does not exist. Its plans consist of actions of the domain, and when the agent comes to execute
one of them, nothing but a full queue can prevent it. -/
theorem safe_of_ofDescription {description : Description} {vocabulary : Vocabulary}
    (h : Domain.ofDescription description vocabulary = .ok domain) (budgets : AgentBudgets)
    (sink : σ) (history : List Call) :
    (∀ state view reason,
      ((afterAll domain budgets sink history).planNext state view).1 = .error reason →
        reason.kind ≠ .invalid) ∧
    ∀ call, ∀ action ∈ ((afterAll domain budgets sink history).answer call).actions,
      domain.actions.contains action = true ∧
      ∀ later actor view queue reason,
        ((afterAll domain budgets sink (history ++ call :: later)).execute action actor view
          queue).1 = .error reason → reason = .queueFull action := by
  have hclosed := Domain.closed_of_ofDescription h
  have hready := ready_afterAll domain budgets sink history
  refine ⟨fun state view reason => kind_of_planNext_error hclosed hready, ?_⟩
  intro call action haction
  have hcontains := contains_of_mem_actions hclosed hready call action haction
  refine ⟨hcontains, fun later actor view queue reason => ?_⟩
  exact execute_error (ready_afterAll domain budgets sink _) hcontains

/-- In the camp the wood is lit, unless the queue is full. -/
theorem safe_camp :
    Domain.ofDescription camp campVocabulary = .ok campDomain ∧
    (∀ state view reason,
      ((afterAll campDomain ⟨⟨4, 4⟩, {}⟩ NullSink.mk []).planNext state view).1 = .error reason →
        reason.kind ≠ .invalid) ∧
    (afterAll campDomain ⟨⟨4, 4⟩, {}⟩ NullSink.mk []).answer warmthCall = .plan (.ok [1]) ∧
    campDomain.actions.contains 1 = true ∧
    ∀ actor view queue reason,
      ((afterAll campDomain ⟨⟨4, 4⟩, {}⟩ NullSink.mk [warmthCall]).execute 1 actor view
        queue).1 = .error reason → reason = .queueFull 1 := by
  obtain ⟨hvalid, hplans⟩ :=
    safe_of_ofDescription ofDescription_camp ⟨⟨4, 4⟩, {}⟩ NullSink.mk []
  have hmem : 1 ∈
      ((afterAll campDomain ⟨⟨4, 4⟩, {}⟩ NullSink.mk []).answer warmthCall).actions := by
    rw [answer_warmthCall]
    exact List.mem_singleton_self 1
  obtain ⟨hcontains, hexecute⟩ := hplans warmthCall 1 hmem
  exact ⟨ofDescription_camp, hvalid, answer_warmthCall, hcontains, hexecute []⟩

end Agent

end AgentPlanning
