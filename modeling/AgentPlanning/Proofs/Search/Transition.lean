import AgentPlanning.Proofs.Action.Plan
import AgentPlanning.Proofs.Iteration
import AgentPlanning.Proofs.Search.StateTable
import AgentPlanning.Search.AStar

/-!
# What a Step of the Search Can Do

Every operation of the search is described once by the searches that it can lead to, so that
reasoning about runs never opens the operations themselves. Main statements:

* `noted_of_reach`: a path to a state is dropped, or it improves a known node, or it adds one;
* `overrun_of_reach`: if the search ends then the nodes, the open entries or the slots ran out;
* `tried_of_tryAction`: a candidate action is passed over, or a path is noted;
* `stepped_of_step`: a step drops a stale entry or expands a node;
* `stopped_of_step`: a step ends the search because nothing is open, because the goal is
  reached, or because a budget ran out.
-/

namespace AgentPlanning

theorem addCost_mono {a b : Nat} (h : a ≤ b) (cost : Nat) : addCost a cost ≤ addCost b cost := by
  rw [addCost, addCost]
  omega

theorem addCost_le_maxCost (a b : Nat) : addCost a b ≤ maxCost := Nat.min_le_right _ _

theorem le_addCost {a : Nat} (h : a ≤ maxCost) (b : Nat) : a ≤ addCost a b :=
  Nat.le_min.2 ⟨Nat.le_add_right a b, h⟩

namespace Search

variable {problem : SearchProblem} {nodeLimit : Nat} {s t : Search} {ended : SearchEnd}

/-- The search with one more open entry, for a node that is reached at `cost`. -/
def opened (problem : SearchProblem) (s : Search) (index : NodeIndex) (state : WorldState)
    (cost : Nat) : Search :=
  { s with
    seq := s.seq + 1
    openList := s.openList.push ⟨addCost cost (problem.estimate state), cost, s.seq + 1, index⟩ }

/-- The search with a cheaper path to a known node, which is opened again. -/
def improved (problem : SearchProblem) (s : Search) (index : NodeIndex) (state : WorldState)
    (arrival : Arrival) (cost : Nat) : Search :=
  opened problem
    { s with nodes := s.nodes.modify index fun known => { known with arrival, cost } }
    index state cost

/-- The search with a new node, which is stored in a slot of the table and opened. -/
def added (problem : SearchProblem) (s : Search) (slot : Nat) (state : WorldState)
    (arrival : Arrival) (cost : Nat) : Search :=
  opened problem
    { s with
      nodes := s.nodes.push ⟨state, some arrival, cost⟩
      table := s.table.store slot s.nodes.size }
    s.nodes.size state cost

/-- What becomes of a search that takes note of a path to `state`. -/
inductive Noted (problem : SearchProblem) (nodeLimit : Nat) (s : Search) (state : WorldState)
    (arrival : Arrival) (cost : Nat) : Search → Prop where
  /-- The known path is at least as cheap. -/
  | kept {index : NodeIndex} {known : Node} (lookup : s.table.lookup s.nodes state = .known index)
      (node : s.nodes[index]? = some known) (state_eq : known.state = state)
      (cost_le : known.cost ≤ cost) : Noted problem nodeLimit s state arrival cost s
  /-- The path replaces a dearer one. -/
  | improved {index : NodeIndex} {known : Node}
      (lookup : s.table.lookup s.nodes state = .known index)
      (node : s.nodes[index]? = some known) (state_eq : known.state = state)
      (lt_cost : cost < known.cost) :
      Noted problem nodeLimit s state arrival cost (s.improved problem index state arrival cost)
  /-- The state was not known. -/
  | added {slot : Nat} (lookup : s.table.lookup s.nodes state = .free slot)
      (size_lt : s.nodes.size < nodeLimit) :
      Noted problem nodeLimit s state arrival cost (s.added problem slot state arrival cost)

/-- How a search ends that lacks the budget to take note of a path to `state`. -/
inductive Overrun (problem : SearchProblem) (nodeLimit : Nat) (s : Search) (state : WorldState)
    (arrival : Arrival) (cost : Nat) : SearchEnd → Prop where
  /-- There is no room for a new node. -/
  | tooManyStates {slot : Nat} (lookup : s.table.lookup s.nodes state = .free slot)
      (size_ge : nodeLimit ≤ s.nodes.size) :
      Overrun problem nodeLimit s state arrival cost ⟨s, .error (.tooManyStates nodeLimit)⟩
  /-- The path is noted, but there is no room for its entry. -/
  | tooManyOpen {t : Search} (noted : Noted problem nodeLimit s state arrival cost t) :
      Overrun problem nodeLimit s state arrival cost
        ⟨{ t with openList := s.openList }, .error (.tooManyOpen (openLimit nodeLimit))⟩
  /-- There is no slot for a new node. -/
  | tableFull (lookup : s.table.lookup s.nodes state = .full) :
      Overrun problem nodeLimit s state arrival cost ⟨s, .error (.tableFull s.table.capacity)⟩

/-- A search that gave up for lack of budget. -/
structure OutOfBudget (s : Search) (ended : SearchEnd) : Prop where
  reason : ∃ reason, ended.outcome = .error reason ∧ reason.isOutOfBudget = true
  /-- The table is as it was, or has one more entry. -/
  table : ended.search.table = s.table ∨
    ∃ slot node, ended.search.table = s.table.store slot node

theorem enqueue_eq (problem : SearchProblem) (nodeLimit : Nat) (s : Search) (index : NodeIndex)
    (state : WorldState) (cost : Nat) :
    enqueue problem nodeLimit s index state cost =
      if s.openList.size < openLimit nodeLimit then .ok (s.opened problem index state cost)
      else giveUp { s with seq := s.seq + 1 } (.tooManyOpen (openLimit nodeLimit)) := rfl

variable {problem : SearchProblem} {nodeLimit : Nat} {s t : Search} {ended : SearchEnd}

theorem noted_of_reach {state : WorldState} {arrival : Arrival} {cost : Nat}
    (h : reach problem nodeLimit s state arrival cost = .ok t) :
    Noted problem nodeLimit s state arrival cost t := by
  rw [reach] at h
  split at h
  next index hlookup =>
    obtain ⟨known, hnode, hstate⟩ := StateTable.exists_of_lookupFrom hlookup
    rw [hnode, Option.any_some] at h
    -- A cheaper path is enqueued, any other one is dropped.
    split at h
    next hlt =>
      rw [enqueue_eq] at h
      split at h
      · obtain rfl := Except.ok.inj h
        exact .improved hlookup hnode hstate (of_decide_eq_true hlt)
      · cases h
    next hle =>
      obtain rfl := Except.ok.inj h
      exact .kept hlookup hnode hstate (by simpa using hle)
  next slot hlookup =>
    split at h
    next hsize =>
      -- The new node counts only if there is room for its entry as well.
      rw [enqueue_eq] at h
      split at h
      · obtain rfl := Except.ok.inj h
        exact .added hlookup hsize
      · cases h
    next => cases h
  next => cases h

theorem overrun_of_reach {state : WorldState} {arrival : Arrival} {cost : Nat}
    (h : reach problem nodeLimit s state arrival cost = .error ended) :
    Overrun problem nodeLimit s state arrival cost ended := by
  rw [reach] at h
  split at h
  next index hlookup =>
    obtain ⟨known, hnode, hstate⟩ := StateTable.exists_of_lookupFrom hlookup
    rw [hnode, Option.any_some] at h
    split at h
    next hlt =>
      rw [enqueue_eq] at h
      split at h
      · cases h
      · obtain rfl := Except.error.inj h
        exact .tooManyOpen (.improved hlookup hnode hstate (of_decide_eq_true hlt))
    next => cases h
  next slot hlookup =>
    split at h
    next hsize =>
      rw [enqueue_eq] at h
      split at h
      · cases h
      · obtain rfl := Except.error.inj h
        exact .tooManyOpen (.added hlookup hsize)
    next hsize =>
      obtain rfl := Except.error.inj h
      exact .tooManyStates hlookup (Nat.le_of_not_lt hsize)
  next hlookup =>
    obtain rfl := Except.error.inj h
    exact .tableFull hlookup

theorem Overrun.outOfBudget {state : WorldState} {arrival : Arrival} {cost : Nat}
    (h : Overrun problem nodeLimit s state arrival cost ended) : OutOfBudget s ended := by
  cases h with
  | tooManyStates => exact ⟨⟨_, rfl, rfl⟩, .inl rfl⟩
  | tooManyOpen noted =>
    refine ⟨⟨_, rfl, rfl⟩, ?_⟩
    cases noted with
    | kept => exact .inl rfl
    | improved => exact .inl rfl
    | added => exact .inr ⟨_, _, rfl⟩
  | tableFull => exact ⟨⟨_, rfl, rfl⟩, .inl rfl⟩

/-- What becomes of a search that considers a candidate action of a node. -/
inductive Tried (problem : SearchProblem) (nodeLimit : Nat) (parent : NodeIndex)
    (state : WorldState) (cost : Nat) (s : Search) (action : ActionId) : Search → Prop where
  /-- The action cannot be taken, or it does not change the state. -/
  | passed (useless : problem.library.isApplicable action state = true →
      problem.library.apply action state = state) :
      Tried problem nodeLimit parent state cost s action s
  /-- The action leads to another state, and the path to it is noted. -/
  | noted {t : Search} (applicable : problem.library.isApplicable action state = true)
      (changes : problem.library.apply action state ≠ state)
      (noted : Noted problem nodeLimit { s with generated := s.generated + 1 }
        (problem.library.apply action state) ⟨parent, action⟩
        (addCost cost (problem.library.actionCost action)) t) :
      Tried problem nodeLimit parent state cost s action t

theorem tried_of_tryAction {parent : NodeIndex} {state : WorldState} {cost : Nat}
    {action : ActionId} (h : tryAction problem nodeLimit parent state cost s action = .ok t) :
    Tried problem nodeLimit parent state cost s action t := by
  simp only [tryAction] at h
  split at h
  next happlicable =>
    split at h
    next hsame =>
      obtain rfl := Except.ok.inj h
      exact .passed fun _ => hsame
    next hchanges => exact .noted happlicable hchanges (noted_of_reach h)
  next hnot =>
    obtain rfl := Except.ok.inj h
    exact .passed fun happlicable => absurd happlicable hnot

/-- How a search ends that lacks the budget to consider a candidate action of a node. -/
structure Refused (problem : SearchProblem) (nodeLimit : Nat) (parent : NodeIndex)
    (state : WorldState) (cost : Nat) (s : Search) (action : ActionId) (ended : SearchEnd) :
    Prop where
  applicable : problem.library.isApplicable action state = true
  changes : problem.library.apply action state ≠ state
  /-- The path to the next state cannot be noted. -/
  overrun : Overrun problem nodeLimit { s with generated := s.generated + 1 }
    (problem.library.apply action state) ⟨parent, action⟩
    (addCost cost (problem.library.actionCost action)) ended

theorem refused_of_tryAction {parent : NodeIndex} {state : WorldState} {cost : Nat}
    {action : ActionId}
    (h : tryAction problem nodeLimit parent state cost s action = .error ended) :
    Refused problem nodeLimit parent state cost s action ended := by
  simp only [tryAction] at h
  split at h
  next happlicable =>
    split at h
    next => cases h
    next hchanges => exact ⟨happlicable, hchanges, overrun_of_reach h⟩
  next => cases h

theorem Refused.outOfBudget {parent : NodeIndex} {state : WorldState} {cost : Nat}
    {action : ActionId} (h : Refused problem nodeLimit parent state cost s action ended) :
    OutOfBudget s ended := by
  obtain ⟨hreason, htable⟩ := h.overrun.outOfBudget
  exact ⟨hreason, htable⟩

/-! ## Steps -/

/-- What becomes of a search that takes a step. -/
inductive Stepped (problem : SearchProblem) (nodeLimit : Nat) (s : Search) : Search → Prop where
  /-- The first open entry is stale. -/
  | dropped {entry : OpenList.Entry} {rest : OpenList}
      (pop : s.openList.pop? = some (entry, rest))
      (stale : ∀ node, s.nodes[entry.node]? = some node → node.cost ≠ entry.cost) :
      Stepped problem nodeLimit s { s with openList := rest }
  /-- The node of the first open entry is expanded. -/
  | expanded {entry : OpenList.Entry} {rest : OpenList} {node : Node} {t : Search}
      (pop : s.openList.pop? = some (entry, rest))
      (node_eq : s.nodes[entry.node]? = some node) (live : node.cost = entry.cost)
      (goal : node.state.satisfies problem.goal = false)
      (expand : (problem.library.candidates node.state).foldlM
        (tryAction problem nodeLimit entry.node node.state node.cost)
        { s with openList := rest, expanded := s.expanded + 1 } = .ok t) :
      Stepped problem nodeLimit s t

/-- How a search ends with a step. -/
inductive Stopped (problem : SearchProblem) (nodeLimit : Nat) (s : Search) : SearchEnd → Prop where
  /-- Nothing is open. -/
  | exhausted (pop : s.openList.pop? = none) :
      Stopped problem nodeLimit s ⟨s, .error .unreachable⟩
  /-- The node of the first open entry satisfies the goal. -/
  | found {entry : OpenList.Entry} {rest : OpenList} {node : Node}
      (pop : s.openList.pop? = some (entry, rest))
      (node_eq : s.nodes[entry.node]? = some node) (live : node.cost = entry.cost)
      (goal : node.state.satisfies problem.goal = true) :
      Stopped problem nodeLimit s ⟨{ s with openList := rest }, .ok entry.node⟩
  /-- An expansion ran out of budget. -/
  | gaveUp {t : Search} {ended : SearchEnd} {entry : OpenList.Entry} {rest : OpenList}
      {node : Node} {done : List ActionId} {action : ActionId}
      (pop : s.openList.pop? = some (entry, rest))
      (node_eq : s.nodes[entry.node]? = some node) (live : node.cost = entry.cost)
      (goal : node.state.satisfies problem.goal = false)
      (expand : done.foldlM (tryAction problem nodeLimit entry.node node.state node.cost)
        { s with openList := rest, expanded := s.expanded + 1 } = .ok t)
      (refused : Refused problem nodeLimit entry.node node.state node.cost t action ended) :
      Stopped problem nodeLimit s ended

theorem stepped_of_step (h : step problem nodeLimit s = .ok t) :
    Stepped problem nodeLimit s t := by
  simp only [step] at h
  split at h
  next => cases h
  next entry rest hpop =>
    split at h
    next hnone =>
      -- An entry without a node never comes up, but it would be dropped.
      obtain rfl := Except.ok.inj h
      exact .dropped hpop fun node hnode => by cases hnone.symm.trans hnode
    next node hnode =>
      split at h
      next hstale =>
        -- The node was improved after the entry had been added.
        obtain rfl := Except.ok.inj h
        refine .dropped hpop fun other hother => ?_
        obtain rfl := Option.some.inj (hnode.symm.trans hother)
        exact hstale
      next hlive =>
        have hcost : node.cost = entry.cost := Decidable.of_not_not hlive
        split at h
        next => cases h
        next hgoal =>
          rw [expand, ← hcost] at h
          exact .expanded hpop hnode hcost (Bool.eq_false_iff.2 hgoal) h

theorem stopped_of_step (h : step problem nodeLimit s = .error ended) :
    Stopped problem nodeLimit s ended := by
  simp only [step] at h
  split at h
  next hpop =>
    obtain rfl := Except.error.inj h
    exact .exhausted hpop
  next entry rest hpop =>
    split at h
    next => cases h
    next node hnode =>
      split at h
      next => cases h
      next hlive =>
        have hcost : node.cost = entry.cost := Decidable.of_not_not hlive
        split at h
        next hgoal =>
          obtain rfl := Except.error.inj h
          exact .found hpop hnode hcost hgoal
        next hgoal =>
          -- The expansion went through some actions before it ended the search.
          rw [expand, ← hcost] at h
          obtain ⟨done, action, t, hdone, hend⟩ := exists_prefix_of_foldlM_error h
          exact .gaveUp hpop hnode hcost (Bool.eq_false_iff.2 hgoal) hdone
            (refused_of_tryAction hend)

end Search

end AgentPlanning
