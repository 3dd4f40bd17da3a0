import AgentPlanning.Proofs.Search.Calls

/-!
# The Nodes that Come up in a Search

A run of the search passes through a number of searches, one for each of its steps. In each of
them either a stale entry is first in the open list, or a node is due: it satisfies the goal, and
the search ends with it, or it is expanded. Main statements:

* `due?_of_live`, `due?_of_stale`: what is due before a step;
* `extends_of_foldlM`: an expansion loses no state and does not count as another one;
* `SearchProblem.expanded_eq_countP`, `SearchProblem.exists_node_of_due`: the counter of
  expansions counts the nodes that were due without satisfying the goal, and their states are
  among the reached ones.
-/

namespace AgentPlanning

/-- The searches in which the steps of the run begin; there are none if the search ends at
once. -/
def SearchProblem.trail (problem : SearchProblem) (nodeLimit : Nat) (left : Search) :
    List Search :=
  if nodeLimit = 0 then []
  else if problem.start.satisfies problem.goal then []
  else AgentPlanning.trail (Search.step problem nodeLimit) (Search.stepBound nodeLimit)
    (Search.withRoot problem left.reset)

/-- The first open entry and its node, unless the node was reached more cheaply since. -/
def Search.due? (s : Search) : Option (OpenList.Entry × Node) :=
  match s.openList.pop? with
  | none => none
  | some (entry, _) =>
    match s.nodes[entry.node]? with
    | none => none
    | some node => if node.cost = entry.cost then some (entry, node) else none

/-- The entries and nodes that come up in a search, one after the other. -/
def SearchProblem.due (problem : SearchProblem) (nodeLimit : Nat) (left : Search) :
    List (OpenList.Entry × Node) :=
  (problem.trail nodeLimit left).filterMap Search.due?

theorem NoDearer.refl (nodes : Array Node) : NoDearer nodes nodes :=
  fun _ node hnode => ⟨node, hnode, rfl, Nat.le_refl _⟩

theorem NoDearer.trans {a b c : Array Node} (hab : NoDearer a b) (hbc : NoDearer b c) :
    NoDearer a c := by
  intro i node hnode
  obtain ⟨node', hnode', hstate', hcost'⟩ := hab i node hnode
  obtain ⟨node'', hnode'', hstate'', hcost''⟩ := hbc i node' hnode'
  exact ⟨node'', hnode'', hstate''.trans hstate', Nat.le_trans hcost'' hcost'⟩

theorem NoDearer.size_le {a b : Array Node} (h : NoDearer a b) : a.size ≤ b.size := by
  refine Nat.le_of_not_lt fun hlt => ?_
  obtain ⟨node, hnode, -⟩ := h b.size _ (Array.getElem?_eq_getElem hlt)
  exact Nat.lt_irrefl _ (lt_size_of_getElem? hnode)

namespace Search

variable {problem : SearchProblem} {nodeLimit : Nat} {s t : Search} {ended : SearchEnd}

/-! ## What is due -/

section Due

variable {entry : OpenList.Entry} {rest : OpenList}

theorem due?_of_live {node : Node} (hpop : s.openList.pop? = some (entry, rest))
    (hnode : s.nodes[entry.node]? = some node) (hlive : node.cost = entry.cost) :
    s.due? = some (entry, node) := by
  simp only [due?, hpop, hnode, if_pos hlive]

theorem due?_of_stale (hpop : s.openList.pop? = some (entry, rest))
    (hstale : ∀ node, s.nodes[entry.node]? = some node → node.cost ≠ entry.cost) :
    s.due? = none := by
  simp only [due?, hpop]
  split
  next => rfl
  next node hnode => exact if_neg (hstale node hnode)

theorem due?_eq_some {node : Node} (h : s.due? = some (entry, node)) :
    ∃ rest, s.openList.pop? = some (entry, rest) ∧ s.nodes[entry.node]? = some node ∧
      node.cost = entry.cost := by
  simp only [due?] at h
  split at h
  next => cases h
  next first rest hpop =>
    split at h
    next => cases h
    next known hknown =>
      split at h
      next hlive =>
        obtain ⟨rfl, rfl⟩ := Prod.mk.inj (Option.some.inj h)
        exact ⟨rest, hpop, hknown, hlive⟩
      next => cases h

end Due

/-! ## Counting expansions -/

/-- Nothing was lost on the way, and no further node was expanded. -/
structure Extends (s t : Search) : Prop where
  expanded_eq : t.expanded = s.expanded
  noDearer : NoDearer s.nodes t.nodes

theorem extends_of_noted {state : WorldState} {arrival : Arrival} {cost : Nat}
    (h : Noted problem nodeLimit s state arrival cost t) : Extends s t := by
  refine ⟨?_, noDearer_of_noted h⟩
  cases h with
  | kept => rfl
  | improved => rfl
  | added => rfl

theorem extends_of_tried {parent : NodeIndex} {state : WorldState} {cost : Nat}
    {action : ActionId} (h : Tried problem nodeLimit parent state cost s action t) :
    Extends s t := by
  cases h with
  | passed => exact ⟨rfl, .refl _⟩
  | noted _ _ hnoted =>
    obtain ⟨hexpanded, hnodes⟩ := extends_of_noted hnoted
    exact ⟨hexpanded, hnodes⟩

theorem extends_of_foldlM {parent : NodeIndex} {state : WorldState} {cost : Nat}
    {actions : List ActionId}
    (h : actions.foldlM (tryAction problem nodeLimit parent state cost) s = .ok t) :
    Extends s t := by
  refine motive_of_foldlM (motive := fun _ u => Extends s u) ?_ [] ⟨rfl, .refl _⟩ h
  intro _ _ u v hu htry
  have hv := extends_of_tried (tried_of_tryAction htry)
  exact ⟨hv.expanded_eq.trans hu.expanded_eq, hu.noDearer.trans hv.noDearer⟩

theorem extends_of_refused {parent : NodeIndex} {state : WorldState} {cost : Nat}
    {action : ActionId} (h : Refused problem nodeLimit parent state cost s action ended) :
    Extends s ended.search := by
  cases h.overrun with
  | tooManyStates => exact ⟨rfl, .refl _⟩
  | tooManyOpen hnoted =>
    -- The node is there already, only its entry is missing.
    obtain ⟨hexpanded, hnodes⟩ := extends_of_noted hnoted
    exact ⟨hexpanded, hnodes⟩
  | tableFull => exact ⟨rfl, .refl _⟩

/-- Whether a node that is due is expanded. -/
def isExpansion (problem : SearchProblem) (due : OpenList.Entry × Node) : Bool :=
  !due.2.state.satisfies problem.goal

/-- The number of nodes that are due and are expanded. -/
def expansions (problem : SearchProblem) (due : List (OpenList.Entry × Node)) : Nat :=
  due.countP (isExpansion problem)

/-- A step counts the node that was due, if it does not satisfy the goal. -/
theorem expanded_of_stepped (h : Stepped problem nodeLimit s t) :
    t.expanded = s.expanded + expansions problem s.due?.toList ∧ NoDearer s.nodes t.nodes := by
  cases h with
  | dropped hpop hstale =>
    rw [due?_of_stale hpop hstale]
    exact ⟨rfl, .refl _⟩
  | expanded hpop hnode hlive hgoal hexpand =>
    obtain ⟨hexpanded, hnodes⟩ := extends_of_foldlM hexpand
    rw [due?_of_live hpop hnode hlive, hexpanded]
    refine ⟨?_, hnodes⟩
    simp [expansions, isExpansion, hgoal]

theorem expanded_of_stopped (h : Stopped problem nodeLimit s ended) :
    ended.search.expanded = s.expanded + expansions problem s.due?.toList ∧
      NoDearer s.nodes ended.search.nodes := by
  cases h with
  | exhausted hpop =>
    have hnone : s.due? = none := by simp only [due?, hpop]
    rw [hnone]
    exact ⟨rfl, .refl _⟩
  | found hpop hnode hlive hgoal =>
    rw [due?_of_live hpop hnode hlive]
    refine ⟨?_, .refl _⟩
    simp [expansions, isExpansion, hgoal]
  | gaveUp hpop hnode hlive hgoal hexpand hrefused =>
    obtain ⟨hexpanded, hnodes⟩ := extends_of_foldlM hexpand
    obtain ⟨hended, hlast⟩ := extends_of_refused hrefused
    rw [due?_of_live hpop hnode hlive, hended, hexpanded]
    refine ⟨?_, hnodes.trans hlast⟩
    simp [expansions, isExpansion, hgoal]

/-- A node that is due has a state that is known from then on. -/
theorem exists_node_of_due? {entry : OpenList.Entry} {node : Node}
    (h : s.due? = some (entry, node)) {nodes : Array Node} (hnodes : NoDearer s.nodes nodes) :
    ∃ (i : NodeIndex) (known : Node), nodes[i]? = some known ∧ known.state = node.state := by
  obtain ⟨-, -, hnode, -⟩ := due?_eq_some h
  obtain ⟨known, hknown, hstate, -⟩ := hnodes _ _ hnode
  exact ⟨entry.node, known, hknown, hstate⟩

theorem filterMap_due?_cons (s : Search) (rest : List Search) :
    (s :: rest).filterMap due? = s.due?.toList ++ rest.filterMap due? := by
  rw [List.filterMap_cons]
  cases s.due? <;> rfl

/-- A run counts the nodes that were due without satisfying the goal, and keeps their states. -/
theorem expanded_of_runWithin {n : Nat}
    (h : runWithin (step problem nodeLimit) n s = some ended) :
    ended.search.expanded = s.expanded +
      expansions problem ((trail (step problem nodeLimit) n s).filterMap due?) ∧
    NoDearer s.nodes ended.search.nodes ∧
    ∀ due ∈ (trail (step problem nodeLimit) n s).filterMap due?,
      ∃ (i : NodeIndex) (known : Node), ended.search.nodes[i]? = some known ∧
        known.state = due.2.state := by
  induction n generalizing s with
  | zero => cases h
  | succ n ih =>
    rw [runWithin] at h
    rw [trail, filterMap_due?_cons]
    cases hstep : step problem nodeLimit s with
    | error answer =>
      rw [hstep] at h
      obtain rfl : answer = ended := Option.some.inj h
      obtain ⟨hexpanded, hnodes⟩ := expanded_of_stopped (stopped_of_step hstep)
      rw [List.filterMap_nil, List.append_nil]
      refine ⟨hexpanded, hnodes, fun due hdue => ?_⟩
      exact exists_node_of_due? (Option.mem_toList.1 hdue) hnodes
    | ok next =>
      rw [hstep] at h
      obtain ⟨hexpanded, hnodes⟩ := expanded_of_stepped (stepped_of_step hstep)
      obtain ⟨hrest, hlast, hknown⟩ := ih h
      refine ⟨?_, hnodes.trans hlast, fun due hdue => ?_⟩
      · rw [hrest, hexpanded, expansions, expansions, expansions, List.countP_append,
          Nat.add_assoc]
      · rcases List.mem_append.1 hdue with hfirst | hlater
        · exact exists_node_of_due? (Option.mem_toList.1 hfirst) (hnodes.trans hlast)
        · exact hknown due hlater

end Search

namespace SearchProblem

variable (problem : SearchProblem) (nodeLimit : Nat)

/-- A search that does not end at once is the run that begins with the start. -/
theorem trail_cases {left : Search} (hbounded : left.table.Bounded) :
    (problem.trail nodeLimit left = [] ∧
      (problem.search nodeLimit left).search.expanded = 0) ∨
    problem.trail nodeLimit left = AgentPlanning.trail (Search.step problem nodeLimit)
        (Search.stepBound nodeLimit) (Search.withRoot problem left.reset) ∧
      runWithin (Search.step problem nodeLimit) (Search.stepBound nodeLimit)
        (Search.withRoot problem left.reset) =
        some (problem.search nodeLimit left) := by
  by_cases hlimit : nodeLimit = 0
  · rw [trail, search]
    simp only [if_pos hlimit]
    exact .inl ⟨trivial, rfl⟩
  · cases hgoal : problem.start.satisfies problem.goal with
    | true =>
      rw [trail, search]
      simp only [if_neg hlimit, hgoal, if_true]
      exact .inl ⟨trivial, rfl⟩
    | false =>
      refine .inr ⟨?_, Search.runWithin_search hbounded hlimit hgoal⟩
      rw [trail]
      simp only [if_neg hlimit, hgoal, Bool.false_eq_true, if_false]

/-- The counter of expansions counts the nodes that were due without satisfying the goal. -/
theorem expanded_eq {left : Search} (hbounded : left.table.Bounded) :
    (problem.search nodeLimit left).search.expanded =
      Search.expansions problem (problem.due nodeLimit left) := by
  rcases trail_cases problem nodeLimit hbounded with ⟨htrail, hexpanded⟩ | ⟨htrail, hrun⟩
  · rw [due, htrail, hexpanded]
    rfl
  · obtain ⟨hexpanded, -, -⟩ := Search.expanded_of_runWithin hrun
    rw [due, htrail, hexpanded]
    exact Nat.zero_add _

/-- The states of nodes that were due are states of nodes. -/
theorem map_due_subset {left : Search} (hbounded : left.table.Bounded) :
    (problem.due nodeLimit left).map (·.2.state) ⊆
      (problem.search nodeLimit left).search.nodes.toList.map (·.state) := by
  intro state hstate
  rcases trail_cases problem nodeLimit hbounded with ⟨htrail, -⟩ | ⟨htrail, hrun⟩
  · rw [due, htrail] at hstate
    exact absurd hstate List.not_mem_nil
  · obtain ⟨-, -, hknown⟩ := Search.expanded_of_runWithin hrun
    rw [due, htrail] at hstate
    obtain ⟨due, hdue, rfl⟩ := List.mem_map.1 hstate
    obtain ⟨i, known, hnode, hsame⟩ := hknown due hdue
    refine List.mem_map.2 ⟨known, ?_, hsame⟩
    exact Array.mem_toList_iff.2 (Array.mem_of_getElem? hnode)

end SearchProblem

end AgentPlanning
