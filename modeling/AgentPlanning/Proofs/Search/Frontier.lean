import AgentPlanning.Proofs.Action.Grouping
import AgentPlanning.Proofs.Search.Tree

/-!
# The Frontier of a Search

Between two steps every node of a search is either open, by an entry that carries its current
cost, or expanded: then it does not satisfy the goal, and all its successors are nodes that cost
no more than the way through it. During the expansion of a node the same holds of all other
nodes, and of the actions of this node that have been considered. Main statements:

* `expanding_of_tried`: considering one more action of the node that is being expanded;
* `frontier_of_stepped`: a step keeps the tree, the table and the frontier;
* `frontier_withRoot`: they hold when the search begins.
-/

namespace AgentPlanning

namespace Search

variable {problem : SearchProblem} {nodeLimit : Nat} {s t : Search}

/-- The node waits to be expanded, by an open entry of its current cost. -/
def IsOpen (s : Search) (i : NodeIndex) : Prop :=
  ∃ node, s.nodes[i]? = some node ∧
    ∃ entry ∈ s.openList.toList, entry.node = i ∧ entry.cost = node.cost

/-- The state after the action is that of a node, which costs no more than the action in a state
that is reached at `cost`. -/
def Reaches (problem : SearchProblem) (nodes : Array Node) (state : WorldState) (cost : Nat)
    (action : ActionId) : Prop :=
  ∃ (j : NodeIndex) (next : Node), nodes[j]? = some next ∧
    next.state = problem.library.apply action state ∧
    next.cost ≤ addCost cost (problem.library.actionCost action)

/-- The node does not satisfy the goal, and it reaches all its successors. -/
def IsExpanded (problem : SearchProblem) (nodes : Array Node) (i : NodeIndex) : Prop :=
  ∃ node, nodes[i]? = some node ∧ node.state.satisfies problem.goal = false ∧
    ∀ action, problem.library.isApplicable action node.state = true →
      Reaches problem nodes node.state node.cost action

/-- The entries belong to nodes and carry the estimates of their states. -/
def Estimated (problem : SearchProblem) (s : Search) : Prop :=
  ∀ entry ∈ s.openList.toList, ∃ node, s.nodes[entry.node]? = some node ∧
    entry.estimate = addCost entry.cost (problem.estimate node.state)

/-- The nodes form a tree, the table knows them, and the entries are estimated. -/
structure Coherent (problem : SearchProblem) (s : Search) : Prop where
  tree : SearchTree problem s.nodes
  table : s.table.Holds s.nodes
  estimated : Estimated problem s

/-- A search between two steps. -/
structure Frontier (problem : SearchProblem) (s : Search) : Prop extends Coherent problem s where
  /-- Every node is open or expanded. -/
  covered : ∀ i < s.nodes.size, IsOpen s i ∨ IsExpanded problem s.nodes i

/-- A search in which node `i` is being expanded and the actions `done` have been considered. -/
structure Expanding (problem : SearchProblem) (i : NodeIndex) (node : Node)
    (done : List ActionId) (s : Search) : Prop extends Coherent problem s where
  node_eq : s.nodes[i]? = some node
  /-- Every other node is open or expanded. -/
  covered : ∀ j < s.nodes.size, j ≠ i → IsOpen s j ∨ IsExpanded problem s.nodes j
  /-- The actions that were considered lead to nodes. -/
  reaches : ∀ action ∈ done, problem.library.isApplicable action node.state = true →
    Reaches problem s.nodes node.state node.cost action

/-! ## Taking note of a path -/

theorem mem_opened {index : NodeIndex} {state : WorldState} {cost : Nat}
    {entry : OpenList.Entry} :
    entry ∈ (s.opened problem index state cost).openList.toList ↔
      entry = ⟨addCost cost (problem.estimate state), cost, s.seq + 1, index⟩ ∨
        entry ∈ s.openList.toList :=
  (OpenList.toList_push ..).mem_iff.trans List.mem_cons

theorem Reaches.mono {nodes nodes' : Array Node} {state : WorldState} {cost : Nat}
    {action : ActionId} (h : Reaches problem nodes state cost action)
    (hle : NoDearer nodes nodes') : Reaches problem nodes' state cost action := by
  obtain ⟨j, next, hnext, hstate, hcost⟩ := h
  obtain ⟨next', hnext', hsame, hcost'⟩ := hle j next hnext
  exact ⟨j, next', hnext', hsame.trans hstate, Nat.le_trans hcost' hcost⟩

theorem IsExpanded.mono {nodes nodes' : Array Node} {i : NodeIndex}
    (h : IsExpanded problem nodes i) (hsame : nodes'[i]? = nodes[i]?)
    (hle : NoDearer nodes nodes') : IsExpanded problem nodes' i := by
  obtain ⟨node, hnode, hgoal, hreaches⟩ := h
  refine ⟨node, hsame.trans hnode, hgoal, fun action happlicable => ?_⟩
  exact (hreaches action happlicable).mono hle

section Noted

variable {state : WorldState} {arrival : Arrival} {cost : Nat}

/-- A node that is not open after a path was noted is as it was before. -/
theorem getElem?_of_noted (h : Noted problem nodeLimit s state arrival cost t) {i : NodeIndex}
    (hi : i < t.nodes.size) : IsOpen t i ∨ (t.nodes[i]? = s.nodes[i]? ∧ i < s.nodes.size) := by
  cases h with
  | kept => exact .inr ⟨rfl, hi⟩
  | @improved index known _ hknown hstate hlt =>
    have hget := SearchTree.getElem?_improved arrival cost hknown i
    by_cases heq : index = i
    · -- The improved node has just been opened.
      rw [if_pos heq] at hget
      exact .inl ⟨_, hget, _, mem_opened.2 (.inl rfl), heq, rfl⟩
    · rw [if_neg heq] at hget
      exact .inr ⟨hget, by simpa [improved, opened] using hi⟩
  | added hlookup hsize =>
    by_cases heq : i = s.nodes.size
    · -- And so has the new one.
      have hget : (s.nodes.push ⟨state, some arrival, cost⟩)[i]? =
          some ⟨state, some arrival, cost⟩ := by
        rw [Array.getElem?_push, if_pos heq]
      exact .inl ⟨_, hget, _, mem_opened.2 (.inl rfl), heq.symm, rfl⟩
    · have hget : (s.nodes.push ⟨state, some arrival, cost⟩)[i]? = s.nodes[i]? := by
        rw [Array.getElem?_push, if_neg heq]
      have hlt : i < s.nodes.size + 1 := by simpa [added, opened] using hi
      exact .inr ⟨hget, (Nat.lt_succ_iff_lt_or_eq.1 hlt).resolve_right heq⟩

theorem mem_openList_of_noted (h : Noted problem nodeLimit s state arrival cost t)
    {entry : OpenList.Entry} (hentry : entry ∈ s.openList.toList) :
    entry ∈ t.openList.toList := by
  cases h with
  | kept => exact hentry
  | improved => exact mem_opened.2 (.inr hentry)
  | added => exact mem_opened.2 (.inr hentry)

/-- A node that is open or expanded stays so. -/
theorem covered_of_noted (h : Noted problem nodeLimit s state arrival cost t) {i : NodeIndex}
    (hi : i < t.nodes.size)
    (hcovered : i < s.nodes.size → IsOpen s i ∨ IsExpanded problem s.nodes i) :
    IsOpen t i ∨ IsExpanded problem t.nodes i := by
  rcases getElem?_of_noted h hi with hopen | ⟨hsame, hlt⟩
  · exact .inl hopen
  · -- The node is untouched: its entry is still there, and its successors got no dearer.
    rcases hcovered hlt with ⟨node, hnode, entry, hentry, hindex, hcost⟩ | hexpanded
    · exact .inl ⟨node, hsame.trans hnode, entry, mem_openList_of_noted h hentry, hindex, hcost⟩
    · exact .inr (hexpanded.mono hsame (noDearer_of_noted h))

/-- The path that was noted leads to a node. -/
theorem exists_of_noted (h : Noted problem nodeLimit s state arrival cost t) :
    ∃ (j : NodeIndex) (next : Node), t.nodes[j]? = some next ∧ next.state = state ∧
      next.cost ≤ cost := by
  cases h with
  | kept _ hknown hstate hle => exact ⟨_, _, hknown, hstate, hle⟩
  | @improved index known _ hknown hstate _ =>
    have hget := SearchTree.getElem?_improved arrival cost hknown index
    exact ⟨index, _, hget.trans (if_pos rfl), hstate, Nat.le_refl _⟩
  | added => exact ⟨s.nodes.size, _, Array.getElem?_push_size, rfl, Nat.le_refl _⟩

theorem estimated_opened {index : NodeIndex} {node : Node} (h : Estimated problem s)
    (hnode : s.nodes[index]? = some node) (cost : Nat) :
    Estimated problem (s.opened problem index node.state cost) := by
  intro entry hentry
  rcases mem_opened.1 hentry with rfl | hold
  · exact ⟨node, hnode, rfl⟩
  · exact h entry hold

/-- States of nodes do not change, so the entries stay estimated. -/
theorem estimated_of_noDearer {nodes' : Array Node} (h : Estimated problem s)
    (hle : NoDearer s.nodes nodes') : Estimated problem { s with nodes := nodes' } := by
  intro entry hentry
  obtain ⟨node, hnode, hestimate⟩ := h entry hentry
  obtain ⟨node', hnode', hsame, -⟩ := hle _ _ hnode
  exact ⟨node', hnode', by rw [hsame, hestimate]⟩

theorem estimated_of_noted (h : Noted problem nodeLimit s state arrival cost t)
    (hestimated : Estimated problem s) : Estimated problem t := by
  have hle := noDearer_of_noted h
  have hold := estimated_of_noDearer hestimated hle
  cases h with
  | kept => exact hestimated
  | @improved index known _ hknown hstate _ =>
    subst hstate
    have hget := SearchTree.getElem?_improved arrival cost hknown index
    exact estimated_opened hold (hget.trans (if_pos rfl)) cost
  | added => exact estimated_opened hold Array.getElem?_push_size cost

theorem Coherent.of_noted (h : Coherent problem s)
    (hnoted : Noted problem nodeLimit s state arrival cost t)
    (harrives : Arrives problem s.nodes arrival state cost) (hcost : cost ≤ maxCost) :
    Coherent problem t := by
  obtain ⟨htree, htable⟩ := searchTree_of_noted hnoted h.tree h.table harrives hcost
  exact ⟨htree, htable, estimated_of_noted hnoted h.estimated⟩

end Noted

/-! ## Expanding a node -/

/-- The action leads on from the node that is being expanded. -/
theorem Expanding.arrives {i : NodeIndex} {node : Node} {done : List ActionId}
    (h : Expanding problem i node done s) {action : ActionId}
    (happlicable : problem.library.isApplicable action node.state = true) :
    Arrives problem s.nodes ⟨i, action⟩ (problem.library.apply action node.state)
      (addCost node.cost (problem.library.actionCost action)) :=
  ⟨node, h.node_eq, happlicable, rfl, Nat.le_refl _⟩

/-- Nothing is lost by taking note of where an action leads. -/
theorem Expanding.coherent_of_noted {i : NodeIndex} {node : Node} {done : List ActionId}
    (h : Expanding problem i node done s) {action : ActionId}
    (happlicable : problem.library.isApplicable action node.state = true)
    (hnoted : Noted problem nodeLimit { s with generated := s.generated + 1 }
      (problem.library.apply action node.state) ⟨i, action⟩
      (addCost node.cost (problem.library.actionCost action)) t) : Coherent problem t := by
  have hcounted : Coherent problem { s with generated := s.generated + 1 } :=
    ⟨h.tree, h.table, h.estimated⟩
  exact hcounted.of_noted hnoted (h.arrives happlicable) (addCost_le_maxCost _ _)

/-- One more action of the node that is being expanded. -/
theorem expanding_of_tried {i : NodeIndex} {node : Node} {done : List ActionId}
    {action : ActionId} (h : Expanding problem i node done s)
    (htried : Tried problem nodeLimit i node.state node.cost s action t) :
    Expanding problem i node (done ++ [action]) t := by
  cases htried with
  | passed useless =>
    refine ⟨h.toCoherent, h.node_eq, h.covered, fun other hother happlicable => ?_⟩
    rcases List.mem_append.1 hother with hold | hnew
    · exact h.reaches other hold happlicable
    · -- The action leads back to the node itself.
      obtain rfl := List.mem_singleton.1 hnew
      have hle := le_addCost (h.tree.cost_le h.node_eq) (problem.library.actionCost other)
      exact ⟨i, node, h.node_eq, (useless happlicable).symm, hle⟩
  | noted applicable changes noted =>
    have hcoherent : Coherent problem t := h.coherent_of_noted applicable noted
    have hle := noDearer_of_noted noted
    -- The path leads to another state, so the node itself is not improved.
    have hnode : t.nodes[i]? = some node := by
      cases noted with
      | kept => exact h.node_eq
      | @improved index known _ hknown hstate _ =>
        have hne : index ≠ i := by
          rintro rfl
          obtain rfl := Option.some.inj (hknown.symm.trans h.node_eq)
          exact changes hstate.symm
        exact (SearchTree.getElem?_improved _ _ hknown i).trans ((if_neg hne).trans h.node_eq)
      | added =>
        have hne := Nat.ne_of_lt (lt_size_of_getElem? h.node_eq)
        exact Array.getElem?_push.trans ((if_neg hne).trans h.node_eq)
    refine ⟨hcoherent, hnode, fun j hj hne => ?_, fun other hother happlicable => ?_⟩
    · exact covered_of_noted noted hj fun hold => h.covered j hold hne
    · rcases List.mem_append.1 hother with hold | hnew
      · exact (h.reaches other hold happlicable).mono hle
      · obtain rfl := List.mem_singleton.1 hnew
        exact exists_of_noted noted

/-! ## Steps -/

/-- An open entry other than the first one stays open. -/
theorem isOpen_of_pop {entry : OpenList.Entry} {rest : OpenList}
    (hpop : s.openList.pop? = some (entry, rest)) {i : NodeIndex} (h : IsOpen s i)
    (hother : entry.node = i → ∀ node, s.nodes[i]? = some node → node.cost ≠ entry.cost) :
    IsOpen { s with openList := rest } i := by
  obtain ⟨node, hnode, other, hmem, hindex, hcost⟩ := h
  have hperm := (OpenList.toList_of_pop? hpop).1
  rcases List.mem_cons.1 (hperm.mem_iff.1 hmem) with rfl | hrest
  · -- The entry that was taken out does not carry the current cost of the node.
    exact absurd hcost.symm (hother hindex node hnode)
  · exact ⟨node, hnode, other, hrest, hindex, hcost⟩

theorem estimated_of_pop {entry : OpenList.Entry} {rest : OpenList}
    (hpop : s.openList.pop? = some (entry, rest)) (h : Estimated problem s) :
    Estimated problem { s with openList := rest } := fun other hother =>
  h other ((OpenList.toList_of_pop? hpop).1.mem_iff.2 (List.mem_cons_of_mem _ hother))

/-- An expansion begins when its entry has been taken out. -/
theorem expanding_of_pop {entry : OpenList.Entry} {rest : OpenList} {node : Node}
    (h : Frontier problem s) (hpop : s.openList.pop? = some (entry, rest))
    (hnode : s.nodes[entry.node]? = some node) :
    Expanding problem entry.node node []
      { s with openList := rest, expanded := s.expanded + 1 } := by
  refine ⟨⟨h.tree, h.table, estimated_of_pop hpop h.estimated⟩, hnode, fun j hj hne => ?_,
    fun _ hmem => absurd hmem List.not_mem_nil⟩
  rcases h.covered j hj with hopen | hexpanded
  · exact .inl (isOpen_of_pop hpop hopen fun heq => absurd heq.symm hne)
  · exact .inr hexpanded

/-- A search that ends while a node is being expanded leaves a tree. -/
theorem tree_of_refused {i : NodeIndex} {node : Node} {done : List ActionId} {action : ActionId}
    {ended : SearchEnd} (h : Expanding problem i node done s)
    (hrefused : Refused problem nodeLimit i node.state node.cost s action ended) :
    SearchTree problem ended.search.nodes := by
  cases hrefused.overrun with
  | tooManyStates => exact h.tree
  | tooManyOpen hnoted =>
    -- The path has been noted, only its entry is missing.
    exact (h.coherent_of_noted hrefused.applicable hnoted).tree
  | tableFull => exact h.tree

theorem expanding_of_foldlM {i : NodeIndex} {node : Node} {actions : List ActionId}
    (h : Expanding problem i node [] s)
    (hfold : actions.foldlM (tryAction problem nodeLimit i node.state node.cost) s = .ok t) :
    Expanding problem i node actions t := by
  have hall := motive_of_foldlM (motive := Expanding problem i node)
    (fun _ _ _ _ hdone htry => expanding_of_tried hdone (tried_of_tryAction htry)) [] h hfold
  rwa [List.nil_append] at hall

/-- A step keeps the frontier. -/
theorem frontier_of_stepped (h : Frontier problem s) (hstep : Stepped problem nodeLimit s t) :
    Frontier problem t := by
  cases hstep with
  | dropped hpop hstale =>
    refine ⟨⟨h.tree, h.table, estimated_of_pop hpop h.estimated⟩, fun i hi => ?_⟩
    rcases h.covered i hi with hopen | hexpanded
    · exact .inl (isOpen_of_pop hpop hopen fun heq node hnode => hstale node (heq ▸ hnode))
    · exact .inr hexpanded
  | @expanded entry _ node _ hpop hnode _ hgoal hexpand =>
    have hall := expanding_of_foldlM (expanding_of_pop h hpop hnode) hexpand
    refine ⟨hall.toCoherent, fun i hi => ?_⟩
    by_cases heq : i = entry.node
    · -- Every action that can be taken was among the candidates.
      refine .inr ⟨node, heq ▸ hall.node_eq, hgoal, fun action happlicable => ?_⟩
      exact hall.reaches action (ActionLibrary.mem_candidates_of_isApplicable happlicable)
        happlicable
    · exact hall.covered i hi heq

/-! ## The beginning -/

theorem withRoot_initial (problem : SearchProblem) {table : StateTable} (hclean : table.Clean) :
    withRoot problem (initial table) =
      { nodes := #[⟨problem.start, none, 0⟩]
        table := table.store (problem.start.hash.toNat % table.slots.size) 0
        openList := OpenList.empty.push ⟨problem.estimate problem.start, 0, 0, 0⟩
        seq := 0
        expanded := 0
        generated := 0 } := by
  rw [withRoot, initial]
  simp only [StateTable.lookup_of_clean hclean]
  rfl

theorem eq_of_getElem?_singleton {node a : Node} {i : NodeIndex} (h : #[node][i]? = some a) :
    i = 0 ∧ a = node := by
  obtain ⟨hlt, rfl⟩ := Array.getElem?_eq_some_iff.1 h
  obtain rfl := Nat.lt_one_iff.1 hlt
  exact ⟨rfl, rfl⟩

theorem searchTree_singleton (problem : SearchProblem) :
    SearchTree problem #[⟨problem.start, none, 0⟩] where
  root := rfl
  distinct ha hb _ := by
    rw [(eq_of_getElem?_singleton ha).1, (eq_of_getElem?_singleton hb).1]
  cost_le ha := by
    rw [(eq_of_getElem?_singleton ha).2]
    exact Nat.zero_le _
  arrives ha harrival := by
    rw [(eq_of_getElem?_singleton ha).2] at harrival
    cases harrival
  routed hi := by
    obtain rfl := Nat.lt_one_iff.1 hi
    exact ⟨[], .root⟩

/-- The search begins with the start as its only node, which is open. -/
theorem frontier_withRoot {table : StateTable} (hclean : table.Clean) :
    Frontier problem (withRoot problem (initial table)) := by
  rw [withRoot_initial problem hclean]
  have hentry : ∀ entry ∈ (OpenList.empty.push
      ⟨problem.estimate problem.start, 0, 0, 0⟩).toList,
      entry = ⟨problem.estimate problem.start, 0, 0, 0⟩ := fun entry hmem => by
    simpa using (OpenList.toList_push ..).mem_iff.1 hmem
  refine ⟨⟨searchTree_singleton problem, ?_, fun entry hmem => ?_⟩, fun i hi => ?_⟩
  · -- The table that knows no node yet takes up the first one.
    have hempty : table.Holds #[] := fun i node hnone => by simp at hnone
    have hroot : (⟨problem.start, none, 0⟩ : Node).state = problem.start := rfl
    exact StateTable.holds_store hempty (StateTable.lookup_of_clean hclean #[] problem.start) hroot
  · rw [hentry entry hmem]
    have hle : problem.estimate problem.start ≤ maxCost := Nat.min_le_right _ _
    refine ⟨⟨problem.start, none, 0⟩, rfl, ?_⟩
    rw [addCost, Nat.zero_add, Nat.min_eq_left hle]
  · obtain rfl := Nat.lt_one_iff.1 hi
    exact .inl ⟨_, rfl, _, (OpenList.toList_push ..).mem_iff.2 List.mem_cons_self, rfl, rfl⟩

end Search

end AgentPlanning
