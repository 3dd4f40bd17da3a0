import AgentPlanning.Proofs.Search.ParentLinks

/-!
# The Graph of Reached States

The nodes of a search are rewritten while it runs. When a node gets a cheaper parent, the nodes
behind it keep the costs that they had, so a recorded cost is only a bound on the cost of the path
that is recorded. Here this is read off the nodes themselves, at every point of a run. Main
statements:

* `SearchTree.exists_arrival`: every node but the first has a parent;
* `SearchTree.graph`: what the nodes of a tree say;
* `tree_of_passesThrough`: they form a tree as soon as there is one;
* `SearchPlanner.graph_of_passesThrough`: what they say at every point of a call.
-/

namespace AgentPlanning

/-- What the nodes of a search say about the states that were reached. -/
structure SearchGraph (problem : SearchProblem) (nodes : Array Node) : Prop where
  /-- The first node is the start. It costs nothing and has no parent. -/
  root : nodes[0]? = some ⟨problem.start, none, 0⟩
  /-- A state has one node only. -/
  distinct : ∀ (i j : NodeIndex) (a b : Node), nodes[i]? = some a → nodes[j]? = some b →
    a.state = b.state → i = j
  /-- Every other node has a parent. An action that can be taken there leads to the node, which
  costs no less than parent and action together, as far as costs are told apart. -/
  parent : ∀ (i : NodeIndex) (node : Node), nodes[i]? = some node → i ≠ 0 →
    ∃ (arrival : Arrival) (parent : Node),
      node.arrival = some arrival ∧ nodes[arrival.parent]? = some parent ∧
      problem.library.isApplicable arrival.action parent.state = true ∧
      problem.library.apply arrival.action parent.state = node.state ∧
      min (parent.cost + problem.library.actionCost arrival.action) maxCost ≤ node.cost
  /-- Following the parents leads back to the first node. -/
  ascends : ∀ i < nodes.size, runWithin (ascend nodes) (depth nodes i + 1) i = some 0
  cost_le : ∀ (i : NodeIndex) (node : Node), nodes[i]? = some node → node.cost ≤ maxCost
  /-- The path along the parents costs no more than recorded, unless costs were cut off. -/
  planCost_le : ∀ (i : NodeIndex) (node : Node), nodes[i]? = some node → node.cost < maxCost →
    ∃ cost, problem.library.planCost? (pathTo nodes i) = some cost ∧ cost ≤ node.cost

variable {problem : SearchProblem} {nodes : Array Node}

namespace SearchTree

variable (tree : SearchTree problem nodes)

include tree

/-- The route to a node other than the first ends with its arrival. -/
theorem exists_arrival {i : NodeIndex} {node : Node} (hnode : nodes[i]? = some node)
    (hi : i ≠ 0) : ∃ arrival, node.arrival = some arrival := by
  obtain ⟨plan, hroute⟩ := tree.routed (lt_size_of_getElem? hnode)
  cases hroute with
  | root => exact absurd rfl hi
  | step hnode' harrival _ =>
    obtain rfl := Option.some.inj (hnode.symm.trans hnode')
    exact ⟨_, harrival⟩

theorem graph : SearchGraph problem nodes where
  root := tree.root
  distinct _ _ _ _ ha hb hab := tree.distinct ha hb hab
  parent i node hnode hi := by
    obtain ⟨arrival, harrival⟩ := tree.exists_arrival hnode hi
    obtain ⟨parent, hparent, happlicable, hstate, hle⟩ := tree.arrives hnode harrival
    exact ⟨arrival, parent, harrival, hparent, happlicable, hstate, hle⟩
  ascends _ hi := (tree.walkEnds hi).ascends
  cost_le _ _ hnode := tree.cost_le hnode
  planCost_le i node hnode hcost := by
    obtain ⟨plan, hroute⟩ := tree.routed (lt_size_of_getElem? hnode)
    rw [hroute.pathTo_eq tree]
    exact tree.planCost_le hroute hnode hcost

end SearchTree

/-! ## The points of a run -/

namespace Search

variable {nodeLimit : Nat} {left s : Search}

/-- However a search ends, its nodes form a tree, unless there was no room for the first one. -/
theorem tree_search (problem : SearchProblem) (hbounded : left.table.Bounded) :
    (problem.search nodeLimit left).search = left.reset ∨
      SearchTree problem (problem.search nodeLimit left).search.nodes := by
  by_cases hlimit : nodeLimit = 0
  · rw [SearchProblem.search, if_pos hlimit]
    exact .inl rfl
  · refine .inr ?_
    rcases search_cases problem nodeLimit hbounded with hend | ⟨last, hfrontier, hstopped⟩
    · cases hend with
      | noRoom _ hzero => exact absurd hzero hlimit
      | atGoal _ hnodes => exact hnodes ▸ searchTree_singleton problem
    · exact tree_of_stopped hfrontier hstopped

/-- The nodes form a tree as soon as there is one. -/
theorem tree_of_passesThrough (hbounded : left.table.Bounded)
    (hslots : nodeLimit < left.table.slots.size)
    (h : problem.PassesThrough nodeLimit left s) :
    s = left.reset ∨ SearchTree problem s.nodes := by
  cases h with
  | cleared => exact .inl rfl
  | rooted => exact .inr (searchTree_singleton problem)
  | begun hmem => exact .inr (frontier_of_mem_trail hbounded hslots hmem).1.tree
  | expanding hmem hpop hnode _ hconsidered =>
    obtain ⟨hfrontier, -⟩ := frontier_of_mem_trail hbounded hslots hmem
    exact .inr (expanding_of_foldlM (expanding_of_pop hfrontier hpop hnode) hconsidered).tree
  | ended => exact tree_search problem hbounded

end Search

/-! ## Calls -/

namespace SearchPlanner

/-- From the first node on, whatever calls came before, the nodes stand for different states that
lead back to the start, each at no more than its recorded cost. -/
theorem graph_of_passesThrough (budget : SearchBudget) {history : List Call} {call : Call}
    {s : Search}
    (hs : call.problem.PassesThrough budget.nodes (afterAll budget history).latest s) :
    s = (afterAll budget history).latest.reset ∨
      SearchGraph call.problem s.nodes := by
  have hready := ready_afterAll budget history
  have hslots : budget.nodes < (afterAll budget history).latest.table.slots.size :=
    hready.size_eq ▸ StateTable.lt_slotCount budget.nodes
  exact (Search.tree_of_passesThrough hready.bounded hslots hs).imp_right SearchTree.graph

/-- The node of the other side of the wall was reached by the leap first, and by the climb later. -/
theorem graph_of_crossing :
    crossingCall.problem.PassesThrough 3 (afterAll ⟨3, 2⟩ [crampedCall]).latest
      (crossingCall.problem.search 3 (afterAll ⟨3, 2⟩ [crampedCall]).latest).search ∧
    SearchGraph crossingCall.problem
      (crossingCall.problem.search 3 (afterAll ⟨3, 2⟩ [crampedCall]).latest).search.nodes := by
  have hended : crossingCall.problem.PassesThrough 3 (afterAll ⟨3, 2⟩ [crampedCall]).latest
      (crossingCall.problem.search 3 (afterAll ⟨3, 2⟩ [crampedCall]).latest).search := .ended
  have hsize : (crossingCall.problem.search 3
      (afterAll ⟨3, 2⟩ [crampedCall]).latest).search.nodes.size = 3 := by
    decide +kernel
  refine ⟨hended, (graph_of_passesThrough ⟨3, 2⟩ hended).resolve_left fun heq => ?_⟩
  rw [heq] at hsize
  cases hsize

end SearchPlanner

end AgentPlanning
