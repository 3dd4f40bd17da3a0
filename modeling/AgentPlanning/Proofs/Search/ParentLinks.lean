import AgentPlanning.Proofs.Search.Exhaustion
import AgentPlanning.Proofs.Search.Trail
import Mathlib.Logic.Relation

/-!
# Every Loop of a Search Ends

A search repeats a step, looks states up slot by slot, and follows nodes back to their parents.
Nodes are opened again and parents are replaced while it runs, so none of these loops has an
obvious end. Steps decrease a potential, a look-up always meets the state or a free slot, and the
parents form a tree at every point of a run: a node is one step further from the start than its
parent, even where actions cost nothing and costs are cut off. Main statements:

* `SearchTree.depth_eq_succ`, `SearchTree.not_transGen_isParent`: a node and its parent, and why
  the parents close no cycle;
* `SearchTree.walkEnds`: the walks from a node back to the start;
* `sound_of_passesThrough`: what holds at every point of a run;
* `SearchPlanner.loops_end`: the loops of a call.
-/

namespace AgentPlanning

/-! ## Walks along the parents -/

/-- One step of a walk along the parents, which ends at a node without an arrival. -/
def ascend (nodes : Array Node) (i : NodeIndex) : Except NodeIndex NodeIndex :=
  match nodes[i]?.bind (·.arrival) with
  | none => .error i
  | some arrival => .ok arrival.parent

/-- The first node comes before the other one on the paths that are read off. -/
def IsParent (nodes : Array Node) (parent i : NodeIndex) : Prop :=
  ascend nodes i = .ok parent

/-- A walk along the parents from the node ends. -/
structure WalkEnds (nodes : Array Node) (i : NodeIndex) : Prop where
  /-- After as many steps as were measured the walk is at the first node, where it ends. Measuring
  a path and writing it to a buffer are walks of this kind. -/
  ascends : runWithin (ascend nodes) (depth nodes i + 1) i = some 0
  /-- These are fewer steps than there are nodes. -/
  depth_lt : depth nodes i < nodes.size
  /-- More steps may be allowed, and none of them is taken. -/
  depth_eq : ∀ steps, depth nodes i ≤ steps → depthWithin nodes steps i = depth nodes i
  /-- The path is read off in full. -/
  path_eq : ∀ steps, depth nodes i ≤ steps → pathBefore nodes steps i [] = pathTo nodes i

variable {problem : SearchProblem} {nodes : Array Node}

theorem exists_of_isParent {parent i : NodeIndex} (h : IsParent nodes parent i) :
    ∃ node arrival, nodes[i]? = some node ∧ node.arrival = some arrival ∧
      arrival.parent = parent := by
  rw [IsParent, ascend] at h
  split at h
  next => cases h
  next arrival harrival =>
    obtain ⟨node, hnode, hnodeArrival⟩ := Option.bind_eq_some_iff.1 harrival
    exact ⟨node, arrival, hnode, hnodeArrival, Except.ok.inj h⟩

namespace SearchTree

variable (tree : SearchTree problem nodes)

include tree

theorem depth_of_route {i : NodeIndex} {plan : List ActionId} (h : Route nodes i plan) :
    depth nodes i = plan.length := by
  rw [← length_pathTo, h.pathTo_eq tree]

/-- A node is one step further from the start than its parent. -/
theorem depth_eq_succ {parent i : NodeIndex} (h : IsParent nodes parent i) :
    depth nodes i = depth nodes parent + 1 := by
  obtain ⟨node, arrival, hnode, harrival, rfl⟩ := exists_of_isParent h
  -- The route to the node is the route to its parent and one more action.
  obtain ⟨known, hknown, -⟩ := tree.arrives hnode harrival
  obtain ⟨plan, hroute⟩ := tree.routed (lt_size_of_getElem? hknown)
  rw [tree.depth_of_route hroute, tree.depth_of_route (.step hnode harrival hroute),
    List.length_append, List.length_singleton]

/-- The parents close no cycle, since going from parents to children increases the depth. -/
theorem not_transGen_isParent (i : NodeIndex) : ¬Relation.TransGen (IsParent nodes) i i := by
  have hdepth {j k : NodeIndex} (h : Relation.TransGen (IsParent nodes) j k) :
      depth nodes j < depth nodes k := by
    induction h with
    | single hparent =>
      rw [tree.depth_eq_succ hparent]
      exact Nat.lt_succ_self _
    | tail _ hparent ih =>
      rw [tree.depth_eq_succ hparent]
      exact Nat.lt_succ_of_lt ih
  intro hcycle
  exact Nat.lt_irrefl _ (hdepth hcycle)

/-- A walk along a route takes a step for each of its actions. -/
theorem runWithin_ascend {i : NodeIndex} {plan : List ActionId} (h : Route nodes i plan) :
    runWithin (ascend nodes) (plan.length + 1) i = some 0 := by
  induction h with
  | root =>
    have hroot : ascend nodes 0 = .error 0 := by
      rw [ascend, tree.root]
      rfl
    rw [runWithin, hroot]
  | @step i node arrival plan hnode harrival _ ih =>
    -- The first step of the walk takes back the last action of the route.
    have hstep : ascend nodes i = .ok arrival.parent := by
      rw [ascend, hnode, Option.bind_some, harrival]
    rw [List.length_append, List.length_singleton, runWithin, hstep]
    exact ih

theorem walkEnds {i : NodeIndex} (hi : i < nodes.size) : WalkEnds nodes i := by
  obtain ⟨plan, hroute⟩ := tree.routed hi
  have hpath {steps : Nat} (hsteps : plan.length ≤ steps) :
      pathBefore nodes steps i [] = plan := by
    rw [hroute.pathBefore_eq tree hsteps, List.append_nil]
  have hdepth := tree.depth_of_route hroute
  constructor
  · rw [hdepth]
    exact tree.runWithin_ascend hroute
  · rw [hdepth]
    exact tree.route_length_lt hroute
  · intro steps hsteps
    rw [← length_pathBefore, hpath (hdepth ▸ hsteps), hdepth]
  · intro steps hsteps
    rw [hpath (hdepth ▸ hsteps), hroute.pathTo_eq tree]

end SearchTree

/-! ## The points of a run -/

/-- The run of a search comes to the given point. -/
inductive SearchProblem.PassesThrough (problem : SearchProblem) (nodeLimit : Nat)
    (left : Search) : Search → Prop where
  /-- There is no node yet. -/
  | cleared : PassesThrough problem nodeLimit left left.reset
  /-- The first node is there, but it is not in the table yet. -/
  | rooted (limit : nodeLimit ≠ 0) : PassesThrough problem nodeLimit left
      { left.reset with nodes := #[⟨problem.start, none, 0⟩] }
  /-- A step begins. -/
  | begun {s : Search} (mem : s ∈ problem.trail nodeLimit left) :
      PassesThrough problem nodeLimit left s
  /-- A node is being expanded, and some of its actions have been considered. -/
  | expanding {s t : Search} {entry : OpenList.Entry} {rest : OpenList} {node : Node}
      {done : List ActionId} (mem : s ∈ problem.trail nodeLimit left)
      (pop : s.openList.pop? = some (entry, rest)) (node_eq : s.nodes[entry.node]? = some node)
      (begins : done <+: problem.library.candidates node.state)
      (considered : done.foldlM
        (Search.tryAction problem nodeLimit entry.node node.state node.cost)
        { s with openList := rest, expanded := s.expanded + 1 } = .ok t) :
      PassesThrough problem nodeLimit left t
  /-- The search has ended. -/
  | ended : PassesThrough problem nodeLimit left (problem.search nodeLimit left).search

namespace Search

variable {nodeLimit : Nat} {s : Search} {ended : SearchEnd} {left : Search}

/-- The nodes form a tree, unless there is none, and the table has a slot to spare for each. -/
structure Sound (problem : SearchProblem) (nodeLimit : Nat) (s : Search) : Prop where
  tree : s.nodes = #[] ∨ SearchTree problem s.nodes
  fits : Fits nodeLimit s

namespace Sound

variable (h : Sound problem nodeLimit s)

include h

/-- Without nodes there are no parents, and otherwise they form a tree. -/
theorem not_transGen_isParent (i : NodeIndex) : ¬Relation.TransGen (IsParent s.nodes) i i := by
  rcases h.tree with hnone | htree
  · intro hcycle
    obtain ⟨parent, -, hparent⟩ := Relation.TransGen.tail'_iff.1 hcycle
    obtain ⟨node, -, hnode, -⟩ := exists_of_isParent hparent
    rw [hnone] at hnode
    cases hnode
  · exact htree.not_transGen_isParent i

theorem walkEnds {i : NodeIndex} (hi : i < s.nodes.size) : WalkEnds s.nodes i := by
  rcases h.tree with hnone | htree
  · rw [hnone] at hi
    exact absurd hi (Nat.not_lt_zero i)
  · exact htree.walkEnds hi

end Sound

/-- A search that has ended leaves a tree. -/
theorem tree_of_stopped (h : Frontier problem s) (hstopped : Stopped problem nodeLimit s ended) :
    SearchTree problem ended.search.nodes := by
  cases hstopped with
  | exhausted => exact h.tree
  | found => exact h.tree
  | gaveUp hpop hnode _ _ hexpand hrefused =>
    exact tree_of_refused (expanding_of_foldlM (expanding_of_pop h hpop hnode) hexpand) hrefused

theorem fits_of_stopped (h : Fits nodeLimit s) (hstopped : Stopped problem nodeLimit s ended) :
    Fits nodeLimit ended.search := by
  cases hstopped with
  | exhausted => exact h
  | found => exact ⟨h.size_le, h.takenCount_le, h.limit_lt⟩
  | gaveUp _ _ _ _ hexpand hrefused =>
    have hroom := fits_of_foldlM hexpand ⟨h.size_le, h.takenCount_le, h.limit_lt⟩
    exact fits_of_refused hroom hrefused

section Table

variable (hbounded : left.table.Bounded) (hslots : nodeLimit < left.table.slots.size)

include hbounded hslots

/-- Wherever a step begins, the nodes have a frontier and fit the table. -/
theorem frontier_of_mem_trail (hmem : s ∈ problem.trail nodeLimit left) :
    Frontier problem s ∧ Fits nodeLimit s := by
  rw [SearchProblem.trail] at hmem
  split at hmem
  · exact absurd hmem List.not_mem_nil
  next hlimit =>
    split at hmem
    · exact absurd hmem List.not_mem_nil
    · have hclean := StateTable.clean_clear hbounded
      refine forall_mem_trail (P := fun u => Frontier problem u ∧ Fits nodeLimit u) ?_ _
        ⟨frontier_withRoot hclean, ?_⟩ s hmem
      · intro u next hu hstep
        have hstepped := stepped_of_step hstep
        exact ⟨frontier_of_stepped hu.1 hstepped, fits_of_stepped hstepped hu.2⟩
      · exact fits_withRoot problem hclean hlimit (left.table.size_clear.symm ▸ hslots)

theorem sound_search (problem : SearchProblem) :
    Sound problem nodeLimit (problem.search nodeLimit left).search := by
  have hclean := StateTable.clean_clear hbounded
  have hroom : nodeLimit < left.table.clear.slots.size := left.table.size_clear.symm ▸ hslots
  by_cases hlimit : nodeLimit = 0
  · rw [SearchProblem.search, if_pos hlimit]
    exact ⟨.inl rfl, fits_of_clean hclean (Nat.zero_le _) hroom⟩
  · cases hstart : problem.start.satisfies problem.goal with
    | true =>
      rw [SearchProblem.search]
      simp only [if_neg hlimit, hstart, if_true]
      exact ⟨.inr (searchTree_singleton problem),
        fits_of_clean hclean (Nat.pos_of_ne_zero hlimit) hroom⟩
    | false =>
      have hkept : ∀ u v, Frontier problem u → Fits nodeLimit u → Stepped problem nodeLimit u v →
          Fits nodeLimit v := fun _ _ _ hfits hstep => fits_of_stepped hstep hfits
      obtain ⟨last, hfrontier, hfits, hstopped⟩ := exists_last_step hkept hbounded hlimit hstart
        (fits_withRoot problem hclean hlimit hroom)
      exact ⟨.inr (tree_of_stopped hfrontier hstopped), fits_of_stopped hfits hstopped⟩

/-- At every point of a run the nodes form a tree and fit the table. -/
theorem sound_of_passesThrough (h : problem.PassesThrough nodeLimit left s) :
    Sound problem nodeLimit s := by
  have hclean := StateTable.clean_clear hbounded
  have hroom : nodeLimit < left.table.clear.slots.size := left.table.size_clear.symm ▸ hslots
  cases h with
  | cleared => exact ⟨.inl rfl, fits_of_clean hclean (Nat.zero_le _) hroom⟩
  | rooted hlimit =>
    exact ⟨.inr (searchTree_singleton problem),
      fits_of_clean hclean (Nat.pos_of_ne_zero hlimit) hroom⟩
  | begun hmem =>
    obtain ⟨hfrontier, hfits⟩ := frontier_of_mem_trail hbounded hslots hmem
    exact ⟨.inr hfrontier.tree, hfits⟩
  | expanding hmem hpop hnode _ hconsidered =>
    obtain ⟨hfrontier, hfits⟩ := frontier_of_mem_trail hbounded hslots hmem
    have hexpanding := expanding_of_foldlM (expanding_of_pop hfrontier hpop hnode) hconsidered
    refine ⟨.inr hexpanding.tree, fits_of_foldlM hconsidered ?_⟩
    exact ⟨hfits.size_le, hfits.takenCount_le, hfits.limit_lt⟩
  | ended => exact sound_search hbounded hslots problem

end Table

end Search

/-! ## Calls -/

namespace SearchPlanner

/-- Every loop of a call ends, whatever the actions cost, whatever cycles they close and whatever
calls came before. No sequence of steps goes on forever, and the run ends with the answer that is
returned. At every point of the run a look-up meets the state or a free slot before it has gone
through all slots, the parents close no cycle, and every walk along them comes to the start. -/
theorem loops_end (budget : SearchBudget) (history : List Call) (call : Call) :
    (WellFounded fun t s => Search.step call.problem budget.nodes s = .ok t) ∧
    (budget.nodes ≠ 0 → call.problem.start.satisfies call.problem.goal = false →
      runWithin (Search.step call.problem budget.nodes) (Search.stepBound budget.nodes)
        (Search.withRoot call.problem (afterAll budget history).latest.reset) =
        some (call.problem.search budget.nodes (afterAll budget history).latest)) ∧
    ∀ s, call.problem.PassesThrough budget.nodes (afterAll budget history).latest s →
      (∀ state, s.table.lookup s.nodes state ≠ .full) ∧
      (∀ i, ¬Relation.TransGen (IsParent s.nodes) i i) ∧
      ∀ i < s.nodes.size, WalkEnds s.nodes i := by
  have hready := ready_afterAll budget history
  have hslots : budget.nodes < (afterAll budget history).latest.table.slots.size :=
    hready.size_eq ▸ StateTable.lt_slotCount budget.nodes
  refine ⟨Search.wellFounded_step call.problem budget.nodes,
    Search.runWithin_search hready.bounded, fun s hs => ?_⟩
  have hsound := Search.sound_of_passesThrough hready.bounded hslots hs
  exact ⟨hsound.fits.lookup_ne_full, hsound.not_transGen_isParent, fun i => hsound.walkEnds⟩

/-- A gate that is opened and closed at no cost. -/
def gate : ActionLibrary := .ofList [
  { name := "open", pre := Condition.free.require (Fin.last _) false,
    post := Condition.free.require (Fin.last _) true, cost := 0 },
  { name := "close", pre := Condition.free.require (Fin.last _) true,
    post := Condition.free.require (Fin.last _) false, cost := 0 }]

/-- Asks for a way to another place, to which the gate does not lead. -/
def gateCall : Call := .plan gate .empty (Condition.free.require (Fin.rev (Fin.last _)) true) 1

/-- Opening and closing leads back to the start at the same cost, which closes no cycle. -/
theorem loops_end_gate :
    (WellFounded fun t s => Search.step gateCall.problem 4 s = .ok t) ∧
    4 ≠ 0 ∧ gateCall.problem.start.satisfies gateCall.problem.goal = false ∧
    runWithin (Search.step gateCall.problem 4) (Search.stepBound 4)
      (Search.withRoot gateCall.problem (afterAll ⟨4, 2⟩ []).latest.reset) =
      some (gateCall.problem.search 4 (afterAll ⟨4, 2⟩ []).latest) ∧
    gateCall.problem.PassesThrough 4 (afterAll ⟨4, 2⟩ []).latest
      (gateCall.problem.search 4 (afterAll ⟨4, 2⟩ []).latest).search ∧
    1 < (gateCall.problem.search 4 (afterAll ⟨4, 2⟩ []).latest).search.nodes.size ∧
    WalkEnds (gateCall.problem.search 4 (afterAll ⟨4, 2⟩ []).latest).search.nodes 1 := by
  obtain ⟨hsteps, hrun, hpoints⟩ := loops_end ⟨4, 2⟩ [] gateCall
  have hstart : gateCall.problem.start.satisfies gateCall.problem.goal = false := by
    decide +kernel
  have hnode : 1 < (gateCall.problem.search 4 (afterAll ⟨4, 2⟩ []).latest).search.nodes.size := by
    decide +kernel
  have hended : gateCall.problem.PassesThrough 4 (afterAll ⟨4, 2⟩ []).latest
      (gateCall.problem.search 4 (afterAll ⟨4, 2⟩ []).latest).search := .ended
  obtain ⟨-, -, hwalks⟩ := hpoints _ hended
  exact ⟨hsteps, by decide, hstart, hrun (by decide) hstart, hended, hnode, hwalks 1 hnode⟩

end SearchPlanner

end AgentPlanning
