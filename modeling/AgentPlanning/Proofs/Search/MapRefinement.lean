import AgentPlanning.Proofs.Search.Capacity
import AgentPlanning.Proofs.Search.Calls
import AgentPlanning.Proofs.Search.MapSearch

/-!
# The Table of Visited States against a Plain Map

The table is an optimisation only: at every moment of a search a look-up in the table answers as
the plain map from the states of the nodes to the nodes does. Every operation of the search
therefore takes place in the same way with the map in place of the table. Main statements:

* `nodeOf_eq_some`, `nodeOf_push`, `nodeOf_improved`: the map of the nodes;
* `reach_toMap`, `foldlM_toMap`, `step_toMap`: an operation, an expansion and a step with the map;
* `SearchProblem.mapSearch_eq`: a search with a table ends as the search with a map does.
-/

namespace AgentPlanning

/-! ## The map of the nodes -/

/-- The node of a state, as a plain map. -/
def nodeOf (nodes : Array Node) (state : WorldState) : Option NodeIndex :=
  nodes.findIdx? fun node => node.state = state

variable {problem : SearchProblem} {nodes : Array Node} {state : WorldState}

theorem nodeOf_eq_none
    (h : ∀ (i : NodeIndex) (node : Node), nodes[i]? = some node → node.state ≠ state) :
    nodeOf nodes state = none := by
  refine Array.findIdx?_eq_none_iff.2 fun node hnode => ?_
  obtain ⟨i, hi⟩ := Array.mem_iff_getElem?.1 hnode
  exact decide_eq_false (h i node hi)

/-- No two nodes of a tree have the same state, so every node is found by its own. -/
theorem nodeOf_eq_some (tree : SearchTree problem nodes) {i : NodeIndex} {node : Node}
    (hnode : nodes[i]? = some node) : nodeOf nodes node.state = some i := by
  obtain ⟨hi, rfl⟩ := Array.getElem?_eq_some_iff.1 hnode
  refine Array.findIdx?_eq_some_iff_getElem.2 ⟨hi, decide_eq_true rfl, fun j hj hsame => ?_⟩
  have hother := Array.getElem?_eq_getElem (Nat.lt_trans hj hi)
  exact absurd (tree.distinct hother hnode (of_decide_eq_true hsame)) (Nat.ne_of_lt hj)

theorem nodeOf_push (node : Node) (hnew : nodeOf nodes node.state = none) :
    nodeOf (nodes.push node) =
      Function.update (nodeOf nodes) node.state (some nodes.size) := by
  funext state
  rw [nodeOf, Array.findIdx?_push, ← nodeOf]
  by_cases h : state = node.state
  · subst h
    rw [Function.update_self, hnew]
    simp
  · rw [Function.update_of_ne h]
    simp [Ne.symm h]

/-- A cheaper path to a node changes no state. -/
theorem nodeOf_improved (index : NodeIndex) (arrival : Arrival) (cost : Nat) :
    nodeOf (nodes.modify index fun known => { known with arrival, cost }) = nodeOf nodes := by
  have hstates : (nodes.modify index fun known => { known with arrival, cost }).map (·.state) =
      nodes.map (·.state) := by
    refine Array.ext_getElem? fun i => ?_
    rw [Array.getElem?_map, Array.getElem?_map, Array.getElem?_modify]
    split
    · cases nodes[i]? <;> rfl
    · rfl
  funext state
  have hfind := congrArg (Array.findIdx? (· = state)) hstates
  rw [Array.findIdx?_map, Array.findIdx?_map] at hfind
  exact hfind

/-! ## Searches with the map of their nodes -/

/-- The search with the map of its nodes in place of the table. -/
def Search.toMap (s : Search) : MapSearch where
  nodes := s.nodes
  known := nodeOf s.nodes
  openList := s.openList
  seq := s.seq
  expanded := s.expanded
  generated := s.generated

/-- The ended search with the map of its nodes in place of the table. -/
def SearchEnd.toMap (ended : SearchEnd) : MapSearchEnd := ⟨ended.search.toMap, ended.outcome⟩

/-- The plan is read off the nodes and the outcome alone. -/
theorem SearchEnd.plan_toMap (ended : SearchEnd) (space : Nat) :
    ended.toMap.plan space = SearchPlanner.extractPlan ended space := rfl

theorem SearchEnd.stats_toMap (ended : SearchEnd) :
    ended.toMap.search.stats = ended.search.stats := rfl

namespace Search

variable {nodeLimit : Nat} {s : Search}

/-- What an operation leads to, with the map in place of the table. -/
def toMapResult : Except SearchEnd Search → Except MapSearchEnd MapSearch
  | .ok s => .ok s.toMap
  | .error ended => .error ended.toMap

theorem enqueue_toMap (problem : SearchProblem) (nodeLimit : Nat) (s : Search)
    (node : NodeIndex) (state : WorldState) (cost : Nat) :
    MapSearch.enqueue problem nodeLimit s.toMap node state cost =
      toMapResult (enqueue problem nodeLimit s node state cost) := by
  rw [enqueue_eq, MapSearch.enqueue]
  by_cases hroom : s.openList.size < openLimit nodeLimit
  · rw [if_pos hroom]
    exact if_pos hroom
  · rw [if_neg hroom]
    exact if_neg hroom

/-- A path is noted in the same way, because a look-up answers as the map does. -/
theorem reach_toMap (h : Coherent problem s) (hfits : Fits nodeLimit s) (state : WorldState)
    (arrival : Arrival) (cost : Nat) :
    MapSearch.reach problem nodeLimit s.toMap state arrival cost =
      toMapResult (reach problem nodeLimit s state arrival cost) := by
  rw [reach, MapSearch.reach]
  cases hlookup : s.table.lookup s.nodes state with
  | known node =>
    obtain ⟨known, hnode, rfl⟩ := StateTable.exists_of_lookupFrom hlookup
    have hknown : s.toMap.known known.state = some node := nodeOf_eq_some h.tree hnode
    rw [hknown]
    dsimp only
    by_cases hcheaper : (s.nodes[node]?).any (cost < ·.cost) = true
    · rw [if_pos hcheaper]
      refine (if_pos hcheaper).trans ?_
      rw [← enqueue_toMap]
      -- The map of the nodes is that of before.
      congr 1
      rw [toMap, toMap, nodeOf_improved]
    · rw [if_neg hcheaper]
      exact if_neg hcheaper
  | free slot =>
    have hnone : nodeOf s.nodes state = none := nodeOf_eq_none fun _ _ hnode =>
      StateTable.state_ne_of_lookup_free h.table hlookup hnode
    have hknown : s.toMap.known state = none := hnone
    rw [hknown]
    dsimp only
    by_cases hroom : s.nodes.size < nodeLimit
    · rw [if_pos hroom]
      refine (if_pos hroom).trans ?_
      rw [← enqueue_toMap]
      -- The map has one more entry, for the new node.
      congr 1
      rw [toMap, toMap, nodeOf_push ⟨state, some arrival, cost⟩ hnone]
    · rw [if_neg hroom]
      exact if_neg hroom
  | full => exact absurd hlookup (hfits.lookup_ne_full state)

theorem tryAction_toMap (h : Coherent problem s) (hfits : Fits nodeLimit s) (parent : NodeIndex)
    (state : WorldState) (cost : Nat) (action : ActionId) :
    MapSearch.tryAction problem nodeLimit parent state cost s.toMap action =
      toMapResult (tryAction problem nodeLimit parent state cost s action) := by
  rw [tryAction, MapSearch.tryAction]
  split
  · dsimp only
    split
    · rfl
    · have hcounted : Coherent problem { s with generated := s.generated + 1 } :=
        ⟨h.tree, h.table, h.estimated⟩
      have hfits' : Fits nodeLimit { s with generated := s.generated + 1 } :=
        ⟨hfits.size_le, hfits.takenCount_le, hfits.limit_lt⟩
      exact reach_toMap hcounted hfits' _ _ _
  · rfl

theorem foldlM_toMap {i : NodeIndex} {node : Node} {done : List ActionId}
    (h : Expanding problem i node done s) (hfits : Fits nodeLimit s) (actions : List ActionId) :
    actions.foldlM (MapSearch.tryAction problem nodeLimit i node.state node.cost) s.toMap =
      toMapResult (actions.foldlM (tryAction problem nodeLimit i node.state node.cost) s) := by
  induction actions generalizing s done with
  | nil => rfl
  | cons action rest ih =>
    rw [List.foldlM_cons, List.foldlM_cons, tryAction_toMap h.toCoherent hfits]
    cases htry : tryAction problem nodeLimit i node.state node.cost s action with
    | error ended => rfl
    | ok next =>
      have htried := tried_of_tryAction htry
      exact ih (expanding_of_tried h htried) (fits_of_tried htried hfits)

theorem step_toMap (h : Frontier problem s) (hfits : Fits nodeLimit s) :
    MapSearch.step problem nodeLimit s.toMap = toMapResult (step problem nodeLimit s) := by
  rw [step, MapSearch.step]
  cases hpop : s.openList.pop? with
  | none =>
    have hpop' : s.toMap.openList.pop? = none := hpop
    rw [hpop']
    rfl
  | some first =>
    obtain ⟨entry, rest⟩ := first
    have hpop' : s.toMap.openList.pop? = some (entry, rest) := hpop
    rw [hpop']
    dsimp only
    cases hnode : s.nodes[entry.node]? with
    | none =>
      have hnode' : s.toMap.nodes[entry.node]? = none := hnode
      rw [hnode']
      rfl
    | some node =>
      have hnode' : s.toMap.nodes[entry.node]? = some node := hnode
      rw [hnode']
      dsimp only
      split
      · rfl
      next hlive =>
        split
        · rfl
        · have hcost : node.cost = entry.cost := Decidable.of_not_not hlive
          have hfits' : Fits nodeLimit { s with openList := rest, expanded := s.expanded + 1 } :=
            ⟨hfits.size_le, hfits.takenCount_le, hfits.limit_lt⟩
          rw [← hcost]
          exact foldlM_toMap (expanding_of_pop h hpop hnode) hfits' _

theorem runWithin_toMap (h : Frontier problem s) (hfits : Fits nodeLimit s) (n : Nat) :
    runWithin (MapSearch.step problem nodeLimit) n s.toMap =
      (runWithin (step problem nodeLimit) n s).map SearchEnd.toMap := by
  induction n generalizing s with
  | zero => rfl
  | succ n ih =>
    rw [runWithin, runWithin, step_toMap h hfits]
    cases hstep : step problem nodeLimit s with
    | error ended => rfl
    | ok next =>
      have hstepped := stepped_of_step hstep
      exact ih (frontier_of_stepped h hstepped) (fits_of_stepped hstepped hfits)

theorem run_toMap (h : Frontier problem s) (hfits : Fits nodeLimit s) :
    MapSearch.run problem nodeLimit s.toMap = (run problem nodeLimit s).toMap := by
  rw [run, MapSearch.run, runWithin_toMap h hfits]
  cases runWithin (step problem nodeLimit) (stepBound nodeLimit) s <;> rfl

theorem withRoot_toMap (problem : SearchProblem) {table : StateTable} (hclean : table.Clean) :
    MapSearch.withRoot problem .initial = (withRoot problem (initial table)).toMap := by
  -- The map of no nodes is empty, and the start is its first entry.
  have hempty : nodeOf #[] = fun _ => none :=
    funext fun _ => nodeOf_eq_none fun i node hnone => by simp at hnone
  have hroot : nodeOf #[⟨problem.start, none, 0⟩] =
      Function.update (fun _ => none) problem.start (some 0) := by
    rw [← hempty]
    exact nodeOf_push ⟨problem.start, none, 0⟩ (congrFun hempty _)
  rw [withRoot_initial problem hclean, toMap, hroot]
  rfl

end Search

/-- A search with a table answers and counts as the search with a map does. -/
theorem SearchProblem.mapSearch_eq (problem : SearchProblem) {nodeLimit : Nat}
    {left : Search} (hbounded : left.table.Bounded) (hslots : nodeLimit < left.table.slots.size) :
    (∀ space, (problem.mapSearch nodeLimit).plan space =
      SearchPlanner.extractPlan (problem.search nodeLimit left) space) ∧
    (problem.mapSearch nodeLimit).search.stats =
      (problem.search nodeLimit left).search.stats := by
  rw [search, mapSearch]
  by_cases hlimit : nodeLimit = 0
  · simp only [if_pos hlimit]
    exact ⟨fun _ => rfl, rfl⟩
  · cases hgoal : problem.start.satisfies problem.goal with
    | true =>
      simp only [if_neg hlimit, if_true]
      exact ⟨fun _ => rfl, rfl⟩
    | false =>
      simp only [if_neg hlimit, Bool.false_eq_true, if_false]
      have hclean := StateTable.clean_clear hbounded
      have hfits := Search.fits_withRoot problem hclean hlimit (left.table.size_clear.symm ▸ hslots)
      rw [Search.withRoot_toMap problem hclean,
        Search.run_toMap (Search.frontier_withRoot hclean) hfits]
      exact ⟨SearchEnd.plan_toMap _, SearchEnd.stats_toMap _⟩

end AgentPlanning
