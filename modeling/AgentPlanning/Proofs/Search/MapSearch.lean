import AgentPlanning.Proofs.Search.Path
import AgentPlanning.Search.AStar
import Mathlib.Logic.Function.Basic

/-!
# Searching with a Plain Map

What it means to search, without a table of visited states: the nodes are known by a plain map
from states to nodes, which is empty when the search begins. There are no hashes, no slots and no
generations here, and a map is never full. This is the meaning that the search with a hash table
is compared with.
-/

namespace AgentPlanning

/-- A search in progress that keeps its nodes in a plain map. -/
structure MapSearch where
  /-- The reached states; the start is the first. -/
  nodes : Array Node
  /-- The nodes by state. -/
  known : WorldState → Option NodeIndex
  /-- The nodes waiting to be expanded. -/
  openList : OpenList
  /-- The number of the latest open entry. -/
  seq : UInt32
  expanded : Nat
  /-- The number of successors. -/
  generated : Nat

/-- A search with a plain map that has ended. -/
structure MapSearchEnd where
  search : MapSearch
  /-- The node of a satisfying state, or the reason for giving up. -/
  outcome : Except PlanError NodeIndex

namespace MapSearch

/-- The counters of the search. -/
def stats (s : MapSearch) : SearchStats :=
  ⟨s.expanded, s.generated, s.nodes.size⟩

/-- The search before its first node, with an empty map. -/
def initial : MapSearch :=
  { nodes := #[], known := fun _ => none, openList := .empty, seq := 0, expanded := 0,
    generated := 0 }

/-- Ends the search without a plan. -/
def giveUp {α : Type} (s : MapSearch) (reason : PlanError) : Except MapSearchEnd α :=
  .error ⟨s, .error reason⟩

/-- Opens a node under the next number. -/
def enqueue (problem : SearchProblem) (nodeLimit : Nat) (s : MapSearch) (node : NodeIndex)
    (state : WorldState) (cost : Nat) : Except MapSearchEnd MapSearch :=
  let s := { s with seq := s.seq + 1 }
  if s.openList.size < openLimit nodeLimit then
    let entry : OpenList.Entry := ⟨addCost cost (problem.estimate state), cost, s.seq, node⟩
    .ok { s with openList := s.openList.push entry }
  else
    s.giveUp (.tooManyOpen (openLimit nodeLimit))

/-- Takes note of a path to `state` that ends with `arrival`. A new state gets a node and an entry
in the map. A known state keeps its node, and the path replaces the known one if it is cheaper. -/
def reach (problem : SearchProblem) (nodeLimit : Nat) (s : MapSearch) (state : WorldState)
    (arrival : Arrival) (cost : Nat) : Except MapSearchEnd MapSearch :=
  match s.known state with
  | some node =>
    if (s.nodes[node]?).any (cost < ·.cost) then
      enqueue problem nodeLimit
        { s with nodes := s.nodes.modify node fun known => { known with arrival, cost } }
        node state cost
    else .ok s
  | none =>
    if s.nodes.size < nodeLimit then
      let node := s.nodes.size
      enqueue problem nodeLimit
        { s with
          nodes := s.nodes.push ⟨state, some arrival, cost⟩
          known := Function.update s.known state (some node) }
        node state cost
    else s.giveUp (.tooManyStates nodeLimit)

/-- Considers one candidate action in the state of a node reached at `cost`. Actions that are
not applicable or do not change the state give no successor. -/
def tryAction (problem : SearchProblem) (nodeLimit : Nat) (parent : NodeIndex)
    (state : WorldState) (cost : Nat) (s : MapSearch) (action : ActionId) :
    Except MapSearchEnd MapSearch :=
  if problem.library.isApplicable action state then
    let next := problem.library.apply action state
    if next = state then .ok s
    else
      let actionCost := ((problem.library.cost? action).getD 0).toNat
      reach problem nodeLimit { s with generated := s.generated + 1 } next ⟨parent, action⟩
        (addCost cost actionCost)
  else .ok s

/-- Considers all candidate actions in the state of a node. -/
def expand (problem : SearchProblem) (nodeLimit : Nat) (parent : NodeIndex) (state : WorldState)
    (cost : Nat) (s : MapSearch) : Except MapSearchEnd MapSearch :=
  (problem.library.candidates state).foldlM (tryAction problem nodeLimit parent state cost)
    { s with expanded := s.expanded + 1 }

/-- Takes the first open entry, and drops it, ends the search or expands its node. -/
def step (problem : SearchProblem) (nodeLimit : Nat) (s : MapSearch) :
    Except MapSearchEnd MapSearch :=
  match s.openList.pop? with
  | none => s.giveUp .unreachable
  | some (entry, openList) =>
    let s := { s with openList }
    match s.nodes[entry.node]? with
    | none => .ok s
    | some node =>
      if node.cost ≠ entry.cost then .ok s
      else if node.state.satisfies problem.goal then .error ⟨s, .ok entry.node⟩
      else expand problem nodeLimit entry.node node.state entry.cost s

/-- The search with the start state as its only node, which is known and open. -/
def withRoot (problem : SearchProblem) (s : MapSearch) : MapSearch :=
  { s with
    nodes := s.nodes.push ⟨problem.start, none, 0⟩
    known := Function.update s.known problem.start (some 0)
    openList := s.openList.push ⟨problem.estimate problem.start, 0, 0, 0⟩ }

/-- Runs the search from its first node. -/
def run (problem : SearchProblem) (nodeLimit : Nat) (s : MapSearch) : MapSearchEnd :=
  (runWithin (step problem nodeLimit) (Search.stepBound nodeLimit) s).getD
    ⟨s, .error .unreachable⟩

end MapSearch

/-- Searches for a node that satisfies the goal, with a plain map. -/
def SearchProblem.mapSearch (problem : SearchProblem) (nodeLimit : Nat) : MapSearchEnd :=
  let s := MapSearch.initial
  if nodeLimit = 0 then ⟨s, .error (.tooManyStates nodeLimit)⟩
  else if problem.start.satisfies problem.goal then
    ⟨{ s with nodes := #[⟨problem.start, none, 0⟩] }, .ok 0⟩
  else MapSearch.run problem nodeLimit (MapSearch.withRoot problem s)

/-- The plan to the node in which the search ended, if it fits the given space. -/
def MapSearchEnd.plan (ended : MapSearchEnd) (space : Nat) : Except PlanError (List ActionId) :=
  match ended.outcome with
  | .error reason => .error reason
  | .ok node =>
    let plan := pathTo ended.search.nodes node
    if space < plan.length then .error (.planTooLong plan.length space) else .ok plan

end AgentPlanning
