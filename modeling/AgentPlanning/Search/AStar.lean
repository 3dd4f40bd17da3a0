import AgentPlanning.Iteration
import AgentPlanning.PlanError
import AgentPlanning.Search.StateTable

/-!
# Best-First Search over World States

The search looks for a cheapest sequence of actions from a start state to a state that satisfies
a condition. It is A* with a weighted count of unsatisfied atoms as its estimate: the open node
of the least estimated total cost is expanded, every applicable action that changes the state
gives a successor, and a successor reached more cheaply than before has its path replaced.

The search runs within budgets for nodes, open entries and table slots. A run is a sequence of
`Search.step`s; it ends with the node of a satisfying state or with the reason for giving up.
-/

namespace AgentPlanning

/-- What to search for, and with what. -/
structure SearchProblem where
  /-- The actions that a plan may use. -/
  library : ActionLibrary
  /-- The state in which the plan begins. -/
  start : WorldState
  /-- The condition that must hold in the end. -/
  goal : Condition
  /-- The estimated cost of each unsatisfied atom. -/
  weight : UInt32

/-- The estimated cost from `state` to the goal. -/
def SearchProblem.estimate (problem : SearchProblem) (state : WorldState) : Nat :=
  min (problem.goal.mismatches state * problem.weight.toNat) maxCost

/-- What a search has done. -/
structure SearchStats where
  expanded : Nat := 0
  /-- The number of successors, those already known included. -/
  generated : Nat := 0
  /-- The number of allocated nodes. -/
  reached : Nat := 0
deriving DecidableEq, Inhabited, Repr

/-- The number of open entries that a search with a node budget may hold. -/
def openLimit (nodeLimit : Nat) : Nat := max (2 * nodeLimit) 1

/-- A search in progress. -/
structure Search where
  /-- The reached states; the start is the first. -/
  nodes : Array Node
  /-- The nodes by state. -/
  table : StateTable
  /-- The nodes waiting to be expanded. -/
  openList : OpenList
  /-- The number of the latest open entry. -/
  seq : UInt32
  expanded : Nat
  /-- The number of successors. -/
  generated : Nat

/-- A search that has ended. -/
structure SearchEnd where
  search : Search
  /-- The node of a satisfying state, or the reason for giving up. -/
  outcome : Except PlanError NodeIndex

namespace Search

/-- The counters of the search. -/
def stats (s : Search) : SearchStats :=
  ⟨s.expanded, s.generated, s.nodes.size⟩

/-- The search before its first node, with an empty table of visited states. -/
def initial (table : StateTable) : Search :=
  { nodes := #[], table, openList := .empty, seq := 0, expanded := 0, generated := 0 }

/-- The search before its first node again. The table is cleared, and of the nodes, the open
entries and the counters nothing is kept. -/
def reset (s : Search) : Search :=
  { s with
    nodes := #[]
    table := s.table.clear
    openList := .empty
    seq := 0
    expanded := 0
    generated := 0 }

theorem reset_eq (s : Search) : s.reset = initial s.table.clear := rfl

/-- Ends the search without a plan. -/
def giveUp {α : Type} (s : Search) (reason : PlanError) : Except SearchEnd α :=
  .error ⟨s, .error reason⟩

/-- Opens a node under the next number. -/
def enqueue (problem : SearchProblem) (nodeLimit : Nat) (s : Search) (node : NodeIndex)
    (state : WorldState) (cost : Nat) : Except SearchEnd Search :=
  let s := { s with seq := s.seq + 1 }
  if s.openList.size < openLimit nodeLimit then
    let entry : OpenList.Entry := ⟨addCost cost (problem.estimate state), cost, s.seq, node⟩
    .ok { s with openList := s.openList.push entry }
  else
    s.giveUp (.tooManyOpen (openLimit nodeLimit))

/-- Takes note of a path to `state` that ends with `arrival`. A new state gets a node. A known
state keeps its node, and the path replaces the known one if it is cheaper. In both cases the
node is opened. -/
def reach (problem : SearchProblem) (nodeLimit : Nat) (s : Search) (state : WorldState)
    (arrival : Arrival) (cost : Nat) : Except SearchEnd Search :=
  match s.table.lookup s.nodes state with
  | .known node =>
    -- An equally cheap path does not replace the known one, so ties keep the earlier path.
    if (s.nodes[node]?).any (cost < ·.cost) then
      enqueue problem nodeLimit
        { s with nodes := s.nodes.modify node fun known => { known with arrival, cost } }
        node state cost
    else .ok s
  | .free slot =>
    if s.nodes.size < nodeLimit then
      let node := s.nodes.size
      enqueue problem nodeLimit
        { s with
          nodes := s.nodes.push ⟨state, some arrival, cost⟩
          table := s.table.store slot node }
        node state cost
    else s.giveUp (.tooManyStates nodeLimit)
  | .full => s.giveUp (.tableFull s.table.capacity)

/-- Considers one candidate action in the state of a node reached at `cost`. Actions that are
not applicable or do not change the state give no successor. -/
def tryAction (problem : SearchProblem) (nodeLimit : Nat) (parent : NodeIndex)
    (state : WorldState) (cost : Nat) (s : Search) (action : ActionId) :
    Except SearchEnd Search :=
  if problem.library.isApplicable action state then
    let next := problem.library.apply action state
    -- An action without effect here would only lead back to the same node.
    if next = state then .ok s
    else
      let actionCost := ((problem.library.cost? action).getD 0).toNat
      reach problem nodeLimit { s with generated := s.generated + 1 } next ⟨parent, action⟩
        (addCost cost actionCost)
  else .ok s

/-- Considers all candidate actions in the state of a node. -/
def expand (problem : SearchProblem) (nodeLimit : Nat) (parent : NodeIndex) (state : WorldState)
    (cost : Nat) (s : Search) : Except SearchEnd Search :=
  (problem.library.candidates state).foldlM (tryAction problem nodeLimit parent state cost)
    { s with expanded := s.expanded + 1 }

/-- Takes the first open entry. An entry whose node was reached more cheaply since is dropped, a
node that satisfies the goal ends the search, and any other node is expanded. Without an open
entry no state is left to expand, and the goal cannot be reached. -/
def step (problem : SearchProblem) (nodeLimit : Nat) (s : Search) : Except SearchEnd Search :=
  match s.openList.pop? with
  | none => s.giveUp .unreachable
  | some (entry, openList) =>
    let s := { s with openList }
    match s.nodes[entry.node]? with
    | none => .ok s
    | some node =>
      -- The node was opened again at a lower cost, and that entry came up before this one.
      if node.cost ≠ entry.cost then .ok s
      else if node.state.satisfies problem.goal then .error ⟨s, .ok entry.node⟩
      else expand problem nodeLimit entry.node node.state entry.cost s

/-- The search with the start state as its only node, which is open. -/
def withRoot (problem : SearchProblem) (s : Search) : Search :=
  let root : Node := ⟨problem.start, none, 0⟩
  let nodes := s.nodes.push root
  let table :=
    match s.table.lookup nodes problem.start with
    | .free slot => s.table.store slot 0
    | _ => s.table
  { s with
    nodes, table
    openList := s.openList.push ⟨problem.estimate problem.start, 0, 0, 0⟩ }

/-- A number of steps within which every search ends: a step takes an entry from the open list,
and each entry was added when a node was allocated or its cost, below 2^32, was lowered. -/
def stepBound (nodeLimit : Nat) : Nat := nodeLimit * UInt32.size + 1

/-- Runs the search from its first node. -/
def run (problem : SearchProblem) (nodeLimit : Nat) (s : Search) : SearchEnd :=
  (runWithin (step problem nodeLimit) (stepBound nodeLimit) s).getD ⟨s, .error .unreachable⟩

end Search

/-- Searches for a node that satisfies the goal, in what the search before it has left. -/
def SearchProblem.search (problem : SearchProblem) (nodeLimit : Nat) (left : Search) :
    SearchEnd :=
  let s := left.reset
  if nodeLimit = 0 then ⟨s, .error (.tooManyStates nodeLimit)⟩
  else if problem.start.satisfies problem.goal then
    ⟨{ s with nodes := #[⟨problem.start, none, 0⟩] }, .ok 0⟩
  else Search.run problem nodeLimit (Search.withRoot problem s)

/-- Of what an earlier search has left only the table is taken over. -/
theorem SearchProblem.search_congr (problem : SearchProblem) (nodeLimit : Nat)
    {left other : Search} (h : left.table = other.table) :
    problem.search nodeLimit left = problem.search nodeLimit other := by
  rw [search, search, Search.reset_eq, Search.reset_eq, h]

end AgentPlanning
