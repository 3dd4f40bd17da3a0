import AgentPlanning.Action.Library
import AgentPlanning.Search.OpenList

/-!
# Search Nodes

A search allocates one node for each state that it reaches. A node remembers the cheapest path
found so far by its last step, so the path is read off by following the steps back to the root.
Costs are 32-bit quantities: sums and products that exceed the greatest cost count as that.
-/

namespace AgentPlanning

/-- The greatest cost that a search distinguishes. -/
abbrev maxCost : Nat := UInt32.size - 1

/-- The sum of two costs, at most `maxCost`. -/
def addCost (a b : Nat) : Nat := min (a + b) maxCost

/-- The last step of a path. -/
structure Arrival where
  /-- The node before the step. -/
  parent : NodeIndex
  action : ActionId
deriving DecidableEq, Repr

/-- A reached state. -/
structure Node where
  state : WorldState
  /-- The last step of the cheapest known path; the root has none. -/
  arrival : Option Arrival
  /-- The cost of the cheapest known path. -/
  cost : Nat
deriving DecidableEq, Repr

/-- The number of steps from a node back to the root, at most the given number. -/
def depthWithin (nodes : Array Node) : Nat → NodeIndex → Nat
  | 0, _ => 0
  | steps + 1, index =>
    match nodes[index]?.bind (·.arrival) with
    | none => 0
    | some ⟨parent, _⟩ => depthWithin nodes steps parent + 1

/-- The number of actions of the path from the root to a node. -/
def depth (nodes : Array Node) (index : NodeIndex) : Nat :=
  depthWithin nodes nodes.size index

/-- Writes the actions of the path to a node in front of the given cell, the last one first. -/
def writePath (nodes : Array Node) : Nat → NodeIndex → Array ActionId → Array ActionId
  | 0, _, buffer => buffer
  | cell + 1, index, buffer =>
    match nodes[index]?.bind (·.arrival) with
    | none => buffer
    | some ⟨parent, action⟩ =>
      writePath nodes cell parent (buffer.setIfInBounds cell action)

@[simp]
theorem size_writePath (nodes : Array Node) (cell : Nat) (index : NodeIndex)
    (buffer : Array ActionId) : (writePath nodes cell index buffer).size = buffer.size := by
  induction cell generalizing index buffer with
  | zero => rfl
  | succ cell ih =>
    rw [writePath]
    split
    · rfl
    · rw [ih, Array.size_setIfInBounds]

end AgentPlanning
