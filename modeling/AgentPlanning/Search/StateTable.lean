import AgentPlanning.WorldState.Hash
import AgentPlanning.Search.Node

/-!
# The Table of Visited States

A hash table from the states of a search to their nodes, with open addressing and linear
probing. The states themselves are kept by the nodes, and the table stores node indices only.

Every slot carries the generation in which it was written, and a slot of another generation
counts as free. Advancing the generation therefore empties the table at once. When the 32-bit
generation returns to zero, the slots are cleared, so that no old slot comes to life again.
-/

namespace AgentPlanning

/-- A cell of the table. -/
structure Slot where
  /-- The generation in which the slot was written; zero if it never was. -/
  generation : UInt32 := 0
  node : NodeIndex := 0
deriving DecidableEq, Inhabited, Repr

/-- What is known of a state. -/
inductive Lookup where
  /-- The state is stored with this node. -/
  | known (node : NodeIndex)
  /-- The state is not stored, and this slot is free for it. -/
  | free (slot : Nat)
  /-- The state is not stored, and no slot is free. -/
  | full
deriving DecidableEq, Repr

/-- States of a search with their nodes. -/
structure StateTable where
  slots : Array Slot
  /-- The current generation. -/
  generation : UInt32
deriving DecidableEq

namespace StateTable

/-- The number of slots for a number of nodes: the least power of two that is at least twice that
number, but no less than two. -/
def slotCount (nodes : Nat) : Nat :=
  Nat.pow 2 ((max (2 * nodes) 2 - 1).log2 + 1)

/-- The empty table for up to the given number of nodes. -/
def ofCapacity (nodes : Nat) : StateTable :=
  ⟨Array.replicate (slotCount nodes) {}, 1⟩

/-- The number of slots. -/
def capacity (table : StateTable) : Nat := table.slots.size

/-- The table without entries. -/
def clear (table : StateTable) : StateTable :=
  if table.generation + 1 = 0 then
    ⟨Array.replicate table.slots.size {}, 1⟩
  else
    { table with generation := table.generation + 1 }

/-- Looks for `state` in the given number of slots, beginning at slot `start` and going on
at the first slot after the last. -/
def lookupFrom (table : StateTable) (nodes : Array Node) (state : WorldState) :
    Nat → Nat → Lookup
  | 0, _ => .full
  | remaining + 1, start =>
    let index := start % table.slots.size
    let slot := table.slots.getD index {}
    -- Slots are never freed, so a free slot ends the run in which the state could be.
    if slot.generation ≠ table.generation then .free index
    else if nodes[slot.node]?.map (·.state) = some state then .known slot.node
    else lookupFrom table nodes state remaining (index + 1)

/-- Looks for `state`, whose hash says where to begin, in all slots. -/
def lookup (table : StateTable) (nodes : Array Node) (state : WorldState) : Lookup :=
  table.lookupFrom nodes state table.slots.size state.hash.toNat

/-- Stores a node in a slot. -/
def store (table : StateTable) (slot : Nat) (node : NodeIndex) : StateTable :=
  { table with slots := table.slots.setIfInBounds slot ⟨table.generation, node⟩ }

end StateTable

end AgentPlanning
