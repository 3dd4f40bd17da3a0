/-!
# Leftist Heaps

A priority queue as a binary tree in which no value comes before its parent. Each node stores
the length of its right spine, its rank, and keeps the subtree of smaller rank on the right, so
that merging, which walks down right spines only, takes logarithmic time.
-/

namespace AgentPlanning

/-- A tree of values with the rank of every node. -/
inductive LeftistHeap (α : Type) where
  /-- The empty heap. -/
  | leaf
  /-- A value with the heaps below it. -/
  | node (rank : Nat) (root : α) (left right : LeftistHeap α)

namespace LeftistHeap

variable {α : Type}

/-- The length of the right spine. -/
def rank : LeftistHeap α → Nat
  | leaf => 0
  | node k _ _ _ => k

/-- The values of the heap, in no particular order. -/
def toList : LeftistHeap α → List α
  | leaf => []
  | node _ x l r => x :: (l.toList ++ r.toList)

/-- The heap of a root and two heaps below it, the one of smaller rank on the right. -/
def branch (x : α) (l r : LeftistHeap α) : LeftistHeap α :=
  if r.rank ≤ l.rank then node (r.rank + 1) x l r else node (l.rank + 1) x r l

/-- The heap of one value. -/
def singleton (x : α) : LeftistHeap α := node 1 x leaf leaf

/-- Merges a second heap into the heap `self`, whose root is `x`, whose left subtree is `l` and
whose right subtree is merged with any heap by `mergeRight`. -/
def mergeOnto (le : α → α → Bool) (x : α) (l self : LeftistHeap α)
    (mergeRight : LeftistHeap α → LeftistHeap α) : LeftistHeap α → LeftistHeap α
  | leaf => self
  | node k y l' r' =>
    if le x y then branch x l (mergeRight (node k y l' r'))
    else branch y l' (mergeOnto le x l self mergeRight r')

/-- The heap of the values of both heaps. -/
def merge (le : α → α → Bool) : LeftistHeap α → LeftistHeap α → LeftistHeap α
  | leaf => fun h => h
  | node k x l r => mergeOnto le x l (node k x l r) (merge le r)

/-- The heap with one more value. -/
def push (le : α → α → Bool) (h : LeftistHeap α) (x : α) : LeftistHeap α :=
  merge le (singleton x) h

/-- A first value of the heap and the heap of the others. -/
def pop? (le : α → α → Bool) : LeftistHeap α → Option (α × LeftistHeap α)
  | leaf => none
  | node _ x l r => some (x, merge le l r)

end LeftistHeap

end AgentPlanning
