import AgentPlanning.Search.HeapOrder

/-!
# The Open List

The open list holds the nodes that the search may expand next. It gives out entries by estimated
total cost, then by cost so far, then in the order in which they were added. An entry whose node
has since been reached more cheaply is not removed; the search skips it when it comes up.
-/

namespace AgentPlanning

/-- The position of a node among the nodes of a search. -/
abbrev NodeIndex := Nat

/-- A node that waits to be expanded. -/
structure OpenList.Entry where
  /-- The estimated cost of a plan through the node. -/
  estimate : Nat
  /-- The cost of the path to the node when the entry was added. -/
  cost : Nat
  /-- The number of the entry, counted modulo 2^32. -/
  seq : UInt32
  node : NodeIndex
deriving DecidableEq

/-- Whether entry `a` may come before entry `b`. -/
def OpenList.Entry.le (a b : OpenList.Entry) : Bool :=
  a.estimate < b.estimate || a.estimate == b.estimate &&
    (a.cost < b.cost || a.cost == b.cost && a.seq ≤ b.seq)

namespace OpenList.Entry

theorem le_iff {a b : OpenList.Entry} : a.le b = true ↔ a.estimate < b.estimate ∨
    a.estimate = b.estimate ∧ (a.cost < b.cost ∨ a.cost = b.cost ∧ a.seq ≤ b.seq) := by
  simp [le]

theorem le_total (a b : OpenList.Entry) : a.le b = true ∨ b.le a = true := by
  simp only [le_iff, UInt32.le_iff_toNat_le]; omega

theorem le_trans (a b c : OpenList.Entry) (hab : a.le b = true) (hbc : b.le c = true) :
    a.le c = true := by
  simp only [le_iff, UInt32.le_iff_toNat_le] at *; omega

end OpenList.Entry

/-- The waiting nodes. -/
structure OpenList where
  heap : LeftistHeap OpenList.Entry
  /-- The number of entries. -/
  size : Nat
  /-- No entry comes before its parent. -/
  ordered : heap.Ordered OpenList.Entry.le
  /-- The number is that of the entries in the heap. -/
  length_toList : heap.toList.length = size

namespace OpenList

/-- The open list without entries. -/
def empty : OpenList := ⟨.leaf, 0, .leaf, rfl⟩

/-- The entries, in no particular order. -/
def toList (q : OpenList) : List OpenList.Entry := q.heap.toList

/-- The open list with one more entry. -/
def push (q : OpenList) (entry : OpenList.Entry) : OpenList where
  heap := q.heap.push OpenList.Entry.le entry
  size := q.size + 1
  ordered :=
    LeftistHeap.ordered_push OpenList.Entry.le_total OpenList.Entry.le_trans q.ordered entry
  length_toList := by
    rw [(LeftistHeap.toList_push ..).length_eq, List.length_cons, q.length_toList]

/-- The first entry and the open list of the others. -/
def pop? (q : OpenList) : Option (OpenList.Entry × OpenList) :=
  match h : q.heap.pop? OpenList.Entry.le with
  | none => none
  | some (entry, rest) =>
    some (entry,
      { heap := rest
        size := q.size - 1
        ordered :=
          (LeftistHeap.ordered_of_pop? OpenList.Entry.le_total OpenList.Entry.le_trans
            q.ordered h).1
        length_toList := by
          rw [← q.length_toList, (LeftistHeap.toList_of_pop? h).length_eq]; rfl })

@[simp] theorem toList_empty : empty.toList = [] := rfl

theorem toList_push (q : OpenList) (entry : OpenList.Entry) :
    (q.push entry).toList.Perm (entry :: q.toList) :=
  LeftistHeap.toList_push ..

theorem pop?_eq_none_iff {q : OpenList} : q.pop? = none ↔ q.toList = [] := by
  rw [toList, ← @LeftistHeap.pop?_eq_none_iff _ OpenList.Entry.le, pop?]
  split <;> simp_all

/-- The entry that is taken out may come before every entry that stays. -/
theorem toList_of_pop? {q rest : OpenList} {entry : OpenList.Entry}
    (hpop : q.pop? = some (entry, rest)) :
    q.toList.Perm (entry :: rest.toList) ∧ ∀ other ∈ rest.toList, entry.le other = true := by
  rw [pop?] at hpop
  split at hpop
  next => simp at hpop
  next first heap h =>
    obtain ⟨rfl, rfl⟩ : first = entry ∧ _ = rest := by simpa using hpop
    exact ⟨LeftistHeap.toList_of_pop? h,
      (LeftistHeap.ordered_of_pop? OpenList.Entry.le_total OpenList.Entry.le_trans q.ordered h).2⟩

end OpenList

end AgentPlanning
