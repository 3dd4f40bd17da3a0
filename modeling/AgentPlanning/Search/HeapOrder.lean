import AgentPlanning.Search.LeftistHeap

/-!
# Values and Order of Leftist Heaps

Merging, pushing and popping neither lose nor invent a value, and they keep the order of the
heap. Main statements:

* `toList_merge`, `toList_push`, `toList_of_pop?`: the values of a heap up to their order;
* `ordered_merge`, `ordered_push`, `ordered_of_pop?`: for a total and transitive comparison, the
  heap stays ordered and gives out a value that may come before all others.
-/

namespace AgentPlanning

namespace LeftistHeap
variable {α : Type}

/-! ## The values of a heap -/

theorem toList_branch (x : α) (l r : LeftistHeap α) :
    (branch x l r).toList.Perm (x :: (l.toList ++ r.toList)) := by
  rw [branch]
  split
  · exact .refl _
  · exact List.perm_append_comm.cons x

theorem toList_mergeOnto {le : α → α → Bool} {x : α} {l self : LeftistHeap α}
    {mergeRight : LeftistHeap α → LeftistHeap α} {right : List α}
    (hself : self.toList.Perm (x :: (l.toList ++ right)))
    (hright : ∀ h, (mergeRight h).toList.Perm (right ++ h.toList)) (h : LeftistHeap α) :
    (mergeOnto le x l self mergeRight h).toList.Perm (self.toList ++ h.toList) := by
  induction h with
  | leaf => simp [mergeOnto, toList]
  | node k y l' r' _ ih =>
    rw [mergeOnto]
    split
    · refine (toList_branch ..).trans ?_
      refine (((hright _).append_left _).cons x).trans ?_
      rw [← List.append_assoc]
      exact (hself.symm.append_right _)
    · refine (toList_branch ..).trans ?_
      refine ((ih.append_left _).cons y).trans ?_
      rw [toList]
      exact ((List.perm_append_comm_assoc ..).cons y).trans List.perm_middle.symm

/-- Merging neither loses nor invents a value. -/
theorem toList_merge (le : α → α → Bool) (h h' : LeftistHeap α) :
    (merge le h h').toList.Perm (h.toList ++ h'.toList) := by
  induction h generalizing h' with
  | leaf => exact .refl _
  | node k x l r _ ih => exact toList_mergeOnto (.refl _) ih h'

theorem toList_push (le : α → α → Bool) (h : LeftistHeap α) (x : α) :
    (h.push le x).toList.Perm (x :: h.toList) :=
  toList_merge le (singleton x) h

theorem toList_of_pop? {le : α → α → Bool} {h rest : LeftistHeap α} {x : α}
    (hpop : h.pop? le = some (x, rest)) : h.toList.Perm (x :: rest.toList) := by
  cases h with
  | leaf => simp [pop?] at hpop
  | node k y l r =>
    obtain ⟨rfl, rfl⟩ : y = x ∧ merge le l r = rest := by simpa [pop?] using hpop
    exact (toList_merge le l r).symm.cons y

theorem pop?_eq_none_iff {le : α → α → Bool} {h : LeftistHeap α} :
    h.pop? le = none ↔ h.toList = [] := by
  cases h <;> simp [pop?, toList]

/-! ## The order of a heap -/

/-- No value comes before its parent. -/
inductive Ordered (le : α → α → Bool) : LeftistHeap α → Prop where
  /-- The empty heap is ordered. -/
  | leaf : Ordered le .leaf
  /-- The root may come before every value of two ordered heaps. -/
  | node {k : Nat} {x : α} {l r : LeftistHeap α} (hl : Ordered le l) (hr : Ordered le r)
      (hroot : ∀ y ∈ l.toList ++ r.toList, le x y = true) : Ordered le (.node k x l r)

theorem ordered_branch {le : α → α → Bool} {x : α} {l r : LeftistHeap α} (hl : Ordered le l)
    (hr : Ordered le r) (hroot : ∀ y ∈ l.toList ++ r.toList, le x y = true) :
    Ordered le (branch x l r) := by
  rw [branch]
  split
  · exact .node hl hr hroot
  · exact .node hr hl fun y hy => hroot y (List.perm_append_comm.mem_iff.1 hy)

theorem ordered_singleton (le : α → α → Bool) (x : α) : Ordered le (singleton x) :=
  .node .leaf .leaf (by simp [toList])

section Total

variable {le : α → α → Bool} (total : ∀ x y, le x y = true ∨ le y x = true)
  (trans : ∀ x y z, le x y = true → le y z = true → le x z = true)

include total trans

theorem ordered_mergeOnto {x : α} {l self : LeftistHeap α}
    {mergeRight : LeftistHeap α → LeftistHeap α} {right : List α} (hself : Ordered le self)
    (hvalues : self.toList.Perm (x :: (l.toList ++ right))) (hl : Ordered le l)
    (hroot : ∀ y ∈ l.toList ++ right, le x y = true)
    (hright : ∀ h, (mergeRight h).toList.Perm (right ++ h.toList))
    (hordered : ∀ h, Ordered le h → Ordered le (mergeRight h)) {h : LeftistHeap α}
    (hh : Ordered le h) : Ordered le (mergeOnto le x l self mergeRight h) := by
  induction hh with
  | leaf => exact hself
  | @node k y l' r' hl' hr' hroot' _ ih =>
    -- The other root may come before everything in its heap.
    have hbelow : ∀ z ∈ (node k y l' r').toList, z = y ∨ le y z = true := fun z hz => by
      rcases List.mem_cons.1 hz with rfl | hz
      · exact .inl rfl
      · exact .inr (hroot' z hz)
    rw [mergeOnto]
    split
    next hxy =>
      -- The root `x` stays on top, above its own values and those of the other heap.
      refine ordered_branch hl (hordered _ (.node hl' hr' hroot')) fun z hz => ?_
      rcases List.mem_append.1 hz with hz | hz
      · exact hroot z (List.mem_append_left _ hz)
      · rcases List.mem_append.1 ((hright _).mem_iff.1 hz) with hz | hz
        · exact hroot z (List.mem_append_right _ hz)
        · rcases hbelow z hz with rfl | hyz
          · exact hxy
          · exact trans _ _ _ hxy hyz
    next hxy =>
      -- The root `y` goes on top, above its own left heap and everything merged below.
      have hyx : le y x = true := (total x y).resolve_left hxy
      refine ordered_branch hl' ih fun z hz => ?_
      rcases List.mem_append.1 hz with hz | hz
      · exact hroot' z (List.mem_append_left _ hz)
      · rcases List.mem_append.1 ((toList_mergeOnto hvalues hright _).mem_iff.1 hz) with hz | hz
        · rcases List.mem_cons.1 (hvalues.mem_iff.1 hz) with rfl | hz
          · exact hyx
          · exact trans _ _ _ hyx (hroot z hz)
        · exact hroot' z (List.mem_append_right _ hz)

theorem ordered_merge {h h' : LeftistHeap α} (hh : Ordered le h) (hh' : Ordered le h') :
    Ordered le (merge le h h') := by
  induction hh generalizing h' with
  | leaf => exact hh'
  | node hl hr hroot _ ih =>
    exact ordered_mergeOnto total trans (.node hl hr hroot) (.refl _) hl hroot
      (toList_merge le _) (fun _ => ih) hh'

theorem ordered_push {h : LeftistHeap α} (hh : Ordered le h) (x : α) : Ordered le (h.push le x) :=
  ordered_merge total trans (ordered_singleton le x) hh

/-- What is taken out may come before everything that stays. -/
theorem ordered_of_pop? {h rest : LeftistHeap α} {x : α} (hh : Ordered le h)
    (hpop : h.pop? le = some (x, rest)) :
    Ordered le rest ∧ ∀ y ∈ rest.toList, le x y = true := by
  cases hh with
  | leaf => simp [pop?] at hpop
  | @node k y l r hl hr hroot =>
    obtain ⟨rfl, rfl⟩ : y = x ∧ merge le l r = rest := by simpa [pop?] using hpop
    exact ⟨ordered_merge total trans hl hr,
      fun z hz => hroot z ((toList_merge le l r).mem_iff.1 hz)⟩

end Total

end LeftistHeap

end AgentPlanning
