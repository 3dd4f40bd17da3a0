import AgentPlanning.Proofs.Search.Frontier

/-!
# Room for the Nodes of a Search

A node is stored in a slot of its own, and the table of a planner has at least twice as many slots
as the planner may keep nodes. A look-up therefore always comes to the state or to a free slot.
Main statements:

* `fits_of_stepped`, `fits_of_refused`, `fits_withRoot`: no more slots are taken than there are
  nodes, and no more nodes are allocated than the budget allows;
* `Fits.lookup_ne_full`: a look-up never finds the table full.
-/

namespace AgentPlanning

namespace Search

variable {problem : SearchProblem} {nodeLimit : Nat} {s t : Search}

/-- The nodes keep within the budget, and the table has a slot to spare for each of them. -/
structure Fits (nodeLimit : Nat) (s : Search) : Prop where
  size_le : s.nodes.size ≤ nodeLimit
  /-- No more slots are taken than there are nodes. -/
  takenCount_le : s.table.takenCount ≤ s.nodes.size
  /-- There are more slots than the budget allows nodes. -/
  limit_lt : nodeLimit < s.table.slots.size

theorem Fits.lookup_ne_full (h : Fits nodeLimit s) (state : WorldState) :
    s.table.lookup s.nodes state ≠ .full := by
  refine StateTable.lookup_ne_full ?_ s.nodes state
  exact Nat.lt_of_le_of_lt (Nat.le_trans h.takenCount_le h.size_le) h.limit_lt

theorem fits_of_noted {state : WorldState} {arrival : Arrival} {cost : Nat}
    (hnoted : Noted problem nodeLimit s state arrival cost t) (h : Fits nodeLimit s) :
    Fits nodeLimit t := by
  cases hnoted with
  | kept => exact h
  | @improved index =>
    -- A cheaper path changes neither the number of nodes nor the table.
    have hsize : (s.improved problem index state arrival cost).nodes.size = s.nodes.size :=
      Array.size_modify
    exact ⟨hsize ▸ h.size_le, hsize ▸ h.takenCount_le, h.limit_lt⟩
  | @added slot _ hroom =>
    have hsize : (s.added problem slot state arrival cost).nodes.size = s.nodes.size + 1 :=
      Array.size_push _
    have hslots : (s.added problem slot state arrival cost).table.slots.size =
        s.table.slots.size := s.table.size_store slot _
    refine ⟨hsize ▸ hroom, ?_, hslots ▸ h.limit_lt⟩
    exact Nat.le_trans (s.table.takenCount_store_le slot _)
      (hsize ▸ Nat.succ_le_succ h.takenCount_le)

theorem fits_of_tried {parent : NodeIndex} {state : WorldState} {cost : Nat} {action : ActionId}
    (htried : Tried problem nodeLimit parent state cost s action t) (h : Fits nodeLimit s) :
    Fits nodeLimit t := by
  cases htried with
  | passed => exact h
  | noted _ _ hnoted => exact fits_of_noted hnoted ⟨h.size_le, h.takenCount_le, h.limit_lt⟩

theorem fits_of_foldlM {parent : NodeIndex} {state : WorldState} {cost : Nat}
    {actions : List ActionId}
    (hfold : actions.foldlM (tryAction problem nodeLimit parent state cost) s = .ok t)
    (h : Fits nodeLimit s) : Fits nodeLimit t :=
  motive_of_foldlM (motive := fun _ u => Fits nodeLimit u)
    (fun _ _ _ _ hu htry => fits_of_tried (tried_of_tryAction htry) hu) [] h hfold

theorem fits_of_stepped (hstep : Stepped problem nodeLimit s t) (h : Fits nodeLimit s) :
    Fits nodeLimit t := by
  cases hstep with
  | dropped => exact ⟨h.size_le, h.takenCount_le, h.limit_lt⟩
  | expanded _ _ _ _ hexpand =>
    exact fits_of_foldlM hexpand ⟨h.size_le, h.takenCount_le, h.limit_lt⟩

/-- A search that ends for lack of budget has kept to it. -/
theorem fits_of_refused {parent : NodeIndex} {state : WorldState} {cost : Nat} {action : ActionId}
    {ended : SearchEnd} (h : Fits nodeLimit s)
    (hrefused : Refused problem nodeLimit parent state cost s action ended) :
    Fits nodeLimit ended.search := by
  cases hrefused.overrun with
  | tooManyStates => exact ⟨h.size_le, h.takenCount_le, h.limit_lt⟩
  | tooManyOpen hnoted =>
    have hfits := fits_of_noted hnoted ⟨h.size_le, h.takenCount_le, h.limit_lt⟩
    exact ⟨hfits.size_le, hfits.takenCount_le, hfits.limit_lt⟩
  | tableFull => exact ⟨h.size_le, h.takenCount_le, h.limit_lt⟩

/-- No slot of an emptied table is taken. -/
theorem fits_of_clean (hclean : s.table.Clean) (hsize : s.nodes.size ≤ nodeLimit)
    (hslots : nodeLimit < s.table.slots.size) : Fits nodeLimit s := by
  refine ⟨hsize, ?_, hslots⟩
  rw [StateTable.takenCount_of_clean hclean]
  exact Nat.zero_le _

/-- The first node takes one slot of the emptied table. -/
theorem fits_withRoot (problem : SearchProblem) {table : StateTable} (hclean : table.Clean)
    (hlimit : nodeLimit ≠ 0) (hslots : nodeLimit < table.slots.size) :
    Fits nodeLimit (withRoot problem (initial table)) := by
  rw [withRoot_initial problem hclean]
  refine ⟨Nat.pos_of_ne_zero hlimit, ?_, ?_⟩
  · refine Nat.le_trans (table.takenCount_store_le _ 0) ?_
    rw [StateTable.takenCount_of_clean hclean]
    exact Nat.le_refl _
  · exact (table.size_store _ 0).symm ▸ hslots

end Search

end AgentPlanning
