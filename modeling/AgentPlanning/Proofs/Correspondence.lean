import Mathlib.Data.List.Forall2

/-!
# Entries that Correspond to Each Other

Two lists can correspond element by element, and two look-ups by what they find. Main statements:

* `rel_getElem?`: corresponding lists agree at every position;
* `exists_of_mem_right`, `exists_of_rel_some`: the entry that a given one corresponds to;
* `map_eq_of_rel`: what corresponding entries have in common.
-/

namespace AgentPlanning

/-! ## Lists -/

theorem forall₂_comp {α β γ : Type} {r : α → β → Prop} {s : β → γ → Prop} {xs : List α}
    {ys : List β} {zs : List γ} (h : List.Forall₂ r xs ys) (h' : List.Forall₂ s ys zs) :
    List.Forall₂ (fun x z => ∃ y, r x y ∧ s y z) xs zs := by
  induction h generalizing zs with
  | nil =>
    cases h'
    exact .nil
  | cons hhead _ ih =>
    obtain _ | ⟨hhead', htail'⟩ := h'
    exact .cons ⟨_, hhead, hhead'⟩ (ih htail')

/-- Lists that agree element by element agree at every position. -/
theorem rel_getElem? {α β : Type} {r : α → β → Prop} {xs : List α} {ys : List β}
    (h : List.Forall₂ r xs ys) (i : Nat) : Option.Rel r xs[i]? ys[i]? := by
  induction h generalizing i with
  | nil => exact .none
  | cons hhead _ ih =>
    cases i with
    | zero => exact .some hhead
    | succ i => simpa using ih i

/-- Every entry on the right of related lists is related to one on the left. -/
theorem exists_of_mem_right {α β : Type} {r : α → β → Prop} {xs : List α} {ys : List β}
    (h : List.Forall₂ r xs ys) {y : β} (hy : y ∈ ys) : ∃ x ∈ xs, r x y := by
  induction h with
  | nil => cases hy
  | @cons x first _ _ hfirst _ ih =>
    rcases List.mem_cons.1 hy with rfl | hy
    · exact ⟨x, List.mem_cons_self, hfirst⟩
    · obtain ⟨x, hx, hr⟩ := ih hy
      exact ⟨x, List.mem_cons_of_mem _ hx, hr⟩

/-! ## Look-ups -/

/-- Of two related entries, the second is there if the first is. -/
theorem isSome_of_rel {α β : Type} {r : α → β → Prop} {x : Option α} {y : Option β}
    (h : Option.Rel r x y) (hx : x.isSome = true) : y.isSome = true := by
  cases h with
  | some => rfl
  | none => cases hx

/-- An entry that is there is related to another one. -/
theorem exists_of_rel_some {α β : Type} {r : α → β → Prop} {x : Option α} {b : β}
    (h : Option.Rel r x (some b)) : ∃ a ∈ x, r a b := by
  cases h with
  | some hr => exact ⟨_, rfl, hr⟩

/-- What is the same for related entries is the same for both. -/
theorem map_eq_of_rel {α β γ : Type} {r : α → β → Prop} {x : Option α} {y : Option β}
    {f : α → γ} {g : β → γ} (h : Option.Rel r x y) (hr : ∀ a b, r a b → g b = f a) :
    y.map g = x.map f := by
  cases h with
  | none => rfl
  | some hab => exact congrArg some (hr _ _ hab)

end AgentPlanning
