import AgentPlanning.Domain.Checked
import AgentPlanning.KeyMap
import AgentPlanning.Proofs.Correspondence
import Mathlib.Data.List.Induction

/-!
# Values without Problems

What holds of a checked value if nothing was reported, with a rule for each way to build checked
values. A list that is built without problems corresponds to the list that it is built from, element
by element. Main statements:

* `Checked.Yields.bind`, `Checked.yields_found`, `Checked.yields_each`, `Checked.yields_filterEach`:
  the rules;
* `KeyMap.get?_ofList_zipIdx`: values that are filed under the positions of their elements.
-/

namespace AgentPlanning

namespace Checked

variable {α β : Type} {x : Checked α} {p : α → Prop} {q : β → Prop}

/-- If nothing is reported then the value has the property. -/
def Yields (x : Checked α) (p : α → Prop) : Prop :=
  x.problems = [] → p x.value

theorem yields_pure {a : α} (h : p a) : (pure a : Checked α).Yields p := fun _ => h

theorem yields_true (x : Checked α) : x.Yields fun _ => True := fun _ => trivial

theorem Yields.bind {f : α → Checked β} (h : x.Yields p) (hf : ∀ a, p a → (f a).Yields q) :
    (x >>= f).Yields q := by
  intro hproblems
  obtain ⟨hfirst, hsecond⟩ := problems_bind_eq_nil.1 hproblems
  exact hf x.value (h hfirst) hsecond

/-- A value that was looked up is there, with the property of all values that can be found. -/
theorem yields_found {x : Option α} (h : ∀ a, x = some a → p a) (problem : Diagnostic) :
    (found x problem).Yields fun y => ∃ a ∈ y, p a := by
  intro hproblems
  obtain ⟨a, ha⟩ := Option.isSome_iff_exists.1 (problems_found.1 hproblems)
  exact ⟨a, ha, h a ha⟩

/-- What was looked up is put into an entry. -/
theorem Yields.map {x : Checked (Option α)} {f : α → β} (h : x.Yields fun y => ∃ a ∈ y, p a)
    (hf : ∀ a, p a → q (f a)) :
    (x >>= fun y => pure (y.map f)).Yields fun y => ∃ b ∈ y, q b :=
  h.bind fun _ ⟨a, hmem, ha⟩ => yields_pure ⟨f a, Option.mem_map_of_mem f hmem, hf a ha⟩

theorem yields_each {xs : List α} {f : α → Checked β} {r : α → β → Prop}
    (h : ∀ x, (f x).Yields (r x)) : (each xs f).Yields (List.Forall₂ r xs) := by
  intro hproblems
  have hall := problems_each.1 hproblems
  rw [value_each, List.forall₂_map_right_iff, List.forall₂_same]
  exact fun x hx => h x (hall x hx)

/-- If no element is without a value then there are as many values as elements. -/
theorem forall₂_filterMap {xs : List α} {f : α → Option β} {r : α → β → Prop}
    (h : ∀ x ∈ xs, ∃ y ∈ f x, r x y) : List.Forall₂ r xs (xs.filterMap f) := by
  induction xs with
  | nil => exact .nil
  | cons x rest ih =>
    obtain ⟨y, hy, hr⟩ := h x List.mem_cons_self
    rw [List.filterMap_cons_some hy]
    exact .cons hr (ih fun x hx => h x (List.mem_cons_of_mem _ hx))

theorem yields_filterEach {xs : List α} {f : α → Checked (Option β)} {r : α → β → Prop}
    (h : ∀ x, (f x).Yields fun y => ∃ b ∈ y, r x b) :
    (filterEach xs f).Yields (List.Forall₂ r xs) := by
  intro hproblems
  have hall := problems_filterEach.1 hproblems
  exact forall₂_filterMap fun x hx => h x (hall x hx)

theorem yields_filterEach_zipIdx {xs : List α} {f : α → Nat → Checked (Option β)}
    {r : α → β → Prop} (h : ∀ x i, (f x i).Yields fun y => ∃ b ∈ y, r x b) :
    (filterEach xs.zipIdx fun (x, i) => f x i).Yields (List.Forall₂ r xs) := by
  intro hproblems
  have hpairs : ∀ pair : α × Nat, (f pair.1 pair.2).Yields fun y => ∃ b ∈ y, r pair.1 b :=
    fun pair => h pair.1 pair.2
  have hall := List.forall₂_map_left_iff.2 (yields_filterEach hpairs hproblems)
  rwa [List.zipIdx_map_fst] at hall

end Checked

/-- Values that are filed under the positions of their elements are found there. -/
theorem KeyMap.get?_ofList_zipIdx {α β : Type} (f : α → Option β) (xs : List α) (id : Nat) :
    (KeyMap.ofList (xs.zipIdx.filterMap fun (x, i) => (f x).map (i, ·))).get? id =
      xs[id]?.bind f := by
  induction xs using List.reverseRecOn with
  | nil => simp [ofList]
  | append_singleton before x ih =>
    have hget : (before ++ [x])[id]?.bind f =
        if before.length = id then f x else before[id]?.bind f := by
      split
      next hlast => simp [← hlast]
      next hother => grind
    rw [List.zipIdx_append, List.filterMap_append, hget]
    cases hx : f x with
    | none =>
      have hnone : ([x].zipIdx (0 + before.length)).filterMap
          (fun (x, i) => (f x).map (i, ·)) = [] := by simp [hx]
      rw [hnone, List.append_nil, ih]
      split
      next hlast => rw [← hlast, List.getElem?_eq_none (Nat.le_refl _), Option.bind_none]
      next => rfl
    | some value =>
      have hsome : ([x].zipIdx (0 + before.length)).filterMap
          (fun (x, i) => (f x).map (i, ·)) = [(before.length, value)] := by simp [hx]
      rw [hsome, ofList_concat, get?_insert, ih]

end AgentPlanning
