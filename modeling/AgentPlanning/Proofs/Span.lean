import AgentPlanning.Span
import Mathlib.Data.List.Chain
import Mathlib.Data.List.Induction

/-!
# Ranges that Divide up a Table

If every list is added at the end of the flat table, each range begins where the one before it
stops. Such ranges divide the table up: none leads out of it, no two of them meet, and no row is
left over. Main statements:

* `Span.Divides.concat`: a range that is added at the end of a table goes on dividing it up;
* `Span.foldl_fills`: tables to which rows are added one after the other, each with a range of a
  flat table, are read back as what was added.
-/

namespace AgentPlanning

namespace Span

variable {α β ρ τ : Type}

/-- The ranges divide up a table of the given size. -/
structure Divides (spans : List Span) (size : Nat) : Prop where
  inBounds : ∀ span ∈ spans, span.stop ≤ size
  contiguous : spans.IsChain fun span next => span.stop = next.start
  disjoint : spans.Pairwise fun span later => span.stop ≤ later.start
  /-- Every row belongs to one of the ranges. -/
  covers : ∀ row < size, ∃ span ∈ spans, span.start ≤ row ∧ row < span.stop

namespace Divides

variable {spans : List Span} {size : Nat}

theorem nil : Divides [] 0 :=
  ⟨fun _ hspan => absurd hspan List.not_mem_nil, .nil, .nil, fun _ hrow => absurd hrow nofun⟩

/-- The last range stops where the table does. -/
theorem stop_getLast? (h : Divides spans size) : ∀ last ∈ spans.getLast?, last.stop = size := by
  intro last hlast
  obtain ⟨before, rfl⟩ := List.getLast?_eq_some_iff.1 hlast
  refine Nat.le_antisymm (h.inBounds last (by simp)) (Nat.not_lt.1 fun hlt => ?_)
  -- The row at which the last range stops would belong to a range before, which stops sooner.
  obtain ⟨span, hspan, hstart, hstop⟩ := h.covers last.stop hlt
  rcases List.mem_append.1 hspan with hbefore | hsingle
  · have hmeets := (List.pairwise_append.1 h.disjoint).2.2 span hbefore last (by simp)
    have hle : last.start ≤ last.stop := Nat.le_add_right _ _
    exact absurd hstop (Nat.not_lt.2 (hmeets.trans hle))
  · obtain rfl := List.mem_singleton.1 hsingle
    exact Nat.lt_irrefl _ hstop

/-- A range at the end of the table is one more. -/
theorem concat (h : Divides spans size) (length : Nat) :
    Divides (spans ++ [⟨size, length⟩]) (size + length) where
  inBounds span hspan := by
    rcases List.mem_append.1 hspan with hbefore | hsingle
    · exact Nat.le_add_right_of_le (h.inBounds span hbefore)
    · obtain rfl := List.mem_singleton.1 hsingle
      exact Nat.le_refl _
  contiguous := by
    refine List.isChain_append.2 ⟨h.contiguous, .singleton _, fun last hlast next hnext => ?_⟩
    obtain rfl := Option.some.inj hnext
    exact h.stop_getLast? last hlast
  disjoint := by
    refine List.pairwise_append.2 ⟨h.disjoint, List.pairwise_singleton _ _,
      fun span hspan next hnext => ?_⟩
    obtain rfl := List.mem_singleton.1 hnext
    exact h.inBounds span hspan
  covers row hrow := by
    rcases Nat.lt_or_ge row size with hlt | hge
    · obtain ⟨span, hspan, hin⟩ := h.covers row hlt
      exact ⟨span, List.mem_append_left _ hspan, hin⟩
    · exact ⟨_, List.mem_append_right _ (List.mem_singleton.2 rfl), hge, hrow⟩

end Divides

/-! ## Adding to a table -/

theorem appendList_eq_append_toArray (table : Array β) (items : List β) :
    table.appendList items = table ++ items.toArray := by
  refine Array.ext' ?_
  rw [Array.appendList_eq_append, Array.toList_appendList, Array.toList_append]

variable (rows : τ → List ρ) (flat : τ → Array β) (span : ρ → Span) (items : α → List β)
  (ofRow : ρ → List β → α) {add : τ → α → τ}

/-- Tables are filled by adding one row after the other, each with its items at the end of the flat
table. Then the ranges of the rows divide up the flat table, and with the items in its range every
row is read back as what was added. -/
theorem foldl_fills
    (hadd : ∀ table a, ∃ row, rows (add table a) = rows table ++ [row] ∧
      flat (add table a) = flat table ++ (items a).toArray ∧
      span row = ⟨(flat table).size, (items a).length⟩ ∧ ofRow row (items a) = a)
    (empty : τ) (hrows : rows empty = []) (hflat : flat empty = #[]) (added : List α) :
    Divides ((rows (added.foldl add empty)).map span) (flat (added.foldl add empty)).size ∧
    (rows (added.foldl add empty)).map
      (fun row => ofRow row ((span row).read (flat (added.foldl add empty)))) = added := by
  induction added using List.reverseRecOn with
  | nil =>
    rw [List.foldl_nil, hrows, hflat]
    exact ⟨.nil, rfl⟩
  | append_singleton before a ih =>
    rw [List.foldl_append, List.foldl_cons, List.foldl_nil]
    generalize before.foldl add empty = table at ih ⊢
    obtain ⟨hdivides, hread⟩ := ih
    obtain ⟨row, hrow, hitems, hspan, hofRow⟩ := hadd table a
    rw [hrow, hitems, List.map_append, List.map_append, List.map_singleton, List.map_singleton,
      hspan, read_append_list, hofRow, Array.size_append]
    refine ⟨hdivides.concat _, congrArg (· ++ [a]) (Eq.trans ?_ hread)⟩
    -- The ranges of the rows before end inside the table as it was before.
    refine List.map_congr_left fun row hmem => ?_
    rw [read_append (hdivides.inBounds _ (List.mem_map_of_mem (f := span) hmem))]

end Span

end AgentPlanning
