import AgentPlanning.Proofs.Action.Candidates

/-!
# The Candidate Index as a Stable Sort

Counting, summing up and placing are three passes over the actions, and the placing pass writes to
one array from many cursors at once. Read group after group, that array is the list of all ids,
sorted by their groups, with ties in the order of the ids. Main statements:

* `pairwise_mergeSort_of_pairwise`: a stable sort keeps the order of elements that it may exchange;
* `perm_grouped`, `pairwise_grouped`: read group after group, no id is missing, and the ids are in
  order;
* `grouped_eq_mergeSort`: so they are in the order that a stable sort gives;
* `exists_fresh_target`: the cell that an action is written to;
* `isCountingSort_build`: what the three passes compute.
-/

namespace AgentPlanning

/-- A stable sort keeps the order of elements that it may exchange. -/
theorem pairwise_mergeSort_of_pairwise {α : Type} {le : α → α → Bool} {r : α → α → Prop}
    (trans : ∀ a b c, le a b = true → le b c = true → le a c = true)
    (total : ∀ a b, (le a b || le b a) = true) {l : List α} (h : l.Pairwise r) :
    (l.mergeSort le).Pairwise fun a b => le a b = true ∧ (le b a = true → r a b) := by
  induction l with
  | nil => simp
  | cons a rest ih =>
    obtain ⟨hfirst, hrest⟩ := List.pairwise_cons.1 h
    -- The first element goes between two parts of the sorted rest, and what comes before it there
    -- is smaller.
    obtain ⟨before, after, hsorted, hparts, hsmaller⟩ := List.mergeSort_cons trans total a rest
    have hpairwise := ih hrest
    have horder := List.pairwise_mergeSort trans total (a :: rest)
    rw [hparts, List.pairwise_append] at hpairwise
    rw [hsorted, List.pairwise_append, List.pairwise_cons] at horder
    obtain ⟨hbefore, hafter, hacross⟩ := hpairwise
    obtain ⟨-, ⟨hle, -⟩, hleBefore⟩ := horder
    rw [hsorted, List.pairwise_append, List.pairwise_cons]
    refine ⟨hbefore, ⟨fun b hb => ⟨hle b hb, fun _ => hfirst b ?_⟩, hafter⟩, fun b hb c hc => ?_⟩
    · exact List.mem_mergeSort.1 (hparts ▸ List.mem_append_right before hb)
    · rcases List.mem_cons.1 hc with rfl | hc
      · have hnot : le c b = false := by simpa using hsmaller b hb
        exact ⟨hleBefore b hb c List.mem_cons_self, fun hback => by cases hnot.symm.trans hback⟩
      · exact hacross b hb c hc

namespace ActionIndex

/-- The ids in the cells of an index, group after group. -/
def grouped (index : ActionIndex) : List ActionId :=
  (List.range groupCount).flatMap index.group

/-- The group of the action with the given id. -/
def groupAt (preconditions : List Condition) (id : ActionId) : Nat :=
  (preconditions[id]?.map groupFor).getD 0

/-- The comparison of actions by their groups. -/
def groupLe (preconditions : List Condition) (a b : ActionId) : Bool :=
  decide (groupAt preconditions a ≤ groupAt preconditions b)

/-- The placing pass after its first `k` actions. -/
def fillingAt (starts : Array Nat) (preconditions : List Condition) (k : Nat) : Filling :=
  (preconditions.take k).zipIdx.foldl (fun f (pre, action) => f.place action (groupFor pre))
    ⟨starts, Array.replicate preconditions.length 0⟩

/-- The next cell of the group of an action, when it is the action's turn to be placed. -/
def target? (starts : Array Nat) (preconditions : List Condition) (id : ActionId) : Option Nat :=
  (fillingAt starts preconditions id).cursors[groupAt preconditions id]?

/-- An index that is made by a counting sort of the ids by their groups. -/
structure IsCountingSort (preconditions : List Condition) (index : ActionIndex) : Prop where
  /-- The ids are sorted by their groups, and the sort is stable. -/
  grouped_eq : index.grouped =
    (List.range preconditions.length).mergeSort (groupLe preconditions)
  /-- Every id is there once. -/
  perm : index.grouped.Perm (List.range preconditions.length)
  /-- An id is in one group only: that of the lowest atom that its precondition requires to hold,
  or the group of constant candidates. -/
  mem_group : ∀ id pre, preconditions[id]? = some pre → ∀ g,
    id ∈ index.group g ↔ g = (pre.key?.map Fin.val).getD unkeyedGroup
  /-- This is also the group that is found when all groups are searched for the id. -/
  groupOf : ∀ id < preconditions.length, index.groupOf? id = some (groupAt preconditions id)
  /-- The ids ascend within a group. -/
  ascending : ∀ g, (index.group g).Pairwise (· < ·)
  /-- Each group ends where the next one starts, and the last one at the last start. -/
  starts_size : index.starts.size = groupCount + 1
  starts_first : index.starts[0]? = some 0
  starts_last : index.starts[groupCount]? = some preconditions.length
  /-- No group ends before it starts. -/
  starts_mono : index.starts.toList.Pairwise (· ≤ ·)
  /-- The placing pass goes through all actions. -/
  cells_eq : index.cells = (fillingAt index.starts preconditions preconditions.length).cells
  /-- It writes every action to a cell that is there and that it has not written to before. -/
  fresh : ∀ id < preconditions.length, ∃ cell, target? index.starts preconditions id = some cell ∧
    (fillingAt index.starts preconditions (id + 1)).cells =
      (fillingAt index.starts preconditions id).cells.setIfInBounds cell id ∧
    cell < (fillingAt index.starts preconditions id).cells.size ∧
    ∀ earlier < id, target? index.starts preconditions earlier ≠ some cell
  /-- No counter exceeds the number of actions, so what holds that number holds them all. -/
  counters_le : (∀ size ∈ groupSizes preconditions, size ≤ preconditions.length) ∧
    ∀ k, ∀ g < groupCount, ∃ cell,
      (fillingAt index.starts preconditions k).cursors[g]? = some cell ∧
        cell ≤ preconditions.length

variable (preconditions : List Condition)

/-! ## The order of the groups -/

theorem groupAt_eq {preconditions : List Condition} {id : ActionId} {pre : Condition}
    (h : preconditions[id]? = some pre) : groupAt preconditions id = groupFor pre := by
  rw [groupAt, h]
  rfl

theorem groupAt_lt (id : ActionId) : groupAt preconditions id < groupCount := by
  rw [groupAt]
  cases preconditions[id]? with
  | none => exact Nat.succ_pos _
  | some pre => exact groupFor_lt pre

/-- The ids of a group are those of the actions that are filed under it. -/
theorem mem_group_iff {preconditions : List Condition} {g : Nat} {id : ActionId} :
    id ∈ (build preconditions).group g ↔
      id < preconditions.length ∧ groupAt preconditions id = g := by
  rw [mem_group_build]
  constructor
  · rintro ⟨pre, hpre, rfl⟩
    exact ⟨(List.getElem?_eq_some_iff.1 hpre).1, groupAt_eq hpre⟩
  · rintro ⟨hlt, rfl⟩
    exact ⟨_, List.getElem?_eq_getElem hlt, (groupAt_eq (List.getElem?_eq_getElem hlt)).symm⟩

theorem pairwise_group (g : Nat) : ((build preconditions).group g).Pairwise (· < ·) := by
  by_cases hg : g < groupCount
  · rw [group_build preconditions hg, members_eq_filter]
    exact List.pairwise_lt_range.filter _
  · rw [group, if_neg hg]
    exact .nil

/-- The ids ascend along the groups, and within each of them. -/
theorem pairwise_grouped : (build preconditions).grouped.Pairwise fun a b =>
    groupLe preconditions a b = true ∧ (groupLe preconditions b a = true → a < b) := by
  rw [grouped, List.pairwise_flatMap]
  refine ⟨fun g _ => ?_, List.pairwise_lt_range.imp fun {g h} hlt a ha b hb => ?_⟩
  · -- Within a group the ids ascend.
    refine (pairwise_group preconditions g).imp_of_mem fun {a b} ha hb hab => ?_
    obtain ⟨-, hga⟩ := mem_group_iff.1 ha
    obtain ⟨-, hgb⟩ := mem_group_iff.1 hb
    exact ⟨by simp [groupLe, hga, hgb], fun _ => hab⟩
  · -- And all ids of a group come before those of the groups after it.
    obtain ⟨-, rfl⟩ := mem_group_iff.1 ha
    obtain ⟨-, rfl⟩ := mem_group_iff.1 hb
    refine ⟨by simpa [groupLe] using Nat.le_of_lt hlt, fun hback => ?_⟩
    exact absurd hlt (Nat.not_lt.2 (by simpa [groupLe] using hback))

theorem mem_grouped {preconditions : List Condition} {id : ActionId} :
    id ∈ (build preconditions).grouped ↔ id < preconditions.length := by
  rw [grouped, List.mem_flatMap]
  constructor
  · rintro ⟨g, -, hid⟩
    exact (mem_group_iff.1 hid).1
  · intro hlt
    exact ⟨_, List.mem_range.2 (groupAt_lt preconditions id), mem_group_iff.2 ⟨hlt, rfl⟩⟩

theorem perm_grouped :
    (build preconditions).grouped.Perm (List.range preconditions.length) := by
  have hnodup : (build preconditions).grouped.Nodup := by
    refine (pairwise_grouped preconditions).imp ?_
    rintro a _ ⟨hle, hlt⟩ rfl
    exact Nat.lt_irrefl a (hlt hle)
  refine (List.perm_ext_iff_of_nodup hnodup List.nodup_range).2 fun id => ?_
  rw [mem_grouped, List.mem_range]

/-- The order of the ids leaves no choice, so they are in the order of a stable sort. -/
theorem grouped_eq_mergeSort : (build preconditions).grouped =
    (List.range preconditions.length).mergeSort (groupLe preconditions) := by
  have hperm : (build preconditions).grouped.Perm
      ((List.range preconditions.length).mergeSort (groupLe preconditions)) :=
    (perm_grouped preconditions).trans (List.mergeSort_perm _ _).symm
  have htrans : ∀ a b c, groupLe preconditions a b = true → groupLe preconditions b c = true →
      groupLe preconditions a c = true := fun a b c hab hbc => by
    simp only [groupLe, decide_eq_true_eq] at *
    exact Nat.le_trans hab hbc
  have htotal : ∀ a b, (groupLe preconditions a b || groupLe preconditions b a) = true :=
    fun a b => by simpa [groupLe] using Nat.le_total _ _
  have hsorted := pairwise_mergeSort_of_pairwise htrans htotal
    (List.pairwise_lt_range (n := preconditions.length))
  refine hperm.eq_of_pairwise ?_ (pairwise_grouped preconditions) hsorted
  rintro a b - - ⟨hab, hlt⟩ ⟨hba, hgt⟩
  exact absurd (hlt hba) (Nat.lt_asymm (hgt hab))

/-! ## The placing pass -/

theorem filled_fillingAt (k : Nat) : Filled preconditions (preconditions.take k)
    (fillingAt (build preconditions).starts preconditions k) :=
  filled_foldl (by rw [List.nil_append, List.take_append_drop]) (filled_nil preconditions)

/-- One more action is placed. -/
theorem fillingAt_succ (starts : Array Nat) {preconditions : List Condition} {id : ActionId}
    (hid : id < preconditions.length) :
    fillingAt starts preconditions (id + 1) =
      (fillingAt starts preconditions id).place id (groupAt preconditions id) := by
  have hget : preconditions[id]? = some preconditions[id] := List.getElem?_eq_getElem hid
  have hlength : (preconditions.take id).length = id :=
    List.length_take_of_le (Nat.le_of_lt hid)
  rw [fillingAt, List.take_add_one, hget, Option.toList_some, List.zipIdx_append,
    List.foldl_append, groupAt_eq hget, hlength, Nat.zero_add]
  rfl

/-- An action goes behind the actions of its group that were placed before it. -/
theorem target?_eq (id : ActionId) : target? (build preconditions).starts preconditions id =
    some (offset preconditions (groupAt preconditions id) +
      (members (preconditions.take id) (groupAt preconditions id)).length) :=
  (filled_fillingAt preconditions id).cursor _ (groupAt_lt preconditions id)

/-- The actions before `id`, its own precondition, and those of the actions after it. -/
theorem eq_take_append {preconditions : List Condition} {id : ActionId}
    (hid : id < preconditions.length) :
    preconditions = preconditions.take id ++ preconditions[id] :: preconditions.drop (id + 1) := by
  rw [← List.drop_eq_getElem_cons hid, List.take_append_drop]

/-- A cell that was written to is not the next one of any action. -/
theorem target?_ne {preconditions : List Condition} {earlier id : ActionId}
    (hlt : earlier < id) (hid : id < preconditions.length) :
    target? (build preconditions).starts preconditions earlier ≠
      target? (build preconditions).starts preconditions id := by
  have hearlier : earlier < (preconditions.take id).length := by
    rw [List.length_take]
    exact Nat.lt_min.2 ⟨hlt, Nat.lt_trans hlt hid⟩
  have hsame : groupAt preconditions earlier = groupFor (preconditions.take id)[earlier] := by
    rw [List.getElem_take]
    exact groupAt_eq (List.getElem?_eq_getElem _)
  -- The earlier action is one of the members that its group had received by then.
  have hroom := length_members_lt (eq_take_append hearlier)
  rw [List.take_take, Nat.min_eq_left (Nat.le_of_lt hlt), ← hsame] at hroom
  rw [target?_eq, target?_eq]
  refine fun heq => cell_ne (eq_take_append hid) (groupAt_lt preconditions earlier) hroom ?_
  rw [← groupAt_eq (List.getElem?_eq_getElem hid)]
  exact (Option.some.inj heq).symm

/-- A cursor stays within the range of its group. -/
theorem exists_cursor_le (k : Nat) {g : Nat} (hg : g < groupCount) :
    ∃ cell, (fillingAt (build preconditions).starts preconditions k).cursors[g]? = some cell ∧
      cell ≤ preconditions.length := by
  refine ⟨_, (filled_fillingAt preconditions k).cursor g hg, ?_⟩
  have hrange := offset_add_length_members_le preconditions hg
  have hplaced := length_members_append_le (preconditions.take k) (preconditions.drop k) g
  rw [List.take_append_drop] at hplaced
  omega

/-- An action is written to a cell that is there. -/
theorem exists_target {preconditions : List Condition} {id : ActionId}
    (hid : id < preconditions.length) :
    ∃ cell, target? (build preconditions).starts preconditions id = some cell ∧
      cell < preconditions.length := by
  refine ⟨_, target?_eq preconditions id, ?_⟩
  have hroom := length_members_lt (eq_take_append hid)
  rw [← groupAt_eq (List.getElem?_eq_getElem hid)] at hroom
  have hrange := offset_add_length_members_le preconditions (groupAt_lt preconditions id)
  omega

/-! ## The starts and the search for a group -/

theorem length_runningSums (total : Nat) (sizes : List Nat) :
    (runningSums total sizes).length = sizes.length + 1 := by
  induction sizes generalizing total with
  | nil => rfl
  | cons n rest ih => rw [runningSums, List.length_cons, ih, List.length_cons]

theorem size_starts : (build preconditions).starts.size = groupCount + 1 := by
  rw [build, List.size_toArray, length_runningSums]
  exact congrArg Nat.succ (size_groupSizes preconditions)

theorem toList_starts : (build preconditions).starts.toList =
    (List.range (groupCount + 1)).map (offset preconditions) := by
  refine List.ext_getElem ?_ fun g hg _ => ?_
  · rw [Array.length_toList, size_starts, List.length_map, List.length_range]
  · rw [Array.length_toList, size_starts] at hg
    refine Option.some.inj ?_
    rw [← List.getElem?_eq_getElem, Array.getElem?_toList,
      getElem?_starts preconditions (Nat.le_of_lt_succ hg), List.getElem_map, List.getElem_range]

/-- The search for the group of an id finds the only one that the id is in. -/
theorem groupOf?_build {preconditions : List Condition} {id : ActionId}
    (hid : id < preconditions.length) :
    (build preconditions).groupOf? id = some (groupAt preconditions id) := by
  rw [groupOf?, List.find?_range_eq_some]
  refine ⟨?_, List.mem_range.2 (groupAt_lt preconditions id), fun g hg => ?_⟩
  · exact List.contains_iff_mem.2 (mem_group_iff.2 ⟨hid, rfl⟩)
  · have hnot : id ∉ (build preconditions).group g := fun hmem =>
      Nat.ne_of_lt hg (mem_group_iff.1 hmem).2.symm
    simpa using hnot

theorem size_le_length {preconditions : List Condition} {size : Nat}
    (h : size ∈ groupSizes preconditions) : size ≤ preconditions.length := by
  obtain ⟨g, hg, rfl⟩ := Array.mem_iff_getElem.1 h
  have hlt : g < groupCount := by rwa [size_groupSizes] at hg
  have hsize := getElem?_groupSizes preconditions hlt
  rw [Array.getElem?_eq_getElem hg] at hsize
  have hrange := offset_add_length_members_le preconditions hlt
  rw [Option.some.inj hsize]
  omega

/-- The key of a precondition determines its group. -/
theorem groupFor_eq (pre : Condition) :
    groupFor pre = (pre.key?.map Fin.val).getD unkeyedGroup := by
  rw [groupFor, pre.lowest?_positive]
  cases pre.key? <;> rfl

/-- The placing pass writes to a cell that is there and that it has not written to before. -/
theorem exists_fresh_target {preconditions : List Condition} {id : ActionId}
    (hid : id < preconditions.length) :
    ∃ cell, target? (build preconditions).starts preconditions id = some cell ∧
      (fillingAt (build preconditions).starts preconditions (id + 1)).cells =
        (fillingAt (build preconditions).starts preconditions id).cells.setIfInBounds cell id ∧
      cell < (fillingAt (build preconditions).starts preconditions id).cells.size ∧
      ∀ earlier < id, target? (build preconditions).starts preconditions earlier ≠ some cell := by
  obtain ⟨cell, hcell, hlt⟩ := exists_target hid
  refine ⟨cell, hcell, ?_, ?_, fun earlier hearlier heq => ?_⟩
  · rw [target?] at hcell
    rw [fillingAt_succ _ hid, Filling.place, Array.getD_eq_getD_getElem?, hcell, Option.getD_some]
  · rwa [(filled_fillingAt preconditions id).size]
  · exact target?_ne hearlier hid (heq.trans hcell.symm)

/-- The index is made by a counting sort: its groups, one after the other, list all ids in the order
that a stable sort by their groups gives, and every cell is written to once. -/
theorem isCountingSort_build (preconditions : List Condition) :
    IsCountingSort preconditions (build preconditions) where
  grouped_eq := grouped_eq_mergeSort preconditions
  perm := perm_grouped preconditions
  mem_group id pre hpre g := by
    have hid : id < preconditions.length := (List.getElem?_eq_some_iff.1 hpre).1
    rw [mem_group_iff, and_iff_right hid, groupAt_eq hpre, groupFor_eq, eq_comm]
  groupOf _ hid := groupOf?_build hid
  ascending := pairwise_group preconditions
  starts_size := size_starts preconditions
  starts_first := getElem?_starts preconditions (Nat.zero_le _)
  starts_last := by
    rw [getElem?_starts preconditions (Nat.le_refl _), offset_groupCount]
  starts_mono := by
    rw [toList_starts]
    refine List.pairwise_map.2 (List.pairwise_lt_range.imp fun hlt => ?_)
    exact offset_mono preconditions (Nat.le_of_lt hlt)
  cells_eq := by
    rw [fillingAt, List.take_length]
    rfl
  fresh _ hid := exists_fresh_target hid
  counters_le := ⟨fun _ => size_le_length, fun k _ => exists_cursor_le preconditions k⟩

/-- Two actions share the key atom 2, and the other one has no key. -/
example : (build [Condition.free.require 2 true, .free,
    (Condition.free.require 2 true).require 7 true]).cells = #[0, 2, 1] := by decide +kernel

end ActionIndex

end AgentPlanning
