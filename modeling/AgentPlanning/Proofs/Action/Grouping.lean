import AgentPlanning.Action.Library
import Mathlib.Algebra.GroupWithZero.Nat
import Mathlib.Data.List.Induction

/-!
# The Groups of the Candidate Index

The candidate index is built by a counting sort of the action ids by the group of their
preconditions. Main statements:

* `group_build`: the cells of a group hold exactly the actions that are filed under it, in
  ascending order;
* `mem_group_build`: an action is in the group of its precondition and in no other;
* `mem_candidates_of_isApplicable`: no action that can be taken is missing among the candidates.
-/

namespace AgentPlanning

namespace ActionIndex

/-- The actions filed under group `g`, in ascending order. -/
def members (preconditions : List Condition) (g : Nat) : List ActionId :=
  (preconditions.zipIdx.filter fun entry => groupFor entry.1 == g).map Prod.snd

@[simp]
theorem members_nil (g : Nat) : members [] g = [] := rfl

/-- One more action becomes the last member of its group. -/
theorem members_concat (preconditions : List Condition) (pre : Condition) (g : Nat) :
    members (preconditions ++ [pre]) g =
      members preconditions g ++ if groupFor pre = g then [preconditions.length] else [] := by
  rw [members, List.zipIdx_append, List.filter_append, List.map_append, members]
  by_cases h : groupFor pre = g <;> simp [h]

theorem mem_members {preconditions : List Condition} {g : Nat} {action : ActionId} :
    action ∈ members preconditions g ↔
      ∃ pre, preconditions[action]? = some pre ∧ groupFor pre = g := by
  simp [members, List.mem_zipIdx_iff_getElem?]

theorem length_members_append_le (before after : List Condition) (g : Nat) :
    (members before g).length ≤ (members (before ++ after) g).length := by
  rw [members, members, List.zipIdx_append, List.filter_append, List.map_append,
    List.length_append]
  exact Nat.le_add_right _ _

theorem groupFor_lt (pre : Condition) : groupFor pre < groupCount := by
  rw [groupFor]
  split
  next atom _ => exact Nat.lt_trans atom.isLt (by decide)
  next => decide

/-! ## The ranges of the groups -/

theorem size_groupSizes (preconditions : List Condition) :
    (groupSizes preconditions).size = groupCount := by
  rw [groupSizes]
  generalize hs : Array.replicate groupCount 0 = sizes
  have hsize : sizes.size = groupCount := by rw [← hs, Array.size_replicate]
  clear hs
  induction preconditions generalizing sizes with
  | nil => exact hsize
  | cons pre rest ih => exact ih _ (by rw [Array.size_modify, hsize])

/-- The size of a group is the number of its members. -/
theorem getElem?_groupSizes (preconditions : List Condition) {g : Nat} (hg : g < groupCount) :
    (groupSizes preconditions)[g]? = some (members preconditions g).length := by
  induction preconditions using List.reverseRecOn with
  | nil => simp [groupSizes, hg]
  | append_singleton before pre ih =>
    -- The last action increments the size of its own group only.
    rw [groupSizes, List.foldl_append, List.foldl_cons, List.foldl_nil, ← groupSizes,
      Array.getElem?_modify, ih, members_concat]
    by_cases h : groupFor pre = g <;> simp [h]

/-- A running sum is the sum of an initial segment. -/
theorem getElem?_runningSums (total : Nat) (sizes : List Nat) {k : Nat} (hk : k ≤ sizes.length) :
    (runningSums total sizes)[k]? = some (total + (sizes.take k).sum) := by
  induction sizes generalizing total k with
  | nil =>
    obtain rfl : k = 0 := by simpa using hk
    simp [runningSums]
  | cons n rest ih =>
    cases k with
    | zero => simp [runningSums]
    | succ k =>
      rw [runningSums, List.getElem?_cons_succ, ih _ (by simpa using hk)]
      simp [Nat.add_assoc]

/-- The first cell of group `g`: the number of actions in all groups before it. -/
def offset (preconditions : List Condition) (g : Nat) : Nat :=
  ((groupSizes preconditions).toList.take g).sum

theorem offset_succ (preconditions : List Condition) {g : Nat} (hg : g < groupCount) :
    offset preconditions (g + 1) =
      offset preconditions g + (members preconditions g).length := by
  have hsize : (groupSizes preconditions).toList[g]? =
      some (members preconditions g).length := by
    rw [Array.getElem?_toList, getElem?_groupSizes preconditions hg]
  rw [offset, List.take_add_one, hsize, List.sum_append]
  simp [offset]

theorem offset_mono (preconditions : List Condition) {g h : Nat} (hgh : g ≤ h) :
    offset preconditions g ≤ offset preconditions h := by
  obtain ⟨k, rfl⟩ := Nat.exists_eq_add_of_le hgh
  rw [offset, offset, List.take_add, List.sum_append]
  exact Nat.le_add_right _ _

theorem sum_modify_succ (sizes : List Nat) {g : Nat} (hg : g < sizes.length) :
    (sizes.modify g (· + 1)).sum = sizes.sum + 1 := by
  induction sizes generalizing g with
  | nil => simp at hg
  | cons n rest ih =>
    cases g with
    | zero => simp [Nat.add_right_comm]
    | succ g => simp [ih (by simpa using hg), Nat.add_assoc]

/-- All groups together have as many cells as there are actions. -/
theorem offset_groupCount (preconditions : List Condition) :
    offset preconditions groupCount = preconditions.length := by
  have hlength : (groupSizes preconditions).toList.length = groupCount :=
    size_groupSizes preconditions
  rw [offset, List.take_of_length_le (Nat.le_of_eq hlength)]
  induction preconditions using List.reverseRecOn with
  | nil => simp [groupSizes]
  | append_singleton before pre ih =>
    rw [groupSizes, List.foldl_append, List.foldl_cons, List.foldl_nil, ← groupSizes,
      Array.toList_modify, sum_modify_succ, ih (size_groupSizes before)]
    · simp
    · simpa [size_groupSizes] using groupFor_lt pre

theorem offset_add_length_members_le (preconditions : List Condition) {g : Nat}
    (hg : g < groupCount) :
    offset preconditions g + (members preconditions g).length ≤ preconditions.length := by
  rw [← offset_succ preconditions hg, ← offset_groupCount preconditions]
  exact offset_mono preconditions hg

theorem getElem?_starts (preconditions : List Condition) {g : Nat} (hg : g ≤ groupCount) :
    (build preconditions).starts[g]? = some (offset preconditions g) := by
  have hlength : (groupSizes preconditions).toList.length = groupCount :=
    size_groupSizes preconditions
  rw [build, List.getElem?_toArray, getElem?_runningSums _ _ (by rwa [hlength]), Nat.zero_add]
  rfl

/-! ## The placing pass -/

/-- The placing pass after the actions of `before` have been placed. -/
structure Filled (preconditions before : List Condition) (f : Filling) : Prop where
  /-- Each group goes on after the members that it has received. -/
  cursor : ∀ g < groupCount,
    f.cursors[g]? = some (offset preconditions g + (members before g).length)
  /-- The members stand in the first cells of their group. -/
  cell : ∀ g < groupCount, ∀ r action, (members before g)[r]? = some action →
    f.cells[offset preconditions g + r]? = some action
  /-- There is a cell for every action. -/
  size : f.cells.size = preconditions.length

section Place

variable {preconditions before after : List Condition} {pre : Condition}
  (hsplit : preconditions = before ++ pre :: after)

include hsplit

/-- The group of the next action still lacks a member. -/
theorem length_members_lt : (members before (groupFor pre)).length <
    (members preconditions (groupFor pre)).length := by
  have hle := length_members_append_le (before ++ [pre]) after (groupFor pre)
  rw [List.append_assoc, List.singleton_append, ← hsplit, members_concat] at hle
  simpa [Nat.succ_le_iff] using hle

/-- The cell of the next action is none of those that have been written. -/
theorem cell_ne {g r : Nat} (hg : g < groupCount) (hr : r < (members before g).length) :
    offset preconditions (groupFor pre) + (members before (groupFor pre)).length ≠
      offset preconditions g + r := by
  have hroom := length_members_lt hsplit
  have hlast : (members before g).length ≤ (members preconditions g).length := by
    rw [hsplit]
    exact length_members_append_le before (pre :: after) g
  have hstop := offset_succ preconditions hg
  have hstop' := offset_succ preconditions (groupFor_lt pre)
  -- Another group has a range of its own, and the same group an earlier cell.
  rcases Nat.lt_trichotomy g (groupFor pre) with hlt | heq | hlt
  · have hmono := offset_mono preconditions (show g + 1 ≤ groupFor pre from hlt)
    omega
  · rw [← heq]
    omega
  · have hmono := offset_mono preconditions (show groupFor pre + 1 ≤ g from hlt)
    omega

theorem filled_place {f : Filling} (h : Filled preconditions before f) :
    Filled preconditions (before ++ [pre]) (f.place before.length (groupFor pre)) := by
  have hgroup := groupFor_lt pre
  have hcursor : f.cursors.getD (groupFor pre) 0 =
      offset preconditions (groupFor pre) + (members before (groupFor pre)).length := by
    rw [Array.getD_eq_getD_getElem?, h.cursor _ hgroup, Option.getD_some]
  have hroom := length_members_lt hsplit
  have hbound := offset_add_length_members_le preconditions hgroup
  refine ⟨fun g hg => ?_, fun g hg r action hr => ?_, ?_⟩
  · rw [Filling.place, Array.getElem?_modify, h.cursor g hg, members_concat]
    by_cases hpre : groupFor pre = g <;> simp [hpre, Nat.add_assoc]
  · rw [Filling.place, hcursor, Array.getElem?_setIfInBounds, h.size]
    rw [members_concat] at hr
    by_cases hold : r < (members before g).length
    · rw [List.getElem?_append_left hold] at hr
      rw [if_neg (cell_ne hsplit hg hold)]
      exact h.cell g hg r action hr
    · -- The only new member is the action that is placed.
      rw [List.getElem?_append_right (Nat.le_of_not_lt hold)] at hr
      by_cases hpre : groupFor pre = g
      · subst hpre
        rw [if_pos rfl, List.getElem?_singleton] at hr
        obtain ⟨hindex, rfl⟩ : r - (members before (groupFor pre)).length = 0 ∧
            before.length = action := by simpa using hr
        obtain rfl : r = (members before (groupFor pre)).length := by omega
        rw [if_pos rfl, if_pos (by omega)]
      · simp [hpre] at hr
  · rw [Filling.place, Array.size_setIfInBounds, h.size]

end Place

/-- The actions of `placed` are placed one after the other. -/
theorem filled_foldl {preconditions before placed after : List Condition} {f : Filling}
    (hsplit : preconditions = before ++ (placed ++ after)) (h : Filled preconditions before f) :
    Filled preconditions (before ++ placed)
      ((placed.zipIdx before.length).foldl (fun f (pre, action) => f.place action (groupFor pre))
        f) := by
  induction placed generalizing before f with
  | nil => simpa using h
  | cons pre rest ih =>
    have hnext := filled_place hsplit h
    rw [List.zipIdx_cons, List.foldl_cons, ← List.singleton_append, ← List.append_assoc]
    have hlength : before.length + 1 = (before ++ [pre]).length := by simp
    rw [hlength]
    exact ih (by simpa using hsplit) hnext

/-- The groups are empty before the placing pass. -/
theorem filled_nil (preconditions : List Condition) : Filled preconditions []
    ⟨(build preconditions).starts, Array.replicate preconditions.length 0⟩ := by
  refine ⟨fun g hg => ?_, fun g hg r action hr => ?_, ?_⟩
  · simpa using getElem?_starts preconditions (Nat.le_of_lt hg)
  · simp at hr
  · simp

theorem filled_fill (preconditions : List Condition) :
    Filled preconditions preconditions (fill (build preconditions).starts preconditions) := by
  have hsplit : preconditions = [] ++ (preconditions ++ []) := by simp
  exact filled_foldl hsplit (filled_nil preconditions)

/-- The cells of a group hold the actions filed under it, in ascending order. -/
theorem group_build (preconditions : List Condition) {g : Nat} (hg : g < groupCount) :
    (build preconditions).group g = members preconditions g := by
  have hfilled := filled_fill preconditions
  have hrange := offset_add_length_members_le preconditions hg
  rw [group, if_pos hg, Array.getD_eq_getD_getElem?, Array.getD_eq_getD_getElem?,
    getElem?_starts preconditions (Nat.le_of_lt hg), getElem?_starts preconditions hg,
    Option.getD_some, Option.getD_some, offset_succ preconditions hg]
  refine List.ext_getElem? fun r => ?_
  rw [Array.getElem?_toList, Array.getElem?_extract]
  by_cases hr : r < (members preconditions g).length
  · -- Within the range the cells were filled in order.
    have hcell := hfilled.cell g hg r _ (List.getElem?_eq_getElem hr)
    rw [List.getElem?_eq_getElem hr, ← hcell]
    have hsize : (build preconditions).cells.size = preconditions.length := hfilled.size
    rw [if_pos (by omega)]
    rfl
  · rw [List.getElem?_eq_none (Nat.le_of_not_lt hr), if_neg]
    omega

/-- An action is in the group of its precondition and in no other. -/
theorem mem_group_build {preconditions : List Condition} {g : Nat} {action : ActionId} :
    action ∈ (build preconditions).group g ↔
      ∃ pre, preconditions[action]? = some pre ∧ groupFor pre = g := by
  by_cases hg : g < groupCount
  · rw [group_build preconditions hg, mem_members]
  · rw [group, if_neg hg]
    constructor
    · intro h
      simp at h
    · rintro ⟨pre, _, rfl⟩
      exact absurd (groupFor_lt pre) hg

end ActionIndex

/-! ## The candidates of a state -/

theorem WorldState.get_of_lowest? {s : WorldState} {a : AtomId} (h : s.lowest? = some a) :
    s.get a = true :=
  List.find?_some (s.lowest?_eq_find? ▸ h)

namespace ActionLibrary

variable {library : ActionLibrary}

theorem isApplicable_iff {action : ActionId} {state : WorldState} :
    library.isApplicable action state = true ↔
      ∃ row, library.row? action = some row ∧ state.satisfies row.pre = true := by
  rw [isApplicable, Option.any_eq_true]

/-- An action that can be taken is one of the candidates. -/
theorem mem_candidates_of_isApplicable {action : ActionId} {state : WorldState}
    (h : library.isApplicable action state = true) : action ∈ library.candidates state := by
  obtain ⟨row, hrow, hpre⟩ := isApplicable_iff.1 h
  have hget : (library.actions.toList.map (·.pre))[action]? = some row.pre := by
    rw [List.getElem?_map, Array.getElem?_toList]
    exact congrArg (Option.map (·.pre)) hrow
  have hgroup : action ∈ library.index.group (ActionIndex.groupFor row.pre) := by
    rw [library.index_eq]
    exact ActionIndex.mem_group_build.2 ⟨row.pre, hget, rfl⟩
  rw [candidates, ActionIndex.candidates, List.mem_append]
  rw [ActionIndex.groupFor] at hgroup
  split at hgroup
  next atom hlowest =>
    -- The atom is required, so it holds in the state and its group is visited.
    right
    have hrequired : row.pre.get? atom = some true := by
      simpa using WorldState.get_of_lowest? hlowest
    have hholds : state.get atom = true :=
      WorldState.satisfies_iff.1 hpre atom true hrequired
    exact List.mem_flatMap.2 ⟨atom, WorldState.mem_atoms.2 hholds, hgroup⟩
  next => exact .inl hgroup

end ActionLibrary

end AgentPlanning
