import AgentPlanning.Proofs.Action.Grouping
import AgentPlanning.Proofs.Action.Tables
import Mathlib.Data.List.Nodup

/-!
# Candidates and the Plain Scan

The candidates of a state are read off the index instead of testing every action of the library.
Here they are compared with lists that are made without the index: the actions that can be taken,
found by testing all of them, and the actions of a key, found by looking at all preconditions.
Main statements:

* `lowest?_positive`, `members_eq_filter`: keys and groups, read off the preconditions;
* `nodup_candidates`: no action is a candidate twice;
* `applicable_perm_scan_and_candidates_eq`: the candidates that can be taken are those that the
  scan finds, and the candidates are listed key by key.
-/

namespace AgentPlanning

/-! ## Keys -/

/-- The key of a precondition: the lowest atom that it requires to hold. -/
def Condition.key? (pre : Condition) : Option AtomId :=
  (List.finRange 256).find? fun atom => pre.get? atom == some true

theorem Condition.lowest?_positive (pre : Condition) : pre.positive.lowest? = pre.key? := by
  rw [WorldState.lowest?_eq_find?, key?]
  congr 1
  exact funext pre.get_positive

namespace ActionIndex

theorem groupFor_eq_iff {pre : Condition} {atom : AtomId} :
    groupFor pre = atom.val ↔ pre.key? = some atom := by
  rw [groupFor, pre.lowest?_positive]
  cases pre.key? with
  | none => simpa using (Nat.ne_of_lt atom.isLt).symm
  | some key => simp [Fin.ext_iff]

theorem groupFor_eq_unkeyedGroup_iff {pre : Condition} :
    groupFor pre = unkeyedGroup ↔ pre.key? = none := by
  rw [groupFor, pre.lowest?_positive]
  cases pre.key? with
  | none => simp
  | some key => simpa using Nat.ne_of_lt key.isLt

/-- The members of a group are found by looking at all preconditions. -/
theorem members_eq_filter (preconditions : List Condition) (g : Nat) :
    members preconditions g = (List.range preconditions.length).filter fun action =>
      preconditions[action]?.any (groupFor · == g) := by
  induction preconditions using List.reverseRecOn with
  | nil => rfl
  | append_singleton before pre ih =>
    rw [members_concat, ih, List.length_append, List.length_singleton, List.range_succ,
      List.filter_append]
    congr 1
    · -- The last precondition does not matter to the actions before it.
      refine List.filter_congr fun action haction => ?_
      rw [List.getElem?_append_left (List.mem_range.1 haction)]
    · by_cases h : groupFor pre = g <;> simp [h]

end ActionIndex

/-! ## The actions of a list -/

/-- The actions whose preconditions have the given key, in ascending order. -/
def filed (actions : List Action) (key : Option AtomId) : List ActionId :=
  (List.range actions.length).filter fun id => actions[id]?.any (·.pre.key? == key)

/-- The actions that can be taken in a state, found by testing all of them in ascending order. -/
def scan (actions : List Action) (state : WorldState) : List ActionId :=
  (List.range actions.length).filter fun id => actions[id]?.any (state.satisfies ·.pre)

theorem nodup_scan (actions : List Action) (state : WorldState) : (scan actions state).Nodup :=
  List.nodup_range.filter _

theorem mem_scan {actions : List Action} {state : WorldState} {id : ActionId} :
    id ∈ scan actions state ↔ ∃ action, actions[id]? = some action ∧
      state.satisfies action.pre = true := by
  rw [scan, List.mem_filter, List.mem_range, Option.any_eq_true]
  exact and_iff_right_of_imp fun ⟨_, haction, _⟩ => (List.getElem?_eq_some_iff.1 haction).1

theorem nodup_filed (actions : List Action) (key : Option AtomId) : (filed actions key).Nodup :=
  List.nodup_range.filter _

theorem mem_filed {actions : List Action} {key : Option AtomId} {id : ActionId} :
    id ∈ filed actions key ↔ ∃ action, actions[id]? = some action ∧ action.pre.key? = key := by
  rw [filed, List.mem_filter, List.mem_range, Option.any_eq_true]
  simp only [beq_iff_eq]
  exact and_iff_right_of_imp fun ⟨_, haction, _⟩ => (List.getElem?_eq_some_iff.1 haction).1

/-- An action has one key only. -/
theorem disjoint_filed {actions : List Action} {key key' : Option AtomId} (h : key ≠ key') :
    (filed actions key).Disjoint (filed actions key') := by
  intro id hid hid'
  obtain ⟨action, haction, hkey⟩ := mem_filed.1 hid
  obtain ⟨action', haction', hkey'⟩ := mem_filed.1 hid'
  obtain rfl := Option.some.inj (haction.symm.trans haction')
  exact h (hkey.symm.trans hkey')

theorem members_eq_filed (actions : List Action) {g : Nat} {key : Option AtomId}
    (h : ∀ pre, ActionIndex.groupFor pre = g ↔ pre.key? = key) :
    ActionIndex.members (actions.map (·.pre)) g = filed actions key := by
  rw [ActionIndex.members_eq_filter, filed, List.length_map]
  refine List.filter_congr fun id _ => ?_
  rw [List.getElem?_map, Option.any_map]
  congr 1
  funext action
  exact Bool.eq_iff_iff.2 (by simpa using h action.pre)

namespace ActionLibrary

/-! ## The candidates of a library -/

theorem map_pre_ofList (actions : List Action) :
    (ofList actions).actions.toList.map (·.pre) = actions.map (·.pre) := by
  conv_rhs => rw [← ActionTable.map_actionOf_ofList actions, List.map_map]
  rfl

/-- The candidates come key by key: first the actions without a key, then those of each atom that
holds, in ascending order. -/
theorem candidates_ofList (actions : List Action) (state : WorldState) :
    (ofList actions).candidates state = filed actions none ++
      ((List.finRange 256).filter state.get).flatMap fun atom => filed actions (some atom) := by
  rw [candidates, (ofList actions).index_eq, map_pre_ofList, ActionIndex.candidates,
    ActionIndex.unkeyed, WorldState.atoms_eq_filter]
  congr 1
  · rw [ActionIndex.group_build _ (Nat.lt_succ_self _)]
    exact members_eq_filed actions fun _ => ActionIndex.groupFor_eq_unkeyedGroup_iff
  · congr 1
    funext atom
    rw [ActionIndex.group_build _ (Nat.lt_succ_of_lt atom.isLt)]
    exact members_eq_filed actions fun _ => ActionIndex.groupFor_eq_iff

theorem nodup_candidates (actions : List Action) (state : WorldState) :
    ((ofList actions).candidates state).Nodup := by
  rw [candidates_ofList, List.nodup_append', List.nodup_flatMap]
  refine ⟨nodup_filed _ _, ⟨fun _ _ => nodup_filed _ _, ?_⟩, ?_⟩
  · -- Every atom is visited once, and the actions of different atoms are different.
    refine ((List.nodup_finRange 256).filter _).imp fun hne => ?_
    exact disjoint_filed fun heq => hne (Option.some.inj heq)
  · intro id hid hid'
    obtain ⟨atom, -, hatom⟩ := List.mem_flatMap.1 hid'
    exact disjoint_filed (by simp) hid hatom

theorem mem_applicable {library : ActionLibrary} {action : ActionId} {state : WorldState} :
    action ∈ library.applicable state ↔ library.isApplicable action state = true := by
  rw [applicable, List.mem_filter]
  exact and_iff_right_of_imp mem_candidates_of_isApplicable

theorem isApplicable_ofList (actions : List Action) (id : ActionId) (state : WorldState) :
    (ofList actions).isApplicable id state = actions[id]?.any (state.satisfies ·.pre) := by
  rw [← get?_ofList, get?, Option.any_map]
  rfl

theorem applicable_perm_scan (actions : List Action) (state : WorldState) :
    ((ofList actions).applicable state).Perm (scan actions state) := by
  have hnodup : ((ofList actions).applicable state).Nodup :=
    (nodup_candidates actions state).filter _
  refine (List.perm_ext_iff_of_nodup hnodup (nodup_scan actions state)).2 fun id => ?_
  rw [mem_applicable, isApplicable_ofList, mem_scan, Option.any_eq_true]

/-- The index agrees with the plain scan. The candidates that can be taken are those that the scan
finds, each of them once. The candidates contain them, name actions of the library only and none
of them twice, and are listed key by key. -/
theorem applicable_perm_scan_and_candidates_eq (actions : List Action) (state : WorldState) :
    ((ofList actions).applicable state).Perm (scan actions state) ∧
      scan actions state ⊆ (ofList actions).candidates state ∧
      (∀ id ∈ (ofList actions).candidates state, id < actions.length) ∧
      ((ofList actions).candidates state).Nodup ∧
      (ofList actions).candidates state = filed actions none ++
        ((List.finRange 256).filter state.get).flatMap fun atom => filed actions (some atom) := by
  have hperm := applicable_perm_scan actions state
  refine ⟨hperm, fun id hid => ?_, fun id hid => ?_, nodup_candidates actions state,
    candidates_ofList actions state⟩
  · exact (List.mem_filter.1 (hperm.mem_iff.2 hid)).1
  · -- A candidate is filed under some key, so it is the position of an action.
    rw [candidates_ofList, List.mem_append, List.mem_flatMap] at hid
    have hfiled : ∃ key, id ∈ filed actions key := by
      rcases hid with hid | ⟨atom, -, hid⟩
      · exact ⟨none, hid⟩
      · exact ⟨some atom, hid⟩
    obtain ⟨key, hkey⟩ := hfiled
    exact List.mem_range.1 (List.mem_filter.1 hkey).1

end ActionLibrary

end AgentPlanning
