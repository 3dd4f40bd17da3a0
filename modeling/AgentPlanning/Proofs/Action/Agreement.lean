import AgentPlanning.Proofs.Action.Candidates
import AgentPlanning.Proofs.Correspondence

/-!
# Values of Unconstrained Atoms

A condition is a pair of bit sets, so its values may have bits outside its mask. Nothing depends on
them: conditions that agree on the constrained atoms are satisfied by the same states, have the
same effect, lie at the same distance from every state and have the same key. Libraries whose
conditions agree therefore offer the same actions, which lead to the same states. Main statements:

* `Condition.agrees_trim`, `Condition.Agrees.get?_eq`: a condition agrees with the one without
  values of unconstrained atoms, and agreeing conditions require the same;
* `ActionIndex.build_eq`: the index depends on the groups of the preconditions only;
* `ActionLibrary.Agrees.candidates_eq`, `ActionLibrary.Agrees.isApplicable_eq`,
  `ActionLibrary.Agrees.apply_eq`: agreeing libraries.
-/

namespace AgentPlanning

/-! ## Conditions -/

namespace Condition

/-- The condition without values of unconstrained atoms. -/
def trim (c : Condition) : Condition := ⟨c.mask, c.values &&& c.mask⟩

@[simp] theorem get?_trim (c : Condition) : c.trim.get? = c.get? := by
  funext a
  rw [get?, get?, trim, WorldState.get_and]
  -- Inside the mask the values are kept, and outside of it they are not looked at.
  split
  next hmask => rw [hmask, Bool.and_true]
  next => rfl

theorem trim_trim (c : Condition) : c.trim.trim = c.trim := by
  rw [trim, trim, mk.injEq]
  refine ⟨rfl, WorldState.eq_of_get_eq fun a => ?_⟩
  rw [WorldState.get_and, WorldState.get_and, Bool.and_assoc, Bool.and_self]

/-- The conditions constrain the same atoms, with the same values. -/
def Agrees (c d : Condition) : Prop := c.trim = d.trim

instance : DecidableRel Agrees := fun _ _ => inferInstanceAs (Decidable (_ = _))

theorem agrees_trim (c : Condition) : c.Agrees c.trim := c.trim_trim.symm

namespace Agrees

variable {c d : Condition} (h : c.Agrees d)

include h

theorem get?_eq : d.get? = c.get? := by
  rw [← get?_trim, ← h, get?_trim]

theorem satisfies_eq (s : WorldState) : s.satisfies d = s.satisfies c := by
  rw [Bool.eq_iff_iff, WorldState.satisfies_iff, WorldState.satisfies_iff, h.get?_eq]

theorem apply_eq (s : WorldState) : s.apply d = s.apply c :=
  WorldState.eq_of_get_eq fun a => by rw [WorldState.get_apply, WorldState.get_apply, h.get?_eq]

theorem mismatches_eq (s : WorldState) : d.mismatches s = c.mismatches s := by
  rw [mismatches_eq_countP, mismatches_eq_countP, h.get?_eq]

theorem positive_eq : d.positive = c.positive :=
  WorldState.eq_of_get_eq fun a => by rw [get_positive, get_positive, h.get?_eq]

theorem groupFor_eq : ActionIndex.groupFor d = ActionIndex.groupFor c := by
  rw [ActionIndex.groupFor, ActionIndex.groupFor, h.positive_eq]

end Agrees

end Condition

/-! ## Libraries -/

/-- The index depends on the groups of the preconditions only. -/
theorem ActionIndex.build_eq {preconditions others : List Condition}
    (h : others.map groupFor = preconditions.map groupFor) :
    build others = build preconditions := by
  have hlength : others.length = preconditions.length := by
    simpa only [List.length_map] using congrArg List.length h
  -- Both passes of the counting sort look at the groups alone.
  have hsizes : groupSizes others = groupSizes preconditions := by
    have hfold (l : List Condition) : groupSizes l =
        (l.map groupFor).foldl (fun sizes g => sizes.modify g (· + 1))
          (Array.replicate groupCount 0) := by
      rw [groupSizes, List.foldl_map]
    rw [hfold, hfold, h]
  have hfill (starts : Array Nat) : fill starts others = fill starts preconditions := by
    have hfold (l : List Condition) : fill starts l =
        (l.map groupFor).zipIdx.foldl (fun f entry => f.place entry.2 entry.1)
          ⟨starts, Array.replicate l.length 0⟩ := by
      rw [fill, List.zipIdx_map, List.foldl_map]
      rfl
    rw [hfold, hfold, h, hlength]
  rw [build, build, hsizes]
  simp only [hfill]

/-- The actions have agreeing conditions and the same cost. -/
structure ActionRow.Agrees (row other : ActionRow) : Prop where
  pre : row.pre.Agrees other.pre
  post : row.post.Agrees other.post
  cost : other.cost = row.cost

instance : DecidableRel ActionRow.Agrees := fun row other =>
  decidable_of_iff (row.pre.Agrees other.pre ∧ row.post.Agrees other.post ∧ other.cost = row.cost)
    ⟨fun ⟨hpre, hpost, hcost⟩ => ⟨hpre, hpost, hcost⟩, fun h => ⟨h.pre, h.post, h.cost⟩⟩

namespace ActionLibrary

variable {library other : ActionLibrary}

/-- The libraries agree action by action. -/
def Agrees (library other : ActionLibrary) : Prop :=
  List.Forall₂ ActionRow.Agrees library.actions.toList other.actions.toList

instance : DecidableRel Agrees := fun _ _ => inferInstanceAs (Decidable (List.Forall₂ _ _ _))

namespace Agrees

variable (h : library.Agrees other)

include h

theorem rel_row? (action : ActionId) :
    Option.Rel ActionRow.Agrees (library.row? action) (other.row? action) := by
  rw [row?, row?, ← Array.getElem?_toList, ← Array.getElem?_toList]
  exact rel_getElem? h action

theorem index_eq : other.index = library.index := by
  rw [other.index_eq, library.index_eq]
  -- Agreeing preconditions have the same key.
  refine ActionIndex.build_eq (List.ext_getElem? fun action => ?_)
  rw [List.map_map, List.map_map, List.getElem?_map, List.getElem?_map]
  exact map_eq_of_rel (rel_getElem? h action) fun _ _ hrow => hrow.pre.groupFor_eq

theorem candidates_eq (state : WorldState) : other.candidates state = library.candidates state := by
  rw [candidates, candidates, h.index_eq]

theorem isApplicable_eq (action : ActionId) (state : WorldState) :
    other.isApplicable action state = library.isApplicable action state := by
  rw [isApplicable, isApplicable]
  generalize library.row? action = row, other.row? action = otherRow, h.rel_row? action = hrel
  cases hrel with
  | none => rfl
  | some hrow => exact hrow.pre.satisfies_eq state

theorem applicable_eq (state : WorldState) : other.applicable state = library.applicable state := by
  rw [applicable, applicable, h.candidates_eq]
  exact congrArg (List.filter · _) (funext fun action => h.isApplicable_eq action state)

theorem apply_eq (action : ActionId) (state : WorldState) :
    other.apply action state = library.apply action state := by
  rw [apply, apply]
  generalize library.row? action = row, other.row? action = otherRow, h.rel_row? action = hrel
  cases hrel with
  | none => rfl
  | some hrow => exact hrow.post.apply_eq state

theorem cost?_eq (action : ActionId) : other.cost? action = library.cost? action :=
  map_eq_of_rel (h.rel_row? action) fun _ _ hrow => hrow.cost

end Agrees

end ActionLibrary

end AgentPlanning
