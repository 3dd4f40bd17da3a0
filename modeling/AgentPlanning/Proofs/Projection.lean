import AgentPlanning.Projection
import AgentPlanning.Proofs.Iteration
import AgentPlanning.WorldState.Lemmas

/-!
# What a Projection Writes

The rules of a projection act one after the other, so for every atom the last rule for it decides,
whatever the atom was before. Main statements:

* `Projection.get_update`: every atom after the rules have acted;
* `Projection.Reorders.update_eq`: rules for different atoms may change places;
* `Projection.update_last_rules`: what a projection over a state depends on.
-/

namespace AgentPlanning

/-- Writes to different atoms may change places. -/
theorem WorldState.set_comm (s : WorldState) {a b : AtomId} (h : a ≠ b) (v w : Bool) :
    (s.set a v).set b w = (s.set b w).set a v := by
  refine eq_of_get_eq fun c => ?_
  simp only [get_set]
  split
  next hb => rw [if_neg (hb ▸ h)]
  next => rfl

namespace Projection

/-! ## The last rule for an atom -/

/-- The last rule for an atom. -/
def ruleFor? (p : Projection) (atom : AtomId) : Option Rule :=
  (p.rules.filter (·.atom = atom)).getLast?

variable (p : Projection) (base : WorldState) (view : BlackboardView) (atom : AtomId)

theorem isSome_ruleFor? : (p.ruleFor? atom).isSome = true ↔ atom ∈ p.rules.map (·.atom) := by
  simp [ruleFor?]

/-- An atom is what the last rule for it says, or what it was before if there is no rule for it. -/
theorem get_update :
    (p.update base view).get atom =
      ((p.ruleFor? atom).map (·.test.evaluate view)).getD (base.get atom) := by
  rw [update, ruleFor?]
  exact read_foldl_eq_getLast? (fun s : WorldState => s.get atom)
    (fun s rule => s.get_set rule.atom atom (rule.test.evaluate view)) p.rules base

/-- What an atom was before does not matter if there is a rule for it. -/
theorem get_update_of_mem (h : atom ∈ p.rules.map (·.atom)) (other : WorldState) :
    (p.update other view).get atom = (p.update base view).get atom := by
  obtain ⟨rule, hrule⟩ := Option.isSome_iff_exists.1 ((isSome_ruleFor? p atom).2 h)
  rw [get_update, get_update, hrule, Option.map_some, Option.getD_some, Option.getD_some]

/-- The rules that have acted change nothing when they act again. -/
theorem update_update : p.update (p.update base view) view = p.update base view := by
  refine WorldState.eq_of_get_eq fun atom => ?_
  rw [get_update, get_update]
  cases p.ruleFor? atom <;> rfl

/-! ## The order of the rules -/

/-- Rules in another order: neighbours for different atoms have changed places, any number of
times. -/
inductive Reorders : List Rule → List Rule → Prop where
  | refl (rules : List Rule) : Reorders rules rules
  | swap (before after : List Rule) {rule other : Rule} (h : rule.atom ≠ other.atom) :
      Reorders (before ++ rule :: other :: after) (before ++ other :: rule :: after)
  | trans {rules others third : List Rule} (h : Reorders rules others)
      (h' : Reorders others third) : Reorders rules third

namespace Reorders

variable {rules others : List Rule}

theorem update_eq (h : Reorders rules others) (base : WorldState) (view : BlackboardView) :
    update ⟨others⟩ base view = update ⟨rules⟩ base view := by
  induction h generalizing base with
  | refl => rfl
  | swap before after h =>
    simp only [update, List.foldl_append, List.foldl_cons]
    rw [WorldState.set_comm _ h]
  | trans _ _ ih ih' => exact (ih' base).trans (ih base)

end Reorders

/-- Over any state, the last rule for an atom decides it, and an atom without a rule stays as it is.
So the atoms with a rule do not depend on the state, a second projection changes nothing, and rules
for different atoms may change places. -/
theorem update_last_rules (p : Projection) (base : WorldState) (view : BlackboardView) :
    (∀ atom, (p.update base view).get atom =
      ((p.ruleFor? atom).map (·.test.evaluate view)).getD (base.get atom)) ∧
    (∀ other, ∀ atom ∈ p.rules.map (·.atom),
      (p.update other view).get atom = (p.update base view).get atom) ∧
    p.update (p.update base view) view = p.update base view ∧
    ∀ rules, Reorders p.rules rules → update ⟨rules⟩ base view = p.update base view :=
  ⟨p.get_update base view, fun other atom h => p.get_update_of_mem base view atom h other,
    p.update_update base view, fun _ h => h.update_eq base view⟩

/-- Whether the enemy is near, by two rules, and whether one is seen. -/
def lookout (near seen : AtomId) : Projection :=
  ⟨[⟨near, .intAtMost 1 30⟩, ⟨seen, .entityPresent 2⟩, ⟨near, .intEquals 1 50⟩]⟩

/-- An enemy at a distance of 20, close enough for the first rule only. -/
def sighting : BlackboardView :=
  ⟨fun key => if key = 1 then some 20 else none, fun key => if key = 2 then some 8 else none⟩

/-- The second rule for atom 0 takes back what the first one and the state say, an enemy is seen
whatever the state says, and atom 9, for which there is no rule, stays. -/
theorem update_lookout :
    ((lookout 0 3).update (.ofAtoms [0, 9]) sighting).get 0 = false ∧
    ((lookout 0 3).update (.ofAtoms [0, 9]) sighting).get 9 = true ∧
    ((lookout 0 3).update (.ofAtoms [0, 9]) sighting).get 3 = true ∧
    ((lookout 0 3).update .empty sighting).get 3 =
      ((lookout 0 3).update (.ofAtoms [0, 9]) sighting).get 3 ∧
    update ⟨[⟨3, .entityPresent 2⟩, ⟨0, .intAtMost 1 30⟩, ⟨0, .intEquals 1 50⟩]⟩
      (.ofAtoms [0, 9]) sighting = (lookout 0 3).update (.ofAtoms [0, 9]) sighting := by
  obtain ⟨hget, hother, -, hreorders⟩ := update_last_rules (lookout 0 3) (.ofAtoms [0, 9]) sighting
  refine ⟨(hget 0).trans (by decide +kernel), (hget 9).trans (by decide +kernel),
    (hget 3).trans (by decide +kernel), hother .empty 3 (by decide +kernel),
    hreorders _ (.swap [] _ (by decide +kernel))⟩

end Projection

end AgentPlanning
