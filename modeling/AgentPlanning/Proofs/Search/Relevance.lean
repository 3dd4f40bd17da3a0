import AgentPlanning.Proofs.Action.Candidates
import AgentPlanning.Proofs.Search.Answers
import AgentPlanning.Proofs.Search.Renaming
import Mathlib.Logic.Equiv.Basic

/-!
# Irrelevant Atoms

An atom that no precondition, no effect and not the goal constrains keeps its value throughout a
search and decides nothing. Two starts that differ in such atoms only therefore lead to searches
that differ in these atoms only: flipping them in all states of the one search gives the other.
This holds although the states have other hashes and other atoms to look for candidates under, as
no action is filed under an irrelevant atom. Main statements:

* `satisfies_flip`, `mismatches_flip`, `apply_flip`: conditions and effects on flipped states;
* `candidates_flip`: the candidates of a flipped state;
* `SearchProblem.renames_flip`: flipping irrelevant atoms is a renaming of the states;
* `answer_startingAt`: what a planner answers for the two starts.
-/

namespace AgentPlanning

/-! ## Flipping atoms -/

namespace WorldState

variable {s flips : WorldState}

theorem flip_flip (s flips : WorldState) : (s ^^^ flips) ^^^ flips = s := by
  refine eq_of_get_eq fun a => ?_
  rw [get_xor, get_xor, Bool.xor_assoc, Bool.xor_self, Bool.xor_false]

/-- Flipping the given atoms, in every state. -/
def flip (flips : WorldState) : WorldState ≃ WorldState :=
  Function.Involutive.toPerm (· ^^^ flips) fun s => flip_flip s flips

theorem get_flip (a : AtomId) : (flip flips s).get a = (s.get a ^^ flips.get a) :=
  get_xor s flips a

/-- The atoms in which a state differs from another lead from the one to the other. -/
theorem flip_differences (s t : WorldState) : flip (s ^^^ t) s = t := by
  refine eq_of_get_eq fun a => ?_
  rw [get_flip, get_xor, ← Bool.xor_assoc, Bool.xor_self, Bool.false_xor]

section Untouched

variable {c : Condition} (h : ∀ a, c.mask.get a = true → flips.get a = false)

include h

/-- Constrained atoms are not flipped. -/
theorem get_flip_of_get? {a : AtomId} {value : Bool} (ha : c.get? a = some value) :
    (flip flips s).get a = s.get a := by
  have hmask : c.mask.get a = true := by
    rw [Condition.get?] at ha
    split at ha
    next hmask => exact hmask
    next => cases ha
  rw [get_flip, h a hmask, Bool.xor_false]

theorem satisfies_flip (s : WorldState) : (flip flips s).satisfies c = s.satisfies c := by
  rw [Bool.eq_iff_iff, satisfies_iff, satisfies_iff]
  refine forall_congr' fun a => forall_congr' fun value => imp_congr_right fun ha => ?_
  rw [get_flip_of_get? h ha]

theorem mismatches_flip (s : WorldState) : c.mismatches (flip flips s) = c.mismatches s := by
  rw [Condition.mismatches_eq_countP, Condition.mismatches_eq_countP]
  congr 1
  funext a
  cases ha : c.get? a with
  | none => rfl
  | some value => rw [Option.any_some, Option.any_some, get_flip_of_get? h ha]

/-- An effect leaves the flipped atoms flipped. -/
theorem apply_flip (s : WorldState) : (flip flips s).apply c = flip flips (s.apply c) := by
  refine eq_of_get_eq fun a => ?_
  rw [get_apply, get_flip, get_flip, get_apply]
  cases ha : c.get? a with
  | none => rfl
  | some value =>
    have hkept := get_flip_of_get? (s := empty) h ha
    rw [get_flip, get_empty, Bool.false_xor] at hkept
    rw [Option.getD_some, Option.getD_some, hkept, Bool.xor_false]

end Untouched

end WorldState

/-! ## Atoms that matter -/

/-- An action of the library reads or writes the atom. -/
def ActionLibrary.Mentions (library : ActionLibrary) (a : AtomId) : Prop :=
  ∃ row ∈ library.actions, row.pre.mask.get a = true ∨ row.post.mask.get a = true

instance (library : ActionLibrary) : DecidablePred library.Mentions := fun _ =>
  inferInstanceAs (Decidable (∃ row ∈ library.actions, _ ∨ _))

/-- The goal constrains the atom, or an action reads or writes it. -/
def SearchProblem.Mentions (problem : SearchProblem) (a : AtomId) : Prop :=
  problem.goal.mask.get a = true ∨ problem.library.Mentions a

instance (problem : SearchProblem) : DecidablePred problem.Mentions := fun _ =>
  inferInstanceAs (Decidable (_ ∨ _))

/-- Only an atom that an action reads is the key of actions. -/
theorem ActionLibrary.group_of_not_mentions {library : ActionLibrary} {a : AtomId}
    (h : ¬library.Mentions a) : library.index.group a.val = [] := by
  refine List.eq_nil_iff_forall_not_mem.2 fun action haction => ?_
  rw [library.index_eq, ActionIndex.mem_group_build] at haction
  obtain ⟨pre, hpre, hgroup⟩ := haction
  rw [List.getElem?_map, Array.getElem?_toList] at hpre
  obtain ⟨row, hrow, rfl⟩ := Option.map_eq_some_iff.1 hpre
  -- The key of a precondition is one of the atoms that it constrains.
  have hkey := List.find?_some (ActionIndex.groupFor_eq_iff.1 hgroup)
  refine h ⟨row, Array.mem_of_getElem? hrow, .inl ?_⟩
  cases hmask : row.pre.mask.get a with
  | true => rfl
  | false => simp [Condition.get?, hmask] at hkey

/-- Whether elements without a part are listed does not matter to the list of all parts. -/
theorem flatMap_filter_eq {α β : Type} {f : α → List β} {p q : α → Bool} {l : List α}
    (h : ∀ a ∈ l, p a = q a ∨ f a = []) :
    (l.filter p).flatMap f = (l.filter q).flatMap f := by
  induction l with
  | nil => rfl
  | cons a rest ih =>
    obtain ⟨ha, hrest⟩ := List.forall_mem_cons.1 h
    rw [List.filter_cons, List.filter_cons]
    rcases ha with hsame | hnil
    · rw [hsame]
      split <;> simp [ih hrest]
    · split <;> split <;> simp [hnil, ih hrest]

namespace ActionLibrary

variable {library : ActionLibrary} {flips : WorldState}
  (h : ∀ a, library.Mentions a → flips.get a = false)

include h

/-- A flipped state has the same candidates, in the same order. -/
theorem candidates_flip (s : WorldState) :
    library.candidates (WorldState.flip flips s) = library.candidates s := by
  rw [candidates, candidates, ActionIndex.candidates, ActionIndex.candidates,
    WorldState.atoms_eq_filter, WorldState.atoms_eq_filter]
  refine congrArg _ (flatMap_filter_eq fun a _ => ?_)
  by_cases ha : library.Mentions a
  · left
    rw [WorldState.get_flip, h a ha, Bool.xor_false]
  · exact .inr (group_of_not_mentions ha)

theorem isApplicable_flip (action : ActionId) (s : WorldState) :
    library.isApplicable action (WorldState.flip flips s) = library.isApplicable action s := by
  rw [isApplicable, isApplicable]
  cases hrow : library.row? action with
  | none => rfl
  | some row =>
    have hmem : row ∈ library.actions := Array.mem_of_getElem? hrow
    exact WorldState.satisfies_flip (fun a ha => h a ⟨row, hmem, .inl ha⟩) s

theorem apply_flip (action : ActionId) (s : WorldState) :
    library.apply action (WorldState.flip flips s) =
      WorldState.flip flips (library.apply action s) := by
  rw [apply, apply]
  cases hrow : library.row? action with
  | none => rfl
  | some row =>
    have hmem : row ∈ library.actions := Array.mem_of_getElem? hrow
    exact WorldState.apply_flip (fun a ha => h a ⟨row, hmem, .inr ha⟩) s

end ActionLibrary

/-! ## Searches from different starts -/

/-- Flipping irrelevant atoms turns the problem into that of another start. -/
theorem SearchProblem.renames_flip (problem : SearchProblem) {start : WorldState}
    (h : ∀ a, problem.Mentions a → problem.start.get a = start.get a) :
    problem.Renames { problem with start }
      (WorldState.flip (problem.start ^^^ start)) := by
  -- What the problem mentions is not among the differences of the starts.
  have hflips (a : AtomId) (ha : problem.Mentions a) :
      (problem.start ^^^ start).get a = false := by
    rw [WorldState.get_xor, h a ha, Bool.xor_self]
  have hgoal (a : AtomId) (ha : problem.goal.mask.get a = true) := hflips a (.inl ha)
  have hlibrary (a : AtomId) (ha : problem.library.Mentions a) := hflips a (.inr ha)
  exact {
    start := (WorldState.flip_differences problem.start start).symm
    candidates := ActionLibrary.candidates_flip hlibrary
    isApplicable := ActionLibrary.isApplicable_flip hlibrary
    apply := ActionLibrary.apply_flip hlibrary
    cost? := fun _ => rfl
    satisfies := WorldState.satisfies_flip hgoal
    estimate := fun s => by
      rw [SearchProblem.estimate, SearchProblem.estimate, WorldState.mismatches_flip hgoal] }

namespace SearchPlanner

/-- The same call with another start. -/
def Call.startingAt : Call → WorldState → Call
  | plan library _ goal weight, start => .plan library start goal weight
  | planFor library _ goal, start => .planFor library start goal
  | planToBuffer library _ goal weight buffer, start =>
    .planToBuffer library start goal weight buffer

theorem Call.problem_startingAt (call : Call) (start : WorldState) :
    (call.startingAt start).problem = { call.problem with start } := by
  cases call <;> rfl

theorem Call.space_startingAt (budget : SearchBudget) (call : Call) (start : WorldState) :
    (call.startingAt start).space budget = call.space budget := by
  cases call <;> rfl

/-- Irrelevant atoms do not influence a planner. If two starts agree in all atoms that an action
reads or writes or that the goal constrains, then a call returns the same plan or the same error
for both of them, and counts the same, whatever calls came before. -/
theorem answer_startingAt {call : Call} {start : WorldState}
    (h : ∀ a, call.problem.Mentions a → call.problem.start.get a = start.get a)
    (budget : SearchBudget) (history otherHistory : List Call) :
    (afterAll budget otherHistory).answer (call.startingAt start) =
        (afterAll budget history).answer call ∧
      ((afterAll budget otherHistory).after (call.startingAt start)).latestStats =
        ((afterAll budget history).after call).latestStats := by
  have hrenames := call.problem.renames_flip h
  rw [← call.problem_startingAt] at hrenames
  exact answer_eq_of_renames hrenames (call.space_startingAt budget start) history otherHistory

/-- It rains on both sides of the wall (atoms 64 and 255), which is no help in crossing it. -/
theorem answer_startingAt_crossing :
    (∀ a, crossingCall.problem.Mentions a → crossingCall.problem.start.get a =
        (WorldState.ofAtoms [64, 255]).get a) ∧
      (afterAll ⟨3, 2⟩ [vainCall]).answer
          (crossingCall.startingAt (WorldState.ofAtoms [64, 255])) =
        (afterAll ⟨3, 2⟩ [crampedCall]).answer crossingCall ∧
      ((afterAll ⟨3, 2⟩ [vainCall]).after
          (crossingCall.startingAt (WorldState.ofAtoms [64, 255]))).latestStats =
        ((afterAll ⟨3, 2⟩ [crampedCall]).after crossingCall).latestStats := by
  have hagree : ∀ a, crossingCall.problem.Mentions a → crossingCall.problem.start.get a =
      (WorldState.ofAtoms [64, 255]).get a := by
    decide +kernel
  exact ⟨hagree, answer_startingAt hagree ⟨3, 2⟩ [crampedCall] [vainCall]⟩

end SearchPlanner

end AgentPlanning
