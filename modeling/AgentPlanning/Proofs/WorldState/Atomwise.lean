import AgentPlanning.Condition
import AgentPlanning.Proofs.Iteration
import Mathlib.Data.Fintype.Basic
import Mathlib.Data.Finset.Card

/-!
# Conditions Atom by Atom

The four words of a state are one vector of 256 bits, and atom `a` is bit `a` of it. Tests,
effects and counts compute with whole words under a mask; what they come to is said here for
each atom on its own. Main statements:

* `WorldState.get_eq_getLsbD`: an atom as a bit of the whole state;
* `Condition.mismatches_eq_card`, `Condition.mismatches_eq_zero_iff`: the count of mismatches
  as a set of atoms, and when it is empty;
* `Condition.get?_requireAll`: of several requirements on an atom the last one counts;
* `Condition.meaning_atomwise`: test, effect, count and requirements together.
-/

namespace AgentPlanning

namespace WorldState

/-- The state as one vector of 256 bits, with the word of the lowest atoms last. -/
def toBitVec (s : WorldState) : BitVec 256 :=
  s.w3.toBitVec ++ s.w2.toBitVec ++ s.w1.toBitVec ++ s.w0.toBitVec

/-- An atom is the bit of the whole state at its own position. -/
theorem get_eq_getLsbD (s : WorldState) (a : AtomId) : s.get a = s.toBitVec.getLsbD a.val := by
  obtain ⟨⟨k, hk⟩, i, rfl⟩ : ∃ k i, a = .ofWordBit k i :=
    ⟨a.word, a.bit, a.ofWordBit_word_bit.symm⟩
  have hi : i.val < 64 := i.isLt
  rw [get, AtomId.word_ofWordBit, AtomId.bit_ofWordBit, Word.testBit_eq_getElem,
    ← BitVec.getLsbD_eq_getElem, AtomId.ofWordBit, toBitVec]
  simp only [BitVec.getLsbD_append]
  -- Every word below its own takes 64 from the position of the atom.
  rcases k with _ | _ | _ | _ | k
  · rw [if_pos (by omega)]
    exact congrArg s.w0.toBitVec.getLsbD (by omega)
  · rw [if_neg (by omega), if_pos (by omega)]
    exact congrArg s.w1.toBitVec.getLsbD (by omega)
  · rw [if_neg (by omega), if_neg (by omega), if_pos (by omega)]
    exact congrArg s.w2.toBitVec.getLsbD (by omega)
  · rw [if_neg (by omega), if_neg (by omega), if_neg (by omega)]
    exact congrArg s.w3.toBitVec.getLsbD (by omega)
  · exact absurd hk (by omega)

end WorldState

namespace Condition

/-- Exactly the states that satisfy a condition have no mismatch. -/
theorem mismatches_eq_zero_iff {c : Condition} {s : WorldState} :
    c.mismatches s = 0 ↔ s.satisfies c = true := by
  rw [mismatches_eq_countP, List.countP_eq_zero, WorldState.satisfies_iff]
  refine forall_congr' fun a => ?_
  rw [imp_iff_right (List.mem_finRange a)]
  cases c.get? a with
  | none => simp
  | some value =>
    rw [Option.any_some, bne_iff_ne, not_not]
    exact ⟨fun h _ hv => h.symm.trans (Option.some.inj hv), fun h => (h value rfl).symm⟩

/-- The mismatches are counted as a set of atoms. -/
theorem mismatches_eq_card (c : Condition) (s : WorldState) :
    c.mismatches s = ({a | c.get? a = some (!s.get a)} : Finset AtomId).card := by
  have hmismatch (a : AtomId) :
      (c.get? a).any (· != s.get a) = decide (c.get? a = some (!s.get a)) := by
    cases c.get? a with
    | none => rfl
    | some value => cases value <;> cases s.get a <;> rfl
  simp only [mismatches_eq_countP, hmismatch, List.countP_eq_length_filter]
  rfl

/-- The condition that the listed requirements make, one after the other. -/
def requireAll (requirements : List (AtomId × Bool)) : Condition :=
  requirements.foldl (fun c requirement => c.require requirement.1 requirement.2) free

/-- Of several requirements on an atom the last one counts. -/
theorem get?_requireAll (requirements : List (AtomId × Bool)) (a : AtomId) :
    (requireAll requirements).get? a =
      ((requirements.filter (·.1 = a)).getLast?).map (·.2) := by
  rw [requireAll, read_foldl_eq_getLast? (fun c : Condition => c.get? a)
    (fun c requirement => c.get?_require requirement.1 a requirement.2), get?_free]
  cases (requirements.filter (·.1 = a)).getLast? <;> rfl

/-- For every state and every condition, whatever its values are outside the mask: an effect
gives the constrained atoms their values and leaves the others as they are, the condition is
satisfied if the constrained atoms have their values, and the mismatches are the constrained
atoms that have not, so that there is none exactly if the condition is satisfied. A condition
made of requirements asks of each atom what the last requirement on it says. -/
theorem meaning_atomwise (s : WorldState) (c : Condition) :
    (∀ a, s.get a = s.toBitVec.getLsbD a.val) ∧
    (∀ a, (s.apply c).get a =
      match c.get? a with
      | some value => value
      | none => s.get a) ∧
    (s.satisfies c = true ↔ ∀ a value, c.get? a = some value → s.get a = value) ∧
    c.mismatches s = ({a | c.get? a = some (!s.get a)} : Finset AtomId).card ∧
    (c.mismatches s = 0 ↔ s.satisfies c = true) ∧
    ∀ requirements a, (requireAll requirements).get? a =
      ((requirements.filter (·.1 = a)).getLast?).map (·.2) := by
  refine ⟨s.get_eq_getLsbD, fun a => ?_, WorldState.satisfies_iff, c.mismatches_eq_card s,
    mismatches_eq_zero_iff, get?_requireAll⟩
  rw [WorldState.get_apply]
  cases c.get? a <;> rfl

/-- Three requirements of which the last takes back the first, over a state in which only atom 64
holds: the values of atoms 63 and 64 lie in different words. -/
example :
    let c := requireAll [(64, true), (63, true), (64, false)]
    c.get? 64 = some false ∧ c.mismatches (.ofAtoms [64]) = 2 ∧
      (WorldState.ofAtoms [64]).apply c = .ofAtoms [63] := by
  decide +kernel

end Condition

end AgentPlanning
