import AgentPlanning.WorldState.Cursor
import AgentPlanning.WorldState.Lemmas
import Mathlib.Data.Finset.Sort

/-!
# What a Cursor Goes Through

Before every call a cursor has a list of atoms still to give. A call gives the first of them, and
the others are still to give after it. So a cursor that starts at a state gives the atoms that hold
there, in ascending order, and then nothing any more. Main statements:

* `next_eq`: one call, in terms of the atoms still to give;
* `WorldState.atoms_ofAtoms`: the atoms of a state that is made from a list;
* `enumerates_atoms`: the calls of a cursor that starts at a state, and what the other operations
  on states have to do with them.
-/

namespace AgentPlanning

namespace WorldState

variable (s : WorldState)

theorem pairwise_atoms : s.atoms.Pairwise (· < ·) := by
  rw [atoms_eq_filter]
  exact (List.sortedLT_finRange 256).pairwise.filter _

theorem length_atoms : s.atoms.length = s.count := by
  rw [atoms_eq_filter, count_eq_countP, List.countP_eq_length_filter]

theorem head?_atoms : s.atoms.head? = s.lowest? := by
  rw [atoms_eq_filter, lowest?_eq_find?, List.head?_filter]

/-- A state is made from its own atoms. -/
theorem ofAtoms_atoms : ofAtoms s.atoms = s :=
  eq_of_get_eq fun a => Bool.eq_iff_iff.2 (by rw [get_ofAtoms, mem_atoms])

/-- The atoms of a state made from a list are those of the list, each once and in ascending
order. -/
theorem atoms_ofAtoms (list : List AtomId) : (ofAtoms list).atoms = list.toFinset.sort := by
  have hsame : (ofAtoms list).atoms.toFinset = list.toFinset := by
    ext a
    rw [List.mem_toFinset, List.mem_toFinset, mem_atoms, get_ofAtoms]
  have hascending := (ofAtoms list).pairwise_atoms
  rw [← hsame]
  exact ((List.toFinset_sort (· ≤ ·) hascending.nodup).2 (hascending.imp Fin.le_of_lt)).symm

example : (ofAtoms [200, 3, 64, 65, 3]).atoms = [3, 64, 65, 200] := by decide +kernel

end WorldState

namespace AtomCursor

/-- The atoms still to give: those of the word that is being looked at, and of the words after
it. -/
def pending (c : AtomCursor) : List AtomId :=
  ((List.finRange 4).drop c.position).flatMap fun k =>
    (Word.setBits (c.rest.word k)).map (AtomId.ofWordBit k)

theorem pending_of_le {c : AtomCursor} (h : 4 ≤ c.position) : c.pending = [] := by
  rw [pending, List.drop_of_length_le (by rwa [List.length_finRange]), List.flatMap_nil]

variable {s : WorldState} {n : Nat} (h : n < 4)

/-- The atoms of the word that is being looked at come before those of the next words. -/
theorem pending_of_lt : pending ⟨s, n⟩ =
    (Word.setBits (s.word ⟨n, h⟩)).map (.ofWordBit ⟨n, h⟩) ++ pending ⟨s, n + 1⟩ := by
  rw [pending, pending, List.drop_eq_getElem_cons (by rwa [List.length_finRange]),
    List.flatMap_cons, List.getElem_finRange]
  rfl

/-- What is still to give from the next words does not depend on the word before them. -/
theorem pending_setWord (w : UInt64) :
    pending ⟨s.setWord ⟨n, h⟩ w, n + 1⟩ = pending ⟨s, n + 1⟩ := by
  refine List.flatMap_congr fun k hk => ?_
  obtain ⟨i, hi, rfl⟩ := List.mem_drop_iff_getElem.1 hk
  rw [List.getElem_finRange, WorldState.word_setWord, if_neg]
  -- The position of a later word is larger.
  simp only [Fin.ext_iff, Fin.val_cast]
  omega

/-- A call gives the first of the atoms still to give, and leaves the others. -/
theorem next_eq (c : AtomCursor) :
    c.next.1 = c.pending.head? ∧ c.next.2.pending = c.pending.tail := by
  fun_induction next c with
  | case1 c h k i hlowest =>
    rw [pending_of_lt h, Word.setBits_eq_cons hlowest]
    refine ⟨rfl, ?_⟩
    dsimp only
    -- Clearing the lowest bit takes the first atom of this word and leaves the next words alone.
    rw [pending_of_lt h, WorldState.word_setWord, if_pos rfl, pending_setWord]
    rfl
  | case2 c h k hnone ih =>
    rwa [pending_of_lt h, Word.setBits_eq_nil hnone, List.map_nil, List.nil_append]
  | case3 c h =>
    rw [pending_of_le (Nat.not_lt.1 h)]
    exact ⟨rfl, rfl⟩

theorem pending_after (c : AtomCursor) (calls : Nat) :
    (c.after calls).pending = c.pending.drop calls := by
  induction calls generalizing c with
  | zero => rfl
  | succ calls ih => rw [after, ih, (next_eq c).2, List.drop_tail]

/-- The calls of a cursor give the atoms of a list, one after the other, and then nothing any
more. -/
def Enumerates (c : AtomCursor) (list : List AtomId) : Prop :=
  ∀ n, (c.after n).next.1 = list[n]?

theorem enumerates_pending (c : AtomCursor) : c.Enumerates c.pending := fun n => by
  rw [(next_eq _).1, pending_after, List.head?_drop]

/-- Before the first call all atoms that hold are still to give. -/
theorem enumerates_start (s : WorldState) : (start s).Enumerates s.atoms :=
  enumerates_pending (start s)

/-- From any state a cursor gives exactly the atoms that hold there, in strictly ascending order,
and then nothing any more. There are as many as the state counts, the first is the lowest that
holds, and the state is made from them. For a state that is made from a list they are the atoms of
the list, sorted and without repetitions. -/
theorem enumerates_atoms (s : WorldState) :
    (start s).Enumerates s.atoms ∧
    s.atoms.Pairwise (· < ·) ∧
    (∀ a, a ∈ s.atoms ↔ s.get a = true) ∧
    s.atoms.length = s.count ∧
    s.atoms.head? = s.lowest? ∧
    WorldState.ofAtoms s.atoms = s ∧
    ∀ list, (start (.ofAtoms list)).Enumerates list.toFinset.sort := by
  refine ⟨enumerates_start s, s.pairwise_atoms, fun _ => WorldState.mem_atoms, s.length_atoms,
    s.head?_atoms, s.ofAtoms_atoms, fun list => ?_⟩
  rw [← WorldState.atoms_ofAtoms]
  exact enumerates_start _

end AtomCursor

end AgentPlanning
