import AgentPlanning.WorldState.Basic

/-!
# World States as Sets of Atoms

Every operation on world states is described by the atoms that hold in its result, so that
reasoning about states never has to look at words. Main statements:

* `get_set`, `get_and`, `get_or`, `get_xor`, `get_not`, `get_ofAtoms`: which atoms hold after an
  operation;
* `eq_of_get_eq`: a state is determined by the atoms that hold in it;
* `mem_atoms`, `atoms_eq_filter`: the listed atoms are the atoms that hold, in ascending order;
* `lowest?_eq_find?`: the lowest atom is the first that holds;
* `count_eq_countP`: the count is that of the atoms that hold.
-/

namespace AgentPlanning

namespace AtomId

@[simp] theorem word_ofWordBit (k : Fin 4) (i : Fin 64) : (ofWordBit k i).word = k := by
  simp only [word, ofWordBit, Fin.ext_iff]; omega

@[simp] theorem bit_ofWordBit (k : Fin 4) (i : Fin 64) : (ofWordBit k i).bit = i := by
  simp only [bit, ofWordBit, Fin.ext_iff]; omega

@[simp] theorem ofWordBit_word_bit (a : AtomId) : ofWordBit a.word a.bit = a := by
  simp only [word, bit, ofWordBit, Fin.ext_iff]; omega

/-- An atom is determined by its word and its bit. -/
theorem eq_iff {a b : AtomId} : a = b ↔ a.word = b.word ∧ a.bit = b.bit :=
  ⟨fun h => by simp [h], fun h => by
    rw [← ofWordBit_word_bit a, h.1, h.2, ofWordBit_word_bit]⟩

/-- The atoms in ascending order are those of the words, one word after the other. -/
theorem finRange_eq_flatMap : List.finRange 256 =
    (List.finRange 4).flatMap fun k => (List.finRange 64).map (ofWordBit k) := by
  decide +kernel

end AtomId

namespace WorldState

@[simp] theorem word_ofWords (f : Fin 4 → UInt64) (k : Fin 4) : (ofWords f).word k = f k := by
  match k with
  | 0 | 1 | 2 | 3 => rfl

@[simp] theorem word_setWord (s : WorldState) (k l : Fin 4) (w : UInt64) :
    (s.setWord k w).word l = if k = l then w else s.word l := by
  match k, l with
  | 0, 0 | 0, 1 | 0, 2 | 0, 3 | 1, 0 | 1, 1 | 1, 2 | 1, 3
  | 2, 0 | 2, 1 | 2, 2 | 2, 3 | 3, 0 | 3, 1 | 3, 2 | 3, 3 => rfl

/-- States with the same words are equal. -/
theorem eq_of_word_eq {s t : WorldState} (h : ∀ k, s.word k = t.word k) : s = t := by
  obtain ⟨h0, h1, h2, h3⟩ := And.intro (h 0) (And.intro (h 1) (And.intro (h 2) (h 3)))
  cases s; cases t
  simp_all [word]

/-- States in which the same atoms hold are equal. -/
theorem eq_of_get_eq {s t : WorldState} (h : ∀ a, s.get a = t.get a) : s = t :=
  eq_of_word_eq fun k => Word.eq_of_testBit_eq fun i => by
    simpa [get] using h (.ofWordBit k i)

@[simp] theorem get_set (s : WorldState) (a b : AtomId) (value : Bool) :
    (s.set a value).get b = if a = b then value else s.get b := by
  by_cases hw : a.word = b.word <;> by_cases hb : a.bit = b.bit <;>
    simp [get, set, AtomId.eq_iff, hw, hb]

@[simp] theorem word_empty (k : Fin 4) : empty.word k = 0 := by
  match k with
  | 0 | 1 | 2 | 3 => rfl

theorem word_full (k : Fin 4) : full.word k = ~~~0 := by
  match k with
  | 0 | 1 | 2 | 3 => rfl

@[simp] theorem word_and (s t : WorldState) (k : Fin 4) :
    (s &&& t).word k = s.word k &&& t.word k :=
  word_ofWords _ k

@[simp] theorem word_or (s t : WorldState) (k : Fin 4) :
    (s ||| t).word k = s.word k ||| t.word k :=
  word_ofWords _ k

@[simp] theorem word_xor (s t : WorldState) (k : Fin 4) :
    (s ^^^ t).word k = s.word k ^^^ t.word k :=
  word_ofWords _ k

@[simp] theorem word_not (s : WorldState) (k : Fin 4) : (~~~s).word k = ~~~s.word k :=
  word_ofWords _ k

@[simp] theorem get_empty (a : AtomId) : empty.get a = false := by simp [get]

@[simp] theorem get_full (a : AtomId) : full.get a = true := by
  rw [get, word_full, Word.testBit_not, Word.testBit_zero, Bool.not_false]

@[simp] theorem get_and (s t : WorldState) (a : AtomId) :
    (s &&& t).get a = (s.get a && t.get a) := by simp [get]

@[simp] theorem get_or (s t : WorldState) (a : AtomId) :
    (s ||| t).get a = (s.get a || t.get a) := by simp [get]

@[simp] theorem get_xor (s t : WorldState) (a : AtomId) :
    (s ^^^ t).get a = (s.get a ^^ t.get a) := by simp [get]

@[simp] theorem get_not (s : WorldState) (a : AtomId) : (~~~s).get a = !s.get a := by simp [get]

@[simp] theorem get_ofAtoms (atoms : List AtomId) (a : AtomId) :
    (ofAtoms atoms).get a = true ↔ a ∈ atoms := by
  suffices h : ∀ s : WorldState, (atoms.foldl (fun s a => s.set a true) s).get a = true ↔
      s.get a = true ∨ a ∈ atoms by simpa [ofAtoms] using h empty
  induction atoms with
  | nil => simp
  | cons b rest ih =>
    intro s
    by_cases h : b = a
    · simp [ih, h]
    · simp [ih, h, show a ≠ b from fun e => h e.symm]

theorem isEmpty_iff {s : WorldState} : s.isEmpty = true ↔ s = empty := by
  simp only [isEmpty, List.all_eq_true, List.mem_finRange, beq_iff_eq, true_implies]
  exact ⟨fun h => eq_of_word_eq fun k => by simp [h k], fun h => by simp [h]⟩

@[simp] theorem mem_atoms {s : WorldState} {a : AtomId} : a ∈ s.atoms ↔ s.get a = true := by
  simp only [atoms, get, List.mem_flatMap, List.mem_finRange, true_and, List.mem_map,
    Word.mem_setBits]
  exact ⟨by rintro ⟨k, i, h, rfl⟩; simpa using h, fun h => ⟨a.word, a.bit, h, by simp⟩⟩

/-- The atoms of a word are read from its bits. -/
theorem get_comp_ofWordBit (s : WorldState) (k : Fin 4) :
    s.get ∘ AtomId.ofWordBit k = Word.testBit (s.word k) := by
  funext i
  rw [Function.comp_apply, get, AtomId.word_ofWordBit, AtomId.bit_ofWordBit]

/-- The atoms that hold are listed in ascending order. -/
theorem atoms_eq_filter (s : WorldState) : s.atoms = (List.finRange 256).filter s.get := by
  rw [AtomId.finRange_eq_flatMap, List.filter_flatMap, atoms]
  congr 1
  funext k
  rw [List.filter_map, get_comp_ofWordBit, Word.setBits_eq_filter]

/-- The lowest atom that holds is the first one in ascending order. -/
theorem lowest?_eq_find? (s : WorldState) : s.lowest? = (List.finRange 256).find? s.get := by
  rw [AtomId.finRange_eq_flatMap, List.find?_flatMap, lowest?]
  congr 1
  funext k
  rw [List.find?_map, get_comp_ofWordBit, Word.lowest?]

/-- The count of a state is the number of atoms that hold. -/
theorem count_eq_countP (s : WorldState) : s.count = (List.finRange 256).countP s.get := by
  have hword (k : Fin 4) : ((List.finRange 64).map (AtomId.ofWordBit k)).countP s.get =
      Word.popCount (s.word k) := by
    rw [List.countP_map, get_comp_ofWordBit, Word.popCount]
  rw [AtomId.finRange_eq_flatMap, List.countP_flatMap, count]
  -- Both sides are the sum over the four words.
  simp only [Function.comp_def, hword]
  simp [Fin.foldl_succ_last, List.finRange_succ]
  omega

end WorldState
end AgentPlanning
