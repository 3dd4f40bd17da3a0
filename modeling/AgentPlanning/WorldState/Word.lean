/-!
# Bits of a 64-bit Word

World states are stored in 64-bit words. This module holds the operations on one word that
states are built from: reading and writing a single bit, finding and clearing the lowest set
bit, listing the set bits in ascending order, and counting them.
-/

namespace AgentPlanning.Word

/-- The word whose only set bit is bit `i`. -/
def single (i : Fin 64) : UInt64 :=
  1 <<< UInt64.ofNat i.val

/-- Whether bit `i` of `w` is set. -/
def testBit (w : UInt64) (i : Fin 64) : Bool :=
  w &&& single i != 0

/-- `w` with bit `i` set to `value` and every other bit unchanged. -/
def writeBit (w : UInt64) (i : Fin 64) (value : Bool) : UInt64 :=
  if value then w ||| single i else w &&& ~~~single i

/-- The position of the lowest set bit; `none` for the zero word. -/
def lowest? (w : UInt64) : Option (Fin 64) :=
  (List.finRange 64).find? (testBit w)

/-- `w` without its lowest set bit: subtracting one borrows exactly up to that bit. -/
def clearLowest (w : UInt64) : UInt64 :=
  w &&& (w - 1)

/-- Peels set bits off `w`, lowest first, for at most the given number of steps. -/
def setBitsUpTo : Nat → UInt64 → List (Fin 64)
  | 0, _ => []
  | steps + 1, w =>
    match lowest? w with
    | none => []
    | some i => i :: setBitsUpTo steps (clearLowest w)

/-- The set bits of `w` in ascending order. A word has 64 bits, so 64 steps are enough. -/
def setBits (w : UInt64) : List (Fin 64) :=
  setBitsUpTo 64 w

/-- The number of set bits of `w`. -/
def popCount (w : UInt64) : Nat :=
  (List.finRange 64).countP (testBit w)

/-! ## The bits of a computed word -/

theorem toBitVec_single (i : Fin 64) : (single i).toBitVec = BitVec.twoPow 64 i.val := by
  revert i; decide

/-- A bit read through a mask is the bit of the underlying bit vector. -/
theorem testBit_eq_getElem (w : UInt64) (i : Fin 64) : testBit w i = w.toBitVec[i.val] := by
  have hw : w &&& single i = 0 ↔ w.toBitVec &&& BitVec.twoPow 64 i.val = 0#64 := by
    rw [← UInt64.toBitVec_inj, UInt64.toBitVec_and, toBitVec_single]; rfl
  have hpow : BitVec.twoPow 64 i.val ≠ 0#64 := fun h => by
    simpa using congrArg (·[i.val]) h
  cases hb : w.toBitVec[i.val] <;> simp_all [testBit, BitVec.and_twoPow]

/-- Words with the same bits are equal. -/
theorem eq_of_testBit_eq {v w : UInt64} (h : ∀ i, testBit v i = testBit w i) : v = w :=
  UInt64.toBitVec_inj.1 <| BitVec.eq_of_getElem_eq fun i hi => by
    simpa [testBit_eq_getElem] using h ⟨i, hi⟩

@[simp] theorem testBit_zero (i : Fin 64) : testBit 0 i = false := by
  simp [testBit_eq_getElem]

@[simp] theorem testBit_and (v w : UInt64) (i : Fin 64) :
    testBit (v &&& w) i = (testBit v i && testBit w i) := by
  simp [testBit_eq_getElem]

@[simp] theorem testBit_or (v w : UInt64) (i : Fin 64) :
    testBit (v ||| w) i = (testBit v i || testBit w i) := by
  simp [testBit_eq_getElem]

@[simp] theorem testBit_xor (v w : UInt64) (i : Fin 64) :
    testBit (v ^^^ w) i = (testBit v i ^^ testBit w i) := by
  simp [testBit_eq_getElem]

@[simp] theorem testBit_not (w : UInt64) (i : Fin 64) : testBit (~~~w) i = !testBit w i := by
  simp [testBit_eq_getElem]

@[simp] theorem testBit_single (i j : Fin 64) : testBit (single i) j = decide (i = j) := by
  simp [testBit_eq_getElem, toBitVec_single, BitVec.getElem_twoPow, Fin.ext_iff, eq_comm]

@[simp] theorem testBit_writeBit (w : UInt64) (i j : Fin 64) (value : Bool) :
    testBit (writeBit w i value) j = if i = j then value else testBit w j := by
  cases value <;> by_cases h : i = j <;> simp [writeBit, h]

theorem eq_zero_iff (w : UInt64) : w = 0 ↔ ∀ i, testBit w i = false :=
  ⟨fun h => by simp [h], fun h => eq_of_testBit_eq fun i => by simp [h i]⟩

/-! ## The set bits in order -/

/-- Subtracting one changes exactly the bits up to the lowest set one. -/
theorem testBit_and_sub_one {n k : Nat} (hk : n.testBit k = true)
    (hlow : ∀ j < k, n.testBit j = false) (j : Nat) :
    (n &&& (n - 1)).testBit j = (n.testBit j && decide (j ≠ k)) := by
  rw [Nat.testBit_and]
  induction k generalizing n j with
  | zero =>
    -- An odd number loses its last bit and nothing else.
    have hodd : n % 2 = 1 := by simpa using hk
    have hhalf : (n - 1) / 2 = n / 2 := by omega
    cases j with
    | zero => simp; omega
    | succ j => simp [Nat.testBit_succ, hhalf]
  | succ k ih =>
    -- An even number borrows from its half.
    have heven : n % 2 = 0 := by simpa using hlow 0 (by omega)
    have hhalf : (n - 1) / 2 = n / 2 - 1 := by omega
    cases j with
    | zero => simp [heven]
    | succ j =>
      simpa [Nat.testBit_succ, hhalf] using ih (n := n / 2) (by simpa [Nat.testBit_succ] using hk)
        (fun i hi => by simpa [Nat.testBit_succ] using hlow (i + 1) (by omega)) j

theorem lowest?_eq_none_iff {w : UInt64} : lowest? w = none ↔ w = 0 := by
  simp [lowest?, eq_zero_iff]

theorem lowest?_eq_some_iff {w : UInt64} {i : Fin 64} :
    lowest? w = some i ↔ testBit w i = true ∧ ∀ j < i, testBit w j = false := by
  rw [lowest?, List.find?_eq_some_iff_getElem]
  refine and_congr_right fun _ => ⟨?_, fun h => ⟨i.val, by simp, by simp, fun j hj => ?_⟩⟩
  · rintro ⟨k, hk, rfl, h⟩ j hj
    simpa using h j.val (by simpa [Fin.lt_def] using hj)
  · simpa using h ⟨j, by omega⟩ hj

theorem testBit_eq_testBit_toNat (w : UInt64) (i : Fin 64) :
    testBit w i = w.toNat.testBit i.val := by
  simp [testBit_eq_getElem, BitVec.getElem_eq_testBit_toNat]

theorem testBit_clearLowest {w : UInt64} {i : Fin 64} (h : lowest? w = some i) (j : Fin 64) :
    testBit (clearLowest w) j = (testBit w j && decide (j ≠ i)) := by
  simp only [lowest?_eq_some_iff, testBit_eq_testBit_toNat] at h ⊢
  have hpos : 1 ≤ w.toNat := Nat.pos_of_ne_zero fun h0 => by simp [h0] at h
  rw [clearLowest, UInt64.toNat_and, UInt64.toNat_sub_of_le w 1 hpos, UInt64.toNat_one,
    testBit_and_sub_one h.1 fun k hk => h.2 ⟨k, by omega⟩ hk]
  simp [Fin.ext_iff]

/-- The first hit of a search splits off the list of all hits. -/
theorem filter_eq_cons_of_find? {α : Type} [DecidableEq α] {p : α → Bool} {l : List α} {x : α}
    (hl : l.Nodup) (h : l.find? p = some x) :
    l.filter p = x :: l.filter fun y => p y && decide (y ≠ x) := by
  induction l with
  | nil => simp at h
  | cons a l ih =>
    obtain ⟨ha, hl⟩ := List.nodup_cons.1 hl
    cases hp : p a with
    | true =>
      obtain rfl : a = x := by simpa [hp] using h
      simp only [hp, List.filter_cons_of_pos, List.cons.injEq, true_and]
      rw [List.filter_cons_of_neg (by simp)]
      exact List.filter_congr fun y hy => by
        simp [show y ≠ a from fun e => ha (e ▸ hy)]
    | false => simpa [hp] using ih hl (by simpa [hp] using h)

/-- The lowest set bit comes first, then the set bits of the word without it. -/
theorem filter_testBit_eq_cons {w : UInt64} {i : Fin 64} (h : lowest? w = some i) :
    (List.finRange 64).filter (testBit w) =
      i :: (List.finRange 64).filter (testBit (clearLowest w)) := by
  rw [filter_eq_cons_of_find? (List.nodup_finRange 64) h]
  simp only [← testBit_clearLowest h]

theorem setBitsUpTo_eq_filter {steps : Nat} {w : UInt64}
    (h : ((List.finRange 64).filter (testBit w)).length ≤ steps) :
    setBitsUpTo steps w = (List.finRange 64).filter (testBit w) := by
  induction steps generalizing w with
  | zero => rw [setBitsUpTo, List.eq_nil_of_length_eq_zero (Nat.le_zero.1 h)]
  | succ steps ih =>
    rw [setBitsUpTo]
    split
    next hnone => simp [lowest?_eq_none_iff.1 hnone]
    next i hsome =>
      have hfilter := filter_testBit_eq_cons hsome
      rw [hfilter, ih (by simpa [hfilter] using h)]

/-- The listed bits are the set bits in ascending order. -/
theorem setBits_eq_filter (w : UInt64) : setBits w = (List.finRange 64).filter (testBit w) :=
  setBitsUpTo_eq_filter <|
    Nat.le_trans (List.length_filter_le ..) (Nat.le_of_eq List.length_finRange)

theorem setBits_eq_nil {w : UInt64} (h : lowest? w = none) : setBits w = [] := by
  rw [setBits_eq_filter, lowest?_eq_none_iff.1 h]
  simp

theorem setBits_eq_cons {w : UInt64} {i : Fin 64} (h : lowest? w = some i) :
    setBits w = i :: setBits (clearLowest w) := by
  rw [setBits_eq_filter, setBits_eq_filter, filter_testBit_eq_cons h]

@[simp] theorem mem_setBits {w : UInt64} {i : Fin 64} : i ∈ setBits w ↔ testBit w i = true := by
  rw [setBits_eq_filter, List.mem_filter]
  exact and_iff_right (List.mem_finRange i)

end AgentPlanning.Word
