import AgentPlanning.Proofs.Binary32.Arithmetic
import AgentPlanning.Utility

/-!
# The Score of an Integer in a Range

The ends of a range are integers of 32 bits, and a binary32 number holds only 24 of these. A score
is interpolated between the ends as they are rounded, so what it is at the ends depends on whether
they are still apart. Main statements:

* `Binary32.number_binary32_le`: rounding keeps the order of the integers;
* `Consideration.position_spec`: where an integer stands between the ends;
* `Consideration.isNaN_rangeScore_iff`: the ranges and integers that have no score;
* `Consideration.score_intRange`: the score at and beyond the ends.
-/

namespace AgentPlanning

open Float.Model
open Float.Model.UnpackedFloat

namespace Binary32

/-! ## The integers as binary32 numbers -/

theorem abs_toInt_le (n : Int32) : |(n.toInt : ℚ)| ≤ 2 ^ 31 := by
  have hle := n.toInt_le
  have hge := n.le_toInt
  have hmax : Int32.maxValue.toInt = 2147483647 := rfl
  exact_mod_cast abs_le.mpr ⟨hge, by omega⟩

theorem nearest_binary32 (n : Int32) :
    (binary32 n).isFinite ∧ Nearest n.toInt (number (binary32 n)) :=
  (isRounding_ofInt32 n).nearest ((abs_toInt_le n).trans (by norm_num))

theorem abs_number_binary32_le (n : Int32) : |number (binary32 n)| ≤ 2 ^ 31 := by
  have hend := representable_pow 31
  obtain ⟨hge, hle⟩ := abs_le.mp (abs_toInt_le n)
  have h := (nearest_binary32 n).2
  exact abs_le.mpr ⟨h.representable_le hend.neg hge, h.le_representable hend hle⟩

theorem number_binary32_le {n m : Int32} (h : n ≤ m) :
    number (binary32 n) ≤ number (binary32 m) := by
  rcases eq_or_ne n m with rfl | hne
  · exact le_rfl
  · -- Nearest numbers of different integers cannot change sides.
    have hlt : n.toInt < m.toInt :=
      lt_of_le_of_ne (Int32.le_iff_toInt_le.mp h) fun heq => hne (Int32.toInt_inj.mp heq)
    exact (nearest_binary32 n).2.le_of_lt (nearest_binary32 m).2 (by exact_mod_cast hlt)

theorem eq_zero_of_number_binary32 {n : Int32} (h : number (binary32 n) = 0) : n = 0 := by
  have hnearest := (nearest_binary32 n).2
  rw [h] at hnearest
  rcases lt_trichotomy n.toInt 0 with hn | hn | hn
  · have := hnearest.le_representable representable_one.neg
      (by exact_mod_cast Int.le_sub_one_of_lt hn)
    norm_num at this
  · exact Int32.toInt_inj.mp hn
  · have := hnearest.representable_le representable_one (by exact_mod_cast hn)
    norm_num at this

/-- Integers that become the same number become it in the same form. -/
theorem binary32_eq_of_number_eq {n m : Int32} (h : number (binary32 n) = number (binary32 m)) :
    binary32 n = binary32 m := by
  by_cases hzero : number (binary32 n) = 0
  · rw [eq_zero_of_number_binary32 hzero, eq_zero_of_number_binary32 (h.symm.trans hzero)]
  · exact eq_of_number_eq hzero h

/-- An integer of at most 24 bits is not rounded. -/
theorem number_binary32_of_le {n : Int32} (hge : -2 ^ 24 ≤ n.toInt) (hle : n.toInt ≤ 2 ^ 24) :
    number (binary32 n) = n.toInt := by
  refine (nearest_binary32 n).2.eq ?_
  rcases hle.eq_or_lt with heq | hlt
  · rw [heq]
    exact_mod_cast representable_pow 24
  · rcases hge.eq_or_lt with heq | hgt
    · rw [← heq]
      exact_mod_cast (representable_pow 24).neg
    · exact ⟨n.toInt, 0, abs_lt.mpr ⟨hgt, hlt⟩, by norm_num, by norm_num⟩

/-! ## Differences of integers -/

/-- The difference of two integers as binary32 numbers is finite, and a nearest number. -/
theorem nearest_sub (n m : Int32) :
    (binary32 n - binary32 m).isFinite ∧ |number (binary32 n - binary32 m)| ≤ 2 ^ 32 ∧
      Nearest (number (binary32 n) - number (binary32 m)) (number (binary32 n - binary32 m)) := by
  have hend := representable_pow 32
  have hexact : |number (binary32 n) - number (binary32 m)| ≤ 2 ^ 32 := by
    calc |number (binary32 n) - number (binary32 m)|
        ≤ |number (binary32 n)| + |number (binary32 m)| := abs_sub _ _
      _ ≤ 2 ^ 31 + 2 ^ 31 := add_le_add (abs_number_binary32_le n) (abs_number_binary32_le m)
      _ = 2 ^ 32 := by norm_num
  have hrounding := isRounding_sub (nearest_binary32 n).1 (nearest_binary32 m).1
  obtain ⟨hfinite, hnearest⟩ := hrounding.nearest (hexact.trans (by norm_num))
  obtain ⟨hge, hle⟩ := abs_le.mp hexact
  exact ⟨hfinite, abs_le.mpr ⟨hnearest.representable_le hend.neg hge,
    hnearest.le_representable hend hle⟩, hnearest⟩

theorem number_add_one_le {n m : Int32} (h : number (binary32 n) < number (binary32 m)) :
    number (binary32 n) + 1 ≤ number (binary32 m) := by
  obtain ⟨k, hk⟩ := (nearest_binary32 n).2.exists_int
  obtain ⟨l, hl⟩ := (nearest_binary32 m).2.exists_int
  rw [hk, hl] at h ⊢
  exact_mod_cast Int.add_one_le_of_lt (by exact_mod_cast h)

theorem one_le_number_sub {n m : Int32} (h : number (binary32 m) < number (binary32 n)) :
    1 ≤ number (binary32 n - binary32 m) :=
  (nearest_sub n m).2.2.representable_le representable_one (by linarith [number_add_one_le h])

theorem number_sub_le_neg_one {n m : Int32} (h : number (binary32 n) < number (binary32 m)) :
    number (binary32 n - binary32 m) ≤ -1 :=
  (nearest_sub n m).2.2.le_representable representable_one.neg (by linarith [number_add_one_le h])

theorem number_sub_nonpos {n m : Int32} (h : number (binary32 n) ≤ number (binary32 m)) :
    number (binary32 n - binary32 m) ≤ 0 :=
  (nearest_sub n m).2.2.le_representable representable_zero (by linarith)

theorem number_sub_le_of_le {n m k : Int32} (h : number (binary32 n) ≤ number (binary32 m)) :
    number (binary32 n - binary32 k) ≤ number (binary32 m - binary32 k) := by
  rcases h.eq_or_lt with heq | hlt
  · rw [binary32_eq_of_number_eq heq]
  · exact (nearest_sub n k).2.2.le_of_lt (nearest_sub m k).2.2 (by linarith)

/-! ## Bringing a number between zero and one -/

theorem unitClamp_spec {q : Float32} (hq : q.isFinite) :
    (unitClamp q).isFinite ∧ number (unitClamp q) = max 0 (min 1 (number q)) := by
  unfold unitClamp
  simp only [lt_iff hq isFinite_zero, lt_iff isFinite_one hq, number_zero, number_one]
  split_ifs with hneg hlarge
  · exact ⟨isFinite_zero, by rw [number_zero, max_eq_left (min_le_of_right_le hneg.le)]⟩
  · exact ⟨isFinite_one, by rw [number_one, min_eq_left hlarge.le, max_eq_right zero_le_one]⟩
  · exact ⟨hq, by rw [min_eq_right (not_lt.mp hlarge), max_eq_right (not_lt.mp hneg)]⟩

theorem unpack_unitClamp_infinity {q : Float32} {sign : Sign}
    (hq : q.toModel.unpack = .infinity sign) :
    unitClamp q = match sign with
      | .negative => 0
      | .positive => 1 := by
  unfold unitClamp
  simp only [lt_iff_compare, hq, unpack_zero, unpack_one]
  cases sign <;> rfl

theorem isNaN_unitClamp {q : Float32} (hq : q.isNaN) : (unitClamp q).isNaN := by
  unfold unitClamp
  simp only [lt_iff_compare, unpack_of_isNaN hq, unpack_zero, unpack_one]
  exact hq

end Binary32

namespace Consideration

open Binary32

/-! ## Where an integer stands between the ends -/

/-- Where an integer stands in a range, from zero for the lower end to one for the upper end. -/
def position (lower upper n : Int32) : Float32 :=
  unitClamp ((binary32 n - binary32 lower) / (binary32 upper - binary32 lower))

/-- Both ends and the integer itself are rounded to the same number. -/
def Collapsed (lower upper n : Int32) : Prop :=
  number (binary32 lower) = number (binary32 upper) ∧
    number (binary32 n) = number (binary32 lower)

variable {lower upper n : Int32} {low high : Float32}

theorem isNaN_position (h : Collapsed lower upper n) : (position lower upper n).isNaN := by
  obtain ⟨hends, hvalue⟩ := h
  rw [position, binary32_eq_of_number_eq hends.symm, binary32_eq_of_number_eq hvalue,
    sub_self_eq_zero (nearest_binary32 lower).1]
  exact isNaN_unitClamp (isNaN_div_zero isFinite_zero number_zero)

theorem position_of_collapsed (hends : number (binary32 lower) = number (binary32 upper))
    (hvalue : number (binary32 n) ≠ number (binary32 lower)) :
    position lower upper n = if number (binary32 n) ≤ number (binary32 lower) then 0 else 1 := by
  rw [position, binary32_eq_of_number_eq hends.symm, sub_self_eq_zero (nearest_binary32 lower).1]
  rcases lt_or_gt_of_ne hvalue with hlt | hgt
  · have hoffset := number_sub_le_neg_one hlt
    have hquotient := unpack_div_zero (x := binary32 n - binary32 lower) (by linarith)
    rw [if_neg (by linarith)] at hquotient
    rw [unpack_unitClamp_infinity hquotient, if_pos hlt.le]
  · have hoffset := one_le_number_sub hgt
    have hquotient := unpack_div_zero (x := binary32 n - binary32 lower) (by linarith)
    rw [if_pos (by linarith)] at hquotient
    rw [unpack_unitClamp_infinity hquotient, if_neg hgt.not_ge]

theorem position_of_lt (hends : number (binary32 lower) < number (binary32 upper)) :
    (position lower upper n).isFinite ∧
    (number (position lower upper n) = 0 ↔ number (binary32 n) ≤ number (binary32 lower)) ∧
    (number (binary32 upper) ≤ number (binary32 n) → number (position lower upper n) = 1) := by
  have hwidth := one_le_number_sub hends
  have hwidth' := (abs_le.mp (nearest_sub upper lower).2.1).2
  have hoffset := (nearest_sub n lower).2.1
  have hpos : 0 < number (binary32 upper - binary32 lower) := by linarith
  obtain ⟨hfinite, hquotient⟩ := (isRounding_div (nearest_sub n lower).1 hpos.ne').nearest (by
    rw [abs_div, abs_of_pos hpos, div_le_iff₀ hpos]
    calc |number (binary32 n - binary32 lower)| ≤ 2 ^ 127 * 1 := hoffset.trans (by norm_num)
      _ ≤ _ := by gcongr)
  obtain ⟨hclamped, hposition⟩ := unitClamp_spec hfinite
  refine ⟨hclamped, ⟨fun hzero => ?_, fun hle => ?_⟩, fun hle => ?_⟩
  · -- An integer above the lower end is at least one above it, so the quotient does not underflow.
    by_contra hlt
    have hone := one_le_number_sub (not_le.mp hlt)
    have hend : Representable (1 / 2 ^ 32) := ⟨1, -32, by norm_num, by norm_num, by norm_num⟩
    have hge := hquotient.representable_le hend (by
      rw [div_le_div_iff₀ (by norm_num) hpos]
      nlinarith)
    rw [position, hposition] at hzero
    have hlarge : (0 : ℚ) < min 1 (number _) := lt_min one_pos (lt_of_lt_of_le (by norm_num) hge)
    rw [max_eq_right hlarge.le] at hzero
    exact hlarge.ne' hzero
  · have hle := hquotient.le_representable representable_zero
      (div_nonpos_of_nonpos_of_nonneg (number_sub_nonpos hle) hpos.le)
    rw [position, hposition]
    exact max_eq_left (min_le_of_right_le hle)
  · have hge := hquotient.representable_le representable_one
      ((one_le_div hpos).mpr (number_sub_le_of_le hle))
    rw [position, hposition, min_eq_left hge]
    exact max_eq_right zero_le_one

/-! ## Between the scores of the ends -/

theorem rangeScore_eq (h : lower < upper) :
    rangeScore lower upper low high n = low + (high - low) * position lower upper n :=
  if_neg (Int32.not_le.mpr h)

/-- The upper end is a greater number than the lower one, or they are the same number. -/
theorem number_ends (h : lower < upper) :
    number (binary32 lower) = number (binary32 upper) ∨
      number (binary32 lower) < number (binary32 upper) :=
  (number_binary32_le (Int32.le_of_lt h)).eq_or_lt

/-- Unless it collapses with the ends, an integer stands at the lower end if it is not above it,
and at the upper end if it is not below it. -/
theorem position_spec (h : lower < upper) (hne : ¬Collapsed lower upper n) :
    (position lower upper n).isFinite ∧
    (number (position lower upper n) = 0 ↔ number (binary32 n) ≤ number (binary32 lower)) ∧
    (number (binary32 upper) ≤ number (binary32 n) → number (position lower upper n) = 1) := by
  rcases number_ends h with hends | hends
  · have hvalue := fun heq => hne ⟨hends, heq⟩
    rw [position_of_collapsed hends hvalue]
    split_ifs with hle
    · refine ⟨isFinite_zero, by simp [hle], fun hge => ?_⟩
      exact absurd (le_antisymm hle (hends ▸ hge)) hvalue
    · exact ⟨isFinite_one, by simp [hle], fun _ => number_one⟩
  · exact position_of_lt hends

/-- The score is a NaN if the integer collapses with the ends, or if the difference of the scores
overflows and the integer is not above the lower end. -/
theorem isNaN_rangeScore_iff (h : lower < upper) (hlow : low.isFinite) (hhigh : high.isFinite) :
    (rangeScore lower upper low high n).isNaN ↔ Collapsed lower upper n ∨
      ¬(high - low).isFinite ∧ number (binary32 n) ≤ number (binary32 lower) := by
  rw [rangeScore_eq h, isNaN_add hlow]
  by_cases hne : Collapsed lower upper n
  · exact iff_of_true (isNaN_mul_of_isNaN (isNaN_position hne)) (.inl hne)
  · obtain ⟨hfinite, hzero, -⟩ := position_spec h hne
    rw [isNaN_mul (isRounding_sub hhigh hlow).isNaN_eq_false hfinite, hzero, or_iff_right hne]

/-- At or below the lower end the score is that of the lower end. -/
theorem rangeScore_of_le (h : lower < upper) (hlow : low.isFinite)
    (hdifference : (high - low).isFinite) (hne : ¬Collapsed lower upper n) (hn : n ≤ lower) :
    rangeScore lower upper low high n == low := by
  obtain ⟨hfinite, hzero, -⟩ := position_spec h hne
  have hproduct := isRounding_mul hdifference hfinite
  rw [hzero.mpr (number_binary32_le hn), mul_zero, ← number_zero] at hproduct
  obtain ⟨hproduct, hproduct_zero⟩ := hproduct.eq_number
  have hsum := isRounding_add hlow hproduct
  rw [hproduct_zero, number_zero, add_zero] at hsum
  rw [rangeScore_eq h, beq_iff hsum.eq_number.1 hlow]
  exact hsum.eq_number.2

/-- At or above the upper end the whole difference of the scores is added to the lower one. -/
theorem rangeScore_of_ge (h : lower < upper) (hlow : low.isFinite) (hhigh : high.isFinite)
    (hne : ¬Collapsed lower upper n) (hn : upper ≤ n) :
    rangeScore lower upper low high n = low + (high - low) := by
  obtain ⟨-, -, hone⟩ := position_spec h hne
  rw [rangeScore_eq h, mul_eq_of_number_eq_one (isRounding_sub hhigh hlow).isNaN_eq_false
    (hone (number_binary32_le hn))]

/-- A difference that is not rounded leads from the lower score to the upper one. -/
theorem add_sub_beq (hlow : low.isFinite) (hhigh : high.isFinite)
    (hdifference : (high - low).isFinite)
    (hexact : number (high - low) = number high - number low) : low + (high - low) == high := by
  have hsum := isRounding_add hlow hdifference
  rw [hexact, add_sub_cancel] at hsum
  exact (beq_iff hsum.eq_number.1 hhigh).mpr hsum.eq_number.2

/-- Integers at an end of a range. -/
def readings : BlackboardView := (Blackboard.ofLists [(1, 16777216), (2, 0), (3, 100)] []).view

/-- What a range scores. A missing integer scores `low`, and so does one at or below the lower end;
from the upper end on, the score is `low` and the difference of the two scores, which is `high` if
the difference is not rounded. But there is no score at an integer that is the same binary32 number
as both ends are, and none at or below the lower end if the difference of the scores is too large
for binary32. Neither happens with ends of at most 24 bits and a difference that is finite. -/
theorem score_intRange (h : lower < upper) (hlow : low.isFinite)
    (hhigh : high.isFinite) (key : IntKey) (state : WorldState) (view : BlackboardView) :
    let score := (intRange key lower upper low high).score state view
    (view.int? key = none → score = low) ∧
    ∀ n, view.int? key = some n →
      (score.isNaN ↔ (binary32 lower == binary32 upper ∧ binary32 n == binary32 lower) ∨
        (¬(high - low).isFinite ∧ binary32 n ≤ binary32 lower)) ∧
      (score.isNaN = false → n ≤ lower → score == low) ∧
      (score.isNaN = false → upper ≤ n → score = low + (high - low) ∧
        ((high - low).isFinite → number (high - low) = number high - number low →
          score == high)) ∧
      ((high - low).isFinite → -2 ^ 24 ≤ lower.toInt → upper.toInt ≤ 2 ^ 24 →
        score.isNaN = false) := by
  intro score
  have hfinite (m : Int32) := (nearest_binary32 m).1
  refine ⟨fun hmissing => by simp only [score, Consideration.score, hmissing], fun n hn => ?_⟩
  have hscore : score = rangeScore lower upper low high n := by
    simp only [score, Consideration.score, hn]
  have hnan := isNaN_rangeScore_iff (n := n) h hlow hhigh
  unfold Collapsed at hnan
  rw [hscore, beq_iff (hfinite _) (hfinite _), beq_iff (hfinite _) (hfinite _),
    le_iff (hfinite _) (hfinite _)]
  refine ⟨hnan, fun hfalse hle => ?_, fun hfalse hge => ?_, fun hdifference hlower hupper => ?_⟩
  · rw [← Bool.not_eq_true, hnan, not_or] at hfalse
    -- An overflow would have made the score a NaN at this integer.
    have hdifference : (high - low).isFinite := by
      by_contra hdifference
      exact hfalse.2 ⟨hdifference, number_binary32_le hle⟩
    exact rangeScore_of_le h hlow hdifference hfalse.1 hle
  · rw [← Bool.not_eq_true, hnan, not_or] at hfalse
    rw [rangeScore_of_ge h hlow hhigh hfalse.1 hge]
    exact ⟨rfl, add_sub_beq hlow hhigh⟩
  · have hlt : lower.toInt < upper.toInt := Int32.lt_iff_toInt_lt.mp h
    rw [← Bool.not_eq_true, hnan, not_or]
    refine ⟨fun hends => ?_, fun hoverflow => hoverflow.1 hdifference⟩
    rw [number_binary32_of_le hlower (by omega), number_binary32_of_le (by omega) hupper] at hends
    exact hlt.ne (by exact_mod_cast hends.1)

/-- An integer at the upper end of a range (100), and a key without a value. -/
theorem score_intRange_readings :
    (intRange 3 0 100 0.5 2).score .empty readings = 0.5 + (2 - 0.5) ∧
      (intRange 4 0 100 0.5 2).score .empty readings = 0.5 := by
  have hends : (0 : Int32) < 100 := by decide
  have hlow : (0.5 : Float32).isFinite := by decide +kernel
  have hhigh : (2 : Float32).isFinite := by decide +kernel
  have hvalue : readings.int? 3 = some 100 := by decide +kernel
  have hmissing : readings.int? 4 = none := by decide +kernel
  obtain ⟨-, -, hge, hnan⟩ :=
    (score_intRange hends hlow hhigh 3 .empty readings).2 100 hvalue
  have hscore := hge (hnan (by decide +kernel) (by decide) (by decide)) (Int32.le_refl 100)
  exact ⟨hscore.1, (score_intRange hends hlow hhigh 4 .empty readings).1 hmissing⟩

/-- The scores of the ends are not always met: two ends may be one binary32 number, the difference
of the scores may overflow, and it may be rounded so that it does not lead from `low` to `high`. -/
theorem score_intRange_misses_ends :
    (readings.int? 1 = some 16777216 ∧
      ((intRange 1 16777216 16777217 0 1).score .empty readings).isNaN) ∧
    (readings.int? 2 = some 0 ∧
      ((intRange 2 0 100 (.ofBits 0xff7fffff) (.ofBits 0x7f7fffff)).score .empty readings).isNaN) ∧
    (readings.int? 3 = some 100 ∧
      (intRange 3 0 100 1e10 1).score .empty readings == 0) := by
  decide +kernel

end Consideration

end AgentPlanning
