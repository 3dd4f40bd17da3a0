import AgentPlanning.Proofs.Binary32.Value

/-!
# Rounding to binary32

The standard library rounds with a mantissa and two residual bits. Whatever number these describe,
the result is a nearest one among those that the format can represent. Main statements:

* `Nearest.le_of_lt`: rounding to a nearest number keeps the order;
* `Nearest.exists_int`: an integer is rounded to an integer;
* `Describes.shiftRight`: the residual bits stay right when the mantissa is shifted;
* `rounds_roundWithAccuracy`: what is rounded is nearest to what the residual bits describe.
-/

namespace AgentPlanning

namespace Binary32

open Float.Model
open Float.Model.UnpackedFloat

/-! ## Nearest numbers -/

/-- A multiple of a power of two that has 24 bits at most. The power is at least that of the
subnormal numbers, and it is not bounded above. -/
def Representable (r : ℚ) : Prop :=
  ∃ m e : ℤ, |m| < 2 ^ 24 ∧ -149 ≤ e ∧ r = m * 2 ^ e

/-- No representable number is nearer to `y` than the representable number `r`. -/
structure Nearest (y r : ℚ) : Prop where
  representable : Representable r
  le : ∀ s, Representable s → |y - r| ≤ |y - s|

theorem Representable.neg {r : ℚ} (h : Representable r) : Representable (-r) := by
  obtain ⟨m, e, hm, he, rfl⟩ := h
  exact ⟨-m, e, by rwa [abs_neg], he, by push_cast; ring⟩

theorem representable_zero : Representable 0 := ⟨0, 0, by norm_num, by norm_num, by norm_num⟩

theorem representable_pow (k : ℕ) : Representable (2 ^ k) :=
  ⟨1, k, by norm_num, by omega, by simp⟩

theorem representable_one : Representable 1 := pow_zero (2 : ℚ) ▸ representable_pow 0

namespace Nearest

variable {y z r s : ℚ}

theorem refl (h : Representable y) : Nearest y y :=
  ⟨h, fun s _ => by simp⟩

theorem eq (h : Nearest y r) (hy : Representable y) : r = y := by
  have := h.le y hy
  rw [sub_self, abs_zero, abs_nonpos_iff, sub_eq_zero] at this
  exact this.symm

theorem neg (h : Nearest y r) : Nearest (-y) (-r) := by
  refine ⟨h.representable.neg, fun s hs => ?_⟩
  rw [show -y - -r = -(y - r) by ring, show -y - s = -(y - -s) by ring, abs_neg, abs_neg]
  exact h.le (-s) hs.neg

/-- A greater number is not rounded to a smaller one. -/
theorem le_of_lt (hy : Nearest y r) (hz : Nearest z s) (h : y < z) : r ≤ s := by
  by_contra hlt
  -- Otherwise `y` is above the midpoint of `r` and `s`, and `z` is below it.
  have habove := sq_le_sq.mpr (hy.le s hz.representable)
  have hbelow := sq_le_sq.mpr (hz.le r hy.representable)
  nlinarith

/-- Rounding does not pass a representable number from below. -/
theorem le_representable (h : Nearest y r) (hs : Representable s) (hle : y ≤ s) : r ≤ s := by
  rcases hle.eq_or_lt with rfl | hlt
  · exact (h.eq hs).le
  · exact h.le_of_lt (.refl hs) hlt

/-- Rounding does not pass a representable number from above. -/
theorem representable_le (h : Nearest y r) (hs : Representable s) (hle : s ≤ y) : s ≤ r := by
  rcases hle.eq_or_lt with rfl | hlt
  · exact (h.eq hs).ge
  · exact (refl hs).le_of_lt h hlt

/-- An integer is rounded to an integer: it is not rounded at all, or only to a number that is too
large to have a fraction. -/
theorem exists_int {n : ℤ} (h : Nearest n r) : ∃ k : ℤ, r = k := by
  rcases lt_or_ge |n| (2 ^ 24) with hn | hn
  · exact ⟨n, h.eq ⟨n, 0, hn, by norm_num, by norm_num⟩⟩
  · have hlarge : (2 : ℚ) ^ 24 ≤ |r| := by
      rcases le_abs.mp hn with hn | hn
      · exact le_abs.mpr (.inl (h.representable_le (representable_pow 24) (by exact_mod_cast hn)))
      · exact le_abs.mpr
          (.inr (h.neg.representable_le (representable_pow 24) (by exact_mod_cast hn)))
    obtain ⟨m, e, hm, -, rfl⟩ := h.representable
    have he : 0 < e := by
      -- Otherwise 24 bits without a larger unit would be enough.
      by_contra he
      have hm' : |(m : ℚ)| < 2 ^ 24 := by exact_mod_cast hm
      have hle : (2 : ℚ) ^ e ≤ 1 := zpow_le_one_of_nonpos₀ one_le_two (not_lt.mp he)
      rw [abs_mul, abs_of_pos (by positivity : (0 : ℚ) < 2 ^ e)] at hlarge
      nlinarith [abs_nonneg (m : ℚ)]
    obtain ⟨k, rfl⟩ := Int.eq_ofNat_of_zero_le he.le
    exact ⟨m * 2 ^ k, by push_cast; rfl⟩

end Nearest

/-! ## Residual bits -/

/-- The number `z` lies between the mantissa and its successor, where the residual bits say. -/
def Describes : ExtendedMantissa → ℚ → Prop
  | ⟨m, false, false⟩, z => z = m
  | ⟨m, false, true⟩, z => m < z ∧ z < m + 1 / 2
  | ⟨m, true, false⟩, z => z = m + 1 / 2
  | ⟨m, true, true⟩, z => m + 1 / 2 < z ∧ z < m + 1

namespace Describes

variable {em : ExtendedMantissa} {z : ℚ}

theorem mantissa_le (h : Describes em z) : em.mantissa ≤ z := by
  rcases em with ⟨m, _ | _, _ | _⟩ <;> simp only [Describes] at h ⊢ <;> linarith

theorem lt_mantissa_add_one (h : Describes em z) : z < em.mantissa + 1 := by
  rcases em with ⟨m, _ | _, _ | _⟩ <;> simp only [Describes] at h ⊢ <;> linarith

/-- The rounded mantissa is a nearest integer. -/
theorem abs_sub_le (h : Describes em z) : |z - em.roundedMantissa| ≤ 1 / 2 := by
  rw [abs_le]
  rcases em with ⟨m, _ | _, _ | _⟩ <;>
    simp only [Describes, ExtendedMantissa.roundedMantissa, ExtendedMantissa.accuracy,
      Accuracy.roundToNearestEven] at h ⊢
  · constructor <;> linarith
  · constructor <;> linarith
  · rcases Nat.mod_two_eq_zero_or_one m with hm | hm <;> rw [hm] <;> push_cast <;>
      constructor <;> linarith
  · push_cast
    constructor <;> linarith

/-- The bit that a shift drops becomes the round bit, and the bits below it become sticky. -/
theorem shiftRightOne (h : Describes em z) : Describes em.shiftRightOne (z / 2) := by
  obtain ⟨m, roundBit, stickyBit⟩ := em
  have hm : (m : ℚ) = 2 * (m / 2 : ℕ) + (m % 2 : ℕ) := by
    exact_mod_cast (Nat.div_add_mod m 2).symm
  rcases Nat.mod_two_eq_zero_or_one m with hbit | hbit <;> rw [hbit] at hm <;> push_cast at hm <;>
    cases roundBit <;> cases stickyBit <;>
    simp only [Describes, ExtendedMantissa.shiftRightOne, hbit, bne_self_eq_false, Bool.or_false,
      Bool.or_true, one_ne_zero, bne_iff_ne.mpr, ne_eq, not_false_eq_true] at h ⊢ <;>
    first | linarith | constructor <;> linarith

theorem shiftRight (h : Describes em z) (n : ℕ) : Describes (em >>> n) (z / 2 ^ n) := by
  induction n with
  | zero =>
    rw [pow_zero, div_one]
    exact h
  | succ n ih =>
    rw [pow_succ, ← div_div]
    exact ih.shiftRightOne

end Describes

/-! ## The rounding of the standard library -/

@[simp]
theorem minExponent_binary32 : Format.binary32.minExponent = -149 := rfl

/-- The exponent that a mantissa with exponent `e` is rounded to. -/
theorem targetExponent_totalExponent (m : ℕ) (e : ℤ) :
    Format.binary32.targetExponent (totalExponent m e) = max (m.log2 + e - 23) (-149) := by
  rw [Format.targetExponent, totalExponent, mantissaBits_binary32, minExponent_binary32]
  omega

/-- An integer within a half is a nearest one. -/
theorem abs_sub_le_of_half {z : ℚ} {k : ℤ} (h : |z - k| ≤ 1 / 2) (n : ℤ) : |z - k| ≤ |z - n| := by
  rcases eq_or_ne n k with rfl | hne
  · exact le_rfl
  · have hone : (1 : ℚ) ≤ |(k : ℚ) - n| := by
      exact_mod_cast Int.one_le_abs (sub_ne_zero.mpr hne.symm)
    have htriangle := abs_sub_le (k : ℚ) z n
    rw [abs_sub_comm (k : ℚ) z] at htriangle
    linarith

/-- An integer within a half does not pass another one from below. -/
theorem le_of_half {z : ℚ} {R n : ℕ} (h : |z - R| ≤ 1 / 2) (hz : z ≤ n) : R ≤ n := by
  have := (abs_le.mp h).1
  have hlt : (R : ℚ) < n + 1 := by linarith
  exact Nat.lt_succ_iff.mp (by exact_mod_cast hlt)

/-- An integer within a half does not pass another one from above. -/
theorem ge_of_half {z : ℚ} {R n : ℕ} (h : |z - R| ≤ 1 / 2) (hz : n ≤ z) : n ≤ R := by
  have := (abs_le.mp h).2
  have hlt : (n : ℚ) < R + 1 := by linarith
  exact Nat.lt_succ_iff.mp (by exact_mod_cast hlt)

/-- A multiple of the unit `2 ^ q` that is nearest among these is nearest altogether if the unit is
the one of `y`: a finer number is smaller than the least power of two that has this unit. -/
theorem nearest_of_half {y : ℚ} {q : ℤ} {R : ℕ} (hq : -149 ≤ q) (hlt : y / 2 ^ q < 2 ^ 24)
    (hlong : q = -149 ∨ 2 ^ 23 ≤ y / 2 ^ q) (hhalf : |y / 2 ^ q - R| ≤ 1 / 2) :
    Nearest y (R * 2 ^ q) := by
  have hR : R ≤ 2 ^ 24 := le_of_half hhalf (by exact_mod_cast hlt.le)
  have hpos : (0 : ℚ) < 2 ^ q := by positivity
  have hmultiple (n : ℤ) : |y - R * 2 ^ q| ≤ |y - n * 2 ^ q| := by
    have hscale (x : ℚ) : y - x * 2 ^ q = (y / 2 ^ q - x) * 2 ^ q := by field_simp
    have hnear := abs_sub_le_of_half (k := R) (by rwa [Int.cast_natCast]) n
    rw [Int.cast_natCast] at hnear
    rw [hscale, hscale, abs_mul, abs_mul]
    exact mul_le_mul_of_nonneg_right hnear (abs_nonneg _)
  refine ⟨?_, ?_⟩
  · rcases hR.eq_or_lt with rfl | hR
    · refine ⟨2 ^ 23, q + 1, by norm_num, by omega, ?_⟩
      rw [zpow_add_one₀ two_ne_zero]
      push_cast
      ring
    · exact ⟨R, q, by simpa using hR, hq, by push_cast; rfl⟩
  · rintro s ⟨n, f, hn, hf, rfl⟩
    rcases le_or_gt q f with hqf | hqf
    · -- The other number is a multiple of the unit, too.
      obtain ⟨k, rfl⟩ := Int.le.dest hqf
      have := hmultiple (n * 2 ^ k)
      rwa [Int.cast_mul, mul_assoc, Int.cast_pow, Int.cast_ofNat, ← zpow_natCast,
        ← zpow_add₀ two_ne_zero, add_comm] at this
    · -- The other number is finer. The least power of two with this unit is between it and `y`.
      have hlow : (2 : ℚ) ^ 23 * 2 ^ q ≤ y := (le_div_iff₀ hpos).mp (hlong.resolve_left (by omega))
      have hfine : (n : ℚ) * 2 ^ f ≤ 2 ^ 23 * 2 ^ q := by
        have hn' : (n : ℚ) ≤ 2 ^ 24 := by exact_mod_cast (lt_of_abs_lt hn).le
        calc (n : ℚ) * 2 ^ f ≤ 2 ^ 24 * 2 ^ (q - 1) := by
              gcongr
              · norm_num
              · omega
          _ = 2 ^ 23 * 2 ^ q := by
              rw [zpow_sub_one₀ two_ne_zero]
              ring
      calc |y - R * 2 ^ q| ≤ |y - (2 ^ 23 : ℤ) * 2 ^ q| := hmultiple _
        _ = y - 2 ^ 23 * 2 ^ q := by
            push_cast
            exact abs_of_nonneg (by linarith)
        _ ≤ |y - n * 2 ^ f| := le_trans (by linarith) (le_abs_self _)

/-- The binary32 number `u`, before an exponent that is too large makes it infinite, is a finite
one nearest to `y`. -/
structure Rounds (y : ℚ) (u : UnpackedFloat) : Prop where
  finite : u.isFinite
  canonical : Canonical u
  nearest : Nearest y (value u)

theorem Nearest.signed {y r : ℚ} (h : Nearest y r) (sign : Sign) :
    Nearest (signed sign y) (signed sign r) := by
  cases sign with
  | negative => exact h.neg
  | positive => exact h

theorem Rounds.of_fits {y : ℚ} {m : ℕ} {e : ℤ} (hfits : Fits m e) (h : Nearest y (m * 2 ^ e))
    (sign : Sign) :
    Rounds (signed sign y)
      (if hm : m = 0 then .zero sign else .finite sign m e (Nat.pos_of_ne_zero hm)) := by
  split_ifs with hm
  · subst hm
    refine ⟨rfl, trivial, ?_⟩
    have hzero : value (.zero sign) = Binary32.signed sign ((0 : ℕ) * 2 ^ e) := by
      cases sign <;> simp [value, Binary32.signed]
    exact hzero ▸ h.signed sign
  · exact ⟨rfl, hfits, h.signed sign⟩

/-- A mantissa below `2 ^ 24` stays as it is, and `2 ^ 24` itself is halved. -/
theorem shiftToTargetExponent_exact {R : ℕ} {q : ℤ} (hR : R ≤ 2 ^ 24) (hq : -149 ≤ q)
    (hlong : q = -149 ∨ 2 ^ 23 ≤ R) :
    let shifted := shiftToTargetExponent .binary32 R q .exact
    Fits shifted.1.mantissa shifted.2 ∧
      (shifted.1.mantissa : ℚ) * 2 ^ shifted.2 = R * 2 ^ q := by
  unfold shiftToTargetExponent shiftToExponent
  rw [targetExponent_totalExponent]
  dsimp only
  rcases hR.eq_or_lt with rfl | hR
  · rw [Nat.log2_two_pow, show (max ((24 : ℕ) + q - 23) (-149) - q).toNat = 1 by omega]
    refine ⟨⟨by decide, by omega, .inl (by decide)⟩, ?_⟩
    rw [Nat.cast_one, zpow_add_one₀ two_ne_zero]
    change ((2 ^ 23 : ℕ) : ℚ) * _ = _
    push_cast
    ring
  · have hlog : R.log2 ≤ 23 := by
      rcases R.eq_zero_or_pos with rfl | hpos
      · decide
      · exact Nat.lt_succ_iff.mp ((Nat.log2_lt hpos.ne').mpr hR)
    rw [show (max ((R.log2 : ℕ) + q - 23) (-149) - q).toNat = 0 by omega]
    rw [Nat.cast_zero, add_zero]
    exact ⟨⟨hR, hq, hlong.symm⟩, rfl⟩

@[simp]
theorem mantissa_ofMantissaAndAccuracy (m : ℕ) (accuracy : Accuracy) :
    (ExtendedMantissa.ofMantissaAndAccuracy m accuracy).mantissa = m := by
  rcases accuracy with _ | _ | _ | _ <;> rfl

/-- In the unit that it is rounded to, a number has 24 bits before the point, unless the unit is
the least one. -/
theorem bounds_of_describes {m k : ℕ} {e : ℤ} {accuracy : Accuracy} {z : ℚ}
    (h : Describes (.ofMantissaAndAccuracy m accuracy) z)
    (hk : (k : ℤ) = max (m.log2 + e - 23) (-149) - e) :
    z / 2 ^ k < 2 ^ 24 ∧ (e + k = -149 ∨ 2 ^ 23 ≤ z / 2 ^ k) := by
  have hle := h.mantissa_le
  have hlt := h.lt_mantissa_add_one
  rw [mantissa_ofMantissaAndAccuracy] at hle hlt
  have hpos : (0 : ℚ) < 2 ^ k := by positivity
  rw [div_lt_iff₀ hpos, le_div_iff₀ hpos]
  refine ⟨?_, ?_⟩
  · -- The mantissa and what it describes have the same leading bit.
    have hm : m + 1 ≤ 2 ^ (24 + k) :=
      Nat.lt_log2_self.trans_le (Nat.pow_le_pow_right (by norm_num) (by omega))
    calc z < m + 1 := hlt
      _ ≤ 2 ^ (24 + k) := by exact_mod_cast hm
      _ = 2 ^ 24 * 2 ^ k := pow_add ..
  · rcases eq_or_ne (e + k) (-149) with hq | hq
    · exact .inl hq
    · have hm : 2 ^ (23 + k) ≤ m := by
        have hlog : m.log2 = 23 + k := by omega
        rw [← hlog]
        exact Nat.log2_self_le (by rintro rfl; simp at hlog; omega)
      refine .inr (le_trans ?_ hle)
      rw [← pow_add]
      exact_mod_cast hm

/-- What is rounded is nearest to what the mantissa and its residual bits describe. -/
theorem rounds_roundWithAccuracy (sign : Sign) {m : ℕ} {e : ℤ} {accuracy : Accuracy} {y : ℚ}
    (hdescribes : Describes (.ofMantissaAndAccuracy m accuracy) (y / 2 ^ e))
    (he : e ≤ max (m.log2 + e - 23) (-149)) :
    Rounds (signed sign y) (roundWithAccuracy .binary32 sign m e accuracy) := by
  -- The first shift brings the mantissa to its unit, where it is rounded.
  obtain ⟨k, hk⟩ := Int.eq_ofNat_of_zero_le (sub_nonneg.mpr he)
  obtain ⟨hlt, hlong⟩ := bounds_of_describes hdescribes hk.symm
  have hshifted := hdescribes.shiftRight k
  have hscale : y / 2 ^ e / 2 ^ k = y / 2 ^ (e + k) := by
    rw [div_div, ← zpow_natCast, ← zpow_add₀ two_ne_zero]
  rw [hscale] at hlt hlong hshifted
  have hfirst : shiftToTargetExponent .binary32 m e accuracy =
      (ExtendedMantissa.ofMantissaAndAccuracy m accuracy >>> k, e + k) := by
    unfold shiftToTargetExponent shiftToExponent
    rw [targetExponent_totalExponent]
    dsimp only
    rw [hk]
    rfl
  have hnearest := nearest_of_half (by omega) hlt hlong hshifted.abs_sub_le
  -- The second shift is for a mantissa that has been rounded up to the next power of two.
  obtain ⟨hfits, heq⟩ := shiftToTargetExponent_exact
    (le_of_half hshifted.abs_sub_le (by exact_mod_cast hlt.le)) (by omega)
    (hlong.imp_right fun h => ge_of_half hshifted.abs_sub_le (by exact_mod_cast h))
  unfold roundWithAccuracy
  rw [hfirst]
  dsimp only
  exact .of_fits hfits (heq ▸ hnearest) sign

theorem shiftLeft_mul_zpow (m k : ℕ) (e : ℤ) :
    ((m <<< k : ℕ) : ℚ) * 2 ^ (e - k) = m * 2 ^ e := by
  rw [Nat.shiftLeft_eq, zpow_sub₀ two_ne_zero, zpow_natCast]
  push_cast
  field_simp

theorem log2_shiftLeft {m : ℕ} (hm : m ≠ 0) (k : ℕ) : (m <<< k).log2 = m.log2 + k := by
  induction k with
  | zero => rfl
  | succ k ih =>
    rw [Nat.shiftLeft_succ, Nat.log2_two_mul (by simpa using hm), ih, Nat.add_assoc]

/-- A mantissa of any length is rounded to a nearest number. -/
theorem rounds_round (sign : Sign) {m : ℕ} (hm : m ≠ 0) (e : ℤ) :
    Rounds (signed sign (m * 2 ^ e)) (UnpackedFloat.round .binary32 sign m e) := by
  unfold UnpackedFloat.round decreaseExponent
  rw [targetExponent_totalExponent]
  dsimp only
  rw [← shiftLeft_mul_zpow m (e - max (m.log2 + e - 23) (-149)).toNat]
  refine rounds_roundWithAccuracy sign (mul_div_cancel_right₀ _ (by positivity)) ?_
  rw [log2_shiftLeft hm]
  omega

theorem rounds_normalize (n : ℤ) (e : ℤ) (zeroSign : Sign) :
    Rounds (n * 2 ^ e) (UnpackedFloat.normalize .binary32 n e zeroSign) := by
  have hcast {k : ℤ} (hk : 0 ≤ k) : ((k.toNat : ℕ) : ℚ) = k := by
    rw [← Int.cast_natCast, Int.toNat_of_nonneg hk]
  unfold UnpackedFloat.normalize
  rcases lt_trichotomy n 0 with hn | rfl | hn
  · rw [compare_lt_iff_lt.mpr hn]
    have := rounds_round .negative (m := (-n).toNat) (by omega) e
    rwa [hcast (by omega), signed, Int.cast_neg, neg_mul, neg_neg] at this
  · exact ⟨rfl, trivial, by simpa [value] using Nearest.refl representable_zero⟩
  · rw [compare_gt_iff_gt.mpr hn]
    have := rounds_round .positive (m := n.toNat) (by omega) e
    rwa [hcast hn.le, signed] at this

end Binary32

end AgentPlanning
