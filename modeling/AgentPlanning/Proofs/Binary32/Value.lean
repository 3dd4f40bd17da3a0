import Mathlib

/-!
# The Numbers of the binary32 Format

A binary32 number that is neither infinite nor a NaN stands for a rational number. The standard
library computes with numbers that are unpacked into a sign, a mantissa and an exponent; these are
in canonical form, where comparing the parts amounts to comparing the numbers. Main statements:

* `canonical_unpack`: every bit pattern is unpacked into canonical form;
* `unpack_pack`: a number in canonical form survives packing unless its exponent is too large;
* `compare_eq`: the comparison of finite numbers is the comparison of what they stand for;
* `eq_of_value_eq`: two numbers of the same value other than zero have the same parts.
-/

namespace AgentPlanning

namespace Binary32

open Float.Model
open Float.Model.UnpackedFloat

/-- `x` with the sign `sign`. -/
def signed (sign : Sign) (x : ℚ) : ℚ :=
  match sign with
  | .negative => -x
  | .positive => x

/-- The number that a finite binary32 number stands for. The others count as zero. -/
def value : UnpackedFloat → ℚ
  | .finite sign m e _ => signed sign (m * 2 ^ e)
  | _ => 0

/-- The mantissa `m` and the exponent `e` are those of a binary32 number, but for an upper bound of
the exponent. -/
structure Fits (m : ℕ) (e : ℤ) : Prop where
  /-- The mantissa has at most 24 bits. -/
  lt : m < 2 ^ 24
  /-- The exponent is at least that of the subnormal numbers. -/
  min_le : -149 ≤ e
  /-- The mantissa has the full length unless the exponent is the least. -/
  long : 2 ^ 23 ≤ m ∨ e = -149

/-- The mantissa and the exponent are the ones that the format has for the number. -/
def Canonical : UnpackedFloat → Prop
  | .finite _ m e _ => Fits m e
  | _ => True

/-- An exponent that is too large to be packed makes a number infinite. -/
def capped : UnpackedFloat → UnpackedFloat
  | .finite sign m e hm => if 105 ≤ e then .infinity sign else .finite sign m e hm
  | u => u

/-! ## Packing -/

theorem toNat_implicit (mantissa : BitVec 23) :
    (1#1 ++ mantissa).toNat = 2 ^ 23 + mantissa.toNat := by
  rw [BitVec.toNat_append, ← Nat.shiftLeft_add_eq_or_of_lt mantissa.isLt]
  rfl

/-- What is packed from components is unpacked into them. -/
theorem unpack_packComponents (sign : Sign) (exponent : BitVec 8) (mantissa : BitVec 23) :
    UnpackedFloat.unpack .binary32 (packComponents .binary32 sign exponent mantissa) =
      if exponent = -1#8 then
        if mantissa = 0#23 then .infinity sign else .notANumber
      else if exponent = 0#8 then
        if h : mantissa = 0#23 then .zero sign
        else .finite sign mantissa.toNat (-149)
          (by simpa [BitVec.toNat_pos, BitVec.pos_iff_ne_zero] using h)
      else
        .finite sign (2 ^ 23 + mantissa.toNat) (exponent.toNat - 150) (by omega) := by
  unfold UnpackedFloat.unpack
  simp only [unpackSign_packComponents, unpackExponent_packComponents,
    unpackMantissa_packComponents, Sign.ofBitVec_toBitVec, toNat_implicit]
  split_ifs <;> simp_all [Format.exponentBias]

@[simp]
theorem exponentBias_binary32 : Format.binary32.exponentBias = 127 := rfl

@[simp]
theorem mantissaBits_binary32 : Format.binary32.mantissaBits = 24 := rfl

theorem unpack_packedInfinity (sign : Sign) :
    UnpackedFloat.unpack .binary32 (packedInfinity .binary32 sign) = .infinity sign :=
  unpack_packComponents sign (-1#8) 0#23

/-- A number in canonical form survives packing unless its exponent is too large. -/
theorem unpack_pack {u : UnpackedFloat} (hu : Canonical u) :
    (Float32.Model.pack u).unpack = capped u := by
  change UnpackedFloat.unpack .binary32 (UnpackedFloat.pack .binary32 u) = capped u
  fun_cases UnpackedFloat.pack .binary32 u with
  | case1 => exact unpack_packedNaN
  | case2 sign => exact unpack_packedInfinity sign
  | case3 sign => exact unpack_packedZero
  | case4 sign m e hm biased h =>
    have he : 105 ≤ e := by
      simp only [exponentBias_binary32, biased] at h
      omega
    rw [capped, if_pos he, unpack_packedInfinity]
  | case5 sign m e hm bits biased h hbits =>
    -- A normal number: packing drops the leading bit of the mantissa, and unpacking restores it.
    obtain ⟨hlt, hmin, -⟩ := hu
    simp only [exponentBias_binary32, biased] at h
    have he : ¬105 ≤ e := by omega
    have hbound : 2 ^ 23 ≤ m := by
      have := Nat.log2_self_le hm.ne'
      simp only [mantissaBits_binary32, bits] at hbits
      rwa [show m.log2 = 23 by omega] at this
    have hexp : (BitVec.ofNat 8 biased).toNat = biased := by
      rw [BitVec.toNat_ofNat]
      simp only [exponentBias_binary32, biased]
      omega
    have hfields : BitVec.ofNat 8 biased ≠ -1#8 ∧ BitVec.ofNat 8 biased ≠ 0#8 := by
      simp only [ne_eq, ← BitVec.toNat_inj, hexp]
      simp [biased]
      omega
    rw [capped, if_neg he, unpack_packComponents, if_neg hfields.1, if_neg hfields.2, hexp]
    simp [biased]
    omega
  | case6 sign m e hm bits biased h hbits =>
    -- A subnormal number: a mantissa that is not of full length has the least exponent.
    obtain ⟨hlt, hmin, hshort⟩ := hu
    have hbound : m < 2 ^ 23 := by
      rw [← Nat.log2_lt hm.ne'] at hlt ⊢
      simp only [mantissaBits_binary32, bits] at hbits
      omega
    obtain rfl : e = -149 := by omega
    have hm' : (BitVec.ofNat 23 m).toNat = m := by
      rw [BitVec.toNat_ofNat, Nat.mod_eq_of_lt hbound]
    have hne : BitVec.ofNat 23 m ≠ 0#23 := by
      simp only [ne_eq, ← BitVec.toNat_inj, hm']
      simpa using hm.ne'
    rw [capped, if_neg (by decide), unpack_packComponents, if_neg (by decide), if_pos rfl,
      dif_neg hne]
    simp only [hm']

/-- The bounds of the mantissa and the exponent that a bit pattern is unpacked into. -/
theorem fits_of_unpack {x : Float32.Model} {sign : Sign} {m : ℕ} {e : ℤ} {hm : 0 < m}
    (h : x.unpack = .finite sign m e hm) : Fits m e ∧ e ≤ 104 := by
  unfold Float32.Model.unpack UnpackedFloat.unpack at h
  have hmantissa : (@unpackMantissa .binary32 x.toBits.toBitVec).toNat < 2 ^ 23 :=
    (@unpackMantissa .binary32 x.toBits.toBitVec).isLt
  have hexponent : (@unpackExponent .binary32 x.toBits.toBitVec).toNat < 2 ^ 8 :=
    (@unpackExponent .binary32 x.toBits.toBitVec).isLt
  dsimp only at h
  split_ifs at h with hinf hnan hsub hzero
  · -- A subnormal number.
    obtain ⟨-, rfl, rfl, -⟩ := h
    simp only [hsub, exponentBias_binary32, BitVec.toNat_zero]
    exact ⟨⟨by omega, by omega, .inr (by omega)⟩, by omega⟩
  · -- A normal number: the exponent field is neither all zeros nor all ones.
    obtain ⟨-, rfl, rfl, -⟩ := h
    simp only [toNat_implicit, exponentBias_binary32]
    rw [← BitVec.toNat_inj] at hinf hsub
    have hfields : (-1#8).toNat = 255 ∧ (0#8).toNat = 0 := ⟨rfl, rfl⟩
    exact ⟨⟨by omega, by omega, .inl (by omega)⟩, by omega⟩

theorem canonical_unpack (x : Float32.Model) : Canonical x.unpack := by
  cases h : x.unpack with
  | finite sign m e hm => exact (fits_of_unpack h).1
  | _ => trivial

@[simp]
theorem capped_unpack (x : Float32.Model) : capped x.unpack = x.unpack := by
  cases h : x.unpack with
  | finite sign m e hm => exact if_neg (by have := (fits_of_unpack h).2; omega)
  | _ => rfl

/-- Where a number is capped, it does not become a NaN. -/
theorem isNaN_capped (u : UnpackedFloat) : (capped u).isNaN = u.isNaN := by
  cases u with
  | finite sign m e hm =>
    rw [capped]
    split_ifs <;> rfl
  | _ => rfl

/-! ## Comparing -/

theorem value_finite_pos {m : ℕ} {e : ℤ} (hm : 0 < m) : 0 < value (.finite .positive m e hm) := by
  simp only [value, signed]
  positivity

theorem value_finite_neg {m : ℕ} {e : ℤ} (hm : 0 < m) : value (.finite .negative m e hm) < 0 := by
  have := value_finite_pos (e := e) hm
  simp only [value, signed] at this ⊢
  linarith

theorem value_finite_ne_zero {sign : Sign} {m : ℕ} {e : ℤ} (hm : 0 < m) :
    value (.finite sign m e hm) ≠ 0 := by
  cases sign with
  | negative => exact (value_finite_neg hm).ne
  | positive => exact (value_finite_pos hm).ne'

/-- A greater exponent makes a greater number, as its mantissa has the full length. -/
theorem magnitude_lt {m m' : ℕ} {e e' : ℤ} (h : Fits m e) (h' : Fits m' e') (he : e < e') :
    (m : ℚ) * 2 ^ e < m' * 2 ^ e' := by
  have hlong : (2 : ℚ) ^ 23 ≤ m' := by
    have := h.min_le
    exact_mod_cast h'.long.resolve_right (by omega)
  calc (m : ℚ) * 2 ^ e < 2 ^ 24 * 2 ^ e := by
        gcongr
        exact_mod_cast h.lt
    _ = 2 ^ 23 * 2 ^ (e + 1) := by
        rw [zpow_add_one₀ two_ne_zero]
        ring
    _ ≤ m' * 2 ^ e' := by
        gcongr
        · norm_num
        · omega

theorem compare_magnitudes {m m' : ℕ} {e e' : ℤ} (h : Fits m e) (h' : Fits m' e') :
    (compare e e').then (compare m m') = compare ((m : ℚ) * 2 ^ e) (m' * 2 ^ e') := by
  rcases lt_trichotomy e e' with he | rfl | he
  · rw [compare_lt_iff_lt.mpr he, compare_lt_iff_lt.mpr (magnitude_lt h h' he)]
    rfl
  · have hpos : (0 : ℚ) < 2 ^ e := by positivity
    rw [compare_eq_iff_eq.mpr rfl, Ordering.eq_then]
    rcases lt_trichotomy m m' with hm | rfl | hm
    · rw [compare_lt_iff_lt.mpr hm, compare_lt_iff_lt.mpr]
      gcongr
    · rw [compare_eq_iff_eq.mpr rfl, compare_eq_iff_eq.mpr rfl]
    · rw [compare_gt_iff_gt.mpr hm, compare_gt_iff_gt.mpr]
      gcongr
  · rw [compare_gt_iff_gt.mpr he, compare_gt_iff_gt.mpr (magnitude_lt h' h he)]
    rfl

/-- Changing both signs turns a comparison around. -/
theorem compare_neg (x y : ℚ) : compare (-x) (-y) = compare y x := by
  rcases lt_trichotomy x y with h | rfl | h
  · rw [compare_gt_iff_gt.mpr h, compare_gt_iff_gt.mpr (neg_lt_neg h)]
  · rw [compare_eq_iff_eq.mpr rfl, compare_eq_iff_eq.mpr rfl]
  · rw [compare_lt_iff_lt.mpr h, compare_lt_iff_lt.mpr (neg_lt_neg h)]

/-- Comparing two finite numbers in canonical form amounts to comparing what they stand for. -/
theorem compare_eq {u v : UnpackedFloat} (hu : Canonical u) (hv : Canonical v)
    (hfinite : u.isFinite) (hfinite' : v.isFinite) :
    u.compare v = some (compare (value u) (value v)) := by
  -- The comparison goes by the constructors and signs first, and only then by the magnitudes.
  rcases u with _ | _ | s | ⟨s, m, e, hm⟩ <;> cases hfinite
  · rcases v with _ | _ | s' | ⟨s', m', e', hm'⟩ <;> cases hfinite'
    · exact congrArg some (compare_eq_iff_eq.mpr rfl).symm
    · cases s' with
      | positive => exact congrArg some (compare_lt_iff_lt.mpr (value_finite_pos hm')).symm
      | negative => exact congrArg some (compare_gt_iff_gt.mpr (value_finite_neg hm')).symm
  · rcases v with _ | _ | s' | ⟨s', m', e', hm'⟩ <;> cases hfinite'
    · cases s with
      | positive => exact congrArg some (compare_gt_iff_gt.mpr (value_finite_pos hm)).symm
      | negative => exact congrArg some (compare_lt_iff_lt.mpr (value_finite_neg hm)).symm
    · cases s <;> cases s'
      · refine congrArg some ?_
        rw [compare_magnitudes hu hv, ← Std.OrientedOrd.eq_swap, ← compare_neg]
        simp [value, signed]
      · exact congrArg some (compare_lt_iff_lt.mpr
          ((value_finite_neg hm).trans (value_finite_pos hm'))).symm
      · exact congrArg some (compare_gt_iff_gt.mpr
          ((value_finite_neg hm').trans (value_finite_pos hm))).symm
      · exact congrArg some (compare_magnitudes hu hv)

theorem eq_of_magnitude_eq {m m' : ℕ} {e e' : ℤ} (h : Fits m e) (h' : Fits m' e')
    (heq : (m : ℚ) * 2 ^ e = m' * 2 ^ e') : m = m' ∧ e = e' := by
  have hcompare := compare_magnitudes h h'
  rw [compare_eq_iff_eq.mpr heq, Ordering.then_eq_eq] at hcompare
  exact ⟨compare_eq_iff_eq.mp hcompare.2, compare_eq_iff_eq.mp hcompare.1⟩

/-- Two numbers in canonical form of the same value have the same parts, unless they are zero. -/
theorem eq_of_value_eq {u v : UnpackedFloat} (hu : Canonical u) (hv : Canonical v)
    (hne : value u ≠ 0) (heq : value u = value v) : u = v := by
  have hne' : value v ≠ 0 := heq ▸ hne
  rcases u with _ | _ | s | ⟨s, m, e, hm⟩ <;> try exact absurd rfl hne
  rcases v with _ | _ | s' | ⟨s', m', e', hm'⟩ <;> try exact absurd rfl hne'
  cases s <;> cases s'
  · obtain ⟨rfl, rfl⟩ := eq_of_magnitude_eq hu hv (by simpa [value, signed] using heq)
    rfl
  · exact absurd heq ((value_finite_neg hm).trans (value_finite_pos hm')).ne
  · exact absurd heq ((value_finite_neg hm').trans (value_finite_pos hm)).ne'
  · obtain ⟨rfl, rfl⟩ := eq_of_magnitude_eq hu hv (by simpa [value, signed] using heq)
    rfl

end Binary32

end AgentPlanning
