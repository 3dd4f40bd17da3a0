import AgentPlanning.Proofs.Binary32.Rounding

/-!
# Arithmetic in binary32

The result of an operation on finite numbers is a nearest one to the exact result, or infinite
where the format ends. Main statements:

* `isRounding_add`, `isRounding_sub`, `isRounding_mul`, `isRounding_div`: the four operations;
* `lt_iff`, `le_iff`, `beq_iff`: finite numbers are compared as what they stand for;
* `isNaN_add`, `isNaN_mul`: which sums and products with a finite number are a NaN.
-/

namespace AgentPlanning

namespace Binary32

open Float.Model
open Float.Model.UnpackedFloat

/-! ## Sums and differences -/

theorem representable_value {u : UnpackedFloat} (hu : Canonical u) : Representable (value u) := by
  cases u with
  | finite sign m e hm =>
    have h : Representable (m * 2 ^ e) :=
      ⟨m, e, by simpa using hu.lt, hu.min_le, by push_cast; rfl⟩
    cases sign with
    | negative => exact h.neg
    | positive => exact h
  | _ => exact representable_zero

theorem Rounds.refl {u : UnpackedFloat} (hu : Canonical u) (hfinite : u.isFinite) :
    Rounds (value u) u :=
  ⟨hfinite, hu, .refl (representable_value hu)⟩

theorem rounds_zero (sign : Sign) : Rounds 0 (.zero sign) :=
  .refl (u := .zero sign) trivial rfl

/-- A mantissa that is brought to a smaller exponent stands for the same number. -/
theorem apply_decreaseExponent (sign : Sign) (m : ℕ) {e t : ℤ} (h : t ≤ e) :
    ((sign.apply (decreaseExponent m e t).1 : ℤ) : ℚ) * 2 ^ t = signed sign (m * 2 ^ e) := by
  have hshift := shiftLeft_mul_zpow m (e - t).toNat e
  rw [show e - ((e - t).toNat : ℤ) = t by omega] at hshift
  rw [← hshift]
  cases sign with
  | negative =>
    simp only [decreaseExponent, Sign.apply, signed]
    push_cast
    exact neg_mul ..
  | positive =>
    simp only [decreaseExponent, Sign.apply, signed]
    push_cast
    rfl

theorem rounds_add {u v : UnpackedFloat} (hu : Canonical u) (hv : Canonical v)
    (hfinite : u.isFinite) (hfinite' : v.isFinite) :
    Rounds (value u + value v) (UnpackedFloat.add .binary32 u v) := by
  rcases u with _ | _ | s | ⟨s, m, e, hm⟩ <;> cases hfinite <;>
    rcases v with _ | _ | s' | ⟨s', m', e', hm'⟩ <;> cases hfinite'
  · have hzero : UnpackedFloat.add .binary32 (.zero s) (.zero s') =
        .zero (if s == s' then s else .positive) := by
      cases s <;> cases s' <;> rfl
    rw [hzero]
    exact (add_zero (0 : ℚ)).symm ▸ rounds_zero _
  · exact (zero_add (value (.finite s' m' e' hm'))).symm ▸ .refl hv rfl
  · exact (add_zero (value (.finite s m e hm))).symm ▸ .refl hu rfl
  · have hsum := rounds_normalize
      (s.apply (decreaseExponent m e (min e e')).1 + s'.apply (decreaseExponent m' e' (min e e')).1)
      (min e e') .positive
    rwa [Int.cast_add, add_mul, apply_decreaseExponent s m (min_le_left ..),
      apply_decreaseExponent s' m' (min_le_right ..)] at hsum

/-- A difference is the sum with the negation, but for the sign of zero. -/
theorem rounds_sub {u v : UnpackedFloat} (hu : Canonical u) (hv : Canonical v)
    (hfinite : u.isFinite) (hfinite' : v.isFinite) :
    Rounds (value u - value v) (UnpackedFloat.sub .binary32 u v) := by
  rcases u with _ | _ | s | ⟨s, m, e, hm⟩ <;> cases hfinite <;>
    rcases v with _ | _ | s' | ⟨s', m', e', hm'⟩ <;> cases hfinite'
  · have hzero : UnpackedFloat.sub .binary32 (.zero s) (.zero s') =
        .zero (if s == -s' then s else .positive) := by
      cases s <;> cases s' <;> rfl
    rw [hzero]
    exact (sub_zero (0 : ℚ)).symm ▸ rounds_zero _
  · have hneg : 0 - value (.finite s' m' e' hm') = value (.finite (-s') m' e' hm') := by
      cases s'
      · exact (zero_sub _).trans (neg_neg _)
      · exact zero_sub _
    exact hneg ▸ .refl (u := .finite (-s') m' e' hm') hv rfl
  · exact (sub_zero (value (.finite s m e hm))).symm ▸ .refl hu rfl
  · have hdifference := rounds_normalize
      (s.apply (decreaseExponent m e (min e e')).1 - s'.apply (decreaseExponent m' e' (min e e')).1)
      (min e e') .positive
    rwa [Int.cast_sub, sub_mul, apply_decreaseExponent s m (min_le_left ..),
      apply_decreaseExponent s' m' (min_le_right ..)] at hdifference

/-! ## Products and quotients -/

theorem signed_mul (s s' : Sign) (x y : ℚ) :
    signed (s * s') (x * y) = signed s x * signed s' y := by
  cases s <;> cases s'
  · exact (neg_mul_neg x y).symm
  · exact (neg_mul x y).symm
  · exact (mul_neg x y).symm
  · rfl

theorem signed_div (s s' : Sign) (x y : ℚ) :
    signed (s / s') (x / y) = signed s x / signed s' y := by
  cases s <;> cases s'
  · exact (neg_div_neg_eq x y).symm
  · exact (neg_div y x).symm
  · exact (div_neg x).symm
  · rfl

/-- Two mantissas have enough bits in their product. -/
theorem le_of_fits_mul {m m' : ℕ} {e e' : ℤ} (h : Fits m e) (h' : Fits m' e') (hm : 0 < m)
    (hm' : 0 < m') : e + e' ≤ max ((m * m').log2 + (e + e') - 23) (-149) := by
  have hmin := h.min_le
  have hmin' := h'.min_le
  have hlog (hlong : 2 ^ 23 ≤ m * m') : 23 ≤ (m * m').log2 :=
    (Nat.le_log2 (Nat.mul_pos hm hm').ne').mpr hlong
  rcases h.long with hlong | rfl
  · have := hlog (hlong.trans (Nat.le_mul_of_pos_right m hm'))
    omega
  · rcases h'.long with hlong | rfl
    · have := hlog (hlong.trans (Nat.le_mul_of_pos_left m' hm))
      omega
    · omega

theorem rounds_mul {u v : UnpackedFloat} (hu : Canonical u) (hv : Canonical v)
    (hfinite : u.isFinite) (hfinite' : v.isFinite) :
    Rounds (value u * value v) (UnpackedFloat.mul .binary32 u v) := by
  rcases u with _ | _ | s | ⟨s, m, e, hm⟩ <;> cases hfinite <;>
    rcases v with _ | _ | s' | ⟨s', m', e', hm'⟩ <;> cases hfinite'
  · exact (mul_zero (0 : ℚ)).symm ▸ rounds_zero (s * s')
  · exact (zero_mul (value (.finite s' m' e' hm'))).symm ▸ rounds_zero (s * s')
  · exact (mul_zero (value (.finite s m e hm))).symm ▸ rounds_zero (s * s')
  · rw [value, value, ← signed_mul]
    refine rounds_roundWithAccuracy (s * s') ?_ (le_of_fits_mul hu hv hm hm')
    change (m * 2 ^ e * (m' * 2 ^ e') : ℚ) / 2 ^ (e + e') = (m * m' : ℕ)
    rw [zpow_add₀ two_ne_zero]
    push_cast
    field_simp

/-- The remainder of a division says where the quotient lies. -/
theorem describes_accuracyOfFraction (n : ℕ) {d : ℕ} (hd : 0 < d) :
    Describes (.ofMantissaAndAccuracy (n / d) (accuracyOfFraction (n % d) d)) (n / d) := by
  have hd' : (0 : ℚ) < d := by exact_mod_cast hd
  have hquotient : (n : ℚ) / d = (n / d : ℕ) + (n % d : ℕ) / d := by
    rw [div_eq_iff hd'.ne', add_mul, div_mul_cancel₀ _ hd'.ne']
    exact_mod_cast (Nat.div_add_mod' n d).symm
  rw [hquotient]
  have hlt : ((n % d : ℕ) : ℚ) / d < 1 := by
    rw [div_lt_one hd']
    exact_mod_cast Nat.mod_lt n hd
  generalize n / d = quotient, n % d = remainder at *
  unfold accuracyOfFraction
  split_ifs with hzero
  · simp [Describes, ExtendedMantissa.ofMantissaAndAccuracy, hzero]
  · have hpos : 0 < (remainder : ℚ) / d := by positivity
    rcases lt_trichotomy (2 * remainder) d with h | h | h
    · have hhalf : (remainder : ℚ) / d < 1 / 2 := by
        rw [div_lt_div_iff₀ hd' two_pos]
        exact_mod_cast (by omega)
      rw [compare_lt_iff_lt.mpr h]
      exact ⟨by linarith, by linarith⟩
    · have hhalf : (remainder : ℚ) / d = 1 / 2 := by
        rw [div_eq_div_iff hd'.ne' two_ne_zero]
        exact_mod_cast (by omega)
      rw [compare_eq_iff_eq.mpr h, hhalf]
      rfl
    · have hhalf : 1 / 2 < (remainder : ℚ) / d := by
        rw [div_lt_div_iff₀ two_pos hd']
        exact_mod_cast (by omega)
      rw [compare_gt_iff_gt.mpr h]
      exact ⟨by linarith, by linarith⟩

/-- A dividend that is long enough leaves 24 bits for the quotient. -/
theorem log2_div_ge {m m' k : ℕ} (hm : 0 < m) (hm' : 0 < m') (hk : 24 + m'.log2 ≤ m.log2 + k) :
    23 ≤ (m <<< k / m').log2 := by
  have hlong : 2 ^ 23 ≤ m <<< k / m' := by
    rw [Nat.le_div_iff_mul_le hm', Nat.shiftLeft_eq]
    calc 2 ^ 23 * m' ≤ 2 ^ 23 * 2 ^ (m'.log2 + 1) := by gcongr; exact Nat.lt_log2_self.le
      _ = 2 ^ (24 + m'.log2) := by ring
      _ ≤ 2 ^ (m.log2 + k) := Nat.pow_le_pow_right (by norm_num) hk
      _ = 2 ^ m.log2 * 2 ^ k := pow_add ..
      _ ≤ m * 2 ^ k := by gcongr; exact Nat.log2_self_le hm.ne'
  exact (Nat.le_log2 (by omega)).mpr hlong

theorem rounds_div {u v : UnpackedFloat} (hfinite : u.isFinite) (hne : value v ≠ 0) :
    Rounds (value u / value v) (UnpackedFloat.div .binary32 u v) := by
  rcases v with _ | _ | s' | ⟨s', m', e', hm'⟩ <;> try exact absurd rfl hne
  rcases u with _ | _ | s | ⟨s, m, e, hm⟩ <;> cases hfinite
  · exact (zero_div (value (.finite s' m' e' hm'))).symm ▸ rounds_zero (s / s')
  · rw [value, value, ← signed_div]
    unfold UnpackedFloat.div divCore
    simp only [Format.targetExponent, totalExponent, mantissaBits_binary32, minExponent_binary32]
    generalize htarget : min (e - e')
      (max ((m.log2 : ℤ) + 1 + e - (m'.log2 + 1 + e') - (24 : ℕ)) (-149)) = target
    -- The dividend is shifted until the quotient of the mantissas has enough bits.
    obtain ⟨k, hk⟩ := Int.eq_ofNat_of_zero_le (a := e - e' - target) (by omega)
    rw [hk, Int.toNat_natCast]
    refine rounds_roundWithAccuracy (s / s') ?_ ?_
    · have hscale : (m * 2 ^ e / (m' * 2 ^ e') : ℚ) / 2 ^ target = (m <<< k : ℕ) / m' := by
        have hne' : (m' : ℚ) ≠ 0 := by exact_mod_cast hm'.ne'
        rw [show e = e' + target + k by omega, zpow_add₀ two_ne_zero, zpow_add₀ two_ne_zero,
          zpow_natCast, Nat.shiftLeft_eq]
        push_cast
        field_simp
      rw [hscale]
      exact describes_accuracyOfFraction _ hm'
    · rcases le_or_gt target (-149) with hle | hgt
      · omega
      · have := log2_div_ge hm hm' (k := k) (by omega)
        omega

/-! ## Packed numbers -/

/-- The number that a finite binary32 number stands for. The others count as zero. -/
def number (x : Float32) : ℚ := value x.toModel.unpack

/-- A binary32 number nearest to `y`. Where the format ends, it is infinite. -/
def IsRounding (y : ℚ) (x : Float32) : Prop :=
  ∃ u, Rounds y u ∧ x.toModel.unpack = capped u

theorem isFinite_eq (x : Float32) : x.isFinite = x.toModel.unpack.isFinite := rfl

theorem isNaN_eq (x : Float32) : x.isNaN = x.toModel.unpack.isNaN := rfl

theorem unpack_inj {x y : Float32} : x.toModel.unpack = y.toModel.unpack ↔ x = y :=
  (unpack_inj_of_valid x.toModel.valid y.toModel.valid).trans
    (UInt32.toBitVec_inj.trans Float32.toBits_inj)

theorem eq_of_number_eq {x y : Float32} (hne : number x ≠ 0) (h : number x = number y) : x = y :=
  unpack_inj.mp (eq_of_value_eq (canonical_unpack _) (canonical_unpack _) hne h)

theorem add_eq (x y : Float32) :
    x + y = .ofModel (.pack (.add .binary32 x.toModel.unpack y.toModel.unpack)) := rfl

theorem sub_eq (x y : Float32) :
    x - y = .ofModel (.pack (.sub .binary32 x.toModel.unpack y.toModel.unpack)) := rfl

theorem mul_eq (x y : Float32) :
    x * y = .ofModel (.pack (.mul .binary32 x.toModel.unpack y.toModel.unpack)) := rfl

theorem div_eq (x y : Float32) :
    x / y = .ofModel (.pack (.div .binary32 x.toModel.unpack y.toModel.unpack)) := rfl

theorem Rounds.isRounding {y : ℚ} {u : UnpackedFloat} (h : Rounds y u) :
    IsRounding y (.ofModel (.pack u)) :=
  ⟨u, h, unpack_pack h.canonical⟩

section Operations

variable {x y : Float32}

theorem isRounding_add (hx : x.isFinite) (hy : y.isFinite) :
    IsRounding (number x + number y) (x + y) :=
  (rounds_add (canonical_unpack _) (canonical_unpack _) hx hy).isRounding

theorem isRounding_sub (hx : x.isFinite) (hy : y.isFinite) :
    IsRounding (number x - number y) (x - y) :=
  (rounds_sub (canonical_unpack _) (canonical_unpack _) hx hy).isRounding

theorem isRounding_mul (hx : x.isFinite) (hy : y.isFinite) :
    IsRounding (number x * number y) (x * y) :=
  (rounds_mul (canonical_unpack _) (canonical_unpack _) hx hy).isRounding

theorem isRounding_div (hx : x.isFinite) (hne : number y ≠ 0) :
    IsRounding (number x / number y) (x / y) :=
  (rounds_div hx hne).isRounding

end Operations

theorem isRounding_ofInt32 (n : Int32) : IsRounding n.toInt (.ofModel (.ofInt32 n)) := by
  have h := rounds_normalize n.toInt 0 .positive
  rw [zpow_zero, mul_one] at h
  exact h.isRounding

namespace IsRounding

variable {x : Float32} {y : ℚ}

theorem isNaN_eq_false (h : IsRounding y x) : x.isNaN = false := by
  obtain ⟨u, ⟨hfinite, -, -⟩, hx⟩ := h
  rw [isNaN_eq, hx, isNaN_capped]
  cases u <;> first | rfl | cases hfinite

/-- Away from the end of the format there is a nearest number that is finite. -/
theorem nearest (h : IsRounding y x) (hy : |y| ≤ 2 ^ 127) :
    x.isFinite ∧ Nearest y (number x) := by
  obtain ⟨u, ⟨hfinite, hcanonical, hnearest⟩, hx⟩ := h
  have hcapped : capped u = u := by
    cases u with
    | finite sign m e hm =>
      -- With a larger exponent it would be `2 ^ 128` at least, but `2 ^ 127` is in between.
      refine if_neg fun he => ?_
      have hend := representable_pow 127
      have hle := hnearest.le_representable hend (abs_le.mp hy).2
      have hge := hnearest.representable_le hend.neg (abs_le.mp hy).1
      have hlarge : (2 : ℚ) ^ 23 * 2 ^ (105 : ℤ) ≤ m * 2 ^ e := by
        gcongr
        · exact_mod_cast hcanonical.long.resolve_right (by omega)
        · norm_num
      cases sign <;> simp only [value, signed] at hle hge <;> norm_num at hle hge hlarge <;>
        linarith
    | _ => rfl
  rw [hcapped] at hx
  exact ⟨by rwa [isFinite_eq, hx], by rwa [number, hx]⟩

/-- A nearest number to a finite binary32 number is this number. -/
theorem eq_number {z : Float32} (h : IsRounding (number z) x) :
    x.isFinite ∧ number x = number z := by
  obtain ⟨u, ⟨hfinite, hcanonical, hnearest⟩, hx⟩ := h
  have hvalue := hnearest.eq (representable_value (canonical_unpack z.toModel))
  have hcapped : capped u = u := by
    by_cases hzero : value u = 0
    · cases u with
      | finite sign m e hm => exact absurd hzero (value_finite_ne_zero hm)
      | _ => rfl
    · rw [eq_of_value_eq hcanonical (canonical_unpack z.toModel) hzero hvalue, capped_unpack]
  rw [hcapped] at hx
  exact ⟨by rwa [isFinite_eq, hx], by rw [number, hx, hvalue]⟩

end IsRounding

/-! ## Comparisons -/

theorem lt_iff_compare {x y : Float32} :
    x < y ↔ x.toModel.unpack.compare y.toModel.unpack = some .lt := by
  change decide (x.toModel < y.toModel) = true ↔ _
  rw [decide_eq_true_iff]
  exact beq_iff_eq

theorem lt_iff {x y : Float32} (hx : x.isFinite) (hy : y.isFinite) :
    x < y ↔ number x < number y := by
  rw [lt_iff_compare, compare_eq (canonical_unpack _) (canonical_unpack _) hx hy, Option.some_inj]
  exact compare_lt_iff_lt

theorem beq_iff {x y : Float32} (hx : x.isFinite) (hy : y.isFinite) :
    x == y ↔ number x = number y := by
  change (x.toModel.unpack.compare y.toModel.unpack == some .eq) = true ↔ _
  rw [beq_iff_eq, compare_eq (canonical_unpack _) (canonical_unpack _) hx hy, Option.some_inj]
  exact compare_eq_iff_eq

theorem le_iff {x y : Float32} (hx : x.isFinite) (hy : y.isFinite) :
    x ≤ y ↔ number x ≤ number y := by
  change decide (x.toModel ≤ y.toModel) = true ↔ _
  rw [decide_eq_true_iff]
  change ((x.toModel.unpack.compare y.toModel.unpack).any (·.isLE)) = true ↔ _
  rw [compare_eq (canonical_unpack _) (canonical_unpack _) hx hy]
  exact Ordering.ne_gt_iff_isLE.symm.trans compare_le_iff_le

/-! ## Zero, one and what is not finite -/

/-- Being a NaN is not changed by packing. -/
theorem isNaN_pack {u : UnpackedFloat} (hu : Canonical u) :
    (Float32.ofModel (.pack u)).isNaN = u.isNaN := by
  rw [isNaN_eq, unpack_pack hu, isNaN_capped]

theorem unpack_zero : (0 : Float32).toModel.unpack = .zero .positive := by
  have hpack : (0 : Float32) = .ofModel (.pack (.zero .positive)) := by decide +kernel
  rw [hpack, unpack_pack (u := .zero .positive) trivial]
  rfl

theorem unpack_one :
    (1 : Float32).toModel.unpack = .finite .positive (2 ^ 23) (-23) (Nat.two_pow_pos 23) := by
  have hpack :
      (1 : Float32) = .ofModel (.pack (.finite .positive (2 ^ 23) (-23) (Nat.two_pow_pos 23))) := by
    decide +kernel
  have hfits : Fits (2 ^ 23) (-23) := ⟨by norm_num, by norm_num, .inl le_rfl⟩
  rw [hpack, unpack_pack (u := .finite .positive (2 ^ 23) (-23) (Nat.two_pow_pos 23)) hfits]
  rfl

@[simp]
theorem number_zero : number 0 = 0 := by
  rw [number, unpack_zero]
  rfl

@[simp]
theorem number_one : number 1 = 1 := by
  rw [number, unpack_one, value, signed]
  norm_num

theorem isFinite_zero : (0 : Float32).isFinite := by
  rw [isFinite_eq, unpack_zero]
  rfl

theorem isFinite_one : (1 : Float32).isFinite := by
  rw [isFinite_eq, unpack_one]
  rfl

theorem unpack_of_isNaN {x : Float32} (h : x.isNaN) : x.toModel.unpack = .notANumber :=
  UnpackedFloat.isNaN_iff.mp h

/-- A finite number that stands for zero is one of the two zeros. -/
theorem unpack_of_number_eq_zero {x : Float32} (hfinite : x.isFinite) (h : number x = 0) :
    ∃ sign, x.toModel.unpack = .zero sign := by
  rw [isFinite_eq] at hfinite
  unfold number at h
  generalize x.toModel.unpack = u at *
  rcases u with _ | _ | s | ⟨s, m, e, hm⟩ <;> cases hfinite
  · exact ⟨s, rfl⟩
  · exact absurd h (value_finite_ne_zero hm)

/-- Another number is unpacked with its own sign. -/
theorem unpack_of_number_ne_zero {x : Float32} (h : number x ≠ 0) :
    ∃ m e hm, x.toModel.unpack =
      .finite (if 0 < number x then .positive else .negative) m e hm := by
  unfold number at *
  generalize x.toModel.unpack = u at *
  rcases u with _ | _ | s | ⟨s, m, e, hm⟩ <;> try exact absurd rfl h
  refine ⟨m, e, hm, ?_⟩
  cases s
  · rw [if_neg (value_finite_neg hm).not_gt]
  · rw [if_pos (value_finite_pos hm)]

theorem exists_infinity {x : Float32} (hnan : x.isNaN = false) (hfinite : ¬x.isFinite) :
    ∃ sign, x.toModel.unpack = .infinity sign := by
  rw [isNaN_eq] at hnan
  rw [isFinite_eq] at hfinite
  generalize x.toModel.unpack = u at *
  rcases u with s | _ | _ | _
  · exact ⟨s, rfl⟩
  · cases hnan
  all_goals exact absurd rfl hfinite

theorem sub_self_eq_zero {x : Float32} (hx : x.isFinite) : x - x = 0 := by
  have hzero : UnpackedFloat.sub .binary32 x.toModel.unpack x.toModel.unpack = .zero .positive := by
    rw [isFinite_eq] at hx
    generalize x.toModel.unpack = u at *
    rcases u with _ | _ | s | ⟨s, m, e, hm⟩ <;> cases hx
    · cases s <;> rfl
    · simp only [UnpackedFloat.sub, sub_self]
      rfl
  rw [← unpack_inj, sub_eq, hzero, unpack_zero]
  exact unpack_pack (u := .zero .positive) trivial

theorem isNaN_div_zero {x : Float32} (hfinite : x.isFinite) (hx : number x = 0) :
    (x / 0).isNaN := by
  obtain ⟨s, hunpack⟩ := unpack_of_number_eq_zero hfinite hx
  rw [div_eq, hunpack, unpack_zero]
  exact isNaN_pack (u := .notANumber) trivial

theorem unpack_div_zero {x : Float32} (hx : number x ≠ 0) :
    (x / 0).toModel.unpack = .infinity (if 0 < number x then .positive else .negative) := by
  obtain ⟨m, e, hm, hunpack⟩ := unpack_of_number_ne_zero hx
  rw [div_eq, hunpack, unpack_zero]
  split_ifs <;> exact unpack_pack (u := .infinity _) trivial

/-- A sum with a finite number is a NaN only if the other summand is one. -/
theorem isNaN_add {x y : Float32} (hx : x.isFinite) : (x + y).isNaN = y.isNaN := by
  by_cases hy : y.isFinite
  · rw [(isRounding_add hx hy).isNaN_eq_false, isNaN_eq]
    rw [isFinite_eq] at hy
    cases h : y.toModel.unpack <;> rw [h] at hy <;> first | rfl | cases hy
  · have hsum : UnpackedFloat.add .binary32 x.toModel.unpack y.toModel.unpack =
        y.toModel.unpack := by
      rw [isFinite_eq] at hx hy
      generalize x.toModel.unpack = u, y.toModel.unpack = v at *
      rcases u with _ | _ | s | ⟨s, m, e, hm⟩ <;> cases hx <;>
        rcases v with _ | _ | s' | ⟨s', m', e', hm'⟩ <;> first | rfl | exact absurd rfl hy
    rw [add_eq, hsum, isNaN_pack (canonical_unpack _), isNaN_eq]

theorem isNaN_mul_of_isNaN {x y : Float32} (hy : y.isNaN) : (x * y).isNaN := by
  have hproduct : UnpackedFloat.mul .binary32 x.toModel.unpack .notANumber = .notANumber := by
    cases x.toModel.unpack <;> rfl
  rw [mul_eq, unpack_of_isNaN hy, hproduct]
  exact isNaN_pack (u := .notANumber) trivial

/-- A product with a finite number is a NaN only if it is the product of an infinity and zero. -/
theorem isNaN_mul {x y : Float32} (hx : x.isNaN = false) (hy : y.isFinite) :
    (x * y).isNaN ↔ ¬x.isFinite ∧ number y = 0 := by
  by_cases hfinite : x.isFinite
  · refine iff_of_false ?_ fun h => h.1 hfinite
    rw [(isRounding_mul hfinite hy).isNaN_eq_false]
    exact Bool.false_ne_true
  · obtain ⟨s, hunpack⟩ := exists_infinity hx hfinite
    rw [mul_eq, hunpack]
    by_cases hzero : number y = 0
    · obtain ⟨s', hunpack'⟩ := unpack_of_number_eq_zero hy hzero
      rw [hunpack']
      exact iff_of_true (isNaN_pack (u := .notANumber) trivial) ⟨hfinite, hzero⟩
    · obtain ⟨m, e, hm, hunpack'⟩ := unpack_of_number_ne_zero hzero
      refine iff_of_false ?_ fun h => hzero h.2
      rw [hunpack']
      exact ne_true_of_eq_false (isNaN_pack (u := .infinity _) trivial)

/-- A product with one is the other factor. -/
theorem mul_eq_of_number_eq_one {x y : Float32} (hx : x.isNaN = false) (hone : number y = 1) :
    x * y = x := by
  obtain rfl : y = 1 := eq_of_number_eq (hone.trans_ne one_ne_zero) (hone.trans number_one.symm)
  by_cases hzero : number x = 0
  · -- Zeros and infinities are not told apart by their numbers.
    rw [← unpack_inj, mul_eq, unpack_one]
    by_cases hfinite : x.isFinite
    · obtain ⟨s, hunpack⟩ := unpack_of_number_eq_zero hfinite hzero
      rw [hunpack]
      cases s <;> exact unpack_pack (u := .zero _) trivial
    · obtain ⟨s, hunpack⟩ := exists_infinity hx hfinite
      rw [hunpack]
      cases s <;> exact unpack_pack (u := .infinity _) trivial
  · have hfinite : x.isFinite := by
      obtain ⟨m, e, hm, hunpack⟩ := unpack_of_number_ne_zero hzero
      rw [isFinite_eq, hunpack]
      rfl
    have hproduct := isRounding_mul hfinite isFinite_one
    rw [number_one, mul_one] at hproduct
    exact (eq_of_number_eq hzero hproduct.eq_number.2.symm).symm

end Binary32

end AgentPlanning
