import AgentPlanning.Proofs.Binary32.Arithmetic

/-!
# The Order of binary32 Numbers

The numbers of the format, the infinities among them, stand on a line: the rational numbers with an
end on each side. Comparing two numbers amounts to comparing their places on the line, where the two
zeros have one place. Only a NaN has none and is not compared with anything. Main statements:

* `compare_eq_places`: numbers other than NaN are compared by their places;
* `lt_iff_place_lt`, `le_iff_place_le`: the same for packed numbers;
* `unpack_of_place_eq_bot`: only negative infinity stands at the lower end.
-/

namespace AgentPlanning

namespace Binary32

open Float.Model
open Float.Model.UnpackedFloat

/-- Where a number stands on the line. A NaN, which stands nowhere, is put at the lower end. -/
def placeOf : UnpackedFloat → WithBot (WithTop ℚ)
  | .infinity .positive => ((⊤ : WithTop ℚ) : WithBot (WithTop ℚ))
  | .infinity .negative => ⊥
  | .notANumber => ⊥
  | u => ((value u : WithTop ℚ) : WithBot (WithTop ℚ))

theorem placeOf_of_isFinite {u : UnpackedFloat} (h : u.isFinite) :
    placeOf u = ((value u : WithTop ℚ) : WithBot (WithTop ℚ)) := by
  cases u with
  | zero | finite => rfl
  | infinity | notANumber => cases h

/-- A finite number stands between the two ends. -/
theorem placeOf_between {u : UnpackedFloat} (h : u.isFinite) :
    placeOf (.infinity .negative) < placeOf u ∧ placeOf u < placeOf (.infinity .positive) := by
  rw [placeOf_of_isFinite h]
  exact ⟨WithBot.bot_lt_coe _, WithBot.coe_lt_coe.mpr (WithTop.coe_lt_top _)⟩

theorem compare_coe (x y : ℚ) :
    compare ((x : WithTop ℚ) : WithBot (WithTop ℚ)) ((y : WithTop ℚ) : WithBot (WithTop ℚ)) =
      compare x y := by
  have hmono : StrictMono fun x : ℚ => ((x : WithTop ℚ) : WithBot (WithTop ℚ)) :=
    WithBot.coe_strictMono.comp WithTop.coe_strictMono
  rw [← cmp_eq_compare, ← cmp_eq_compare]
  exact hmono.cmp_map_eq x y

/-- Numbers other than NaN are compared by their places. -/
theorem compare_eq_places {u v : UnpackedFloat} (hu : Canonical u) (hv : Canonical v)
    (hnan : u.isNaN = false) (hnan' : v.isNaN = false) :
    u.compare v = some (compare (placeOf u) (placeOf v)) := by
  -- An infinity is compared by its sign alone, whatever the other number is.
  rcases u with s | _ | s | ⟨s, m, e, hm⟩
  case infinity =>
    rcases v with s' | _ | s' | ⟨s', m', e', hm'⟩
    case infinity => cases s <;> cases s' <;> rfl
    case notANumber => cases hnan'
    all_goals
      cases s
      · exact congrArg some (compare_lt_iff_lt.mpr (placeOf_between rfl).1).symm
      · exact congrArg some (compare_gt_iff_gt.mpr (placeOf_between rfl).2).symm
  case notANumber => cases hnan
  all_goals
    rcases v with s' | _ | s' | ⟨s', m', e', hm'⟩
    case infinity =>
      cases s'
      · exact congrArg some (compare_gt_iff_gt.mpr (placeOf_between rfl).1).symm
      · exact congrArg some (compare_lt_iff_lt.mpr (placeOf_between rfl).2).symm
    case notANumber => cases hnan'
    all_goals
      rw [compare_eq hu hv rfl rfl, ← compare_coe]
      rfl

/-! ## Packed numbers -/

/-- Where a binary32 number stands on the line. -/
def place (x : Float32) : WithBot (WithTop ℚ) := placeOf x.toModel.unpack

section Comparisons

variable {x y : Float32} (hx : x.isNaN = false) (hy : y.isNaN = false)

include hx hy

theorem lt_iff_place_lt : x < y ↔ place x < place y := by
  rw [lt_iff_compare, compare_eq_places (canonical_unpack _) (canonical_unpack _) hx hy,
    Option.some_inj]
  exact compare_lt_iff_lt

theorem le_iff_place_le : x ≤ y ↔ place x ≤ place y := by
  change decide (x.toModel ≤ y.toModel) = true ↔ _
  rw [decide_eq_true_iff]
  change ((x.toModel.unpack.compare y.toModel.unpack).any (·.isLE)) = true ↔ _
  rw [compare_eq_places (canonical_unpack _) (canonical_unpack _) hx hy]
  exact Ordering.ne_gt_iff_isLE.symm.trans compare_le_iff_le

end Comparisons

/-- A NaN is not greater than anything. -/
theorem isNaN_of_lt {x y : Float32} (h : x < y) : y.isNaN = false := by
  rw [lt_iff_compare] at h
  rw [isNaN_eq]
  generalize x.toModel.unpack = u, y.toModel.unpack = v at *
  cases v with
  | notANumber => cases u <;> cases h
  | infinity | zero | finite => rfl

theorem lt_of_le_lt {x y z : Float32} (hx : x.isNaN = false) (hy : y.isNaN = false) (hle : x ≤ y)
    (hlt : y < z) : x < z := by
  have hz := isNaN_of_lt hlt
  rw [le_iff_place_le hx hy] at hle
  rw [lt_iff_place_lt hy hz] at hlt
  rw [lt_iff_place_lt hx hz]
  exact hle.trans_lt hlt

/-- Only negative infinity stands at the lower end. -/
theorem unpack_of_place_eq_bot {x : Float32} (hx : x.isNaN = false) (h : place x = ⊥) :
    x.toModel.unpack = .infinity .negative := by
  rw [isNaN_eq] at hx
  unfold place at h
  generalize x.toModel.unpack = u at *
  rcases u with s | _ | s | ⟨s, m, e, hm⟩
  · cases s
    · rfl
    · cases h
  · cases hx
  all_goals cases h

end Binary32

end AgentPlanning
