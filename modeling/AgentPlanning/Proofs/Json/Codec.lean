import AgentPlanning.Json.Records
import AgentPlanning.Proofs.Json.Text

/-!
# Reading Back What Was Written

The codecs of plain values and of lists read back what they wrote. A codec for numbers does so for
the finite ones, since the others have no JSON form. For records there is one rule for each way to
read a member.
-/

namespace AgentPlanning

namespace Json

variable {α β : Type}

theorem Value.intIn?_int {lo hi n : Int} (hlo : lo ≤ n) (hhi : n < hi) :
    (Value.int n).intIn? lo hi = some n := if_pos ⟨hlo, hhi⟩

theorem decode?_encode_bool (b : Bool) : decode? (encode b) = some b := rfl

theorem decode?_encode_string (s : String) : decode? (encode s) = some s := rfl

theorem decode?_encode_uint8 (n : UInt8) : decode? (encode n) = some n := by
  have hread : (Value.int n.toNat).intIn? 0 UInt8.size = some (n.toNat : Int) :=
    Value.intIn?_int (Int.natCast_nonneg _) (Int.ofNat_lt.2 n.toNat_lt_size)
  simp only [encode, decode?, hread, Option.map_some, Int.toNat_natCast, UInt8.ofNat_toNat]

theorem decode?_encode_uint32 (n : UInt32) : decode? (encode n) = some n := by
  have hread : (Value.int n.toNat).intIn? 0 UInt32.size = some (n.toNat : Int) :=
    Value.intIn?_int (Int.natCast_nonneg _) (Int.ofNat_lt.2 n.toNat_lt_size)
  simp only [encode, decode?, hread, Option.map_some, Int.toNat_natCast, UInt32.ofNat_toNat]

theorem decode?_encode_int32 (n : Int32) : decode? (encode n) = some n := by
  have hread : (Value.int n.toInt).intIn? Int32.minValue.toInt (Int32.maxValue.toInt + 1) =
      some n.toInt :=
    Value.intIn?_int n.minValue_le_toInt (Int.lt_add_one_of_le n.toInt_le)
  simp only [encode, decode?, hread, Option.map_some, Int32.ofInt_toInt]

theorem decode?_encode_float32 {x : Float32} (h : x.isFinite = true) :
    decode? (encode x) = some x := by
  simp only [encode, decode?, h, if_true]

theorem decode?_encode_list [Codec α] (xs : List α)
    (h : ∀ x ∈ xs, decode? (encode x) = some x) : decode? (encode xs) = some xs := by
  change (xs.map encode).mapM decode? = some xs
  induction xs with
  | nil => rfl
  | cons x rest ih =>
    rw [List.map_cons, List.mapM_cons, h x List.mem_cons_self,
      ih fun y hy => h y (List.mem_cons_of_mem x hy)]
    rfl

/-- No present value may be written like the absent one. -/
theorem decode?_encode_option [Codec α] (x : Option α)
    (h : ∀ y, x = some y → decode? (encode y) = some y) (hnull : ∀ y : α, encode y ≠ .null) :
    decode? (encode x) = some x := by
  cases x with
  | none => rfl
  | some y =>
    have hy := hnull y
    simp only [encode, decode?]
    rw [h y rfl, Option.map_some]

theorem bind_eq_some_of {x : Option α} {f : α → Option β} {a : α} {b : β} (hx : x = some a)
    (hf : f a = some b) : (x >>= f) = some b := by
  rw [hx]
  exact hf

namespace Members

variable [Codec α] {o : Members} {name : String} {x : α}

theorem required?_eq_some (hname : o.lookup name = some (encode x))
    (hx : decode? (encode x) = some x) : o.required? name = some x := by
  rw [required?, hname]
  exact hx

theorem optional?_eq_some {default : α} (hname : o.lookup name = some (encode x))
    (hx : decode? (encode x) = some x) : o.optional? name default = some x := by
  rw [optional?, hname]
  exact hx

end Members

section Readable

variable {number : Float32 → String}

@[simp] theorem readable_encode_bool (b : Bool) : (encode b).Readable number := .bool b

@[simp] theorem readable_encode_string (s : String) : (encode s).Readable number := .string s

theorem readable_natCast {n : Nat} (h : n < UInt64.size) : (Value.int n).Readable number :=
  .int (Int.le_trans (by decide) (Int.natCast_nonneg n)) (Int.ofNat_lt.2 h)

@[simp] theorem readable_encode_uint8 (n : UInt8) : (encode n).Readable number :=
  readable_natCast (Nat.lt_trans n.toNat_lt_size (by decide))

@[simp] theorem readable_encode_uint32 (n : UInt32) : (encode n).Readable number :=
  readable_natCast (Nat.lt_trans n.toNat_lt_size (by decide))

@[simp] theorem readable_encode_int32 (n : Int32) : (encode n).Readable number :=
  .int (Int.le_trans (by decide) n.minValue_le_toInt) (Int.lt_of_le_of_lt n.toInt_le (by decide))

theorem readable_encode_float32 {x : Float32} (h : parse? (number x) = some (.real x)) :
    (encode x).Readable number := by
  simp only [encode]
  split
  · exact .real h
  · exact .null

theorem readable_encode_list [Codec α] {xs : List α}
    (h : ∀ x ∈ xs, (encode x).Readable number) : (encode xs).Readable number :=
  .array (by simpa using h)

theorem readable_encode_option [Codec α] {x : Option α}
    (h : ∀ y, x = some y → (encode y).Readable number) : (encode x).Readable number := by
  cases x with
  | none => exact .null
  | some y => exact h y rfl

end Readable

end Json

open Json

theorem PlanningStrategy.decode?_encode (strategy : PlanningStrategy) :
    decode? (encode strategy) = some strategy := by
  cases strategy <;> rfl

theorem SubmitMode.decode?_encode (mode : SubmitMode) : decode? (encode mode) = some mode := by
  cases mode <;> rfl

theorem Executor.decode?_encode (executor : Executor) :
    decode? (encode executor) = some executor := by
  cases executor
  rfl

variable {number : Float32 → String}

@[simp] theorem PlanningStrategy.readable_encode (strategy : PlanningStrategy) :
    (encode strategy).Readable number := by
  cases strategy <;> exact .string _

@[simp] theorem SubmitMode.readable_encode (mode : SubmitMode) :
    (encode mode).Readable number := by
  cases mode <;> exact .string _

@[simp] theorem Executor.readable_encode (executor : Executor) :
    (encode executor).Readable number := .string _

end AgentPlanning
