import AgentPlanning.Json.Value

/-!
# Writing and Reading JSON

A codec writes values of a type as JSON and reads them back. Reading is strict about types and
ranges and ignores members that it does not know. A member that may be missing has a default;
one that is present must be readable.
-/

namespace AgentPlanning.Json

/-- How values of a type are written and read. -/
class Codec (α : Type) where
  /-- Writes a value. -/
  encode : α → Value
  /-- Reads a value; `none` if it is not of the expected form. -/
  decode? : Value → Option α

export Codec (encode decode?)

namespace Members

variable {α : Type} [Codec α]

/-- Reads a member that must be present. -/
def required? (members : Members) (name : String) : Option α := do
  decode? (← members.lookup name)

/-- Reads a member that has the value `default` if it is missing. -/
def optional? (members : Members) (name : String) (default : α) : Option α :=
  match members.lookup name with
  | none => some default
  | some value => decode? value

end Members

instance : Codec Bool where
  encode b := .bool b
  decode?
    | .bool b => some b
    | _ => none

instance : Codec String where
  encode s := .string s
  decode? := Value.string?

instance : Codec UInt8 where
  encode n := .int n.toNat
  decode? v := (v.intIn? 0 UInt8.size).map fun n => UInt8.ofNat n.toNat

instance : Codec UInt32 where
  encode n := .int n.toNat
  decode? v := (v.intIn? 0 UInt32.size).map fun n => UInt32.ofNat n.toNat

instance : Codec UInt64 where
  encode n := .int n.toNat
  decode? v := (v.intIn? 0 UInt64.size).map fun n => UInt64.ofNat n.toNat

instance : Codec Int32 where
  encode n := .int n.toInt
  decode? v := (v.intIn? Int32.minValue.toInt (Int32.maxValue.toInt + 1)).map Int32.ofInt

/-- A number that is not finite has no JSON form and is written as `null`. -/
instance : Codec Float32 where
  encode x := if x.isFinite then .real x else .null
  decode?
    | .int n => some (Float32.ofInt n)
    | .real x => some x
    | _ => none

/-- The absent value is written as `null`. -/
instance {α : Type} [Codec α] : Codec (Option α) where
  encode
    | none => .null
    | some x => encode x
  decode?
    | .null => some none
    | v => (decode? v).map some

instance {α : Type} [Codec α] : Codec (List α) where
  encode xs := .array (xs.map encode)
  decode? v := do (← v.elements?).mapM decode?

/-- A pair is an array of two elements. -/
instance {α β : Type} [Codec α] [Codec β] : Codec (α × β) where
  encode pair := .array [encode pair.1, encode pair.2]
  decode?
    | .array [first, second] => return (← decode? first, ← decode? second)
    | _ => none

/-- An array of fixed size must have exactly that size. -/
instance {α : Type} {n : Nat} [Codec α] : Codec (Vector α n) where
  encode xs := encode xs.toList
  decode? v := do
    let xs : List α ← decode? v
    if h : xs.length = n then some ⟨xs.toArray, by simpa using h⟩ else none

end AgentPlanning.Json
