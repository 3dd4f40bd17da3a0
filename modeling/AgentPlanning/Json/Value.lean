/-!
# JSON Values

The values that records are written to and read from. Integers and other numbers are told
apart, because fields of integer type accept nothing but integers. Other numbers are kept at
single precision, the only precision that records have.
-/

namespace AgentPlanning.Json

/-- A JSON value. -/
inductive Value where
  /-- The value `null`. -/
  | null
  /-- A truth value. -/
  | bool (b : Bool)
  /-- A number without fraction and exponent. -/
  | int (n : Int)
  /-- Any other number. -/
  | real (x : Float32)
  /-- A string. -/
  | string (s : String)
  /-- A list of values. -/
  | array (elements : List Value)
  /-- Named values. -/
  | object (members : List (String × Value))
deriving Inhabited

/-- The members of an object. -/
abbrev Members := List (String × Value)

namespace Value

/-- The members, if the value is an object. -/
def members? : Value → Option Members
  | object members => some members
  | _ => none

/-- The elements, if the value is an array. -/
def elements? : Value → Option (List Value)
  | array elements => some elements
  | _ => none

/-- The string, if the value is one. -/
def string? : Value → Option String
  | string s => some s
  | _ => none

/-- The integer, if the value is one from `lo` up to but not including `hi`. -/
def intIn? (lo hi : Int) : Value → Option Int
  | int n => if lo ≤ n ∧ n < hi then some n else none
  | _ => none

/-- The name of an alternative without data: a string, or an object whose only member has that
name and the value `null`. -/
def alternative? : Value → Option String
  | string s => some s
  | object [(name, null)] => some name
  | _ => none

end Value

end AgentPlanning.Json
