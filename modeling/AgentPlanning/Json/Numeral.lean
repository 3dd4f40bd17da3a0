import AgentPlanning.Json.Value

/-!
# Numerals

The value of a number in JSON text. A numeral without fraction and exponent is an integer if it
fits 64 bits, signed or unsigned. Any other numeral is a real number, and so is minus zero, which
no integer is.

A real number is read with one rounding for its digits and one for its place. The leading digits
that fit 64 bits make the significand, which is rounded to binary64 and then multiplied or divided
by a power of ten, itself a binary64 number. So a numeral of more than fifteen digits may be read
to a neighbour of the nearest binary64 number. The result is rounded to single precision.

* `appendDigits_fst_lt`: a significand fits 64 bits.
-/

namespace AgentPlanning.Json

/-- The value of a decimal digit. -/
def digitValue (c : Char) : Nat := c.toNat - '0'.toNat

/-- The number written by decimal digits after those of `n`. -/
def decimalFrom (n : Nat) (digits : List Char) : Nat :=
  digits.foldl (fun n c => n * 10 + digitValue c) n

/-- Writes digits after those of `n` as long as the number fits 64 bits, and returns the number
with the digits that are left. -/
def appendDigits (n : Nat) : List Char → Nat × List Char
  | [] => (n, [])
  | c :: rest =>
    let m := n * 10 + digitValue c
    if m < UInt64.size then appendDigits m rest else (n, c :: rest)

theorem appendDigits_fst_lt {n : Nat} (h : n < UInt64.size) (digits : List Char) :
    (appendDigits n digits).1 < UInt64.size := by
  fun_induction appendDigits n digits with
  | case1 => exact h
  | case2 _ _ _ _ hm ih => exact ih hm
  | case3 => exact h

/-- The number `significand * 10 ^ exponent`. -/
structure Decimal where
  significand : Nat
  /-- The place of the last digit. -/
  exponent : Int
  /-- The digits fit 64 bits. -/
  significand_lt : significand < UInt64.size

namespace Decimal

/-- The greatest exponent of a power of ten in binary64. -/
def maxExponent : Nat := 308

/-- The binary64 number nearest to `10 ^ k`. -/
def powerOfTen (k : Nat) : Float := Float.ofScientific 1 false k

/-- The quotient of `x` and `10 ^ k`. A divisor that is no binary64 number is divided by in
parts. -/
def divPowerOfTen (x : Float) (k : Nat) : Float :=
  if k ≤ maxExponent then x / powerOfTen k
  else if x == 0 then x
  else divPowerOfTen (x / powerOfTen maxExponent) (k - maxExponent)
termination_by k
decreasing_by simp only [maxExponent] at *; omega

/-- The binary64 number that is read for a decimal; `none` if it is too large. -/
def toFloat? (d : Decimal) : Option Float :=
  let x := Float.ofNat d.significand
  if d.exponent < 0 then some (divPowerOfTen x d.exponent.natAbs)
  else if d.significand = 0 then some x
  else if d.exponent ≤ maxExponent then
    let product := x * powerOfTen d.exponent.toNat
    if product.isInf then none else some product
  else none

end Decimal

/-- The single-precision number nearest to a binary64 number; of two that are equally near, the
one with the even mantissa. -/
def toSingle (x : Float) : Float32 :=
  match x.toModel.unpack with
  | .finite sign mantissa exponent _ =>
    .ofModel (.pack (.round .binary32 sign mantissa exponent))
  | y => .ofModel (.pack y)

/-- The parts of a number in JSON text. -/
structure Numeral where
  /-- Whether there is a minus sign. -/
  negative : Bool
  /-- The digits before the point. -/
  whole : List Char
  /-- The digits after the point; none if there is no point. -/
  fraction : List Char
  exponent : Option Int

namespace Numeral

/-- The integer, if the numeral is that of an integer that fits 64 bits. -/
def integer? (x : Numeral) : Option Int :=
  let n := decimalFrom 0 x.whole
  if x.fraction ≠ [] ∨ x.exponent.isSome then none
  else if x.negative then
    if n = 0 ∨ -n < Int64.minValue.toInt then none else some (-n)
  else if n < UInt64.size then some n else none

/-- The number without its sign, as far as its digits fit. Digits before the point that are left
out raise the place of the last digit; digits after the point that are left out do not count. -/
def decimal (x : Numeral) : Decimal :=
  let before := appendDigits 0 x.whole
  let after := appendDigits before.1 x.fraction
  { significand := after.1
    exponent := before.2.length + after.2.length - x.fraction.length + x.exponent.getD 0
    significand_lt :=
      appendDigits_fst_lt (appendDigits_fst_lt (by decide) x.whole) x.fraction }

/-- The value of a numeral; `none` if it is too large. -/
def value? (x : Numeral) : Option Value :=
  match x.integer? with
  | some n => some (.int n)
  | none => x.decimal.toFloat?.map fun y => .real (toSingle (if x.negative then -y else y))

end Numeral

end AgentPlanning.Json
