import AgentPlanning.WorldState.Basic

/-!
# The Text of a World State

A state is written as its four words in hexadecimal, sixteen digits each, the word of the
highest atoms first and an underscore between words.
-/

namespace AgentPlanning

/-- The sixteen lowercase hexadecimal digits of a word. -/
def Word.hex (w : UInt64) : String :=
  let digits := Nat.toDigits 16 w.toNat
  String.ofList (List.replicate (16 - digits.length) '0' ++ digits)

namespace WorldState

/-- The words of the state in hexadecimal, highest first. -/
def hex (s : WorldState) : String :=
  "_".intercalate [Word.hex s.w3, Word.hex s.w2, Word.hex s.w1, Word.hex s.w0]

/-- The text of a state in diagnostics. -/
def debugText (s : WorldState) : String :=
  "WorldState(" ++ s.hex ++ ")"

end WorldState

end AgentPlanning
