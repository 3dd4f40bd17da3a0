import AgentPlanning.Json.Value
import AgentPlanning.WorldState.Text

/-!
# Writing JSON Text

Values are written without blanks. How numbers that are not integers are written is up to the
caller.
-/

namespace AgentPlanning.Json

/-- What stands for a character after a backslash, if there is a short way to write it. -/
def shortEscape? (c : Char) : Option Char :=
  match c with
  | '"' => some '"'
  | '\\' => some '\\'
  | '\x08' => some 'b'
  | '\x0c' => some 'f'
  | '\n' => some 'n'
  | '\r' => some 'r'
  | '\t' => some 't'
  | _ => none

/-- The text of a character inside a string. Control characters that have no short escape are
written by their number. -/
def escape (c : Char) : List Char :=
  match shortEscape? c with
  | some short => ['\\', short]
  | none =>
    if c.toNat < 32 then '\\' :: 'u' :: (Word.hex c.toNat.toUInt64).toList.drop 12 else [c]

/-- The text of a string. -/
def quote (s : String) : String :=
  String.ofList ('"' :: (s.toList.flatMap escape ++ ['"']))

namespace Value

mutual

/-- The text of a value. -/
def render (number : Float32 → String) : Value → String
  | null => "null"
  | bool b => if b then "true" else "false"
  | int n => toString n
  | real x => number x
  | string s => quote s
  | array vs => "[" ++ ",".intercalate (renderElements number vs) ++ "]"
  | object members => "\x7b" ++ ",".intercalate (renderMembers number members) ++ "\x7d"

/-- The texts of the elements of an array. -/
def renderElements (number : Float32 → String) : List Value → List String
  | [] => []
  | v :: rest => v.render number :: renderElements number rest

/-- The texts of the members of an object. -/
def renderMembers (number : Float32 → String) : List (String × Value) → List String
  | [] => []
  | (name, v) :: rest => (quote name ++ ":" ++ v.render number) :: renderMembers number rest

end

end Value

end AgentPlanning.Json
