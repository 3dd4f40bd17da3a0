import AgentPlanning.Json.Numeral

/-!
# Reading JSON Text

A reader for JSON text. Every reading function takes a text and returns what it read together
with the rest of the text, or `none` if the text does not begin with what it reads. A number that
is too large for binary64 is refused.
-/

namespace AgentPlanning.Json.Parser

/-- What a reading function returns. -/
abbrev Reading (α : Type) := Option (α × List Char)

/-- The text after leading blanks. -/
def skipBlanks (text : List Char) : List Char :=
  text.dropWhile fun c => c == ' ' || c == '\t' || c == '\n' || c == '\r'

/-- The value of a hexadecimal digit. -/
def hexDigit? (c : Char) : Option Nat :=
  if '0' ≤ c ∧ c ≤ '9' then some (c.toNat - '0'.toNat)
  else if 'a' ≤ c ∧ c ≤ 'f' then some (c.toNat - 'a'.toNat + 10)
  else if 'A' ≤ c ∧ c ≤ 'F' then some (c.toNat - 'A'.toNat + 10)
  else none

/-- The number written by hexadecimal digits. -/
def hexNumber? (digits : List Char) : Option Nat :=
  digits.foldlM (fun n c => (hexDigit? c).map (n * 16 + ·)) 0

/-- The character that a backslash and `c` stand for. -/
def escaped? (c : Char) : Option Char :=
  match c with
  | '"' => some '"'
  | '\\' => some '\\'
  | '/' => some '/'
  | 'b' => some '\x08'
  | 'f' => some '\x0c'
  | 'n' => some '\n'
  | 'r' => some '\r'
  | 't' => some '\t'
  | _ => none

/-- The character written by a pair of surrogates. -/
def surrogatePair? (high low : Nat) : Option Char :=
  if 0xD800 ≤ high ∧ high < 0xDC00 ∧ 0xDC00 ≤ low ∧ low < 0xE000 then
    some (Char.ofNat (0x10000 + (high - 0xD800) * 0x400 + (low - 0xDC00)))
  else none

/-- Reads a string after its opening quote; `acc` holds the characters read so far, the last
one first. -/
def stringBody (acc : List Char) : List Char → Reading String
  | '"' :: rest => some (String.ofList acc.reverse, rest)
  | '\\' :: 'u' :: a :: b :: c :: d :: '\\' :: 'u' :: e :: f :: g :: h :: rest =>
    match hexNumber? [a, b, c, d], hexNumber? [e, f, g, h] with
    | some first, some second =>
      match surrogatePair? first second with
      | some x => stringBody (x :: acc) rest
      | none =>
        if first.isValidChar then
          stringBody (Char.ofNat first :: acc) ('\\' :: 'u' :: e :: f :: g :: h :: rest)
        else none
    | _, _ => none
  | '\\' :: 'u' :: a :: b :: c :: d :: rest =>
    match hexNumber? [a, b, c, d] with
    | some n => if n.isValidChar then stringBody (Char.ofNat n :: acc) rest else none
    | none => none
  | '\\' :: c :: rest =>
    match escaped? c with
    | some x => stringBody (x :: acc) rest
    | none => none
  | c :: rest => if c.toNat < 32 then none else stringBody (c :: acc) rest
  | [] => none

/-- Reads decimal digits. -/
def digits (text : List Char) : List Char × List Char :=
  (text.takeWhile Char.isDigit, text.dropWhile Char.isDigit)

/-- Reads the digits before the point. Zero is the only number that begins with a zero. -/
def whole (text : List Char) : Reading (List Char) :=
  match digits text with
  | ([], _) | ('0' :: _ :: _, _) => none
  | reading => some reading

/-- Reads a point and the digits after it; no digits if there is no point. -/
def fraction (text : List Char) : Reading (List Char) :=
  match text with
  | '.' :: rest =>
    match digits rest with
    | ([], _) => none
    | reading => some reading
  | rest => some ([], rest)

/-- Reads the sign of an exponent and tells whether it is a minus. -/
def exponentSign (text : List Char) : Bool × List Char :=
  match text with
  | '-' :: rest => (true, rest)
  | '+' :: rest => (false, rest)
  | rest => (false, rest)

/-- Reads an exponent, if there is one. -/
def exponent (text : List Char) : Reading (Option Int) :=
  match text with
  | 'e' :: rest | 'E' :: rest =>
    let (negative, rest) := exponentSign rest
    match digits rest with
    | ([], _) => none
    | (ds, rest) =>
      let e : Int := decimalFrom 0 ds
      some (some (if negative then -e else e), rest)
  | rest => some (none, rest)

/-- Reads a number after its sign. -/
def unsigned (negative : Bool) (text : List Char) : Option (Value × List Char) := do
  let (ds, rest) ← whole text
  let (fs, rest) ← fraction rest
  let (e, rest) ← exponent rest
  let value ← Numeral.value? ⟨negative, ds, fs, e⟩
  return (value, rest)

/-- A member of an object is added to those before it. Of two members of one name the later
counts; that a name is repeated is no reason to refuse a text. -/
def putMember (members : Members) (name : String) (value : Value) : Members :=
  members.filter (·.1 != name) ++ [(name, value)]

mutual

/-- Reads a value that is nested at most `depth` deep. -/
def value : (depth : Nat) → List Char → Reading Value
  | 0, _ => none
  | depth + 1, text =>
    match skipBlanks text with
    | 'n' :: 'u' :: 'l' :: 'l' :: rest => some (.null, rest)
    | 't' :: 'r' :: 'u' :: 'e' :: rest => some (.bool true, rest)
    | 'f' :: 'a' :: 'l' :: 's' :: 'e' :: rest => some (.bool false, rest)
    | '"' :: rest => (stringBody [] rest).map fun (s, rest) => (.string s, rest)
    | '[' :: rest =>
      match skipBlanks rest with
      | ']' :: rest => some (.array [], rest)
      | rest => elements depth [] rest
    | '\x7b' :: rest =>
      match skipBlanks rest with
      | '\x7d' :: rest => some (.object [], rest)
      | rest => members depth [] rest
    | '-' :: rest => unsigned true rest
    | rest => unsigned false rest

/-- Reads the elements of an array up to its end; `acc` holds those read so far, the last one
first. -/
def elements : (steps : Nat) → List Value → List Char → Reading Value
  | 0, _, _ => none
  | steps + 1, acc, text =>
    match value steps text with
    | none => none
    | some (element, rest) =>
      match skipBlanks rest with
      | ',' :: rest => elements steps (element :: acc) rest
      | ']' :: rest => some (.array (element :: acc).reverse, rest)
      | _ => none

/-- Reads the members of an object up to its end; `acc` holds those read so far. -/
def members : (steps : Nat) → Members → List Char → Reading Value
  | 0, _, _ => none
  | steps + 1, acc, text =>
    match skipBlanks text with
    | '"' :: rest =>
      match stringBody [] rest with
      | none => none
      | some (name, rest) =>
        match skipBlanks rest with
        | ':' :: rest =>
          match value steps rest with
          | none => none
          | some (member, rest) =>
            match skipBlanks rest with
            | ',' :: rest => members steps (putMember acc name member) rest
            | '\x7d' :: rest => some (.object (putMember acc name member), rest)
            | _ => none
        | _ => none
    | _ => none

end

end AgentPlanning.Json.Parser

namespace AgentPlanning.Json

/-- Reads a text that holds one value and nothing else. A level of nesting costs two steps and
has two brackets, and an element or member costs one step and has a character at least, so as
many steps as the text has characters are enough. -/
def parse? (text : String) : Option Value := do
  let cs := text.toList
  let (v, rest) ← Parser.value (cs.length + 1) cs
  if (Parser.skipBlanks rest).isEmpty then some v else none

end AgentPlanning.Json
