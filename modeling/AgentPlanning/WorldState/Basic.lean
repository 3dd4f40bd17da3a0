import AgentPlanning.WorldState.Word

/-!
# World States

A world state assigns a truth value to each of 256 atoms. It is stored as four 64-bit words:
atom `a` is bit `a % 64` of word `a / 64`. Reading, writing and the boolean operations all act
word by word. States are ordered word by word, the word of the lowest atoms first.
-/

namespace AgentPlanning

/-- An atom: a proposition about the world, numbered in order of declaration. A world state
has room for 256 of them. -/
abbrev AtomId := Fin 256

namespace AtomId

/-- The word of a state that holds atom `a`. -/
def word (a : AtomId) : Fin 4 :=
  ⟨a.val / 64, by omega⟩

/-- The bit of atom `a` inside its word. -/
def bit (a : AtomId) : Fin 64 :=
  ⟨a.val % 64, by omega⟩

/-- The atom held by bit `i` of word `k`. -/
def ofWordBit (k : Fin 4) (i : Fin 64) : AtomId :=
  ⟨64 * k.val + i.val, by omega⟩

end AtomId

/-- A truth value for each atom, packed into four words. -/
structure WorldState where
  /-- Atoms 0 to 63. -/
  w0 : UInt64
  /-- Atoms 64 to 127. -/
  w1 : UInt64
  /-- Atoms 128 to 191. -/
  w2 : UInt64
  /-- Atoms 192 to 255. -/
  w3 : UInt64
deriving DecidableEq, Repr

namespace WorldState

/-- The state in which no atom holds. -/
def empty : WorldState := ⟨0, 0, 0, 0⟩

/-- The state in which every atom holds. -/
def full : WorldState := ⟨~~~0, ~~~0, ~~~0, ~~~0⟩

instance : Inhabited WorldState := ⟨empty⟩

/-- Word `k` of the state. -/
def word (s : WorldState) (k : Fin 4) : UInt64 :=
  match k with
  | 0 => s.w0
  | 1 => s.w1
  | 2 => s.w2
  | 3 => s.w3

/-- The state with word `k` replaced. -/
def setWord (s : WorldState) (k : Fin 4) (w : UInt64) : WorldState :=
  match k with
  | 0 => { s with w0 := w }
  | 1 => { s with w1 := w }
  | 2 => { s with w2 := w }
  | 3 => { s with w3 := w }

/-- The state whose words are given by a function. -/
def ofWords (f : Fin 4 → UInt64) : WorldState :=
  ⟨f 0, f 1, f 2, f 3⟩

/-- Whether atom `a` holds. -/
def get (s : WorldState) (a : AtomId) : Bool :=
  Word.testBit (s.word a.word) a.bit

/-- The state with atom `a` given the truth value `value`. -/
def set (s : WorldState) (a : AtomId) (value : Bool) : WorldState :=
  s.setWord a.word (Word.writeBit (s.word a.word) a.bit value)

/-- The state in which exactly the listed atoms hold. -/
def ofAtoms (atoms : List AtomId) : WorldState :=
  atoms.foldl (fun s a => s.set a true) empty

/-- Combines two states word by word. -/
def zipWith (f : UInt64 → UInt64 → UInt64) (s t : WorldState) : WorldState :=
  ofWords fun k => f (s.word k) (t.word k)

instance : AndOp WorldState := ⟨zipWith (· &&& ·)⟩
instance : OrOp WorldState := ⟨zipWith (· ||| ·)⟩
instance : XorOp WorldState := ⟨zipWith (· ^^^ ·)⟩
instance : Complement WorldState := ⟨fun s => ofWords fun k => ~~~s.word k⟩

/-- Whether no atom holds. -/
def isEmpty (s : WorldState) : Bool :=
  (List.finRange 4).all fun k => s.word k == 0

/-- The number of atoms that hold. -/
def count (s : WorldState) : Nat :=
  Fin.foldl 4 (fun n k => n + Word.popCount (s.word k)) 0

/-- The lowest atom that holds: the lowest set bit of the first word that is not zero. -/
def lowest? (s : WorldState) : Option AtomId :=
  (List.finRange 4).findSome? fun k => (Word.lowest? (s.word k)).map (AtomId.ofWordBit k)

/-- The atoms that hold, in ascending order. -/
def atoms (s : WorldState) : List AtomId :=
  (List.finRange 4).flatMap fun k => (Word.setBits (s.word k)).map (AtomId.ofWordBit k)

/-- Lexicographic order of the words, beginning with word 0. -/
instance : Ord WorldState where
  compare s t :=
    (compare s.w0 t.w0).then <| (compare s.w1 t.w1).then <|
      (compare s.w2 t.w2).then (compare s.w3 t.w3)

end WorldState

end AgentPlanning
