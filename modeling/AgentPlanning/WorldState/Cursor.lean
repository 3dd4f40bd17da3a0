import AgentPlanning.WorldState.Basic

/-!
# Going Through the Atoms of a State

A cursor gives the atoms that hold one at a time. It keeps a copy of the state, in which the bits
of the atoms that it has given are cleared, and the number of the word it is at. It clears the
lowest bit of that word as long as there is one, and then goes on to the next word.
-/

namespace AgentPlanning

/-- A place in the atoms that hold in a state. -/
structure AtomCursor where
  /-- The state, without the atoms that have been given. -/
  rest : WorldState
  /-- The word that is being looked at; 4 if there are no more. -/
  position : Nat
deriving DecidableEq, Repr

namespace AtomCursor

/-- The cursor before the first atom of a state. -/
def start (s : WorldState) : AtomCursor := ⟨s, 0⟩

/-- The next atom, or `none` if there are no more, and the cursor after it. -/
def next (c : AtomCursor) : Option AtomId × AtomCursor :=
  if h : c.position < 4 then
    let k : Fin 4 := ⟨c.position, h⟩
    match Word.lowest? (c.rest.word k) with
    | some i =>
      (some (.ofWordBit k i),
        { c with rest := c.rest.setWord k (Word.clearLowest (c.rest.word k)) })
    | none => next { c with position := c.position + 1 }
  else (none, c)
termination_by 4 - c.position

/-- The cursor after a number of calls. -/
def after (c : AtomCursor) : Nat → AtomCursor
  | 0 => c
  | calls + 1 => c.next.2.after calls

end AtomCursor

end AgentPlanning
