import AgentPlanning.WorldState.Basic

/-!
# Hashing World States

A fixed 64-bit hash of a world state. It depends on nothing but the four words, so the probe
sequences of a table keyed by it are the same in every run.
-/

namespace AgentPlanning

/-- A bijective mixing of the bits of a word: two rounds of xor-shift and odd multiplication. -/
def Word.mix (x : UInt64) : UInt64 :=
  let x := (x ^^^ (x >>> 30)) * 0xBF58476D1CE4E5B9
  let x := (x ^^^ (x >>> 27)) * 0x94D049BB133111EB
  x ^^^ (x >>> 31)

/-- The hash of a state: each word in turn is xored into the running hash, which is then mixed. -/
def WorldState.hash (s : WorldState) : UInt64 :=
  (List.finRange 4).foldl (fun h k => Word.mix (h ^^^ s.word k)) 0x9E3779B97F4A7C15

end AgentPlanning
