import AgentPlanning.WorldState.Text
import AgentPlanning.Json.Parser
import Mathlib.Data.Nat.Digits.Defs

/-!
# The Text of a State Determines the State

A word is written with exactly sixteen digits, and reading them as a hexadecimal number gives the
word back. The texts of the four words have fixed places in the text of a state, so that two
states of one text are equal. Main statements:

* `Word.length_hex`, `Word.hexNumber?_hex`: the digits of a word and what they stand for;
* `WorldState.hex_injective`, `WorldState.debugText_injective`: states are told apart by their
  texts.
-/

namespace AgentPlanning

namespace Json.Parser

/-- A digit is read back as its value. -/
theorem hexDigit?_digitChar {d : Nat} (h : d < 16) : hexDigit? d.digitChar = some d := by
  have hall : ∀ d < 16, hexDigit? d.digitChar = some d := by decide
  exact hall d h

/-- A further digit counts once, and those before it sixteen times. -/
theorem hexNumber?_concat_digitChar {ds : List Char} {n d : Nat} (h : hexNumber? ds = some n)
    (hd : d < 16) : hexNumber? (ds ++ [d.digitChar]) = some (n * 16 + d) := by
  rw [hexNumber?] at h ⊢
  rw [List.foldlM_append, h]
  simp [hexDigit?_digitChar hd]

/-- The digits of a number are read back as the number. -/
theorem hexNumber?_toDigits (n : Nat) : hexNumber? (Nat.toDigits 16 n) = some n := by
  induction n using Nat.strongRecOn with
  | ind n ih =>
    rw [Nat.toDigits_eq_if (by decide)]
    split
    next hless => simp [hexNumber?, hexDigit?_digitChar hless]
    next hless =>
      have hfirst := ih (n / 16) (Nat.div_lt_self (by omega) (by decide))
      rw [hexNumber?_concat_digitChar hfirst (Nat.mod_lt n (by decide)), Nat.div_add_mod']

/-- Leading zeros do not count. -/
theorem hexNumber?_replicate_zero_append (k : Nat) (ds : List Char) :
    hexNumber? (List.replicate k '0' ++ ds) = hexNumber? ds := by
  induction k with
  | zero => rfl
  | succ k ih => rw [← ih]; rfl

end Json.Parser

namespace Word

open Json.Parser

/-- The digits of a word are read back as the word. -/
theorem hexNumber?_hex (w : UInt64) : hexNumber? (hex w).toList = some w.toNat := by
  rw [hex, String.toList_ofList, hexNumber?_replicate_zero_append, hexNumber?_toDigits]

/-- A word has sixteen digits. -/
theorem length_hex (w : UInt64) : (hex w).toList.length = 16 := by
  have hbound : (Nat.toDigits 16 w.toNat).length ≤ 16 :=
    Nat.toDigits_length 16 w.toNat 16 (by decide) w.toNat_lt
  rw [hex, String.toList_ofList, List.length_append, List.length_replicate]
  omega

theorem hex_injective : Function.Injective hex := by
  intro v w h
  have hnumbers : some v.toNat = some w.toNat := by
    rw [← hexNumber?_hex v, ← hexNumber?_hex w, h]
  exact UInt64.toNat_inj.1 (Option.some.inj hnumbers)

/-- What begins with the digits of a word determines the word and the rest. -/
theorem hex_append_inj {v w : UInt64} {rest rest' : List Char}
    (h : (hex v).toList ++ rest = (hex w).toList ++ rest') : v = w ∧ rest = rest' := by
  obtain ⟨hdigits, hrest⟩ := List.append_inj h (by rw [length_hex, length_hex])
  exact ⟨hex_injective (String.toList_inj.1 hdigits), hrest⟩

end Word

namespace WorldState

theorem toList_hex (s : WorldState) :
    s.hex.toList = (Word.hex s.w3).toList ++ '_' :: ((Word.hex s.w2).toList ++
      '_' :: ((Word.hex s.w1).toList ++ '_' :: ((Word.hex s.w0).toList ++ []))) := by
  simp [hex, String.intercalate_cons_cons]

/-- States are told apart by their words in hexadecimal. -/
theorem hex_injective : Function.Injective hex := by
  intro s t h
  have hchars : s.hex.toList = t.hex.toList := by rw [h]
  rw [toList_hex, toList_hex] at hchars
  obtain ⟨h3, hchars⟩ := Word.hex_append_inj hchars
  obtain ⟨h2, hchars⟩ := Word.hex_append_inj (List.cons.inj hchars).2
  obtain ⟨h1, hchars⟩ := Word.hex_append_inj (List.cons.inj hchars).2
  obtain ⟨h0, -⟩ := Word.hex_append_inj (List.cons.inj hchars).2
  cases s
  cases t
  subst h0 h1 h2 h3
  rfl

/-- Two states of one text are equal. -/
theorem debugText_injective : Function.Injective debugText := by
  intro s t h
  rw [debugText, debugText, String.append_left_inj, String.append_right_inj] at h
  exact hex_injective h

end WorldState

end AgentPlanning
