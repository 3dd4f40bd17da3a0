import AgentPlanning.Json.Parser
import AgentPlanning.Json.Printer
import Mathlib.Data.List.TakeWhile

/-!
# Reading Numbers and Strings

The reader takes a number as far as it goes, so what it reads is settled by the text of the number
as soon as the text after it does not go on with the number. Main statements:

* `unsigned_append`: a number is read in the same way with more text after it;
* `unsigned_toDigits`: the digits of an integer are read as the integer;
* `stringBody_escape`: an escaped text is read as the text.
-/

namespace AgentPlanning.Json

theorem decimalFrom_toDigits (n : Nat) : decimalFrom 0 (Nat.toDigits 10 n) = n := by
  have h := Nat.ofDigitChars_ten_toDigits (n := n)
  simpa only [Nat.ofDigitChars_eq_foldl, decimalFrom, digitValue, Nat.mul_comm] using h

/-- A numeral whose digits fit is read as the quotient of its digits and a power of ten. -/
theorem Numeral.value?_of_fraction {x : Numeral} (place : Nat) (hinteger : x.integer? = none)
    (hexponent : x.decimal.exponent = -place) (hpos : 0 < place)
    (hplace : place ≤ Decimal.maxExponent) :
    x.value? = some (.real (toSingle
      (let y := Float.ofNat x.decimal.significand / Decimal.powerOfTen place
       if x.negative then -y else y))) := by
  have habs : x.decimal.exponent.natAbs = place := by omega
  have hread : x.decimal.toFloat? =
      some (Float.ofNat x.decimal.significand / Decimal.powerOfTen place) := by
    rw [Decimal.toFloat?, if_pos (by omega), habs, Decimal.divPowerOfTen, if_pos hplace]
  rw [Numeral.value?, hinteger, hread]
  rfl

namespace Parser

section Numbers

variable {text ds fs left : List Char} {e : Option Int} {v : Value}

/-- The text does not go on with a number. -/
def EndsNumber (text : List Char) : Prop :=
  ∀ c ∈ text.head?, c.isDigit = false ∧ c ≠ '.' ∧ c ≠ 'e' ∧ c ≠ 'E'

theorem endsNumber_nil : EndsNumber [] := nofun

theorem endsNumber_cons {c : Char} (h : c.isDigit = false ∧ c ≠ '.' ∧ c ≠ 'e' ∧ c ≠ 'E')
    (rest : List Char) : EndsNumber (c :: rest) := by
  rintro _ ⟨⟩
  exact h

theorem whole_eq_some :
    whole text = some (ds, left) ↔
      digits text = (ds, left) ∧ ds ≠ [] ∧ ∀ d rest, ds ≠ '0' :: d :: rest := by
  unfold whole
  split
  · next heq =>
    exact ⟨nofun, fun ⟨h, hne, _⟩ => absurd (congrArg Prod.fst (h.symm.trans heq)) hne⟩
  · next heq =>
    exact ⟨nofun, fun ⟨h, _, hzero⟩ => absurd (congrArg Prod.fst (h.symm.trans heq)) (hzero _ _)⟩
  · next hnil hzero =>
    refine ⟨fun h => ?_, fun h => congrArg some h.1⟩
    have heq := Option.some.inj h
    exact ⟨heq, fun hds => hnil left (hds ▸ heq), fun d rest hds => hzero d rest left (hds ▸ heq)⟩

theorem exists_digit_of_whole (h : whole text = some (ds, left)) :
    ∃ c rest, text = c :: rest ∧ c.isDigit = true := by
  obtain ⟨hdigits, hne, -⟩ := whole_eq_some.1 h
  have hds : text.takeWhile Char.isDigit = ds := congrArg Prod.fst hdigits
  cases text with
  | nil => exact absurd hds.symm hne
  | cons c rest =>
    refine ⟨c, rest, rfl, ?_⟩
    cases hc : c.isDigit with
    | true => rfl
    | false => exact absurd (by rw [← hds, List.takeWhile_cons_of_neg (by simp [hc])]) hne

theorem fraction_point_eq_some :
    fraction ('.' :: text) = some (fs, left) ↔ digits text = (fs, left) ∧ fs ≠ [] := by
  unfold fraction
  split
  · next heq =>
    cases heq
    split
    · next heq =>
      exact ⟨nofun, fun ⟨h, hne⟩ => absurd (congrArg Prod.fst (h.symm.trans heq)) hne⟩
    · next hnil =>
      refine ⟨fun h => ?_, fun h => congrArg some h.1⟩
      have heq := Option.some.inj h
      exact ⟨heq, fun hfs => hnil left (hfs ▸ heq)⟩
  · next hpoint => exact absurd rfl (hpoint text)

theorem fraction_of_ne (h : ∀ rest, text ≠ '.' :: rest) : fraction text = some ([], text) := by
  unfold fraction
  split
  · exact absurd rfl (h _)
  · rfl

/-- The exponent that the digits after the sign stand for. -/
theorem exponent_mark_eq_some {mark : Char} (hmark : mark = 'e' ∨ mark = 'E') :
    exponent (mark :: text) = some (e, left) ↔
      ∃ ds, digits (exponentSign text).2 = (ds, left) ∧ ds ≠ [] ∧
        e = some
          (if (exponentSign text).1 then -(decimalFrom 0 ds : Int) else decimalFrom 0 ds) := by
  have hsmall : exponent (mark :: text) = exponent ('e' :: text) := by
    obtain rfl | rfl := hmark <;> rfl
  rw [hsmall]
  simp only [exponent]
  split
  · next heq =>
    exact ⟨nofun, fun ⟨ds, h, hne, _⟩ => absurd (congrArg Prod.fst (h.symm.trans heq)) hne⟩
  · next ds rest hnil heq =>
    constructor
    · rintro ⟨⟩
      exact ⟨ds, heq, fun hds => hnil (hds ▸ rfl), rfl⟩
    · rintro ⟨ds', h, -, rfl⟩
      cases heq.symm.trans h
      rfl

theorem exponent_of_ne (h : ∀ rest, text ≠ 'e' :: rest ∧ text ≠ 'E' :: rest) :
    exponent text = some (none, text) := by
  unfold exponent
  split
  · exact absurd rfl (h _).1
  · exact absurd rfl (h _).2
  · rfl

theorem exponentSign_append (hne : text ≠ []) (rest : List Char) :
    exponentSign (text ++ rest) = ((exponentSign text).1, (exponentSign text).2 ++ rest) := by
  cases text with
  | nil => exact absurd rfl hne
  | cons c text =>
    unfold exponentSign
    split <;> simp_all

section Append

variable {rest : List Char} (hrest : EndsNumber rest)

include hrest

theorem digits_append (text : List Char) :
    digits (text ++ rest) = ((digits text).1, (digits text).2 ++ rest) := by
  induction text with
  | nil =>
    cases rest with
    | nil => rfl
    | cons c rest => simp [digits, (hrest c rfl).1]
  | cons c text ih =>
    simp only [digits, Prod.mk.injEq] at ih
    by_cases hc : c.isDigit = true
    · simp [digits, hc, ih]
    · simp [digits, hc]

theorem whole_append (h : whole text = some (ds, left)) :
    whole (text ++ rest) = some (ds, left ++ rest) := by
  obtain ⟨hdigits, hds⟩ := whole_eq_some.1 h
  exact whole_eq_some.2 ⟨by rw [digits_append hrest, hdigits], hds⟩

theorem append_ne_cons {c : Char} (hc : c = '.' ∨ c = 'e' ∨ c = 'E')
    (h : ∀ after, text ≠ c :: after) (after : List Char) : text ++ rest ≠ c :: after := by
  intro heq
  cases text with
  | nil =>
    obtain ⟨-, hpoint, he, hE⟩ := hrest c (by rw [List.nil_append] at heq; rw [heq]; rfl)
    simp_all
  | cons d text =>
    cases heq
    exact h text rfl

theorem fraction_append (h : fraction text = some (fs, left)) :
    fraction (text ++ rest) = some (fs, left ++ rest) := by
  by_cases hpoint : ∃ after, text = '.' :: after
  · obtain ⟨after, rfl⟩ := hpoint
    obtain ⟨hdigits, hfs⟩ := fraction_point_eq_some.1 h
    rw [List.cons_append]
    exact fraction_point_eq_some.2 ⟨by rw [digits_append hrest, hdigits], hfs⟩
  · rw [not_exists] at hpoint
    cases (fraction_of_ne hpoint).symm.trans h
    exact fraction_of_ne (append_ne_cons hrest (.inl rfl) hpoint)

theorem exponent_append (h : exponent text = some (e, left)) :
    exponent (text ++ rest) = some (e, left ++ rest) := by
  by_cases hmark : ∃ mark after, (mark = 'e' ∨ mark = 'E') ∧ text = mark :: after
  · obtain ⟨mark, after, hmark, rfl⟩ := hmark
    obtain ⟨ds, hdigits, hds, rfl⟩ := (exponent_mark_eq_some hmark).1 h
    have hafter : after ≠ [] := by
      rintro rfl
      exact hds (congrArg Prod.fst hdigits).symm
    rw [List.cons_append]
    refine (exponent_mark_eq_some hmark).2 ⟨ds, ?_, hds, ?_⟩
    · rw [exponentSign_append hafter rest, digits_append hrest, hdigits]
    · rw [exponentSign_append hafter rest]
  · have hne : ∀ after, text ≠ 'e' :: after ∧ text ≠ 'E' :: after := fun after =>
      ⟨fun heq => hmark ⟨_, after, .inl rfl, heq⟩, fun heq => hmark ⟨_, after, .inr rfl, heq⟩⟩
    cases (exponent_of_ne hne).symm.trans h
    exact exponent_of_ne fun after =>
      ⟨append_ne_cons hrest (.inr (.inl rfl)) (fun after => (hne after).1) after,
        append_ne_cons hrest (.inr (.inr rfl)) (fun after => (hne after).2) after⟩

/-- A number is read in the same way with more text after it. -/
theorem unsigned_append {negative : Bool} (h : unsigned negative text = some (v, left)) :
    unsigned negative (text ++ rest) = some (v, left ++ rest) := by
  simp only [unsigned, Option.bind_eq_bind, Option.bind_eq_some_iff] at h ⊢
  obtain ⟨⟨ds, afterWhole⟩, hwhole, ⟨fs, afterPoint⟩, hfraction, ⟨e, afterMark⟩, hexponent, h⟩ := h
  exact ⟨_, whole_append hrest hwhole, _, fraction_append hrest hfraction, _,
    exponent_append hrest hexponent, by simp_all⟩

end Append

theorem head?_toDigits_ne_zero {n : Nat} (hn : 0 < n) : (Nat.toDigits 10 n).head? ≠ some '0' := by
  induction n using Nat.strongRecOn with
  | _ n ih =>
    rw [Nat.toDigits_eq_if (by decide)]
    split
    · simpa using Nat.ne_of_gt hn
    · have hhead := ih (n / 10) (by omega) (by omega)
      cases hn' : Nat.toDigits 10 (n / 10) with
      | nil => exact absurd hn' Nat.toDigits_ne_nil
      | cons d rest => rwa [hn'] at hhead

/-- Only zero is written with a leading zero. -/
theorem whole_toDigits (n : Nat) : whole (Nat.toDigits 10 n) = some (Nat.toDigits 10 n, []) := by
  have hdigit : ∀ c ∈ Nat.toDigits 10 n, c.isDigit = true := fun c hc =>
    Nat.isDigit_of_mem_toDigits (by decide) (by decide) hc
  have hdigits : digits (Nat.toDigits 10 n) = (Nat.toDigits 10 n, []) := by
    rw [digits, List.takeWhile_eq_self_iff.2 hdigit, List.dropWhile_eq_nil_iff.2 hdigit]
  refine whole_eq_some.2 ⟨hdigits, Nat.toDigits_ne_nil, fun d rest heq => ?_⟩
  obtain rfl | hn := Nat.eq_zero_or_pos n
  · simp at heq
  · exact head?_toDigits_ne_zero hn (by rw [heq]; rfl)

theorem unsigned_toDigits {negative : Bool} {n : Nat} {m : Int}
    (h : (Numeral.mk negative (Nat.toDigits 10 n) [] none).integer? = some m) :
    unsigned negative (Nat.toDigits 10 n) = some (.int m, []) := by
  simp [unsigned, whole_toDigits, fraction, exponent, Numeral.value?, h]

theorem unsigned_false_toDigits {n : Nat} (h : n < UInt64.size) :
    unsigned false (Nat.toDigits 10 n) = some (.int n, []) := by
  apply unsigned_toDigits
  simp [Numeral.integer?, decimalFrom_toDigits, h]

theorem unsigned_true_toDigits {n : Nat} (hn : n ≠ 0) (h : Int64.minValue.toInt ≤ -n) :
    unsigned true (Nat.toDigits 10 n) = some (.int (-n), []) := by
  apply unsigned_toDigits
  have hfits : ¬ (n = 0 ∨ -(n : Int) < Int64.minValue.toInt) := by omega
  simp only [Numeral.integer?, decimalFrom_toDigits, if_true, if_neg hfits]
  rfl

end Numbers

section Strings

/-- The four digits of the number of a control character. -/
theorem hexNumber?_drop_hex {n : Nat} (hn : n < 32) :
    ∃ a b c d, (Word.hex n.toUInt64).toList.drop 12 = [a, b, c, d] ∧
      hexNumber? [a, b, c, d] = some n := by
  have h : ∀ n < 32, ((Word.hex n.toUInt64).toList.drop 12).length = 4 ∧
      hexNumber? ((Word.hex n.toUInt64).toList.drop 12) = some n := by decide +kernel
  match (Word.hex n.toUInt64).toList.drop 12, h n hn with
  | [a, b, c, d], ⟨_, hnumber⟩ => exact ⟨a, b, c, d, rfl, hnumber⟩

/-- A short escape is read as what it is written for. -/
theorem escaped?_of_shortEscape? {c short : Char} (h : shortEscape? c = some short) :
    escaped? short = some c ∧ short ≠ 'u' := by
  unfold shortEscape? at h
  split at h
  all_goals first
    | cases h; exact ⟨rfl, by decide⟩
    | cases h

theorem ne_of_shortEscape?_eq_none {c : Char} (h : shortEscape? c = none) :
    c ≠ '"' ∧ c ≠ '\\' := by
  constructor
  all_goals
    rintro rfl
    cases h

theorem escape_of_short {c short : Char} (h : shortEscape? c = some short) :
    escape c = ['\\', short] := by
  rw [escape, h]

theorem exists_escape_of_control {c : Char} (hshort : shortEscape? c = none)
    (h : c.toNat < 32) :
    ∃ a b d e, escape c = ['\\', 'u', a, b, d, e] ∧ hexNumber? [a, b, d, e] = some c.toNat := by
  obtain ⟨a, b, d, e, heq, hnumber⟩ := hexNumber?_drop_hex h
  refine ⟨a, b, d, e, ?_, hnumber⟩
  rw [escape, hshort]
  dsimp only
  rw [if_pos h, heq]

theorem escape_of_plain {c : Char} (hshort : shortEscape? c = none) (h : ¬ c.toNat < 32) :
    escape c = [c] := by
  rw [escape, hshort]
  exact if_neg h

variable {acc rest : List Char}

theorem stringBody_short {c short : Char} (h : escaped? short = some c) (hu : short ≠ 'u') :
    stringBody acc ('\\' :: short :: rest) = stringBody (c :: acc) rest := by
  rw [stringBody, h]
  all_goals simp_all

theorem stringBody_plain {c : Char} (hshort : shortEscape? c = none) (h : ¬ c.toNat < 32) :
    stringBody acc (c :: rest) = stringBody (c :: acc) rest := by
  obtain ⟨hquote, hbackslash⟩ := ne_of_shortEscape?_eq_none hshort
  rw [stringBody, if_neg h] <;> simp_all

/-- No escaped text begins with half of a pair of surrogates, so a control character is read from
its own four digits. -/
theorem stringBody_control {n : Nat} {a b c d : Char} (hn : n < 32)
    (h : hexNumber? [a, b, c, d] = some n)
    (hrest : ∀ e f g i after, rest = '\\' :: 'u' :: e :: f :: g :: i :: after →
      (hexNumber? [e, f, g, i]).isSome) :
    stringBody acc ('\\' :: 'u' :: a :: b :: c :: d :: rest) =
      stringBody (Char.ofNat n :: acc) rest := by
  have hvalid : n.isValidChar := .inl (by omega)
  rw [stringBody.eq_def]
  split
  · simp at *
  -- Another escape follows, but a control character is not the first half of a pair.
  · next heq =>
    simp only [List.cons.injEq, true_and] at heq
    obtain ⟨rfl, rfl, rfl, rfl, rfl⟩ := heq
    obtain ⟨second, hsecond⟩ := Option.isSome_iff_exists.1 (hrest _ _ _ _ _ rfl)
    have hpair : surrogatePair? n second = none := if_neg (by omega)
    simp [h, hsecond, hpair, hvalid]
  · next heq =>
    simp only [List.cons.injEq, true_and] at heq
    obtain ⟨rfl, rfl, rfl, rfl, rfl⟩ := heq
    simp [h, hvalid]
  -- The remaining patterns are those of shorter escapes and of plain characters.
  · next hescape heq =>
    simp only [List.cons.injEq, true_and] at heq
    obtain ⟨rfl, rfl⟩ := heq
    exact (hescape _ _ _ _ _ rfl rfl).elim
  · next hescape heq =>
    obtain ⟨rfl, rfl⟩ := List.cons.inj heq
    exact (hescape _ _ rfl rfl).elim
  · next heq => cases heq

/-- Where an escaped text begins with an escape of four characters, these are digits. -/
theorem isSome_hexNumber?_of_escape {cs : List Char} {a b c d : Char} {after : List Char}
    (h : cs.flatMap escape ++ '"' :: rest = '\\' :: 'u' :: a :: b :: c :: d :: after) :
    (hexNumber? [a, b, c, d]).isSome := by
  cases cs with
  | nil => simp at h
  | cons x cs =>
    rw [List.flatMap_cons, List.append_assoc] at h
    cases hshort : shortEscape? x with
    | some short =>
      rw [escape_of_short hshort] at h
      exact absurd (List.cons.inj (List.cons.inj h).2).1 (escaped?_of_shortEscape? hshort).2
    | none =>
      by_cases hcontrol : x.toNat < 32
      · obtain ⟨a', b', c', d', hescape, hnumber⟩ := exists_escape_of_control hshort hcontrol
        rw [hescape] at h
        cases h
        rw [hnumber]
        rfl
      · rw [escape_of_plain hshort hcontrol] at h
        exact absurd (List.cons.inj h).1 (ne_of_shortEscape?_eq_none hshort).2

/-- An escaped text is read as the text. -/
theorem stringBody_escape (cs acc rest : List Char) :
    stringBody acc (cs.flatMap escape ++ '"' :: rest) =
      some (String.ofList (acc.reverse ++ cs), rest) := by
  induction cs generalizing acc with
  | nil => simp [stringBody]
  | cons c cs ih =>
    -- It remains to read one escaped character, in each of its three forms.
    have hnext : stringBody (c :: acc) (cs.flatMap escape ++ '"' :: rest) =
        some (String.ofList (acc.reverse ++ c :: cs), rest) := by
      simpa using ih (c :: acc)
    rw [List.flatMap_cons, List.append_assoc, ← hnext]
    cases hshort : shortEscape? c with
    | some short =>
      obtain ⟨hescaped, hu⟩ := escaped?_of_shortEscape? hshort
      rw [escape_of_short hshort]
      exact stringBody_short hescaped hu
    | none =>
      by_cases hcontrol : c.toNat < 32
      · obtain ⟨a, b, d, e, hescape, hnumber⟩ := exists_escape_of_control hshort hcontrol
        have hread : stringBody acc
            ('\\' :: 'u' :: a :: b :: d :: e :: (cs.flatMap escape ++ '"' :: rest)) = _ :=
          stringBody_control hcontrol hnumber fun _ _ _ _ _ => isSome_hexNumber?_of_escape
        rw [hescape]
        rwa [Char.ofNat_toNat] at hread
      · rw [escape_of_plain hshort hcontrol]
        exact stringBody_plain hshort hcontrol

end Strings

end Parser

end AgentPlanning.Json
