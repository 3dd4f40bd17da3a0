import AgentPlanning.Proofs.Json.Tokens
import Mathlib.Data.List.DropRight
import Mathlib.Data.List.Forall2

/-!
# Reading JSON Text Back

The reader inverts the writer on every value whose text tells all of it. What a value is read from
does not depend on the text after it, as long as that text does not go on with a number; so the
elements of an array and the members of an object can be read one after another. Of the numbers that
are not integers only one thing is assumed: that each is read back from its own text. Main
statements:

* `ReadsAs`: a text is read as a value, whatever comes after it;
* `elements_intercalate`, `members_intercalate`: what is read between brackets and between braces;
* `parse?_render`: a readable value is read back from its text.
-/

namespace AgentPlanning.Json

namespace Parser

section Blanks

variable {text rest : List Char}

theorem skipBlanks_skipBlanks (text : List Char) : skipBlanks (skipBlanks text) = skipBlanks text :=
  List.dropWhile_idempotent _ _

theorem skipBlanks_cons {c : Char} (hc : c ∉ [' ', '\t', '\n', '\r']) (text : List Char) :
    skipBlanks (c :: text) = c :: text := by
  apply List.dropWhile_cons_of_neg
  simpa [and_assoc] using hc

theorem skipBlanks_digit {c : Char} (hc : c.isDigit = true) (text : List Char) :
    skipBlanks (c :: text) = c :: text := by
  refine skipBlanks_cons (fun hblank => ?_) text
  obtain rfl | rfl | rfl | rfl : c = ' ' ∨ c = '\t' ∨ c = '\n' ∨ c = '\r' := by
    simpa using hblank
  all_goals exact absurd hc (by decide)

theorem skipBlanks_append_of_eq_nil (h : skipBlanks text = []) (rest : List Char) :
    skipBlanks (text ++ rest) = skipBlanks rest := by
  rw [skipBlanks] at h
  simp [skipBlanks, List.dropWhile_append, h]

theorem skipBlanks_append_of_ne_nil (h : skipBlanks text ≠ []) (rest : List Char) :
    skipBlanks (text ++ rest) = skipBlanks text ++ rest := by
  rw [skipBlanks] at h
  simp [skipBlanks, List.dropWhile_append, h]

end Blanks

section Forms

attribute [local simp] value elements members

variable {n : Nat} {text left : List Char} {v : Value}

theorem value_skipBlanks (n : Nat) (text : List Char) :
    value n (skipBlanks text) = value n text := by
  cases n with
  | zero => rfl
  | succ n => simp [skipBlanks_skipBlanks]

theorem elements_skipBlanks (n : Nat) (acc : List Value) (text : List Char) :
    elements n acc (skipBlanks text) = elements n acc text := by
  cases n with
  | zero => rfl
  | succ n => simp [value_skipBlanks]

theorem members_skipBlanks (n : Nat) (acc : Members) (text : List Char) :
    members n acc (skipBlanks text) = members n acc text := by
  cases n with
  | zero => rfl
  | succ n => simp [skipBlanks_skipBlanks]

theorem value_digit {c : Char} (hc : c.isDigit = true) (n : Nat) (text : List Char) :
    value (n + 1) (c :: text) = unsigned false (c :: text) := by
  rw [value, skipBlanks_digit hc]
  split
  case h_8 => rfl
  all_goals
    next heq =>
    cases heq
    exact absurd hc (by decide)

theorem value_minus (n : Nat) (text : List Char) :
    value (n + 1) ('-' :: text) = unsigned true text := by
  simp [skipBlanks]

theorem value_quote (n : Nat) (text : List Char) :
    value (n + 1) ('"' :: text) =
      (stringBody [] text).map fun (s, rest) => (.string s, rest) := by
  simp [skipBlanks]

theorem value_bracket (n : Nat) (text : List Char) : value n (']' :: text) = none := by
  cases n <;> simp [skipBlanks, unsigned, whole, digits]

/-- An array with elements does not end at once, so its elements are read. -/
theorem value_array (h : elements n [] text = some (v, left)) :
    value (n + 1) ('[' :: text) = some (v, left) := by
  have hopen := skipBlanks_cons (c := '[') (by decide) text
  rw [← elements_skipBlanks] at h
  simp only [value, hopen]
  split
  -- No element begins with a bracket that closes the array.
  · next heq =>
    rw [heq] at h
    cases n with
    | zero => cases h
    | succ n => simp [value_bracket] at h
  · exact h

/-- An object with members does not end at once, so its members are read. -/
theorem value_object (h : members n [] text = some (v, left)) :
    value (n + 1) ('\x7b' :: text) = some (v, left) := by
  have hopen := skipBlanks_cons (c := '\x7b') (by decide) text
  rw [← members_skipBlanks] at h
  simp only [value, hopen]
  split
  · next heq =>
    rw [heq] at h
    cases n with
    | zero => cases h
    | succ n => simp [skipBlanks] at h
  · exact h

end Forms

section Reading

variable {text left : List Char} {v : Value}

/-- With a step for each character the text is read as the value, whatever comes after it. -/
def ReadsAs (text : List Char) (v : Value) : Prop :=
  ∀ n rest, text.length ≤ n → EndsNumber rest →
    ∃ left, value n (text ++ rest) = some (v, left) ∧ skipBlanks left = skipBlanks rest

/-- There is always a first step, since no value is read from nothing. -/
theorem readsAs_of_succ (hne : text ≠ [])
    (h : ∀ n rest, text.length ≤ n + 1 → EndsNumber rest →
      ∃ left, value (n + 1) (text ++ rest) = some (v, left) ∧ skipBlanks left = skipBlanks rest) :
    ReadsAs text v := by
  intro n rest hn hrest
  cases n with
  | zero => exact absurd (List.length_eq_zero_iff.1 (Nat.le_zero.1 hn)) hne
  | succ n => exact h n rest hn hrest

theorem ReadsAs.of_skipBlanks (h : ReadsAs (skipBlanks text) v) (hne : skipBlanks text ≠ []) :
    ReadsAs text v := by
  intro n rest hn hrest
  rw [← value_skipBlanks, skipBlanks_append_of_ne_nil hne]
  exact h n rest (Nat.le_trans (List.length_dropWhile_le _ _) hn) hrest

theorem readsAs_unsigned (h : unsigned false text = some (v, left))
    (hleft : skipBlanks left = []) : ReadsAs text v := by
  obtain ⟨c, after, rfl, hc⟩ : ∃ c after, text = c :: after ∧ c.isDigit = true := by
    simp only [unsigned, Option.bind_eq_bind, Option.bind_eq_some_iff] at h
    obtain ⟨_, hwhole, -⟩ := h
    exact exists_digit_of_whole hwhole
  refine readsAs_of_succ (List.cons_ne_nil _ _) fun n rest _ hrest => ?_
  refine ⟨left ++ rest, ?_, skipBlanks_append_of_eq_nil hleft rest⟩
  rw [List.cons_append, value_digit hc]
  exact unsigned_append hrest h

theorem readsAs_minus (h : unsigned true text = some (v, left)) (hleft : skipBlanks left = []) :
    ReadsAs ('-' :: text) v := by
  refine readsAs_of_succ (List.cons_ne_nil _ _) fun n rest _ hrest => ?_
  refine ⟨left ++ rest, ?_, skipBlanks_append_of_eq_nil hleft rest⟩
  rw [List.cons_append, value_minus]
  exact unsigned_append hrest h

theorem readsAs_int {n : Int} (hlo : Int64.minValue.toInt ≤ n) (hhi : n < UInt64.size) :
    ReadsAs (toString n).toList (.int n) := by
  rw [Int.toString_eq_repr, Int.repr_eq_if]
  split
  · next hn =>
    have hread := unsigned_false_toDigits (n := n.toNat) (by omega)
    rw [Int.toNat_of_nonneg hn] at hread
    rw [Nat.toList_repr]
    exact readsAs_unsigned hread rfl
  · next hn =>
    have hread := unsigned_true_toDigits (n := (-n).toNat) (by omega) (by omega)
    rw [show -((-n).toNat : Int) = n by omega] at hread
    rw [String.toList_append, Nat.toList_repr]
    exact readsAs_minus hread rfl

theorem readsAs_string (s : String) : ReadsAs (quote s).toList (.string s) := by
  refine readsAs_of_succ (by simp [quote]) fun n rest _ _ => ⟨rest, ?_, rfl⟩
  simp [quote, value_quote, stringBody_escape]

theorem readsAs_null : ReadsAs "null".toList .null :=
  readsAs_of_succ (by simp) fun n rest _ _ => ⟨rest, by simp [value, skipBlanks_cons], rfl⟩

theorem readsAs_bool (b : Bool) : ReadsAs (if b then "true" else "false").toList (.bool b) :=
  readsAs_of_succ (by cases b <;> simp) fun n rest _ _ =>
    ⟨rest, by cases b <;> simp [value, skipBlanks_cons], rfl⟩

theorem isArray_of_elements {n : Nat} {acc : List Value}
    (h : elements n acc text = some (v, left)) : ∃ vs, v = .array vs := by
  induction n generalizing acc text with
  | zero => cases h
  | succ n ih =>
    rw [elements] at h
    split at h
    · cases h
    · split at h
      · exact ih h
      · cases h
        exact ⟨_, rfl⟩
      · cases h

theorem isObject_of_members {n : Nat} {acc : Members}
    (h : members n acc text = some (v, left)) : ∃ o, v = .object o := by
  induction n generalizing acc text with
  | zero => cases h
  | succ n ih =>
    rw [members] at h
    split at h
    · split at h
      · cases h
      · split at h
        · split at h
          · cases h
          · split at h
            · exact ih h
            · cases h
              exact ⟨_, rfl⟩
            · cases h
        · cases h
    · cases h

/-- A number that is not an integer is read from a numeral, with or without a sign. -/
theorem unsigned_of_value_real {n : Nat} {x : Float32} (h : value n text = some (.real x, left)) :
    (∃ after, skipBlanks text = '-' :: after ∧ unsigned true after = some (.real x, left)) ∨
      unsigned false (skipBlanks text) = some (.real x, left) := by
  cases n with
  | zero => cases h
  | succ n =>
    rw [value] at h
    split at h
    · cases h
    · cases h
    · cases h
    · obtain ⟨_, _, hread⟩ := Option.map_eq_some_iff.1 h
      cases hread
    · split at h
      · cases h
      · obtain ⟨_, heq⟩ := isArray_of_elements h
        cases heq
    · split at h
      · cases h
      · obtain ⟨_, heq⟩ := isObject_of_members h
        cases heq
    · next heq => exact .inl ⟨_, heq, h⟩
    · exact .inr h

theorem readsAs_real {text : String} {x : Float32} (h : parse? text = some (.real x)) :
    ReadsAs text.toList (.real x) := by
  simp only [parse?, Option.bind_eq_bind, Option.bind_eq_some_iff] at h
  obtain ⟨⟨_, left⟩, hread, h⟩ := h
  split at h
  · next hleft =>
    cases h
    rw [List.isEmpty_iff] at hleft
    -- There may be blanks on both sides of the number, and a sign before it.
    obtain ⟨after, heq, hread⟩ | hread := unsigned_of_value_real hread
    · refine ReadsAs.of_skipBlanks ?_ (by simp [heq])
      rw [heq]
      exact readsAs_minus hread hleft
    · refine ReadsAs.of_skipBlanks (readsAs_unsigned hread hleft) fun heq => ?_
      rw [heq] at hread
      cases hread
  · cases h

section Steps

variable {n : Nat} {rest : List Char} {name : String}

theorem elements_succ_comma (acc : List Value) (hread : value n text = some (v, left))
    (hleft : skipBlanks left = ',' :: rest) :
    elements (n + 1) acc text = elements n (v :: acc) rest := by
  simp only [elements, hread, hleft]

theorem elements_succ_bracket (acc : List Value) (hread : value n text = some (v, left))
    (hleft : skipBlanks left = ']' :: rest) :
    elements (n + 1) acc text = some (.array (acc.reverse ++ [v]), rest) := by
  simp only [elements, hread, hleft, List.reverse_cons]

theorem members_succ_comma (acc : Members) (hread : value n text = some (v, left))
    (hleft : skipBlanks left = ',' :: rest) :
    members (n + 1) acc ((quote name).toList ++ ':' :: text) =
      members n (putMember acc name v) rest := by
  simp [members, quote, stringBody_escape, skipBlanks_cons, hread, hleft]

theorem members_succ_brace (acc : Members) (hread : value n text = some (v, left))
    (hleft : skipBlanks left = '\x7d' :: rest) :
    members (n + 1) acc ((quote name).toList ++ ':' :: text) =
      some (.object (putMember acc name v), rest) := by
  simp [members, quote, stringBody_escape, skipBlanks_cons, hread, hleft]

end Steps

/-- The elements of an array are read one after another. -/
theorem elements_intercalate {t : List Char} {ts : List (List Char)} {vs : List Value}
    (h : List.Forall₂ ReadsAs (t :: ts) (v :: vs)) {n : Nat} (acc : List Value) (rest : List Char)
    (hn : ([','].intercalate (t :: ts)).length ≤ n) :
    elements (n + 1) acc ([','].intercalate (t :: ts) ++ ']' :: rest) =
      some (.array (acc.reverse ++ v :: vs), rest) := by
  induction ts generalizing t v vs acc n with
  | nil =>
    obtain _ | ⟨hv, ⟨⟩⟩ := h
    rw [List.intercalate_singleton] at hn ⊢
    obtain ⟨left, hread, hleft⟩ := hv n (']' :: rest) hn (endsNumber_cons (by decide) rest)
    exact elements_succ_bracket acc hread (hleft.trans (skipBlanks_cons (by decide) rest))
  | cons u ts ih =>
    obtain _ | ⟨hv, _ | ⟨hu, hts⟩⟩ := h
    rw [List.intercalate_cons_cons] at hn ⊢
    simp only [List.length_append, List.length_singleton, List.append_assoc] at hn ⊢
    obtain ⟨n, rfl⟩ := Nat.exists_eq_succ_of_ne_zero (show n ≠ 0 by omega)
    let after := [','].intercalate (u :: ts) ++ ']' :: rest
    obtain ⟨left, hread, hleft⟩ :=
      hv (n + 1) (',' :: after) (by omega) (endsNumber_cons (by decide) after)
    have hleft := hleft.trans (skipBlanks_cons (by decide) after)
    refine (elements_succ_comma acc hread hleft).trans ?_
    simpa using ih (.cons hu hts) (v :: acc) (n := n) (by omega)

/-- The text is that of a member: its name, a colon and a text that is read as its value. -/
def MemberReadsAs (text : List Char) (m : String × Value) : Prop :=
  ∃ after, text = (quote m.1).toList ++ ':' :: after ∧ ReadsAs after m.2

theorem putMember_of_nodup {acc ms : Members} {m : String × Value}
    (h : ((acc ++ m :: ms).map Prod.fst).Nodup) : putMember acc m.1 m.2 = acc ++ [m] := by
  have hkeep : ∀ other ∈ acc, (other.1 != m.1) = true := by
    intro other hother
    rw [List.map_append, List.nodup_append] at h
    exact bne_iff_ne.2 (h.2.2 _ (List.mem_map_of_mem hother) _ List.mem_cons_self)
  rw [putMember, List.filter_eq_self.2 hkeep]

/-- The members of an object are read one after another. No two have one name, so none replaces
another one. -/
theorem members_intercalate {t : List Char} {ts : List (List Char)} {m : String × Value}
    {acc ms : Members} (h : List.Forall₂ MemberReadsAs (t :: ts) (m :: ms))
    (hnames : ((acc ++ m :: ms).map Prod.fst).Nodup) {n : Nat} (rest : List Char)
    (hn : ([','].intercalate (t :: ts)).length ≤ n) :
    members (n + 1) acc ([','].intercalate (t :: ts) ++ '\x7d' :: rest) =
      some (.object (acc ++ m :: ms), rest) := by
  induction ts generalizing t m acc ms n with
  | nil =>
    obtain _ | ⟨⟨after, ht, hv⟩, ⟨⟩⟩ := h
    rw [List.intercalate_singleton, ht] at hn ⊢
    simp only [List.length_append, List.length_cons, List.append_assoc, List.cons_append] at hn ⊢
    obtain ⟨left, hread, hleft⟩ :=
      hv n ('\x7d' :: rest) (by omega) (endsNumber_cons (by decide) rest)
    rw [members_succ_brace acc hread (hleft.trans (skipBlanks_cons (by decide) rest)),
      putMember_of_nodup hnames]
  | cons u ts ih =>
    obtain _ | ⟨⟨after, ht, hv⟩, _ | ⟨hu, hts⟩⟩ := h
    rw [List.intercalate_cons_cons, ht] at hn ⊢
    simp only [List.length_append, List.length_cons, List.append_assoc, List.cons_append,
      List.nil_append] at hn ⊢
    obtain ⟨n, rfl⟩ := Nat.exists_eq_succ_of_ne_zero (show n ≠ 0 by omega)
    let others := [','].intercalate (u :: ts) ++ '\x7d' :: rest
    obtain ⟨left, hread, hleft⟩ :=
      hv (n + 1) (',' :: others) (by omega) (endsNumber_cons (by decide) others)
    have hleft := hleft.trans (skipBlanks_cons (by decide) others)
    -- The member is new, so it is put behind those before it.
    rw [members_succ_comma acc hread hleft, putMember_of_nodup hnames]
    simpa using @ih u _ (acc ++ [m]) _ (.cons hu hts) (by simpa using hnames) n (by omega)

theorem readsAs_array {texts : List (List Char)} {vs : List Value}
    (h : List.Forall₂ ReadsAs texts vs) :
    ReadsAs ('[' :: ([','].intercalate texts ++ [']'])) (.array vs) := by
  refine readsAs_of_succ (List.cons_ne_nil _ _) fun n rest hn _ => ⟨rest, ?_, rfl⟩
  simp only [List.length_cons, List.length_append, List.length_nil] at hn
  rw [List.cons_append, List.append_assoc]
  cases h with
  | nil => simp [value, skipBlanks_cons]
  | cons hv hvs =>
    obtain ⟨n, rfl⟩ := Nat.exists_eq_succ_of_ne_zero (show n ≠ 0 by omega)
    exact value_array (elements_intercalate (.cons hv hvs) [] rest (by omega))

theorem readsAs_object {texts : List (List Char)} {o : Members}
    (h : List.Forall₂ MemberReadsAs texts o) (hnames : (o.map Prod.fst).Nodup) :
    ReadsAs ('\x7b' :: ([','].intercalate texts ++ ['\x7d'])) (.object o) := by
  refine readsAs_of_succ (List.cons_ne_nil _ _) fun n rest hn _ => ⟨rest, ?_, rfl⟩
  simp only [List.length_cons, List.length_append, List.length_nil] at hn
  rw [List.cons_append, List.append_assoc]
  cases h with
  | nil => simp [value, skipBlanks_cons]
  | cons hm hms =>
    obtain ⟨n, rfl⟩ := Nat.exists_eq_succ_of_ne_zero (show n ≠ 0 by omega)
    exact value_object (members_intercalate (.cons hm hms) hnames rest (by omega))

end Reading

end Parser

theorem parse?_of_numeral {text : String} {x : Numeral} {v : Value}
    (hread : Parser.value (text.toList.length + 1) text.toList = x.value?.map (·, []))
    (hvalue : x.value? = some v) : parse? text = some v := by
  rw [parse?, hread, hvalue]
  rfl

section Rendering

variable {number : Float32 → String}

/-- A value whose text can be read back: integers fit 64 bits, the text of every other number is
read as that number, and no two members of an object have one name. -/
inductive Value.Readable (number : Float32 → String) : Value → Prop
  | null : Readable number .null
  | bool (b : Bool) : Readable number (.bool b)
  | int {n : Int} : Int64.minValue.toInt ≤ n → n < UInt64.size → Readable number (.int n)
  | real {x : Float32} : parse? (number x) = some (.real x) → Readable number (.real x)
  | string (s : String) : Readable number (.string s)
  | array {vs : List Value} : (∀ v ∈ vs, Readable number v) → Readable number (.array vs)
  | object {o : Members} :
    (o.map Prod.fst).Nodup → (∀ m ∈ o, Readable number m.2) → Readable number (.object o)

theorem Value.renderElements_eq_map (vs : List Value) :
    renderElements number vs = vs.map (render number) := by
  induction vs with
  | nil => rfl
  | cons v vs ih => rw [renderElements, ih, List.map_cons]

theorem Value.renderMembers_eq_map (o : Members) :
    renderMembers number o = o.map fun m => quote m.1 ++ ":" ++ m.2.render number := by
  induction o with
  | nil => rfl
  | cons m o ih => rw [renderMembers, ih, List.map_cons]

open Json.Parser

/-- A readable value is read back from its text, whatever comes after it. -/
theorem Value.Readable.readsAs {v : Value} (h : v.Readable number) :
    ReadsAs (v.render number).toList v := by
  induction h with
  | null => exact readsAs_null
  | bool b => exact readsAs_bool b
  | int hlo hhi => exact readsAs_int hlo hhi
  | real hread => exact readsAs_real hread
  | string s => exact readsAs_string s
  | @array vs _ ih =>
    have htext : (render number (.array vs)).toList =
        '[' :: ([','].intercalate (vs.map fun v => (render number v).toList) ++ [']']) := by
      simp [render, renderElements_eq_map, Function.comp_def]
    rw [htext]
    refine readsAs_array ?_
    rw [List.forall₂_map_left_iff, List.forall₂_same]
    exact ih
  | @object o hnames _ ih =>
    let text (m : String × Value) := (quote m.1).toList ++ ':' :: (render number m.2).toList
    have htext : (render number (.object o)).toList =
        '\x7b' :: ([','].intercalate (o.map text) ++ ['\x7d']) := by
      simp [render, renderMembers_eq_map, Function.comp_def, text]
    rw [htext]
    refine readsAs_object ?_ hnames
    rw [List.forall₂_map_left_iff, List.forall₂_same]
    exact fun m hm => ⟨_, rfl, ih m hm⟩

/-- The reader inverts the writer on readable values. -/
theorem parse?_render {v : Value} (h : v.Readable number) : parse? (v.render number) = some v := by
  obtain ⟨left, hread, hleft⟩ :=
    h.readsAs ((v.render number).toList.length + 1) [] (Nat.le_succ _) endsNumber_nil
  rw [List.append_nil] at hread
  have hempty : (skipBlanks left).isEmpty = true := by rw [hleft]; rfl
  rw [parse?, hread]
  exact if_pos hempty

end Rendering

end AgentPlanning.Json
