import AgentPlanning.WorldState.Lemmas

/-!
# Conditions

A condition requires truth values of some atoms: its mask holds the constrained atoms and its
values hold what they must be. The same pair serves as an effect, which writes its values to
the constrained atoms. Bits of `values` outside the mask mean nothing, and no operation here
lets them through.
-/

namespace AgentPlanning

/-- Required truth values for a set of atoms. -/
structure Condition where
  /-- The constrained atoms. -/
  mask : WorldState
  /-- The required value of each constrained atom. -/
  values : WorldState
deriving DecidableEq, Repr

namespace Condition

/-- The condition that constrains nothing. -/
def free : Condition := ⟨.empty, .empty⟩

instance : Inhabited Condition := ⟨free⟩

/-- Adds the requirement that `a` has the value `value`; a later requirement on the same atom
replaces an earlier one. -/
def require (c : Condition) (a : AtomId) (value : Bool) : Condition :=
  ⟨c.mask.set a true, c.values.set a value⟩

/-- The value that the condition requires of `a`; `none` if `a` is unconstrained. -/
def get? (c : Condition) (a : AtomId) : Option Bool :=
  if c.mask.get a then some (c.values.get a) else none

/-- Whether the condition constrains nothing. -/
def isFree (c : Condition) : Bool :=
  c.mask.isEmpty

/-- The atoms that the condition requires to hold. -/
def positive (c : Condition) : WorldState :=
  c.mask &&& c.values

/-- The number of constrained atoms whose value in `s` differs from the required one. -/
def mismatches (c : Condition) (s : WorldState) : Nat :=
  ((s ^^^ c.values) &&& c.mask).count

@[simp] theorem get?_free (a : AtomId) : free.get? a = none := by
  simp [get?, free]

@[simp] theorem get?_require (c : Condition) (a b : AtomId) (value : Bool) :
    (c.require a value).get? b = if a = b then some value else c.get? b := by
  by_cases h : a = b <;> simp [get?, require, h]

@[simp] theorem get_positive (c : Condition) (a : AtomId) :
    c.positive.get a = (c.get? a == some true) := by
  cases h : c.mask.get a <;> simp [positive, get?, h]

/-- The mismatches are the constrained atoms that do not have their required value. -/
theorem mismatches_eq_countP (c : Condition) (s : WorldState) :
    c.mismatches s = (List.finRange 256).countP fun a => (c.get? a).any (· != s.get a) := by
  rw [mismatches, WorldState.count_eq_countP]
  refine List.countP_congr fun a _ => ?_
  rw [WorldState.get_and, WorldState.get_xor, get?]
  cases c.mask.get a <;> cases c.values.get a <;> cases s.get a <;> simp

theorem isFree_iff {c : Condition} : c.isFree = true ↔ ∀ a, c.get? a = none := by
  simp only [isFree, WorldState.isEmpty_iff, get?]
  exact ⟨fun h a => by simp [h], fun h => WorldState.eq_of_get_eq fun a => by simpa using h a⟩

end Condition

namespace WorldState

/-- Whether every constrained atom has its required value: masked words agree. -/
def satisfies (s : WorldState) (c : Condition) : Bool :=
  (List.finRange 4).all fun k => s.word k &&& c.mask.word k == c.values.word k &&& c.mask.word k

/-- The state after the effect `e`: constrained atoms take the effect's values, the others keep
their own. -/
def apply (s : WorldState) (e : Condition) : WorldState :=
  ofWords fun k => (s.word k &&& ~~~e.mask.word k) ||| (e.values.word k &&& e.mask.word k)

/-- A state satisfies a condition exactly if every constrained atom has its required value. -/
theorem satisfies_iff {s : WorldState} {c : Condition} :
    s.satisfies c = true ↔ ∀ a value, c.get? a = some value → s.get a = value := by
  -- Comparing masked words compares masked states.
  have hword : s.satisfies c = true ↔ s &&& c.mask = c.values &&& c.mask := by
    simp only [satisfies, List.all_eq_true, List.mem_finRange, beq_iff_eq, true_implies]
    exact ⟨fun h => eq_of_word_eq fun k => by simp [h k], fun h k => by
      simpa using congrArg (·.word k) h⟩
  rw [hword]
  refine ⟨fun h a value ha => ?_, fun h => eq_of_get_eq fun a => ?_⟩
  · have hget : (s.get a && c.mask.get a) = (c.values.get a && c.mask.get a) := by
      simpa using congrArg (·.get a) h
    cases hm : c.mask.get a <;> simp_all [Condition.get?]
  · cases hm : c.mask.get a with
    | false => simp [hm]
    | true => simp [hm, h a (c.values.get a) (by simp [Condition.get?, hm])]

/-- An effect decides the atoms that it constrains and leaves the others alone. -/
@[simp] theorem get_apply (s : WorldState) (e : Condition) (a : AtomId) :
    (s.apply e).get a = (e.get? a).getD (s.get a) := by
  cases h : e.mask.get a <;> simp_all [get, apply, Condition.get?]

end WorldState

end AgentPlanning
