import AgentPlanning.KeyMap
import AgentPlanning.WorldState.Basic

/-!
# The Atom Registry

The registry gives atoms their numbers: each new name receives the next free one, and a name
that is already known keeps its own. A registry holds at most its capacity of names, and never
more than a world state has room for.
-/

namespace AgentPlanning

/-- The registry had no room for a new name. -/
structure RegistryFull where
  /-- The name that was not registered. -/
  name : String
  capacity : Nat
deriving DecidableEq, Repr

/-- The wording of the error. -/
def RegistryFull.message (e : RegistryFull) : String :=
  s!"atom registry is full ({e.capacity} atoms); cannot register `{e.name}`"

/-- Atom names in the order of their numbers, and the number of each name. -/
structure AtomRegistry where
  /-- The registered names; the atom of a name is its position. -/
  names : Array String
  /-- The atoms of the registered names. -/
  atoms : KeyMap String AtomId
  /-- The largest number of names that this registry accepts. -/
  capacity : Nat
  /-- A registry is never larger than a world state. -/
  capacity_le : capacity ≤ 256
  /-- The names fit the capacity. -/
  size_le : names.size ≤ capacity
  /-- The two tables are inverse to each other. -/
  inverse : ∀ name (atom : AtomId), atoms.get? name = some atom ↔ names[atom.val]? = some name
deriving DecidableEq

namespace AtomRegistry

/-- The empty registry for up to `n` atoms; more than a world state holds are not promised. -/
def ofCapacity (n : Nat) : AtomRegistry where
  names := #[]
  atoms := .empty
  capacity := min n 256
  capacity_le := Nat.min_le_right n 256
  size_le := Nat.zero_le _
  inverse := by simp

/-- The empty registry with room for every atom of a world state. -/
def empty : AtomRegistry := ofCapacity 256

/-- The number of registered names. -/
def size (r : AtomRegistry) : Nat := r.names.size

/-- The atom whose number is a position of the registry. -/
def atomAt (r : AtomRegistry) (i : Fin r.names.size) : AtomId :=
  ⟨i.val, Nat.lt_of_lt_of_le i.isLt (Nat.le_trans r.size_le r.capacity_le)⟩

/-- The atom registered under `name`. -/
def get? (r : AtomRegistry) (name : String) : Option AtomId :=
  r.atoms.get? name

/-- The name of `atom`; `none` if the number has not been given out. -/
def name? (r : AtomRegistry) (atom : AtomId) : Option String :=
  r.names[atom.val]?

/-- Names and numbers determine each other. -/
theorem get?_eq_some_iff {r : AtomRegistry} {name : String} {atom : AtomId} :
    r.get? name = some atom ↔ r.name? atom = some name :=
  r.inverse name atom

theorem get?_eq_none_iff {r : AtomRegistry} {name : String} :
    r.get? name = none ↔ name ∉ r.names := by
  rw [Option.eq_none_iff_forall_ne_some, Array.mem_iff_getElem?, not_exists]
  refine ⟨fun h i hi => ?_, fun h atom hatom => h atom.val (get?_eq_some_iff.1 hatom)⟩
  obtain ⟨hlt, -⟩ := Array.getElem?_eq_some_iff.1 hi
  exact h (r.atomAt ⟨i, hlt⟩) (get?_eq_some_iff.2 hi)

/-- The tables stay inverse when a new name goes to the end of the one and, with its position, into
the other. -/
theorem inverse_insert {r : AtomRegistry} {name : String} (hnew : r.get? name = none)
    (hsize : r.names.size < 256) (other : String) (atom : AtomId) :
    (r.atoms.insert name ⟨r.names.size, hsize⟩).get? other = some atom ↔
      (r.names.push name)[atom.val]? = some other := by
  rw [KeyMap.get?_insert, Array.getElem?_push]
  by_cases hlast : atom.val = r.names.size
  · -- The last position belongs to the new name alone.
    have hunused : r.atoms.get? other ≠ some atom := fun h => by
      have := (r.inverse other atom).1 h
      simp [hlast] at this
    rw [if_pos hlast]
    split
    next heq => simp [heq, Fin.ext_iff, hlast]
    next hne => simp [hne, hunused]
  · rw [if_neg hlast, ← r.inverse other atom]
    split
    next heq =>
      subst heq
      have hnot : r.atoms.get? name = none := hnew
      simp [hnot, Fin.ext_iff, Ne.symm hlast]
    next => rfl

/-- The atom of `name`, registering it under the next number if it is new. A new name fails
when the registry is full. -/
def intern (r : AtomRegistry) (name : String) : Except RegistryFull (AtomId × AtomRegistry) :=
  match hname : r.get? name with
  | some atom => .ok (atom, r)
  | none =>
    if h : r.names.size < r.capacity then
      let atom : AtomId := ⟨r.names.size, Nat.lt_of_lt_of_le h r.capacity_le⟩
      .ok (atom,
        { r with
          names := r.names.push name
          atoms := r.atoms.insert name atom
          size_le := by rw [Array.size_push]; exact h
          inverse := inverse_insert hname atom.isLt })
    else
      .error ⟨name, r.capacity⟩

theorem intern_of_known {r : AtomRegistry} {name : String} {atom : AtomId}
    (hknown : r.get? name = some atom) : r.intern name = .ok (atom, r) := by
  unfold intern
  split
  next heq => rw [Option.some.inj (heq.symm.trans hknown)]
  next heq => rw [hknown] at heq; cases heq

/-- A new name takes the next place of a registry that has room for it. -/
theorem exists_intern {r : AtomRegistry} {name : String} (hnew : r.get? name = none)
    (hroom : r.names.size < r.capacity) :
    ∃ atom next, r.intern name = .ok (atom, next) ∧ atom.val = r.names.size ∧
      next.names = r.names.push name ∧ next.capacity = r.capacity := by
  unfold intern
  split
  next heq => rw [hnew] at heq; cases heq
  next => rw [dif_pos hroom]; exact ⟨_, _, rfl, rfl, rfl, rfl⟩

theorem intern_of_full {r : AtomRegistry} {name : String} (hnew : r.get? name = none)
    (hfull : ¬r.names.size < r.capacity) : r.intern name = .error ⟨name, r.capacity⟩ := by
  unfold intern
  split
  next heq => rw [hnew] at heq; cases heq
  next => rw [dif_neg hfull]

/-- The registry of the given names; repeated names count once. -/
def ofNames (names : List String) : Except RegistryFull AtomRegistry :=
  names.foldlM (fun r name => (r.intern name).map Prod.snd) empty

/-- The registered atoms with their names, in ascending order. -/
def toList (r : AtomRegistry) : List (AtomId × String) :=
  (List.finRange r.names.size).map fun i => (r.atomAt i, r.names[i])

end AtomRegistry

end AgentPlanning
