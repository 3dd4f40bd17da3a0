/-!
# Finite Maps with Ordered Keys

A map is a list of keys with their values in ascending order of the keys, so a map is determined
by its entries, whatever the order in which they arrived. Main statements:

* `get?_empty`, `get?_insert`, `get?_erase`: the value of every key after an operation.
-/

namespace AgentPlanning

/-- A finite map, listed in ascending order of its keys. -/
structure KeyMap (κ ν : Type) [LT κ] where
  /-- The keys with their values. -/
  entries : List (κ × ν)
  /-- The keys ascend, so no key occurs twice. -/
  ascending : entries.Pairwise fun a b => a.1 < b.1
deriving DecidableEq

namespace KeyMap

/-- Looking a key up in a list of entries compares it with the first key. -/
theorem lookup_cons {κ ν : Type} [DecidableEq κ] (key k : κ) (v : ν)
    (rest : List (κ × ν)) :
    ((k, v) :: rest).lookup key = if key = k then some v else rest.lookup key := by
  rw [List.lookup_cons]; split <;> simp_all

variable {κ ν : Type} [LT κ]

/-- The map without entries. -/
def empty : KeyMap κ ν := ⟨[], .nil⟩

instance : Inhabited (KeyMap κ ν) := ⟨empty⟩

/-- The number of entries. -/
def size (m : KeyMap κ ν) : Nat := m.entries.length

/-- Whether the map has no entries. -/
def isEmpty (m : KeyMap κ ν) : Bool := m.entries.isEmpty

variable [DecidableEq κ]

/-- The value of `key`. -/
def get? (m : KeyMap κ ν) (key : κ) : Option ν :=
  m.entries.lookup key

/-- Whether `key` has a value. -/
def contains (m : KeyMap κ ν) (key : κ) : Bool :=
  (m.get? key).isSome

/-- The map in which `key` has no value. -/
def erase (m : KeyMap κ ν) (key : κ) : KeyMap κ ν :=
  ⟨m.entries.filter fun entry => entry.1 ≠ key, m.ascending.filter _⟩

/-- Puts an entry at its place in a list of entries, replacing an entry of the same key. -/
def insertEntry [DecidableLT κ] (key : κ) (value : ν) : List (κ × ν) → List (κ × ν)
  | [] => [(key, value)]
  | (k, v) :: rest =>
    if key = k then (key, value) :: rest
    else if key < k then (key, value) :: (k, v) :: rest
    else (k, v) :: insertEntry key value rest

theorem mem_insertEntry [DecidableLT κ] {key : κ} {value : ν} {entries : List (κ × ν)}
    {entry : κ × ν} (h : entry ∈ insertEntry key value entries) :
    entry = (key, value) ∨ entry ∈ entries := by
  induction entries with
  | nil => simpa [insertEntry] using h
  | cons head rest ih => grind [insertEntry]

section Insert

variable [DecidableLT κ] [Std.Trichotomous (α := κ) (· < ·)]
  [Trans (α := κ) (β := κ) (γ := κ) (· < ·) (· < ·) (· < ·)]

theorem ascending_insertEntry {key : κ} {value : ν} {entries : List (κ × ν)}
    (h : entries.Pairwise fun a b => a.1 < b.1) :
    (insertEntry key value entries).Pairwise fun a b => a.1 < b.1 := by
  induction entries with
  | nil => simp [insertEntry]
  | cons head rest ih =>
    obtain ⟨k, v⟩ := head
    obtain ⟨hk, hrest⟩ := List.pairwise_cons.1 h
    rw [insertEntry]
    split
    next heq => exact List.pairwise_cons.2 ⟨heq ▸ hk, hrest⟩
    next hne =>
      split
      next hlt =>
        refine List.pairwise_cons.2 ⟨fun entry hentry => ?_, h⟩
        rcases List.mem_cons.1 hentry with rfl | hentry
        · exact hlt
        · exact Trans.trans hlt (hk entry hentry)
      next hlt =>
        -- A key that is neither equal nor smaller comes after the first one.
        have hkey : k < key := Decidable.byContradiction fun hgt =>
          hne (Std.Trichotomous.trichotomous key k hlt hgt)
        refine List.pairwise_cons.2 ⟨fun entry hentry => ?_, ih hrest⟩
        rcases mem_insertEntry hentry with rfl | hentry
        · exact hkey
        · exact hk entry hentry

/-- The map in which `key` has the value `value`. -/
def insert (m : KeyMap κ ν) (key : κ) (value : ν) : KeyMap κ ν :=
  ⟨insertEntry key value m.entries, ascending_insertEntry m.ascending⟩

/-- The map of the given entries; of two entries for one key the later counts. -/
def ofList (entries : List (κ × ν)) : KeyMap κ ν :=
  entries.foldl (fun m entry => m.insert entry.1 entry.2) empty

theorem ofList_concat (entries : List (κ × ν)) (key : κ) (value : ν) :
    ofList (entries ++ [(key, value)]) = (ofList entries).insert key value := by
  rw [ofList, List.foldl_append, ← ofList]
  rfl

end Insert

/-! ## The values of a computed map -/

@[simp] theorem get?_empty (key : κ) : (empty : KeyMap κ ν).get? key = none := rfl

@[simp] theorem get?_erase (m : KeyMap κ ν) (key other : κ) :
    (m.erase key).get? other = if key = other then none else m.get? other := by
  simp only [get?, erase]
  induction m.entries with
  | nil => simp
  | cons entry rest ih =>
    obtain ⟨k, v⟩ := entry
    grind [lookup_cons]

@[simp] theorem get?_insert [DecidableLT κ] [Std.Trichotomous (α := κ) (· < ·)]
    [Trans (α := κ) (β := κ) (γ := κ) (· < ·) (· < ·) (· < ·)]
    (m : KeyMap κ ν) (key other : κ) (value : ν) :
    (m.insert key value).get? other = if key = other then some value else m.get? other := by
  simp only [get?, insert]
  induction m.entries with
  | nil => grind [insertEntry, lookup_cons]
  | cons entry rest ih =>
    obtain ⟨k, v⟩ := entry
    grind [insertEntry, lookup_cons]

end KeyMap

/-! ## Names as keys -/

/-- Of two different names one comes before the other. -/
instance instTrichotomousName : Std.Trichotomous (α := String) (· < ·) :=
  ⟨fun _ _ hab hba => String.le_antisymm (String.not_lt.1 hba) (String.not_lt.1 hab)⟩

/-- The order of names is transitive. -/
instance instTransName : Trans (α := String) (β := String) (γ := String) (· < ·) (· < ·) (· < ·) :=
  ⟨String.lt_trans⟩

end AgentPlanning
