import AgentPlanning.Json.Codec
import AgentPlanning.Proofs.Json.Text
import Mathlib.Logic.Relation

/-!
# Leaving Out Members That Hold Defaults

Which members of a record have defaults is a table beside the reader. The table suits the reader
if a member that holds its default may be left out, at any depth, without any effect on what is
read. Only objects and arrays can lose members; everything else is read as before. Main statements:

* `Drops.lookup_cases`: what leaving out one member does to the member of a given name;
* `Restores.record`, `Restores.list`, `Restores.option`: the rules for the types of the members;
* `Restores.decode?_eq_some`: any number of members that are left out.
-/

namespace AgentPlanning.Json

/-- Which members of a value may be left out, and the values that they have by default. The
members of the elements of an array are those of the array. -/
inductive Defaults where
  /-- The defaults of the members, and the tables for what is inside them. -/
  | mk (values : Members) (parts : List (String × Defaults))

namespace Defaults

/-- The defaults of the members. -/
def values : Defaults → Members
  | mk values _ => values

/-- The table of a value in which no member has a default. -/
def empty : Defaults := mk [] []

/-- The table for what is inside a member. -/
def inside (name : String) : Defaults → Defaults
  | mk _ parts => (parts.lookup name).getD empty

@[simp] theorem values_empty : empty.values = [] := rfl

@[simp] theorem inside_empty (name : String) : empty.inside name = empty := rfl

end Defaults

/-- The second value is the first one without one member that holds its default. -/
inductive Drops : Defaults → Value → Value → Prop
  /-- A member of the object itself. -/
  | member {d : Defaults} {o : Members} {name : String} {v : Value} :
    o.lookup name = some v → d.values.lookup name = some v →
      Drops d (.object o) (.object (o.filter (·.1 != name)))
  /-- A member further inside, within a member. -/
  | inMember {d : Defaults} {before after : Members} {name : String} {v w : Value} :
    Drops (d.inside name) v w →
      Drops d (.object (before ++ (name, v) :: after)) (.object (before ++ (name, w) :: after))
  /-- A member further inside, within an element. -/
  | inElement {d : Defaults} {before after : List Value} {v w : Value} :
    Drops d v w → Drops d (.array (before ++ v :: after)) (.array (before ++ w :: after))

theorem not_drops_empty {v w : Value} : ¬ Drops .empty v w := by
  generalize hd : Defaults.empty = d
  intro h
  induction h with
  | member _ hdefault => simp [← hd] at hdefault
  | inMember _ ih => exact ih (by rw [← hd, Defaults.inside_empty])
  | inElement _ ih => exact ih hd

theorem lookup_filter_ne {o : Members} {name other : String} (h : other ≠ name) :
    (o.filter (·.1 != name)).lookup other = o.lookup other := by
  induction o with
  | nil => rfl
  | cons m rest ih =>
    obtain ⟨key, v⟩ := m
    by_cases hkey : key = name
    · subst hkey
      simpa [List.lookup_cons, beq_false_of_ne h] using ih
    · simp [hkey, List.lookup_cons, ih]

theorem lookup_filter_self (o : Members) (name : String) :
    (o.filter (·.1 != name)).lookup name = none := by
  rw [List.lookup_eq_none_iff]
  intro m hm
  simpa [bne, Bool.beq_comm] using (List.mem_filter.1 hm).2

/-- A member is there as before, or it held its default and is gone, or something was left out
inside it. -/
theorem Drops.lookup_cases {d : Defaults} {o o' : Members} (h : Drops d (.object o) (.object o'))
    (name : String) :
    o'.lookup name = o.lookup name ∨
      (o'.lookup name = none ∧ o.lookup name = d.values.lookup name) ∨
      ∃ v w, o.lookup name = some v ∧ o'.lookup name = some w ∧ Drops (d.inside name) v w := by
  cases h with
  | @member _ _ dropped v hv hdefault =>
    by_cases hname : name = dropped
    · subst hname
      exact .inr (.inl ⟨lookup_filter_self o name, by rw [hv, hdefault]⟩)
    · exact .inl (lookup_filter_ne hname)
  | @inMember _ before after changed v w hinside =>
    simp only [List.lookup_append, List.lookup_cons]
    cases hbefore : before.lookup name with
    -- Of two members of one name the first counts, so a change behind it does not show.
    | some _ => exact .inl rfl
    | none =>
      by_cases hname : name = changed
      · subst hname
        exact .inr (.inr ⟨v, w, by simp, by simp, hinside⟩)
      · simp [beq_false_of_ne hname]

/-- Whatever the first reading gives, the second one gives too. -/
def Kept {α : Type} (x y : Option α) : Prop := ∀ a, x = some a → y = some a

namespace Kept

variable {α β : Type} {x y : Option α}

theorem refl (x : Option α) : Kept x x := fun _ h => h

theorem bind {f g : α → Option β} (h : Kept x y) (hfg : ∀ a, Kept (f a) (g a)) :
    Kept (x >>= f) (y >>= g) := by
  intro b hb
  obtain ⟨a, ha, hb⟩ := Option.bind_eq_some_iff.1 hb
  exact Option.bind_eq_some_iff.2 ⟨a, h a ha, hfg a b hb⟩

theorem map (h : Kept x y) (f : α → β) : Kept (x.map f) (y.map f) := by
  intro b hb
  obtain ⟨a, ha, hb⟩ := Option.map_eq_some_iff.1 hb
  exact Option.map_eq_some_iff.2 ⟨a, h a ha, hb⟩

end Kept

section Reading

variable {α : Type} [Codec α] {d : Defaults}

/-- Leaving out members that hold the defaults of the table does not change what is read. -/
def Restores (d : Defaults) (α : Type) [Codec α] : Prop :=
  ∀ v w, Drops d v w → Kept (decode? v : Option α) (decode? w)

theorem Restores.empty : Restores .empty α := fun _ _ h => absurd h not_drops_empty

/-- Any number of members may be left out, one after another. -/
theorem Restores.decode?_eq_some (h : Restores d α) {v w : Value} {x : α}
    (hdrops : Relation.ReflTransGen (Drops d) v w) (hv : decode? v = some x) :
    decode? w = some x := by
  induction hdrops with
  | refl => exact hv
  | tail _ hstep ih => exact h _ _ hstep x ih

theorem Restores.list (h : Restores d α) : Restores d (List α) := by
  intro v w hdrops
  cases hdrops with
  -- An object is never read as a list.
  | member | inMember => exact fun _ hread => nomatch hread
  | @inElement _ before after v w hinside =>
    change Kept ((before ++ v :: after).mapM decode?) ((before ++ w :: after).mapM decode?)
    simp only [List.mapM_append, List.mapM_cons]
    exact .bind (.refl _) fun _ => .bind (.bind (h v w hinside) fun _ => .refl _) fun _ => .refl _

/-- The absent value is no object or array, so nothing can be left out of it. -/
theorem Restores.option (h : Restores d α) : Restores d (Option α) := by
  intro v w hdrops
  have hkept := (h v w hdrops).map some
  cases hdrops with
  | member | inMember | inElement => exact hkept

/-- A record is read member by member from the members of an object. -/
theorem Restores.record {read : Members → Option α}
    (hread : ∀ v, (decode? v : Option α) = v.members? >>= read)
    (h : ∀ o o', Drops d (.object o) (.object o') → Kept (read o) (read o')) :
    Restores d α := by
  intro v w hdrops
  rw [hread v, hread w]
  cases hdrops with
  | member hv hdefault => exact h _ _ (.member hv hdefault)
  | inMember hinside => exact h _ _ (.inMember hinside)
  | inElement => exact fun _ hsome => nomatch hsome

variable {o o' : Members}

theorem Drops.required? (h : Drops d (.object o) (.object o')) (name : String)
    (hname : d.values.lookup name = none) (hinside : Restores (d.inside name) α) :
    Kept (o.required? name : Option α) (o'.required? name) := by
  unfold Members.required?
  obtain heq | ⟨-, heq⟩ | ⟨v, w, hv, hw, hdrops⟩ := h.lookup_cases name
  · rw [heq]
    exact .refl _
  · rw [heq, hname]
    exact fun _ hread => nomatch hread
  · rw [hv, hw]
    exact hinside v w hdrops

theorem Drops.optional? (h : Drops d (.object o) (.object o')) (name : String) (default : α)
    (hname : d.values.lookup name = some (encode default))
    (hdefault : decode? (encode default) = some default)
    (hinside : Restores (d.inside name) α) :
    Kept (o.optional? name default) (o'.optional? name default) := by
  unfold Members.optional?
  obtain heq | ⟨hnone, heq⟩ | ⟨v, w, hv, hw, hdrops⟩ := h.lookup_cases name
  · rw [heq]
    exact .refl _
  · rw [heq, hname, hnone]
    exact fun _ hread => by rw [← hread]; exact hdefault.symm
  · rw [hv, hw]
    exact hinside v w hdrops

end Reading

/-- Whatever is left out of a readable value, the rest is readable. -/
theorem Drops.readable {number : Float32 → String} {d : Defaults} {v w : Value} (h : Drops d v w)
    (hv : v.Readable number) : w.Readable number := by
  induction h with
  | @member _ o name _ _ _ =>
    obtain _ | _ | _ | _ | _ | _ | ⟨hnames, hmembers⟩ := hv
    exact .object (hnames.sublist (List.filter_sublist.map Prod.fst))
      fun m hm => hmembers m (List.mem_filter.1 hm).1
  | @inMember _ before after name v w _ ih =>
    obtain _ | _ | _ | _ | _ | _ | ⟨hnames, hmembers⟩ := hv
    have hw : w.Readable number := ih (hmembers (name, v) (by simp))
    refine .object (by simpa using hnames) fun m hm => ?_
    obtain hm | rfl | hm : m ∈ before ∨ m = (name, w) ∨ m ∈ after := by simpa using hm
    · exact hmembers m (by simp [hm])
    · exact hw
    · exact hmembers m (by simp [hm])
  | @inElement _ before after v w _ ih =>
    obtain _ | _ | _ | _ | _ | helements | _ := hv
    have hw : w.Readable number := ih (helements v (by simp))
    refine .array fun x hx => ?_
    obtain hx | rfl | hx : x ∈ before ∨ x = w ∨ x ∈ after := by simpa using hx
    · exact helements x (by simp [hx])
    · exact hw
    · exact helements x (by simp [hx])

end AgentPlanning.Json
