import AgentPlanning.AtomRegistry
import Mathlib.Data.List.Induction

/-!
# Registering Names

A registry is filled by registrations, in any order, with repetitions and beyond its capacity. Its
numbers can be read off the answers that the callers got: the names that were accepted are numbered
in the order in which they were accepted first, and a number that was given out stays with its name.
Main statements:

* `AtomRegistry.register_cases`: all that one registration can do;
* `AtomRegistry.names_registerAll`: the names after any registrations, in order;
* `AtomRegistry.get?_of_mem_registerAll`: a number that was returned is still that of its name;
* `AtomRegistry.numbers_of_registerAll`: the registry after any registrations, and its next answer.
-/

namespace AgentPlanning

/-- A list without its repetitions grows by the elements that are new. -/
theorem eraseDups_concat {α : Type} [DecidableEq α] (l : List α) (a : α) :
    (l ++ [a]).eraseDups = if a ∈ l then l.eraseDups else l.eraseDups ++ [a] := by
  rw [List.eraseDups_append, List.removeAll]
  split
  next h => rw [List.filter_cons_of_neg (by simpa using h)]; simp
  next h => rw [List.filter_cons_of_pos (by simpa using h)]; rfl

namespace AtomRegistry

/-! ## One registration -/

/-- The answer to the registration of a name, and the registry after it. A registration that fails
leaves the registry as it is. -/
def register (r : AtomRegistry) (name : String) : Except RegistryFull AtomId × AtomRegistry :=
  match r.intern name with
  | .ok (atom, next) => (.ok atom, next)
  | .error e => (.error e, r)

section Registration

variable (r : AtomRegistry) (name : String)

/-- A known name keeps its number, a new one takes the next place if there is room, and a full
registry refuses it. -/
theorem register_cases :
    (∃ atom, r.get? name = some atom ∧ r.register name = (.ok atom, r)) ∨
    (r.get? name = none ∧ r.size < r.capacity ∧
      ∃ atom next, r.register name = (.ok atom, next) ∧ atom.val = r.size ∧
        next.names = r.names.push name ∧ next.capacity = r.capacity) ∨
    (r.get? name = none ∧ r.size = r.capacity ∧
      r.register name = (.error ⟨name, r.capacity⟩, r)) := by
  rw [register]
  cases hget : r.get? name with
  | some atom => exact .inl ⟨atom, rfl, by rw [intern_of_known hget]⟩
  | none =>
    refine .inr ?_
    by_cases hroom : r.names.size < r.capacity
    · obtain ⟨atom, next, hintern, hatom, hnames, hcapacity⟩ := exists_intern hget hroom
      exact .inl ⟨rfl, hroom, atom, next, by rw [hintern], hatom, hnames, hcapacity⟩
    · have hfull : r.size = r.capacity := Nat.le_antisymm r.size_le (Nat.le_of_not_lt hroom)
      exact .inr ⟨rfl, hfull, by rw [intern_of_full hget hroom]⟩

theorem register_of_known {atom : AtomId} (h : r.get? name = some atom) :
    r.register name = (.ok atom, r) := by
  rw [register, intern_of_known h]

theorem capacity_register : (r.register name).2.capacity = r.capacity := by
  obtain ⟨_, -, hcase⟩ | ⟨-, -, _, _, hcase, -, -, hcapacity⟩ | ⟨-, -, hcase⟩ :=
    r.register_cases name
  · rw [hcase]
  · rw [hcase, hcapacity]
  · rw [hcase]

/-- A name that has a number keeps it. -/
theorem get?_register {other : String} {atom : AtomId} (h : r.get? other = some atom) :
    (r.register name).2.get? other = some atom := by
  obtain ⟨_, -, hcase⟩ | ⟨-, -, _, next, hcase, -, hnames, -⟩ | ⟨-, -, hcase⟩ :=
    r.register_cases name
  · rwa [hcase]
  · rw [hcase, get?_eq_some_iff, name?, hnames]
    rw [get?_eq_some_iff, name?] at h
    obtain ⟨hlt, -⟩ := Array.getElem?_eq_some_iff.1 h
    rwa [Array.getElem?_push_lt hlt, ← Array.getElem?_eq_getElem hlt]
  · rwa [hcase]

/-- The number that is returned is that of the name afterwards. -/
theorem get?_register_self {atom : AtomId} (h : (r.register name).1 = .ok atom) :
    (r.register name).2.get? name = some atom := by
  obtain ⟨known, hknown, hcase⟩ | ⟨-, -, fresh, next, hcase, hfresh, hnames, -⟩ | ⟨-, -, hcase⟩ :=
    r.register_cases name
  · rw [hcase] at h ⊢
    obtain rfl := Except.ok.inj h
    exact hknown
  · rw [hcase] at h ⊢
    obtain rfl := Except.ok.inj h
    rw [get?_eq_some_iff, name?, hnames, hfresh, size, Array.getElem?_push_size]
  · rw [hcase] at h
    cases h

/-- A registration fails for a new name in a full registry, and for no other reason. -/
theorem register_eq_error_iff {reason : RegistryFull} {next : AtomRegistry} :
    r.register name = (.error reason, next) ↔
      r.get? name = none ∧ r.size = r.capacity ∧ reason = ⟨name, r.capacity⟩ ∧ next = r := by
  obtain ⟨atom, hknown, hcase⟩ | ⟨hnew, hroom, atom, after, hcase, -⟩ | ⟨hnew, hfull, hcase⟩ :=
    r.register_cases name
  all_goals rw [hcase]
  · simp [hknown]
  · simp [Nat.ne_of_lt hroom]
  · simp only [hnew, hfull, Prod.mk.injEq, Except.error.injEq, true_and]
    rw [eq_comm, @eq_comm _ r next]

end Registration

/-! ## All registrations -/

/-- A registration with its answer. -/
abbrev Entry := String × Except RegistryFull AtomId

/-- The registrations of names one after another, beginning with an empty registry, with their
answers; and the registry after them. -/
def registerAll (capacity : Nat) (names : List String) : List Entry × AtomRegistry :=
  names.foldl (fun (log, r) name =>
    let (answer, next) := r.register name
    (log ++ [(name, answer)], next)) ([], .ofCapacity capacity)

/-- The names of the registrations that succeeded. -/
def accepted (log : List Entry) : List String :=
  (log.filter (·.2.isOk)).map (·.1)

theorem accepted_concat (log : List Entry) (name : String) (answer : Except RegistryFull AtomId) :
    accepted (log ++ [(name, answer)]) =
      if answer.isOk then accepted log ++ [name] else accepted log := by
  rw [accepted, List.filter_append, List.map_append, ← accepted]
  cases answer with
  | ok => rfl
  | error => exact List.append_nil _

variable (capacity : Nat) (names : List String)

theorem registerAll_concat (name : String) :
    registerAll capacity (names ++ [name]) =
      ((registerAll capacity names).1 ++
          [(name, ((registerAll capacity names).2.register name).1)],
        ((registerAll capacity names).2.register name).2) := by
  rw [registerAll, List.foldl_append]
  rfl

theorem capacity_registerAll : (registerAll capacity names).2.capacity = min capacity 256 := by
  induction names using List.reverseRecOn with
  | nil => rfl
  | append_singleton names name ih =>
    rw [registerAll_concat]
    exact (capacity_register ..).trans ih

/-- The registered names are those that were accepted, in the order of their first registrations. -/
theorem names_registerAll :
    (registerAll capacity names).2.names.toList =
      (accepted (registerAll capacity names).1).eraseDups := by
  induction names using List.reverseRecOn with
  | nil => rfl
  | append_singleton names name ih =>
    rw [registerAll_concat, accepted_concat]
    generalize registerAll capacity names = before at ih ⊢
    obtain ⟨log, r⟩ := before
    dsimp only at ih ⊢
    have hknown : name ∈ accepted log ↔ r.get? name ≠ none := by
      rw [← List.mem_eraseDups, ← ih, Ne, get?_eq_none_iff, not_not, Array.mem_toList_iff]
    obtain ⟨atom, hget, hcase⟩ | ⟨hget, -, atom, next, hcase, -, hnames, -⟩ | ⟨-, -, hcase⟩ :=
      r.register_cases name
    all_goals rw [hcase]
    · -- The name was accepted before.
      have hmem : name ∈ accepted log := hknown.2 (by rw [hget]; exact Option.some_ne_none atom)
      show r.names.toList = (accepted log ++ [name]).eraseDups
      rw [eraseDups_concat, if_pos hmem, ih]
    · have hnot : name ∉ accepted log := fun hmem => hknown.1 hmem hget
      show next.names.toList = (accepted log ++ [name]).eraseDups
      rw [eraseDups_concat, if_neg hnot, ← ih, hnames, Array.toList_push]
    · exact ih

/-- A number that was returned for a name is still the number of this name. -/
theorem get?_of_mem_registerAll {name : String} {atom : AtomId}
    (h : (name, .ok atom) ∈ (registerAll capacity names).1) :
    (registerAll capacity names).2.get? name = some atom := by
  induction names using List.reverseRecOn with
  | nil => cases h
  | append_singleton names last ih =>
    rw [registerAll_concat] at h ⊢
    rcases List.mem_append.1 h with hearlier | hlast
    · exact get?_register _ last (ih hearlier)
    · obtain ⟨rfl, hanswer⟩ := Prod.mk.inj (List.mem_singleton.1 hlast)
      exact get?_register_self _ _ hanswer.symm

/-- After any registrations the registry holds at most its capacity of names, and never more than a
world state has atoms. The names that were accepted have the first numbers, in the order in which
they were accepted first: the number of a name and the name of a number determine each other. A name
for which a number was returned gets this number again, and a registration fails exactly if the name
is new and the registry is full, which leaves the registry as it is. -/
theorem numbers_of_registerAll {log : List Entry} {r : AtomRegistry}
    (h : registerAll capacity names = (log, r)) :
    r.size ≤ min capacity 256 ∧ r.size = (accepted log).eraseDups.length ∧
    (∀ atom, r.name? atom = (accepted log).eraseDups[atom.val]?) ∧
    (∀ name atom, r.get? name = some atom ↔ r.name? atom = some name) ∧
    (∀ name atom, (name, .ok atom) ∈ log → r.register name = (.ok atom, r)) ∧
    ∀ name reason next, r.register name = (.error reason, next) ↔
      r.get? name = none ∧ r.size = min capacity 256 ∧ reason = ⟨name, min capacity 256⟩ ∧
        next = r := by
  have hcapacity := capacity_registerAll capacity names
  have hnames := names_registerAll capacity names
  have hreturned := @get?_of_mem_registerAll capacity names
  rw [h] at hcapacity hnames hreturned
  dsimp only at hcapacity hnames hreturned
  refine ⟨hcapacity ▸ r.size_le, ?_, fun atom => ?_, fun _ _ => get?_eq_some_iff,
    fun name atom hmem => ?_, fun name reason next => ?_⟩
  · rw [← hnames, Array.length_toList, size]
  · rw [← hnames, Array.getElem?_toList, name?]
  · exact register_of_known r name (hreturned hmem)
  · rw [register_eq_error_iff, hcapacity]

/-- Four registrations, of three names. -/
def campNames : List String := ["wood", "fire", "wood", "axe"]

/-- There is no room for the third name. -/
theorem numbers_of_campNames :
    (registerAll 2 campNames).2.size = 2 ∧
    (registerAll 2 campNames).2.get? "fire" = some 1 ∧
    (registerAll 2 campNames).2.register "wood" = (.ok 0, (registerAll 2 campNames).2) ∧
    (registerAll 2 campNames).2.register "axe" =
      (.error ⟨"axe", 2⟩, (registerAll 2 campNames).2) := by
  obtain ⟨-, hsize, hname, hget, hreturned, hfails⟩ :=
    numbers_of_registerAll 2 campNames (Prod.eta _).symm
  have haccepted : accepted (registerAll 2 campNames).1 = ["wood", "fire", "wood"] := by
    decide +kernel
  rw [haccepted] at hsize hname
  have hfire : (registerAll 2 campNames).2.get? "fire" = some 1 :=
    (hget "fire" 1).2 ((hname 1).trans (by decide +kernel))
  have haxe : (registerAll 2 campNames).2.get? "axe" = none := by decide +kernel
  exact ⟨hsize.trans (by decide +kernel), hfire, hreturned "wood" 0 (by decide +kernel),
    (hfails "axe" _ _).2 ⟨haxe, hsize.trans (by decide +kernel), rfl, rfl⟩⟩

end AtomRegistry

end AgentPlanning
