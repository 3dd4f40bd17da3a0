import AgentPlanning.TaskNetwork.Selection
import Mathlib.Data.List.Sort

/-!
# The Methods of a Task in Order of Preference

The methods of a task that apply in a state are strictly ordered by preference. Selecting again
and again, each time after the method that was selected last, goes through them in this order.
Main statements:

* `least?_eq_head?`: the least key is the first one of the ordered keys;
* `preferences_eq`: the methods in order of preference have the keys that a selection looks at;
* `nextMethod?_eq_head?`: the selection takes the first of the remaining methods;
* `remaining_some`: after it the others remain.
-/

namespace AgentPlanning

/-! ## The order of keys -/

namespace MethodKey

/-- Whether a method is preferred to another or is the same. -/
def le (a b : MethodKey) : Bool := !b.lt a

theorem lt_iff {a b : MethodKey} :
    a.lt b = true ↔ a.cost < b.cost ∨ a.cost = b.cost ∧ a.method < b.method := by
  simp [lt]

theorem le_iff {a b : MethodKey} :
    a.le b = true ↔ a.cost < b.cost ∨ a.cost = b.cost ∧ a.method ≤ b.method := by
  unfold le MethodId
  rw [Bool.not_eq_true', ← Bool.not_eq_true, lt_iff]
  grind

theorem lt_irrefl (a : MethodKey) : a.lt a = false := by
  rw [← Bool.not_eq_true, lt_iff]
  grind

theorem lt_trans {a b c : MethodKey} (hab : a.lt b = true) (hbc : b.lt c = true) :
    a.lt c = true := by
  rw [lt_iff] at *
  grind

theorem le_trans {a b c : MethodKey} (hab : a.le b = true) (hbc : b.le c = true) :
    a.le c = true := by
  rw [le_iff] at *
  grind

instance : IsTrans MethodKey (·.le ·) := ⟨fun _ _ _ => le_trans⟩

instance : Std.Total fun a b : MethodKey => a.le b = true where
  total a b := by
    rw [le_iff, le_iff]
    grind

theorem le_of_lt {a b : MethodKey} (h : a.lt b = true) : a.le b = true := by
  rw [lt_iff] at h
  rw [le_iff]
  grind

theorem lt_of_le_of_ne {a b : MethodKey} (hle : a.le b = true) (hne : a ≠ b) :
    a.lt b = true := by
  rw [le_iff] at hle
  rw [lt_iff]
  cases a
  cases b
  grind

theorem le_antisymm {a b : MethodKey} (hab : a.le b = true) (hba : b.le a = true) : a = b := by
  rw [le_iff] at hab hba
  cases a
  cases b
  grind

/-- The least of the best key so far and further keys is one of them, and it is preferred to all
others. -/
theorem exists_foldl_preferred (best : MethodKey) (keys : List MethodKey) :
    ∃ least, keys.foldl preferred (some best) = some least ∧ least ∈ best :: keys ∧
      ∀ key ∈ best :: keys, least.le key = true := by
  induction keys generalizing best with
  | nil =>
    refine ⟨best, rfl, List.mem_cons_self, fun key hkey => ?_⟩
    obtain rfl := List.mem_singleton.1 hkey
    exact le_iff.2 (.inr ⟨rfl, Nat.le_refl _⟩)
  | cons key keys ih =>
    rw [List.foldl_cons, preferred]
    cases hlt : key.lt best with
    | true =>
      -- The new key takes the place of the best one.
      obtain ⟨least, hfold, hmem, hle⟩ := ih key
      refine ⟨least, by rwa [Option.all_some, hlt, if_pos rfl], List.mem_cons_of_mem _ hmem, ?_⟩
      refine List.forall_mem_cons.2 ⟨?_, hle⟩
      exact le_trans (hle key List.mem_cons_self) (le_of_lt hlt)
    | false =>
      -- The best key stays, and the new one comes after it.
      obtain ⟨least, hfold, hmem, hle⟩ := ih best
      have hbest : best.le key = true := by rw [le, hlt, Bool.not_false]
      refine ⟨least, by rwa [Option.all_some, hlt, if_neg Bool.false_ne_true], ?_, ?_⟩
      · exact List.mem_cons.2 ((List.mem_cons.1 hmem).imp_right (List.mem_cons_of_mem _))
      · obtain ⟨hfirst, hrest⟩ := List.forall_mem_cons.1 hle
        refine List.forall_mem_cons.2 ⟨hfirst, List.forall_mem_cons.2 ⟨?_, hrest⟩⟩
        exact le_trans hfirst hbest

/-- The least key is the first one of the ordered keys. -/
theorem least?_eq_head? {keys ordered : List MethodKey} (hperm : keys.Perm ordered)
    (hordered : ordered.Pairwise (·.lt · = true)) : least? keys = ordered.head? := by
  cases keys with
  | nil =>
    obtain rfl := List.nil_perm.1 hperm
    rfl
  | cons key keys =>
    obtain ⟨least, hleast, hmem, hle⟩ := exists_foldl_preferred key keys
    obtain ⟨first, rest, rfl⟩ : ∃ first rest, ordered = first :: rest :=
      List.exists_cons_of_ne_nil fun hnil => by simp [hnil] at hperm
    rw [least?, List.foldl_cons, List.head?_cons]
    refine hleast.trans (congrArg some ?_)
    -- Each of the two keys is no later than the other.
    refine le_antisymm (hle first (hperm.mem_iff.2 List.mem_cons_self)) ?_
    rcases List.mem_cons.1 (hperm.mem_iff.1 hmem) with rfl | hrest
    · exact hle _ hmem
    · exact le_of_lt (List.rel_of_pairwise_cons hordered hrest)

end MethodKey

/-! ## The order of methods -/

namespace TaskNetwork

variable {network : TaskNetwork} {task : TaskId} {state : WorldState}

/-- The key of a method, if the method exists and applies in `state`. -/
def keyIn? (network : TaskNetwork) (state : WorldState) (id : MethodId) : Option MethodKey :=
  match network.method? id with
  | none => none
  | some method =>
    if state.satisfies method.condition then some ⟨method.cost.toNat, id⟩ else none

theorem applicableKeys_eq (network : TaskNetwork) (task : TaskId) (state : WorldState) :
    network.applicableKeys task state =
      match network.task? task with
      | none => []
      | some entry => entry.methodIds.filterMap (network.keyIn? state) := rfl

theorem keyIn?_eq_some_iff {id : MethodId} {key : MethodKey} :
    network.keyIn? state id = some key ↔
      key.method = id ∧ ∃ method, network.method? id = some method ∧
        state.satisfies method.condition = true ∧ key.cost = method.cost.toNat := by
  rw [keyIn?]
  constructor
  · intro h
    split at h
    · cases h
    next method hmethod =>
      split at h
      next happlies =>
        obtain rfl := Option.some.inj h
        exact ⟨rfl, method, hmethod, happlies, rfl⟩
      next => cases h
  · rintro ⟨rfl, method, hmethod, happlies, hcost⟩
    simp only [hmethod, happlies, if_true, ← hcost]

theorem mem_applicableKeys {key : MethodKey} :
    key ∈ network.applicableKeys task state ↔
      ∃ entry, network.task? task = some entry ∧ key.method ∈ entry.methodIds ∧
        ∃ method, network.method? key.method = some method ∧
          state.satisfies method.condition = true ∧ key.cost = method.cost.toNat := by
  rw [applicableKeys_eq]
  cases network.task? task with
  | none => simp
  | some entry =>
    simp only [List.mem_filterMap, keyIn?_eq_some_iff, Option.some.injEq, ↓existsAndEq, true_and]

theorem nodup_applicableKeys (network : TaskNetwork) (task : TaskId) (state : WorldState) :
    (network.applicableKeys task state).Nodup := by
  rw [applicableKeys_eq]
  split
  · exact List.nodup_nil
  · -- Keys of different methods are different.
    refine List.Nodup.filterMap (fun a b key ha hb => ?_) (List.nodup_range' ..)
    exact (keyIn?_eq_some_iff.1 ha).1.symm.trans (keyIn?_eq_some_iff.1 hb).1

/-- The methods of a task with their positions, in order of declaration. -/
def methodsOf (network : TaskNetwork) (task : TaskId) : List (MethodId × MethodRow) :=
  match network.task? task with
  | none => []
  | some entry => entry.methodIds.filterMap fun id => (network.method? id).map (id, ·)

/-- The methods of `task` that apply in `state`, by cost and then by position. -/
def preferences (network : TaskNetwork) (task : TaskId) (state : WorldState) : List MethodKey :=
  let applicable := (network.methodsOf task).filter fun (_, method) =>
    state.satisfies method.condition
  (applicable.map fun (id, method) => ⟨method.cost.toNat, id⟩).insertionSort (·.le ·)

/-- The methods in order of preference have the keys that a selection looks at. -/
theorem preferences_eq (network : TaskNetwork) (task : TaskId) (state : WorldState) :
    network.preferences task state =
      (network.applicableKeys task state).insertionSort (·.le ·) := by
  rw [preferences, methodsOf, applicableKeys_eq]
  cases network.task? task with
  | none => rfl
  | some entry =>
    dsimp only
    rw [List.filter_filterMap, List.map_filterMap]
    congr 2
    funext id
    rw [keyIn?]
    cases network.method? id with
    | none => rfl
    | some method => cases happlies : state.satisfies method.condition <;> simp [happlies]

theorem mem_preferences_iff_applicable {key : MethodKey} :
    key ∈ network.preferences task state ↔ key ∈ network.applicableKeys task state := by
  rw [preferences_eq, List.mem_insertionSort]

theorem pairwise_preferences (network : TaskNetwork) (task : TaskId) (state : WorldState) :
    (network.preferences task state).Pairwise (·.lt · = true) := by
  rw [preferences_eq]
  have hnodup := (List.perm_insertionSort (·.le ·) _).nodup_iff.2
    (network.nodup_applicableKeys task state)
  have hle : ((network.applicableKeys task state).insertionSort (·.le ·)).Pairwise
      (·.le · = true) := List.pairwise_insertionSort ..
  exact (hle.and hnodup).imp fun ⟨hle, hne⟩ => MethodKey.lt_of_le_of_ne hle hne

/-- The methods that a selection may still take, in order of preference. -/
def remaining (network : TaskNetwork) (task : TaskId) (state : WorldState)
    (lastTried : Option MethodKey) : List MethodKey :=
  (network.preferences task state).filter fun key => lastTried.all (·.lt key)

theorem remaining_none (network : TaskNetwork) (task : TaskId) (state : WorldState) :
    network.remaining task state none = network.preferences task state :=
  List.filter_eq_self.2 fun _ _ => rfl

/-- The selection takes the first of the remaining methods. -/
theorem nextMethod?_eq_head? (network : TaskNetwork) (task : TaskId) (state : WorldState)
    (lastTried : Option MethodKey) :
    network.nextMethod? task state lastTried =
      (network.remaining task state lastTried).head? := by
  refine MethodKey.least?_eq_head? ?_ ?_
  · rw [remaining, preferences_eq]
    exact ((List.perm_insertionSort ..).symm.filter _)
  · exact (network.pairwise_preferences task state).filter _

theorem exists_method_of_remaining {lastTried : Option MethodKey} {key : MethodKey}
    {keys : List MethodKey} (h : network.remaining task state lastTried = key :: keys) :
    ∃ method, network.method? key.method = some method := by
  have hmem : key ∈ network.remaining task state lastTried := h ▸ List.mem_cons_self
  have happlicable := mem_preferences_iff_applicable.1 (List.mem_filter.1 hmem).1
  obtain ⟨-, -, -, method, hmethod, -⟩ := mem_applicableKeys.1 happlicable
  exact ⟨method, hmethod⟩

/-- When the first of the remaining methods was selected, the others remain. -/
theorem remaining_some {lastTried : Option MethodKey} {key : MethodKey} {keys : List MethodKey}
    (h : network.remaining task state lastTried = key :: keys) :
    network.remaining task state (some key) = keys := by
  have hordered : (key :: keys).Pairwise (·.lt · = true) :=
    h ▸ (network.pairwise_preferences task state).filter _
  have hmem : key ∈ network.remaining task state lastTried := h ▸ List.mem_cons_self
  have hkey : lastTried.all (·.lt key) = true := (List.mem_filter.1 hmem).2
  -- What comes after `key` also comes after the method that was tried before.
  have hafter : ∀ other, (key.lt other && lastTried.all (·.lt other)) = key.lt other := by
    intro other
    cases hlt : key.lt other with
    | false => exact Bool.false_and _
    | true =>
      cases lastTried with
      | none => rfl
      | some last => exact MethodKey.lt_trans hkey hlt
  calc network.remaining task state (some key)
      = (network.remaining task state lastTried).filter (key.lt ·) := by
        rw [remaining, remaining, List.filter_filter]
        exact List.filter_congr fun other _ => (hafter other).symm
    _ = keys := by
        rw [h, List.filter_cons_of_neg (by rw [MethodKey.lt_irrefl]; exact Bool.false_ne_true)]
        exact List.filter_eq_self.2 fun other hother => List.rel_of_pairwise_cons hordered hother

end TaskNetwork

end AgentPlanning
