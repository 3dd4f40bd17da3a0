import AgentPlanning.Proofs.TaskNetwork.Faults
import AgentPlanning.Proofs.TaskNetwork.Selection

/-!
# Going through the Methods of a Task

A selection keeps no list of what there is to select. It looks through all methods of the task and
is only told which of them was selected last. Repeated with what it returned, it goes through the
methods that apply, by cost and then by position, and after the last of them it returns nothing.
Main statements:

* `selected?_eq_getElem?`: repeated selections go through the methods in order of preference;
* `mem_preferences_iff`: these are the methods of the task from which the network was made, as far
  as they apply;
* `exists_selected?_eq_getElem?`: both together, for any tasks that become a network.
-/

namespace AgentPlanning

namespace TaskNetwork

variable {network : TaskNetwork} {task : TaskId} {state : WorldState}

/-- What is selected after `n` other selections, each of which goes on after the one before. -/
def selected? (network : TaskNetwork) (task : TaskId) (state : WorldState) :
    Nat → Option MethodKey
  | 0 => network.nextMethod? task state none
  | n + 1 => (selected? network task state n).bind fun last =>
      network.nextMethod? task state (some last)

/-! ## Selections in order of preference -/

/-- After the method at position `n` of the order of preference, those at later positions remain. -/
theorem remaining_eq_drop {n : Nat} {key : MethodKey}
    (hkey : (network.preferences task state)[n]? = some key) :
    network.remaining task state (some key) = (network.preferences task state).drop (n + 1) := by
  induction n generalizing key with
  | zero =>
    obtain ⟨hlt, rfl⟩ := List.getElem?_eq_some_iff.1 hkey
    exact remaining_some
      ((network.remaining_none task state).trans (List.drop_eq_getElem_cons hlt))
  | succ n ih =>
    obtain ⟨hlt, rfl⟩ := List.getElem?_eq_some_iff.1 hkey
    -- After the method before, this one was the first of those that remained.
    have hbefore := ih (List.getElem?_eq_getElem (Nat.lt_of_succ_lt hlt))
    exact remaining_some (hbefore.trans (List.drop_eq_getElem_cons hlt))

/-- Selecting again and again goes through the methods in order of preference. -/
theorem selected?_eq_getElem? (network : TaskNetwork) (task : TaskId) (state : WorldState)
    (n : Nat) : network.selected? task state n = (network.preferences task state)[n]? := by
  induction n with
  | zero =>
    rw [selected?, nextMethod?_eq_head?, remaining_none, List.head?_eq_getElem?]
  | succ n ih =>
    rw [selected?, ih]
    cases hkey : (network.preferences task state)[n]? with
    | none =>
      have hlength := List.getElem?_eq_none_iff.1 hkey
      exact (List.getElem?_eq_none (Nat.le_succ_of_le hlength)).symm
    | some key =>
      rw [Option.bind_some, nextMethod?_eq_head?, remaining_eq_drop hkey, List.head?_drop]

/-! ## The methods of the tasks from which a network was made -/

/-- Position `j` of a task's methods is position `j` of the range of its row. -/
theorem Reads.getElem?_methods {tasks : List Task} (h : network.Reads tasks) {source : Task}
    {row : TaskRow} (hsource : tasks[task]? = some source) (hrow : network.task? task = some row)
    {j : Nat} {method : Method} :
    source.methods[j]? = some method ↔ j < row.methods.length ∧
      ∃ found, network.method? (row.methods.start + j) = some found ∧
        network.methodOf found = method := by
  obtain ⟨found, hfound, -, hmethods⟩ := h.tasks task source hsource
  obtain rfl : row = found := Option.some.inj (hrow.symm.trans hfound)
  have hget := congrArg (·[j]?) hmethods
  simp only [List.getElem?_map, TaskRow.methodIds] at hget
  by_cases hlt : j < row.methods.length
  · rw [List.getElem?_range' hlt, Nat.one_mul, Option.map_some] at hget
    constructor
    · intro hmethod
      rw [hmethod, Option.map_some] at hget
      obtain ⟨found, hfound, heq⟩ := Option.map_eq_some_iff.1 (Option.some.inj hget)
      exact ⟨hlt, found, hfound, heq⟩
    · rintro ⟨-, found, hfound, rfl⟩
      rw [hfound, Option.map_some] at hget
      obtain ⟨_, hmethod, heq⟩ := Option.map_eq_some_iff.1 hget.symm
      rwa [Option.some.inj heq] at hmethod
  · -- There is no method outside the range.
    rw [List.getElem?_eq_none (by simpa using hlt), Option.map_none] at hget
    rw [Option.map_eq_none_iff.1 hget.symm]
    exact ⟨nofun, fun ⟨hj, _⟩ => absurd hj hlt⟩

/-- The methods that are tried for a task are those of its methods that apply. -/
theorem mem_preferences_iff {tasks : List Task} (h : network.Reads tasks) {key : MethodKey} :
    key ∈ network.preferences task state ↔
      ∃ source row j method, tasks[task]? = some source ∧ network.task? task = some row ∧
        source.methods[j]? = some method ∧ state.satisfies method.condition = true ∧
        key = ⟨method.cost.toNat, row.methods.start + j⟩ := by
  rw [mem_preferences_iff_applicable, mem_applicableKeys]
  constructor
  · rintro ⟨row, hrow, hid, found, hfound, happlies, hcost⟩
    have hlt : task < tasks.length := h.size ▸ (Array.getElem?_eq_some_iff.1 hrow).1
    have hsource : tasks[task]? = some tasks[task] := List.getElem?_eq_getElem hlt
    obtain ⟨j, hj, hkey⟩ := List.mem_range'.1 hid
    rw [Nat.one_mul] at hkey
    rw [hkey] at hfound
    have hmethod := (h.getElem?_methods hsource hrow).2 ⟨hj, found, hfound, rfl⟩
    refine ⟨_, row, j, _, hsource, hrow, hmethod, happlies, ?_⟩
    cases key
    rw [MethodKey.mk.injEq]
    exact ⟨hcost, hkey⟩
  · rintro ⟨source, row, j, method, hsource, hrow, hmethod, happlies, rfl⟩
    obtain ⟨hj, found, hfound, rfl⟩ := (h.getElem?_methods hsource hrow).1 hmethod
    refine ⟨row, hrow, List.mem_range'.2 ⟨j, hj, by rw [Nat.one_mul]⟩, found, hfound, happlies, rfl⟩

/-- For tasks that become a network, selections that go on one after the other return the keys of
the methods of the task that apply, and no others, in strictly ascending order of cost and position,
and then nothing any more. -/
theorem exists_selected?_eq_getElem? {tasks : List Task} {actionCount : Nat}
    (hnetwork : ofTasks tasks actionCount = .ok network) (task : TaskId) (state : WorldState) :
    ∃ keys : List MethodKey,
      (∀ n, network.selected? task state n = keys[n]?) ∧
      keys.Pairwise (fun a b => a.cost < b.cost ∨ a.cost = b.cost ∧ a.method < b.method) ∧
      ∀ key, key ∈ keys ↔ ∃ source row j method, tasks[task]? = some source ∧
        network.task? task = some row ∧ source.methods[j]? = some method ∧
        state.satisfies method.condition = true ∧
        key = ⟨method.cost.toNat, row.methods.start + j⟩ := by
  obtain ⟨-, rfl⟩ := ofTasks_eq_ok_iff.1 hnetwork
  have hordered := (flatten tasks).pairwise_preferences task state
  exact ⟨(flatten tasks).preferences task state,
    fun n => selected?_eq_getElem? (flatten tasks) task state n,
    hordered.imp fun hlt => MethodKey.lt_iff.1 hlt,
    fun _ => mem_preferences_iff (reads_flatten tasks)⟩

/-- A task with methods of equal cost, one of lower cost after one of higher cost, and one that does
not apply unless it is dark, after a task with one method. -/
def watches (dark : AtomId) : List Task := [
  { name := "idle", methods := [{ name := "wait" }] },
  { name := "guard", methods := [
    { name := "march", cost := 2 },
    { name := "ambush", condition := Condition.free.require dark true },
    { name := "watch", cost := 1 },
    { name := "listen", cost := 1 }] }]

/-- Of the two methods of cost 1 the one that is declared first is selected first, and nothing is
selected after the method of cost 2. -/
theorem selected?_watches :
    ofTasks (watches 0) 0 = .ok (flatten (watches 0)) ∧
    ∃ keys : List MethodKey, keys = [⟨1, 3⟩, ⟨1, 4⟩, ⟨2, 1⟩] ∧
      (∀ n, (flatten (watches 0)).selected? 1 .empty n = keys[n]?) ∧
      keys.Pairwise fun a b => a.cost < b.cost ∨ a.cost = b.cost ∧ a.method < b.method := by
  have hnetwork : ofTasks (watches 0) 0 = .ok (flatten (watches 0)) := by decide +kernel
  obtain ⟨keys, hkeys, hordered, -⟩ := exists_selected?_eq_getElem? hnetwork 1 .empty
  refine ⟨hnetwork, keys, List.ext_getElem? fun n => ?_, hkeys, hordered⟩
  rw [← hkeys]
  match n with
  | 0 | 1 | 2 => decide +kernel
  | n + 3 =>
    have hlast : (flatten (watches 0)).selected? 1 .empty 3 = none := by decide +kernel
    rw [hkeys, List.getElem?_eq_none_iff] at hlast
    rw [hkeys, List.getElem?_eq_none (Nat.le_add_left_of_le hlast)]
    rfl

end TaskNetwork

end AgentPlanning
