import AgentPlanning.Proofs.Correspondence
import AgentPlanning.Proofs.TaskNetwork.Tables
import Mathlib.Data.List.Basic

/-!
# Faults of Tasks

A task without methods is a fault, and so is each subtask that refers to an action or a task that
does not exist. Every fault has a place: the position of the task, and for a subtask also those of
its method and of the subtask itself. In the lexicographic order of places, in which a task comes
before its subtasks, the faults are what is reported. Without a fault there is a network, and the
tasks can be read back from it. Main statements:

* `mem_faults`, `pairwise_faults`, `map_snd_faults`: the problems that are reported are the faults,
  in the order of their places;
* `reports_or_reads_of_ofTasks`: either all faults are reported, or the network holds the tasks.
-/

namespace AgentPlanning

namespace TaskNetwork

/-- Where a fault is: the positions that lead to it, from the outside in. -/
abbrev Place := List Nat

/-- A problem of the tasks, for a library of `actionCount` actions, and its place. -/
inductive Fault (tasks : List Task) (actionCount : Nat) : Place → Diagnostic → Prop
  /-- A task cannot be done in any way. -/
  | noMethods {i : Nat} {task : Task} (htask : tasks[i]? = some task) (hnone : task.methods = []) :
      Fault tasks actionCount [i] (.noMethods task.name)
  /-- A subtask is an action that is not in the library. -/
  | noSuchAction {i j k : Nat} {task : Task} {method : Method} {id : ActionId}
      (htask : tasks[i]? = some task) (hmethod : task.methods[j]? = some method)
      (hsubtask : method.subtasks[k]? = some (.action id)) (hid : actionCount ≤ id) :
      Fault tasks actionCount [i, j, k]
        (.noSuchAction (methodContext task.name method.name) id actionCount)
  /-- A subtask is none of the tasks. -/
  | noSuchTask {i j k : Nat} {task : Task} {method : Method} {id : TaskId}
      (htask : tasks[i]? = some task) (hmethod : task.methods[j]? = some method)
      (hsubtask : method.subtasks[k]? = some (.compound id)) (hid : tasks.length ≤ id) :
      Fault tasks actionCount [i, j, k]
        (.noSuchTask (methodContext task.name method.name) id tasks.length)

/-- The tasks can be read back from the tables of the network: each has a row at its position, whose
range consists of the task's methods in order. The ranges divide up the tables. -/
structure Reads (network : TaskNetwork) (tasks : List Task) : Prop where
  size : network.size = tasks.length
  tasks : ∀ i task, tasks[i]? = some task → ∃ row, network.task? i = some row ∧
    row.name = task.name ∧
    row.methodIds.map (fun id => (network.method? id).map network.methodOf) =
      task.methods.map some
  packed : network.Packed

/-! ## Entries and their places -/

section Places

variable {α β : Type}

/-- The entries of all elements of a list; the place of each begins with the position of its
element. -/
def located (entries : α → List (Place × β)) (l : List α) : List (Place × β) :=
  l.zipIdx.flatMap fun (a, i) => (entries a).map fun (place, b) => (i :: place, b)

variable {entries : α → List (Place × β)} {l : List α}

theorem mem_located {entry : Place × β} :
    entry ∈ located entries l ↔
      ∃ i a, l[i]? = some a ∧ ∃ inner ∈ entries a, (i :: inner.1, inner.2) = entry := by
  simp only [located, List.mem_flatMap, List.mem_map, Prod.exists, List.mem_zipIdx_iff_getElem?]
  exact ⟨fun ⟨a, i, h⟩ => ⟨i, a, h⟩, fun ⟨i, a, h⟩ => ⟨a, i, h⟩⟩

theorem map_snd_located :
    (located entries l).map (·.2) = l.flatMap fun a => (entries a).map (·.2) := by
  conv_rhs => rw [← List.zipIdx_map_fst 0 l, List.flatMap_map]
  simp only [located, List.map_flatMap, List.map_map]
  rfl

/-- If the entries of each element are in the order of their places, so are all of them. -/
theorem pairwise_located (h : ∀ a ∈ l, (entries a).Pairwise (·.1 < ·.1)) :
    (located entries l).Pairwise (·.1 < ·.1) := by
  -- Places of one element differ after their first position, those of two elements in it.
  refine List.pairwise_flatMap.2 ⟨fun (a, i) ha => ?within, ?between⟩
  case within =>
    have hmem : a ∈ l := List.mem_of_getElem? (List.mem_zipIdx_iff_getElem?.1 ha)
    refine List.pairwise_map.2 ((h a hmem).imp fun hlt => ?_)
    exact List.cons_lt_cons_iff.2 (.inr ⟨rfl, hlt⟩)
  case between =>
    have hindices : (l.zipIdx.map (·.2)).Pairwise (· < ·) := by
      rw [List.zipIdx_map_snd]
      exact List.pairwise_lt_range' 1
    refine (List.pairwise_map.1 hindices).imp fun hlt x hx y hy => ?_
    obtain ⟨-, -, rfl⟩ := List.mem_map.1 hx
    obtain ⟨-, -, rfl⟩ := List.mem_map.1 hy
    exact List.cons_lt_cons_iff.2 (.inl hlt)

end Places

/-! ## The faults of a list of tasks -/

/-- The faults of a method, with the positions of the subtasks. -/
def methodFaults (task : String) (actionCount taskCount : Nat) (method : Method) :
    List (Place × Diagnostic) :=
  located (fun subtask => (subtask.problem? (methodContext task method.name) actionCount
    taskCount).toList.map fun problem => ([], problem)) method.subtasks

/-- The faults of a task, with the positions inside the task. -/
def taskFaults (actionCount taskCount : Nat) (task : Task) : List (Place × Diagnostic) :=
  (if task.methods.isEmpty then [([], .noMethods task.name)] else []) ++
    located (methodFaults task.name actionCount taskCount) task.methods

/-- The faults of a list of tasks, with their places. -/
def faults (tasks : List Task) (actionCount : Nat) : List (Place × Diagnostic) :=
  located (taskFaults actionCount tasks.length) tasks

variable (tasks : List Task) (actionCount : Nat)

/-- The problems that are reported are the faults. -/
theorem map_snd_faults :
    (faults tasks actionCount).map (·.2) =
      tasks.flatMap (·.problems actionCount tasks.length) := by
  -- The places are left out at each level: of the tasks, the methods and the subtasks.
  rw [faults, map_snd_located]
  refine List.flatMap_congr fun task _ => ?_
  rw [taskFaults, List.map_append, map_snd_located, Task.problems]
  congr 1
  · split <;> rfl
  · refine List.flatMap_congr fun method _ => ?_
    rw [methodFaults, map_snd_located, Method.problems, List.filterMap_eq_flatMap_toList]
    refine List.flatMap_congr fun subtask _ => ?_
    rw [List.map_map]
    exact List.map_id _

theorem pairwise_methodFaults (task : String) (taskCount : Nat) (method : Method) :
    (methodFaults task actionCount taskCount method).Pairwise (·.1 < ·.1) := by
  refine pairwise_located fun subtask _ => ?_
  cases subtask.problem? (methodContext task method.name) actionCount taskCount with
  | none => exact .nil
  | some => exact List.pairwise_singleton _ _

theorem pairwise_taskFaults (taskCount : Nat) (task : Task) :
    (taskFaults actionCount taskCount task).Pairwise (·.1 < ·.1) := by
  refine List.pairwise_append.2 ⟨?_, pairwise_located fun method _ =>
    pairwise_methodFaults actionCount task.name taskCount method, fun own hown inner hinner => ?_⟩
  · split
    · exact List.pairwise_singleton _ _
    · exact .nil
  · -- The task's own place has nothing to follow, and the place of a subtask has.
    obtain ⟨i, method, -, fault, -, rfl⟩ := mem_located.1 hinner
    split at hown
    · obtain rfl := List.mem_singleton.1 hown
      exact List.nil_lt_cons _ _
    · cases hown

theorem pairwise_faults : (faults tasks actionCount).Pairwise (·.1 < ·.1) :=
  pairwise_located fun task _ => pairwise_taskFaults actionCount tasks.length task

variable {tasks actionCount}

theorem mem_methodFaults {task : String} {taskCount : Nat} {method : Method} {place : Place}
    {problem : Diagnostic} :
    (place, problem) ∈ methodFaults task actionCount taskCount method ↔
      ∃ k subtask, method.subtasks[k]? = some subtask ∧ place = [k] ∧
        subtask.problem? (methodContext task method.name) actionCount taskCount = some problem := by
  rw [methodFaults, mem_located]
  simp only [List.mem_map, Option.mem_toList, Prod.mk.injEq]
  constructor
  · rintro ⟨k, subtask, hsubtask, -, ⟨found, hfound, rfl⟩, rfl, rfl⟩
    exact ⟨k, subtask, hsubtask, rfl, hfound⟩
  · rintro ⟨k, subtask, hsubtask, rfl, hfound⟩
    exact ⟨k, subtask, hsubtask, _, ⟨problem, hfound, rfl⟩, rfl, rfl⟩

section Subtasks

variable {i j k : Nat} {task : Task} {method : Method} {subtask : Subtask} {problem : Diagnostic}
  (htask : tasks[i]? = some task) (hmethod : task.methods[j]? = some method)
  (hsubtask : method.subtasks[k]? = some subtask)
  (hproblem : subtask.problem? (methodContext task.name method.name) actionCount tasks.length =
    some problem)

include htask hmethod hsubtask hproblem

/-- A subtask has a problem only if it refers to what does not exist. -/
theorem fault_of_problem? : Fault tasks actionCount [i, j, k] problem := by
  cases subtask with
  | action id =>
    rw [Subtask.problem?] at hproblem
    split at hproblem
    · cases hproblem
    · obtain rfl := Option.some.inj hproblem
      exact .noSuchAction htask hmethod hsubtask (Nat.le_of_not_lt ‹_›)
  | compound id =>
    rw [Subtask.problem?] at hproblem
    split at hproblem
    · cases hproblem
    · obtain rfl := Option.some.inj hproblem
      exact .noSuchTask htask hmethod hsubtask (Nat.le_of_not_lt ‹_›)

/-- The problem of a subtask is among the faults of its method, which are among those of its
task. -/
theorem mem_faults_of_problem? : ([i, j, k], problem) ∈ faults tasks actionCount := by
  have hin : ([k], problem) ∈ methodFaults task.name actionCount tasks.length method :=
    mem_methodFaults.2 ⟨k, subtask, hsubtask, rfl, hproblem⟩
  have hown : ([j, k], problem) ∈ taskFaults actionCount tasks.length task :=
    List.mem_append_right _ (mem_located.2 ⟨j, method, hmethod, _, hin, rfl⟩)
  exact mem_located.2 ⟨i, task, htask, _, hown, rfl⟩

end Subtasks

/-- The list of faults has those that there are. -/
theorem mem_faults {place : Place} {problem : Diagnostic} :
    (place, problem) ∈ faults tasks actionCount ↔ Fault tasks actionCount place problem := by
  constructor
  · intro hmem
    obtain ⟨i, task, htask, ⟨inside, found⟩, hfound, heq⟩ := mem_located.1 hmem
    obtain ⟨rfl, rfl⟩ := Prod.mk.inj heq
    -- The fault is that of the task itself, or that of a subtask.
    rcases List.mem_append.1 hfound with hown | hmethods
    · split at hown
      next hnone =>
        obtain ⟨rfl, rfl⟩ := Prod.mk.inj (List.mem_singleton.1 hown)
        exact .noMethods htask (List.isEmpty_iff.1 hnone)
      next => cases hown
    · obtain ⟨j, method, hmethod, ⟨inside, found⟩, hinside, heq⟩ := mem_located.1 hmethods
      obtain ⟨rfl, rfl⟩ := Prod.mk.inj heq
      obtain ⟨k, subtask, hsubtask, rfl, hproblem⟩ := mem_methodFaults.1 hinside
      exact fault_of_problem? htask hmethod hsubtask hproblem
  · intro hfault
    cases hfault with
    | noMethods htask hnone =>
      refine mem_located.2 ⟨_, _, htask, ([], _), List.mem_append_left _ ?_, rfl⟩
      rw [hnone]
      exact List.mem_singleton.2 rfl
    | noSuchAction htask hmethod hsubtask hid =>
      exact mem_faults_of_problem? htask hmethod hsubtask (if_neg (Nat.not_lt.2 hid))
    | noSuchTask htask hmethod hsubtask hid =>
      exact mem_faults_of_problem? htask hmethod hsubtask (if_neg (Nat.not_lt.2 hid))

/-- Without faults a subtask that is a task is one of the tasks. -/
theorem lt_length_of_faults_eq_nil (hnone : faults tasks actionCount = []) {i : Nat} {task : Task}
    {method : Method} {id : TaskId} (htask : tasks[i]? = some task)
    (hmethod : method ∈ task.methods) (hsubtask : .compound id ∈ method.subtasks) :
    id < tasks.length := by
  obtain ⟨j, hj⟩ := List.getElem?_of_mem hmethod
  obtain ⟨k, hk⟩ := List.getElem?_of_mem hsubtask
  refine Nat.lt_of_not_le fun hle => ?_
  have hfault : Fault tasks actionCount [i, j, k] _ := .noSuchTask htask hj hk hle
  have hmem := mem_faults.2 hfault
  rw [hnone] at hmem
  cases hmem

/-! ## Tasks that become a network -/

/-- A method in the range of a task's row is one of the task's methods. -/
theorem Reads.exists_methodOf_mem {network : TaskNetwork} (h : network.Reads tasks) {i : TaskId}
    {entry : TaskRow} {id : MethodId} {row : MethodRow} (hentry : network.task? i = some entry)
    (hid : id ∈ entry.methodIds) (hrow : network.method? id = some row) :
    ∃ task, tasks[i]? = some task ∧ network.methodOf row ∈ task.methods := by
  have hlt : i < tasks.length := h.size ▸ (Array.getElem?_eq_some_iff.1 hentry).1
  have htask : tasks[i]? = some tasks[i] := List.getElem?_eq_getElem hlt
  obtain ⟨found, hfound, -, hmethods⟩ := h.tasks i _ htask
  obtain rfl : entry = found := Option.some.inj (hentry.symm.trans hfound)
  have hmem : some (network.methodOf row) ∈ tasks[i].methods.map some := by
    rw [← hmethods]
    exact List.mem_map.2 ⟨id, hid, congrArg (Option.map _) hrow⟩
  obtain ⟨method, hmethod, heq⟩ := List.mem_map.1 hmem
  obtain rfl := Option.some.inj heq
  exact ⟨_, htask, hmethod⟩

theorem reads_flatten (tasks : List Task) : (flatten tasks).Reads tasks where
  size := size_flatten tasks
  tasks i task htask := by
    have hrel := rel_getElem? (forall₂_flatten tasks) i
    rw [htask, Array.getElem?_toList] at hrel
    obtain ⟨row, hrow⟩ := Option.isSome_iff_exists.1 (isSome_of_rel hrel rfl)
    rw [hrow] at hrel
    cases hrel with
    | some hheld => exact ⟨row, hrow, hheld.name, hheld.map_methodOf⟩
  packed := packed_flatten tasks

/-- Tasks without faults become a network, and no others do. -/
theorem ofTasks_eq_ok_iff {network : TaskNetwork} :
    ofTasks tasks actionCount = .ok network ↔
      faults tasks actionCount = [] ∧ flatten tasks = network := by
  rw [ofTasks, ← map_snd_faults]
  constructor
  · intro h
    by_cases hnone : (faults tasks actionCount).map (·.2) = []
    · rw [Diagnostics.guard_of_nil hnone] at h
      exact ⟨List.map_eq_nil_iff.1 hnone, Except.ok.inj h⟩
    · rw [Diagnostics.guard_of_ne_nil hnone] at h
      cases h
  · rintro ⟨hnone, rfl⟩
    rw [hnone]
    rfl

variable (tasks actionCount)

/-- Tasks become a network if they have no fault, and can then be read back from it. Otherwise there
is one diagnostic for each fault, in the order of the places. -/
theorem reports_or_reads_of_ofTasks :
    ∃ found : List (Place × Diagnostic),
      found.Pairwise (·.1 < ·.1) ∧
      (∀ place problem, (place, problem) ∈ found ↔ Fault tasks actionCount place problem) ∧
      (found ≠ [] → ofTasks tasks actionCount = .error ⟨found.map (·.2)⟩) ∧
      (found = [] → ∃ network, ofTasks tasks actionCount = .ok network ∧ network.Reads tasks) := by
  refine ⟨faults tasks actionCount, pairwise_faults tasks actionCount, fun _ _ => mem_faults,
    fun hfaults => ?_, fun hnone =>
      ⟨flatten tasks, ofTasks_eq_ok_iff.2 ⟨hnone, rfl⟩, reads_flatten tasks⟩⟩
  rw [ofTasks, ← map_snd_faults]
  exact Diagnostics.guard_of_ne_nil (mt List.map_eq_nil_iff.1 hfaults) _

/-- Two tasks, of which the first refers to an action and a task that do not exist and the second
has no methods. -/
def broken : List Task :=
  [{ name := "patrol"
     methods := [{ name := "rest" },
       { name := "march", cost := 2
         subtasks := [.action 0, .action 3, .compound 1, .compound 2] }] },
   { name := "idle" }]

/-- Two tasks without a fault; a method of each has no subtasks. -/
def mended : List Task :=
  [{ name := "patrol"
     methods := [{ name := "rest" },
       { name := "march", cost := 2, subtasks := [.action 0, .compound 1] }] },
   { name := "idle", methods := [{ name := "wait" }, { name := "sing", subtasks := [.action 1] }] }]

/-- Of the broken tasks the subtasks are reported before the task after them. -/
theorem reports_broken_reads_mended :
    (∃ found, ofTasks broken 2 = .error ⟨found⟩ ∧ found = [
      .noSuchAction "task `patrol` method `march`" 3 2,
      .noSuchTask "task `patrol` method `march`" 2 2,
      .noMethods "idle"]) ∧
    ∃ network, ofTasks mended 2 = .ok network ∧ network.Reads mended := by
  constructor
  · obtain ⟨found, -, hmem, herror, -⟩ := reports_or_reads_of_ofTasks broken 2
    have hidle : broken[1]? = some { name := "idle" } := rfl
    have hfault : Fault broken 2 [1] (.noMethods "idle") := .noMethods hidle rfl
    have hreported := herror (List.ne_nil_of_mem ((hmem _ _).2 hfault))
    refine ⟨_, hreported, ?_⟩
    exact congrArg Diagnostics.toList (Except.error.inj (hreported.symm.trans (by decide +kernel)))
  · obtain ⟨found, -, hmem, herror, hok⟩ := reports_or_reads_of_ofTasks mended 2
    refine hok (Classical.byContradiction fun hne => ?_)
    cases (herror hne).symm.trans (show ofTasks mended 2 = .ok (flatten mended) by decide +kernel)

end TaskNetwork

end AgentPlanning
