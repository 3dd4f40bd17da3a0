import AgentPlanning.Proofs.Span
import AgentPlanning.TaskNetwork.Basic
import Mathlib.Data.List.Forall2

/-!
# Reading Tasks back from their Tables

The flat tables of a network only ever grow at their ends, so what a range refers to stays the same
while tasks are added. Main statements:

* `forall₂_flatten`: the tables of the given tasks hold these tasks, in order, with their methods
  and subtasks in order;
* `size_flatten`: there is a row for each task and no other;
* `packed_flatten`: the ranges of either table divide up the next one.
-/

namespace AgentPlanning

namespace TaskNetwork

variable {network larger : TaskNetwork} {task : Task} {method : Method}

/-- The method of a row, with the subtasks of its range. -/
def methodOf (network : TaskNetwork) (row : MethodRow) : Method where
  name := row.name
  condition := row.condition
  cost := row.cost
  subtasks := network.subtasksOf row

/-- The row `id` of the table of methods is that of the method. -/
structure HoldsMethod (network : TaskNetwork) (method : Method) (id : MethodId)
    (row : MethodRow) : Prop where
  found : network.method? id = some row
  /-- The range ends inside the table of subtasks. -/
  inBounds : row.subtasks.stop ≤ network.subtasks.size
  methodOf_eq : network.methodOf row = method

/-- The row is that of the task, and its range in the table of methods holds the task's methods in
order. -/
structure HoldsTask (network : TaskNetwork) (task : Task) (row : TaskRow) : Prop where
  name : row.name = task.name
  methods : List.Forall₂ (fun method id => ∃ methodRow, network.HoldsMethod method id methodRow)
    task.methods row.methodIds

/-- The methods in the range of a task's row are those of the task. -/
theorem HoldsTask.map_methodOf {row : TaskRow} (h : network.HoldsTask task row) :
    row.methodIds.map (fun id => (network.method? id).map network.methodOf) =
      task.methods.map some := by
  refine List.forall₂_eq_eq_eq.le _ _ ?_
  rw [List.forall₂_map_left_iff, List.forall₂_map_right_iff]
  refine h.methods.flip.imp fun id method ⟨methodRow, hheld⟩ => ?_
  rw [hheld.found, Option.map_some, hheld.methodOf_eq]

/-- The ranges of the tasks divide up the table of methods, and those of the methods the table of
subtasks. -/
structure Packed (network : TaskNetwork) : Prop where
  methods : Span.Divides (network.tasks.toList.map (·.methods)) network.methods.size
  subtasks : Span.Divides (network.methods.toList.map (·.subtasks)) network.subtasks.size

/-! ## Growing tables -/

/-- The tables of methods and subtasks go on in the larger network. -/
structure IsPartOf (network larger : TaskNetwork) : Prop where
  methods : ∃ more, larger.methods = network.methods ++ more
  subtasks : ∃ more, larger.subtasks = network.subtasks ++ more

theorem IsPartOf.refl (network : TaskNetwork) : network.IsPartOf network :=
  ⟨⟨#[], Array.append_empty.symm⟩, ⟨#[], Array.append_empty.symm⟩⟩

theorem IsPartOf.trans {largest : TaskNetwork} (h : network.IsPartOf larger)
    (h' : larger.IsPartOf largest) : network.IsPartOf largest := by
  obtain ⟨⟨methods, hmethods⟩, subtasks, hsubtasks⟩ := h
  obtain ⟨⟨methods', hmethods'⟩, subtasks', hsubtasks'⟩ := h'
  exact ⟨⟨methods ++ methods', by rw [hmethods', hmethods, Array.append_assoc]⟩,
    ⟨subtasks ++ subtasks', by rw [hsubtasks', hsubtasks, Array.append_assoc]⟩⟩

/-- A range that ends inside a table is not affected by what comes after the table. -/
theorem HoldsMethod.mono {id : MethodId} {row : MethodRow} (h : network.HoldsMethod method id row)
    (hpart : network.IsPartOf larger) : larger.HoldsMethod method id row := by
  obtain ⟨⟨methods, hmethods⟩, subtasks, hsubtasks⟩ := hpart
  obtain ⟨hid, -⟩ := Array.getElem?_eq_some_iff.1 h.found
  have hfound : larger.method? id = network.method? id := by
    rw [method?, hmethods, Array.getElem?_append_left hid, method?]
  have hrange : larger.subtasksOf row = network.subtasksOf row := by
    rw [subtasksOf, hsubtasks, Span.read_append h.inBounds, subtasksOf]
  refine ⟨hfound.trans h.found, ?_, ?_⟩
  · rw [hsubtasks, Array.size_append]
    exact Nat.le_add_right_of_le h.inBounds
  · rw [← h.methodOf_eq, methodOf, hrange, ← methodOf]

theorem HoldsTask.mono {row : TaskRow} (h : network.HoldsTask task row)
    (hpart : network.IsPartOf larger) : larger.HoldsTask task row :=
  ⟨h.name, h.methods.imp fun _ _ ⟨methodRow, hmethod⟩ => ⟨methodRow, hmethod.mono hpart⟩⟩

/-! ## Adding methods and tasks -/

theorem subtasks_addMethod (network : TaskNetwork) (method : Method) :
    (network.addMethod method).subtasks = network.subtasks ++ method.subtasks.toArray :=
  Span.appendList_eq_append_toArray ..

theorem isPartOf_addMethod (network : TaskNetwork) (method : Method) :
    network.IsPartOf (network.addMethod method) :=
  ⟨⟨#[_], rfl⟩, ⟨method.subtasks.toArray, network.subtasks_addMethod method⟩⟩

/-- A method is added after the others. -/
theorem holdsMethod_addMethod (network : TaskNetwork) (method : Method) :
    ∃ row, (network.addMethod method).HoldsMethod method network.methods.size row := by
  refine ⟨⟨method.name, method.condition, method.cost,
    ⟨network.subtasks.size, method.subtasks.length⟩⟩, ?_, ?_, ?_⟩
  · simp [method?, addMethod]
  · simp [subtasks_addMethod, Span.stop]
  · rw [methodOf, subtasksOf, subtasks_addMethod, Span.read_append_list]

/-- Methods that are added one after the other stand in the table in this order. -/
theorem foldl_addMethod (network : TaskNetwork) (methods : List Method) :
    network.IsPartOf (methods.foldl addMethod network) ∧
      (methods.foldl addMethod network).tasks = network.tasks ∧
      (methods.foldl addMethod network).methods.size = network.methods.size + methods.length ∧
      List.Forall₂ (fun method id => ∃ row,
        (methods.foldl addMethod network).HoldsMethod method id row) methods
        (List.range' network.methods.size methods.length) := by
  induction methods using List.reverseRecOn with
  | nil => exact ⟨.refl network, rfl, rfl, .nil⟩
  | append_singleton before method ih =>
    obtain ⟨hpart, htasks, hsize, hheld⟩ := ih
    rw [List.foldl_append, List.foldl_cons, List.foldl_nil]
    generalize before.foldl addMethod network = middle at hpart htasks hsize hheld
    have hlast := holdsMethod_addMethod middle method
    have hgrown := isPartOf_addMethod middle method
    refine ⟨hpart.trans hgrown, htasks, ?_, ?_⟩
    · simp [addMethod, hsize, Nat.add_assoc]
    · rw [List.length_append, List.length_singleton, List.range'_concat, Nat.one_mul]
      rw [hsize] at hlast
      refine List.rel_append ?_ (.cons hlast .nil)
      exact hheld.imp fun _ _ ⟨row, hrow⟩ => ⟨row, hrow.mono hgrown⟩

/-- A task is added after the others. -/
theorem addTask_spec (network : TaskNetwork) (task : Task) :
    network.IsPartOf (network.addTask task) ∧
      ∃ row, (network.addTask task).tasks = network.tasks.push row ∧
        (network.addTask task).HoldsTask task row := by
  obtain ⟨hpart, htasks, -, hheld⟩ := foldl_addMethod
    { network with
      tasks := network.tasks.push ⟨task.name, ⟨network.methods.size, task.methods.length⟩⟩ }
    task.methods
  exact ⟨⟨hpart.methods, hpart.subtasks⟩, _, htasks, rfl, hheld⟩

/-- The tables of the given tasks hold each of them, in order. -/
theorem forall₂_flatten (tasks : List Task) :
    List.Forall₂ (flatten tasks).HoldsTask tasks (flatten tasks).tasks.toList := by
  induction tasks using List.reverseRecOn with
  | nil => exact .nil
  | append_singleton before task ih =>
    rw [flatten, List.foldl_append, List.foldl_cons, List.foldl_nil, ← flatten]
    obtain ⟨hpart, row, htasks, hlast⟩ := addTask_spec (flatten before) task
    rw [htasks, Array.toList_push]
    exact List.rel_append (ih.imp fun _ _ h => h.mono hpart) (.cons hlast .nil)

theorem size_flatten (tasks : List Task) : (flatten tasks).size = tasks.length :=
  (forall₂_flatten tasks).length_eq.symm

/-! ## Ranges that divide up a table -/

theorem divides_addMethod
    (h : Span.Divides (network.methods.toList.map (·.subtasks)) network.subtasks.size)
    (method : Method) :
    Span.Divides ((network.addMethod method).methods.toList.map (·.subtasks))
      (network.addMethod method).subtasks.size := by
  rw [subtasks_addMethod, Array.size_append, addMethod, Array.toList_push, List.map_append]
  exact h.concat method.subtasks.length

/-- The range of a task begins at the end of the table of methods, to which its methods are then
added. -/
theorem Packed.addTask (h : network.Packed) (task : Task) : (network.addTask task).Packed where
  methods := by
    obtain ⟨-, htasks, hsize, -⟩ := foldl_addMethod
      { network with
        tasks := network.tasks.push ⟨task.name, ⟨network.methods.size, task.methods.length⟩⟩ }
      task.methods
    rw [TaskNetwork.addTask, htasks, hsize, Array.toList_push, List.map_append]
    exact h.methods.concat task.methods.length
  subtasks := by
    rw [TaskNetwork.addTask]
    refine List.foldlRecOn (motive := fun grown : TaskNetwork =>
      Span.Divides (grown.methods.toList.map (·.subtasks)) grown.subtasks.size) _ _ ?_
      fun _ hgrown method _ => divides_addMethod hgrown method
    exact h.subtasks

theorem packed_flatten (tasks : List Task) : (flatten tasks).Packed :=
  List.foldlRecOn (motive := Packed) tasks addTask ⟨.nil, .nil⟩ fun _ h task _ => h.addTask task

end TaskNetwork

end AgentPlanning
