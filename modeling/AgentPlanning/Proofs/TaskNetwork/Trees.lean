import AgentPlanning.Proofs.TaskNetwork.Recursive

/-!
# Decomposition Trees

What it means that a task can be decomposed, without saying how to find out: there is a finite
tree whose root is the task, whose inner nodes are tasks done by one of their own methods, and
whose leaves from left to right are the actions of the plan. A tree is preferred if every task in
it is done by the most preferred one of the methods that can be carried out.

Main definitions:

* `DecompositionTree.IsDecomposition`: the tree follows the network and the state;
* `TaskNetwork.Decomposable`: a task has such a tree;
* `DecompositionTree.IsPreferred`: no task of the tree could be done by a more preferred method.

Main statements:

* `mem_preferences`: the methods that a decomposition tries are those that apply;
* `exists_feasible_of_decomposable`: a task with a tree has a method that can be carried out.
-/

namespace AgentPlanning

/-- How a part of a method is done. -/
inductive DecompositionTree where
  /-- The action is taken. -/
  | action (action : ActionId)
  /-- The task is done by one of its methods, and each subtask of the method in its own way. -/
  | task (task : TaskId) (method : MethodId) (parts : List DecompositionTree)

namespace DecompositionTree

/-- What is done by the tree as a whole. -/
def subtask : DecompositionTree → Subtask
  | action a => .action a
  | task t _ _ => .compound t

/-- The actions of the tree from left to right. -/
def leaves : DecompositionTree → List ActionId
  | action a => [a]
  | task _ _ parts => parts.flatMap leaves

end DecompositionTree

/-! ## Trees that follow a network -/

/-- The task has the method `id`, which is in row `row` and applies in the state. -/
structure TaskNetwork.HasMethod (network : TaskNetwork) (state : WorldState) (task : TaskId)
    (id : MethodId) (row : MethodRow) : Prop where
  /-- It is one of the task's own methods. -/
  own : ∃ entry, network.task? task = some entry ∧ id ∈ entry.methodIds
  /-- The row is that of the method. -/
  found : network.method? id = some row
  /-- Its condition holds. -/
  applies : state.satisfies row.condition = true

/-- Every task of the tree is done by one of its own methods, which applies in the state, and the
parts of the node are the subtasks of the method in order. -/
inductive DecompositionTree.IsDecomposition (network : TaskNetwork) (state : WorldState) :
    DecompositionTree → Prop where
  | action (action : ActionId) : IsDecomposition network state (.action action)
  | task {task : TaskId} {id : MethodId} {row : MethodRow} {parts : List DecompositionTree}
      (method : network.HasMethod state task id row)
      (subtasks : parts.map subtask = network.subtasksOf row)
      (each : ∀ part ∈ parts, IsDecomposition network state part) :
      IsDecomposition network state (.task task id parts)

namespace TaskNetwork

/-- The task has a decomposition tree, of whatever depth. -/
def Decomposable (network : TaskNetwork) (state : WorldState) (task : TaskId) : Prop :=
  ∃ tree : DecompositionTree, tree.IsDecomposition network state ∧ tree.subtask = .compound task

/-- Every task among the given subtasks has a decomposition tree. -/
def Feasible (network : TaskNetwork) (state : WorldState) (subtasks : List Subtask) : Prop :=
  ∀ nested, Subtask.compound nested ∈ subtasks → network.Decomposable state nested

/-- The least method of the task, by cost and then by position, among those that apply and whose
subtasks all have decomposition trees. -/
structure IsBestMethod (network : TaskNetwork) (state : WorldState) (task : TaskId)
    (id : MethodId) (row : MethodRow) : Prop where
  method : network.HasMethod state task id row
  feasible : network.Feasible state (network.subtasksOf row)
  least : ∀ other otherRow, network.HasMethod state task other otherRow →
    network.Feasible state (network.subtasksOf otherRow) →
      row.cost < otherRow.cost ∨ row.cost = otherRow.cost ∧ id ≤ other

end TaskNetwork

/-- Every task of the tree is done by its best method. -/
inductive DecompositionTree.IsPreferred (network : TaskNetwork) (state : WorldState) :
    DecompositionTree → Prop where
  | action (action : ActionId) : IsPreferred network state (.action action)
  | task {task : TaskId} {id : MethodId} {row : MethodRow} {parts : List DecompositionTree}
      (best : network.IsBestMethod state task id row)
      (each : ∀ part ∈ parts, IsPreferred network state part) :
      IsPreferred network state (.task task id parts)

/-! ## The methods of a task -/

namespace TaskNetwork

variable {network : TaskNetwork} {state : WorldState} {task : TaskId}

/-- The methods that are tried are the methods of the task that apply. -/
theorem mem_preferences {key : MethodKey} :
    key ∈ network.preferences task state ↔
      ∃ row, network.HasMethod state task key.method row ∧ key.cost = row.cost.toNat := by
  rw [mem_preferences_iff_applicable, mem_applicableKeys]
  constructor
  · rintro ⟨entry, hentry, hid, row, hrow, happlies, hcost⟩
    exact ⟨row, ⟨⟨entry, hentry, hid⟩, hrow, happlies⟩, hcost⟩
  · rintro ⟨row, ⟨⟨entry, hentry, hid⟩, hrow, happlies⟩, hcost⟩
    exact ⟨entry, hentry, hid, row, hrow, happlies, hcost⟩

theorem HasMethod.subtasksAt_eq {id : MethodId} {row : MethodRow}
    (h : network.HasMethod state task id row) (cost : Nat) :
    network.subtasksAt ⟨cost, id⟩ = network.subtasksOf row := by
  rw [subtasksAt, h.found]

/-- The parts of a tree show that the subtasks of its method are feasible. -/
theorem feasible_of_parts {parts : List DecompositionTree} {subtasks : List Subtask}
    (hsubtasks : parts.map DecompositionTree.subtask = subtasks)
    (hparts : ∀ part ∈ parts, part.IsDecomposition network state) :
    network.Feasible state subtasks := by
  intro nested hmem
  rw [← hsubtasks] at hmem
  obtain ⟨part, hpart, heq⟩ := List.mem_map.1 hmem
  exact ⟨part, hparts part hpart, heq⟩

/-- A task with a decomposition tree has a method that applies and can be carried out. -/
theorem exists_feasible_of_decomposable (h : network.Decomposable state task) :
    ∃ id row, network.HasMethod state task id row ∧
      network.Feasible state (network.subtasksOf row) := by
  obtain ⟨tree, htree, hsubtask⟩ := h
  cases htree with
  | action a => cases hsubtask
  | @task _ id row parts hmethod hsubtasks hparts =>
    obtain rfl := Subtask.compound.inj hsubtask
    exact ⟨id, row, hmethod, feasible_of_parts hsubtasks hparts⟩

end TaskNetwork

end AgentPlanning
