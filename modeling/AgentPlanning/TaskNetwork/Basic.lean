import AgentPlanning.Diagnostic
import AgentPlanning.Span
import AgentPlanning.TaskNetwork.Task

/-!
# Task Networks

A task network holds tasks in flat tables: one of tasks, one of the methods of all tasks and one
of the subtasks of all methods. A task refers to its methods, and a method to its subtasks, by a
range of the next table. Tasks become a network if every subtask refers to an action
or a task that exists and every task has a method; otherwise each violation is reported.
-/

namespace AgentPlanning

/-- A row of the table of tasks. -/
structure TaskRow where
  name : String
  methods : Span
deriving DecidableEq, Repr

/-- A row of the table of methods. -/
structure MethodRow where
  name : String
  /-- Where the method applies. -/
  condition : Condition
  cost : UInt32
  subtasks : Span
deriving DecidableEq, Repr

/-- Tasks, methods and subtasks in flat tables. -/
structure TaskNetwork where
  tasks : Array TaskRow := #[]
  methods : Array MethodRow := #[]
  subtasks : Array Subtask := #[]
deriving DecidableEq, Inhabited

/-- The methods of the task. -/
def TaskRow.methodIds (entry : TaskRow) : List MethodId :=
  List.range' entry.methods.start entry.methods.length

/-- Where a diagnostic about a method arose. -/
def methodContext (task method : String) : String :=
  s!"task `{task}` method `{method}`"

/-- The problem with a subtask, if it refers to something that does not exist. -/
def Subtask.problem? (context : String) (actionCount taskCount : Nat) :
    Subtask → Option Diagnostic
  | .action id =>
    if id < actionCount then none else some (.noSuchAction context id actionCount)
  | .compound id =>
    if id < taskCount then none else some (.noSuchTask context id taskCount)

/-- The problems of a method. -/
def Method.problems (task : String) (actionCount taskCount : Nat)
    (method : Method) : List Diagnostic :=
  method.subtasks.filterMap (·.problem? (methodContext task method.name) actionCount taskCount)

/-- The problems of a task: its own, then those of its methods in order. -/
def Task.problems (actionCount taskCount : Nat) (task : Task) :
    List Diagnostic :=
  (if task.methods.isEmpty then [.noMethods task.name] else []) ++
    task.methods.flatMap (·.problems task.name actionCount taskCount)

namespace TaskNetwork

/-- The network with a method added to its tables. -/
def addMethod (network : TaskNetwork) (method : Method) : TaskNetwork :=
  let entry : MethodRow :=
    { name := method.name
      condition := method.condition
      cost := method.cost
      subtasks := ⟨network.subtasks.size, method.subtasks.length⟩ }
  { network with
    methods := network.methods.push entry
    subtasks := network.subtasks.appendList method.subtasks }

/-- The network with a task and its methods added to its tables. -/
def addTask (network : TaskNetwork) (task : Task) : TaskNetwork :=
  let entry : TaskRow :=
    { name := task.name
      methods := ⟨network.methods.size, task.methods.length⟩ }
  task.methods.foldl addMethod { network with tasks := network.tasks.push entry }

/-- The network of the given tasks, whether or not they refer to existing things. -/
def flatten (tasks : List Task) : TaskNetwork :=
  tasks.foldl addTask {}

/-- The network of the given tasks, for a library of `actionCount` actions, or all problems. -/
def ofTasks (tasks : List Task) (actionCount : Nat) :
    Except Diagnostics TaskNetwork :=
  Diagnostics.guard ⟨tasks.flatMap (·.problems actionCount tasks.length)⟩ (flatten tasks)

/-- The number of tasks. -/
def size (network : TaskNetwork) : Nat := network.tasks.size

/-- A row of the table of tasks. -/
def task? (network : TaskNetwork) (task : TaskId) : Option TaskRow :=
  network.tasks[task]?

/-- A row of the table of methods. -/
def method? (network : TaskNetwork) (method : MethodId) : Option MethodRow :=
  network.methods[method]?

/-- The first task of the given name. -/
def taskNamed? (network : TaskNetwork) (name : String) : Option TaskId :=
  network.tasks.findIdx? (·.name == name)

/-- The subtasks of a method, in order. -/
def subtasksOf (network : TaskNetwork) (method : MethodRow) : List Subtask :=
  method.subtasks.read network.subtasks

end TaskNetwork

end AgentPlanning
