import AgentPlanning.Action.Library
import AgentPlanning.Domain.Scope
import AgentPlanning.TaskNetwork.Roots
import AgentPlanning.Utility

/-!
# Resolving Descriptions

Resolution turns a domain description into the tables that planning reads: names become
numbers, lists of facts become conditions, and tasks become a network. A description is
resolved only if it has no problem at all; otherwise all problems are reported, part after
part in the order of the description.
-/

namespace AgentPlanning

/-- Everything that a planning agent reads. -/
structure Domain where
  atoms : AtomRegistry
  /-- How atoms are derived from the blackboard. -/
  projection : Projection
  actions : ActionLibrary
  goals : GoalTable
  tasks : TaskNetwork
  roots : RootTable
  /-- The goals to choose from. -/
  selector : GoalSelector
deriving BEq

namespace Scope

/-- Resolves the test of a projection. -/
def projectionTest (scope : Scope) (context : String) :
    Description.Test → Checked (Option BlackboardTest)
  | .intEquals key value =>
    return (← scope.intKey context key).map (.intEquals · value)
  | .intAtLeast key value =>
    return (← scope.intKey context key).map (.intAtLeast · value)
  | .intAtMost key value =>
    return (← scope.intKey context key).map (.intAtMost · value)
  | .entityPresent key =>
    return (← scope.entityKey context key).map .entityPresent
  | .entityAbsent key =>
    return (← scope.entityKey context key).map .entityAbsent

/-- Resolves the projection rule at position `i`. -/
def projectionRule (scope : Scope) (rule : Description.Projection) (i : Nat) :
    Checked (Option Projection.Rule) := do
  let context := s!"projection #{i} (`{rule.atom}`)"
  let atom? ← scope.atom context rule.atom
  let test? ← scope.projectionTest context rule.test
  return do
    let atom ← atom?
    let test ← test?
    some { atom, test }

/-- Resolves the projection. -/
def projection (scope : Scope) (rules : List Description.Projection) : Checked Projection := do
  return ⟨← .filterEach rules.zipIdx fun (rule, i) => scope.projectionRule rule i⟩

/-- Resolves a parameter of an order. The slot is checked even if the key is unknown. -/
def binding (scope : Scope) (context : String) :
    Description.Binding → Checked (Option Binding)
  | .intToArg key slot => do
    let key? ← scope.intKey context key
    if slot < 4 then return key?.map (.intToArg · slot)
    else ⟨none, [.slotOutOfRange context slot]⟩
  | .entityToTarget key =>
    return (← scope.entityKey context key).map .entityToTarget
  | .entityToTargetContext key =>
    return (← scope.entityKey context key).map .entityToTargetContext

/-- Resolves the fixed part of an order. -/
def orderTemplate (scope : Scope) (context : String) :
    Option Description.Order → Checked OrderTemplate
  | none => return {}
  | some order => do
    let tag? ← scope.tag context order.tag
    return { tag := tag?.getD 0, mode := order.mode, player := order.player }

/-- Resolves an action. -/
def resolveAction (scope : Scope) (action : Description.Action) : Checked Action := do
  let context := s!"action `{action.name}`"
  let pre ← scope.condition context action.pre
  let post ← scope.condition context action.post
  let order ← scope.orderTemplate context action.order
  let bindings ← .filterEach action.bindings (scope.binding context)
  return {
    name := action.name
    pre, post
    cost := action.cost
    executor := action.executor
    order, bindings }

/-- Resolves the actions. -/
def actionLibrary (scope : Scope) (actions : List Description.Action) : Checked ActionLibrary := do
  reportRepeated "action" (actions.map (·.name))
  return .ofList (← .each actions scope.resolveAction)

/-- Resolves a goal. -/
def resolveGoal (scope : Scope) (goal : Description.Goal) : Checked (String × Goal) := do
  let condition ← scope.condition s!"goal `{goal.name}`" goal.condition
  return (goal.name, { condition, weight := goal.weight })

/-- Resolves the goals. -/
def goalTable (scope : Scope) (goals : List Description.Goal) : Checked GoalTable := do
  reportRepeated "goal" (goals.map (·.name))
  return .ofList (← .each goals scope.resolveGoal)

/-- Resolves a subtask. -/
def subtask (scope : Scope) (context : String) : Description.Subtask → Checked (Option Subtask)
  | .action name => return (← scope.action context name).map .action
  | .task name => return (← scope.task context name).map .compound

/-- Resolves a method of the task called `task`. -/
def resolveMethod (scope : Scope) (task : String) (method : Description.Method) :
    Checked Method := do
  let context := methodContext task method.name
  let condition ← scope.condition context method.condition
  let subtasks ← .filterEach method.subtasks (scope.subtask context)
  return { name := method.name, condition, cost := method.cost, subtasks }

/-- Resolves a task. -/
def resolveTask (scope : Scope) (task : Description.Task) : Checked Task := do
  return {
    name := task.name
    methods := ← .each task.methods (scope.resolveMethod task.name) }

/-- Resolves the tasks; there is no network if its construction meets a problem. -/
def taskNetwork (scope : Scope) (tasks : List Description.Task) :
    Checked (Option TaskNetwork) := do
  reportRepeated "task" (tasks.map (·.name))
  match TaskNetwork.ofTasks (← .each tasks scope.resolveTask) scope.actions.length with
  | .ok network => return some network
  | .error batch => ⟨none, batch.toList⟩

/-- Resolves the root of the goal at position `goal`, if it declares one. -/
def goalRoot (scope : Scope) (entry : Description.Goal) (goal : GoalId) :
    Checked (Option (GoalId × TaskId)) :=
  match entry.root with
  | none => return none
  | some task => return (← scope.task s!"goal `{entry.name}` root" task).map (goal, ·)

/-- Resolves the roots of goals, which are checked against the network if there is one. -/
def rootTable (scope : Scope) (network : Option TaskNetwork) (goals : List Description.Goal) :
    Checked RootTable := do
  let entries ← .filterEach goals.zipIdx fun (entry, goal) => scope.goalRoot entry goal
  match network with
  | none => return {}
  | some network =>
    match RootTable.ofList entries network with
    | .ok roots => return roots
    | .error batch => ⟨{}, batch.toList⟩

/-- Resolves one factor in the score of a goal. -/
def consideration (scope : Scope) (context : String) :
    Description.Consideration → Checked (Option Consideration)
  | .atom name ifTrue ifFalse =>
    return (← scope.atom context name).map (.atom · ifTrue ifFalse)
  | .intRange key min max low high =>
    return (← scope.intKey context key).map (.intRange · min max low high)

/-- Resolves the goal to choose from at position `i`. The factors of an unknown goal are not
looked at. A goal that is planned by decomposition must declare a root. -/
def goalOption (scope : Scope) (goals : List Description.Goal) (entry : Description.GoalOption)
    (i : Nat) : Checked (Option GoalOption) := do
  let context := s!"utility goal #{i} (`{entry.goal}`)"
  match ← scope.goal context entry.goal with
  | none => return none
  | some goal =>
    let hasRoot := goals[goal]?.any (·.root.isSome)
    if entry.strategy = .decomposition ∧ !hasRoot then
      .report [.noRoot context entry.goal]
    let considerations ← .filterEach entry.considerations (scope.consideration context)
    return some
      { goal, strategy := entry.strategy, base := entry.base, considerations }

/-- Resolves the goals to choose from. -/
def goalSelector (scope : Scope) (description : Description) : Checked GoalSelector := do
  let goals ← .filterEach description.options.zipIdx fun (entry, i) =>
    scope.goalOption description.goals entry i
  return .ofList goals description.threshold

end Scope

namespace Domain

/-- The tables of a description, with all problems. -/
def resolve (description : Description) (vocabulary : Vocabulary) : Checked Domain := do
  let declared := declareAtoms description.atoms
  let scope := Scope.ofDescription description vocabulary declared
  let atoms ← declared
  let projection ← scope.projection description.projections
  let actions ← scope.actionLibrary description.actions
  let goals ← scope.goalTable description.goals
  let network ← scope.taskNetwork description.tasks
  let roots ← scope.rootTable network description.goals
  let selector ← scope.goalSelector description
  return { atoms, projection, actions, goals, tasks := network.getD {}, roots, selector }

/-- The domain of a description, or all problems of the description. -/
def ofDescription (description : Description) (vocabulary : Vocabulary) :
    Except Diagnostics Domain :=
  (resolve description vocabulary).toExcept

/-- The atom of a name. -/
def atom? (domain : Domain) (name : String) : Option AtomId :=
  domain.atoms.get? name

/-- The action of a name. -/
def action? (domain : Domain) (name : String) : Option ActionId :=
  domain.actions.find? name

/-- The goal of a name. -/
def goal? (domain : Domain) (name : String) : Option GoalId :=
  domain.goals.find? name

/-- The task of a name. -/
def task? (domain : Domain) (name : String) : Option TaskId :=
  domain.tasks.taskNamed? name

end Domain

end AgentPlanning
