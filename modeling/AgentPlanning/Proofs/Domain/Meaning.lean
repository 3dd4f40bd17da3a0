import AgentPlanning.Domain.Resolution
import AgentPlanning.Proofs.TaskNetwork.Tables
import Mathlib.Data.Option.Basic

/-!
# Domains that Represent a Description

A domain represents a description if its tables, read back with every number replaced by the name
that it stands for, are the description. Numbers of declared things are positions in the
description; numbers of blackboard keys and order tags are those of the vocabulary. A condition has
no names in it to be read back, so it is described by what it does: which states satisfy it, and
what it writes to a state.
-/

namespace AgentPlanning

namespace Description

/-- The name of the atom at a position. -/
def atomName? (description : Description) (atom : AtomId) : Option String :=
  description.atoms[atom.val]?

def actionName? (description : Description) (action : ActionId) : Option String :=
  description.actions[action]?.map (·.name)

def goalName? (description : Description) (goal : GoalId) : Option String :=
  description.goals[goal]?.map (·.name)

def taskName? (description : Description) (task : TaskId) : Option String :=
  description.tasks[task]?.map (·.name)

/-! ## Conditions and effects -/

/-- A state satisfies the condition exactly if every fact has its value in the state. -/
def Fact.RequiredBy (description : Description) (facts : List Description.Fact)
    (condition : Condition) : Prop :=
  ∀ state : WorldState, state.satisfies condition = true ↔
    ∀ fact ∈ facts, ∃ atom, description.atomName? atom = some fact.atom ∧
      state.get atom = fact.value

/-- The effect brings about every fact and leaves all atoms alone that no fact is about. -/
structure Fact.WrittenBy (description : Description) (facts : List Description.Fact)
    (effect : Condition) : Prop where
  writes : ∀ fact ∈ facts, ∃ atom, description.atomName? atom = some fact.atom ∧
    ∀ state : WorldState, (state.apply effect).get atom = fact.value
  keeps : ∀ atom, (∀ fact ∈ facts, description.atomName? atom ≠ some fact.atom) →
    ∀ state : WorldState, (state.apply effect).get atom = state.get atom

/-! ## The entries of a description -/

/-- The test is of the same kind, with the key of the name and the same bound. -/
inductive Test.RepresentedBy (vocabulary : Vocabulary) :
    Description.Test → BlackboardTest → Prop where
  | intEquals {name : String} {key : IntKey} (value : Int32)
      (known : vocabulary.intKeys.get? name = some key) :
      RepresentedBy vocabulary (.intEquals name value) (.intEquals key value)
  | intAtLeast {name : String} {key : IntKey} (value : Int32)
      (known : vocabulary.intKeys.get? name = some key) :
      RepresentedBy vocabulary (.intAtLeast name value) (.intAtLeast key value)
  | intAtMost {name : String} {key : IntKey} (value : Int32)
      (known : vocabulary.intKeys.get? name = some key) :
      RepresentedBy vocabulary (.intAtMost name value) (.intAtMost key value)
  | entityPresent {name : String} {key : EntityKey}
      (known : vocabulary.entityKeys.get? name = some key) :
      RepresentedBy vocabulary (.entityPresent name) (.entityPresent key)
  | entityAbsent {name : String} {key : EntityKey}
      (known : vocabulary.entityKeys.get? name = some key) :
      RepresentedBy vocabulary (.entityAbsent name) (.entityAbsent key)

structure Projection.RepresentedBy (description : Description) (vocabulary : Vocabulary)
    (rule : Description.Projection) (found : AgentPlanning.Projection.Rule) : Prop where
  atom : description.atomName? found.atom = some rule.atom
  test : rule.test.RepresentedBy vocabulary found.test

/-- The template has the tag of the name; without an order it is the default template. -/
inductive Order.RepresentedBy (vocabulary : Vocabulary) :
    Option Description.Order → OrderTemplate → Prop where
  | absent : RepresentedBy vocabulary none {}
  | present {order : Description.Order} {tag : OrderTag}
      (known : vocabulary.tags.get? order.tag = some tag) :
      RepresentedBy vocabulary (some order)
        { tag := tag, mode := order.mode, player := order.player }

inductive Binding.RepresentedBy (vocabulary : Vocabulary) :
    Description.Binding → AgentPlanning.Binding → Prop where
  | intToArg {name : String} {key : IntKey} (slot : UInt8)
      (known : vocabulary.intKeys.get? name = some key) :
      RepresentedBy vocabulary (.intToArg name slot) (.intToArg key slot)
  | entityToTarget {name : String} {key : EntityKey}
      (known : vocabulary.entityKeys.get? name = some key) :
      RepresentedBy vocabulary (.entityToTarget name) (.entityToTarget key)
  | entityToTargetContext {name : String} {key : EntityKey}
      (known : vocabulary.entityKeys.get? name = some key) :
      RepresentedBy vocabulary (.entityToTargetContext name) (.entityToTargetContext key)

structure Action.RepresentedBy (description : Description) (vocabulary : Vocabulary)
    (action : Description.Action) (found : AgentPlanning.Action) : Prop where
  name : found.name = action.name
  pre : Fact.RequiredBy description action.pre found.pre
  post : Fact.WrittenBy description action.post found.post
  cost : found.cost = action.cost
  executor : found.executor = action.executor
  order : Order.RepresentedBy vocabulary action.order found.order
  bindings : List.Forall₂ (Binding.RepresentedBy vocabulary) action.bindings found.bindings

structure Goal.RepresentedBy (description : Description) (goal : Description.Goal)
    (found : String × AgentPlanning.Goal) : Prop where
  name : found.1 = goal.name
  condition : Fact.RequiredBy description goal.condition found.2.condition
  weight : found.2.weight = goal.weight

/-- The subtask refers to the action or the task of the name. -/
inductive Subtask.RepresentedBy (description : Description) :
    Description.Subtask → AgentPlanning.Subtask → Prop where
  | action {name : String} {id : ActionId} (declared : description.actionName? id = some name) :
      RepresentedBy description (.action name) (.action id)
  | task {name : String} {id : TaskId} (declared : description.taskName? id = some name) :
      RepresentedBy description (.task name) (.compound id)

structure Method.RepresentedBy (description : Description) (method : Description.Method)
    (found : AgentPlanning.Method) : Prop where
  name : found.name = method.name
  condition : Fact.RequiredBy description method.condition found.condition
  cost : found.cost = method.cost
  subtasks : List.Forall₂ (Subtask.RepresentedBy description) method.subtasks found.subtasks

/-- The methods of the row's range are those of the task, in order. -/
structure Task.RepresentedBy (description : Description) (network : TaskNetwork)
    (task : Description.Task) (row : TaskRow) : Prop where
  name : row.name = task.name
  methods : List.Forall₂ (fun method id => ∃ methodRow, network.method? id = some methodRow ∧
      Method.RepresentedBy description method (network.methodOf methodRow))
    task.methods row.methodIds

inductive Consideration.RepresentedBy (description : Description) (vocabulary : Vocabulary) :
    Description.Consideration → AgentPlanning.Consideration → Prop where
  | atom {name : String} {atom : AtomId} (ifTrue ifFalse : Float32)
      (declared : description.atomName? atom = some name) :
      RepresentedBy description vocabulary (.atom name ifTrue ifFalse) (.atom atom ifTrue ifFalse)
  | intRange {name : String} {key : IntKey} (min max : Int32) (low high : Float32)
      (known : vocabulary.intKeys.get? name = some key) :
      RepresentedBy description vocabulary (.intRange name min max low high)
        (.intRange key min max low high)

structure GoalOption.RepresentedBy (description : Description) (vocabulary : Vocabulary)
    (option : Description.GoalOption) (found : AgentPlanning.GoalOption) : Prop where
  goal : description.goalName? found.goal = some option.goal
  strategy : found.strategy = option.strategy
  base : found.base = option.base
  considerations : List.Forall₂ (Consideration.RepresentedBy description vocabulary)
    option.considerations found.considerations

/-! ## The whole description -/

/-- What stands at each position of the domain's tables is what the description has there, and
names are looked up where they are declared. -/
structure RepresentedBy (description : Description) (vocabulary : Vocabulary)
    (domain : Domain) : Prop where
  atoms : ∀ atom, domain.atoms.name? atom = description.atomName? atom
  atom?_eq : ∀ name atom, domain.atom? name = some atom ↔ description.atomName? atom = some name
  action?_eq : ∀ name action,
    domain.action? name = some action ↔ description.actionName? action = some name
  goal?_eq : ∀ name goal, domain.goal? name = some goal ↔ description.goalName? goal = some name
  task?_eq : ∀ name task, domain.task? name = some task ↔ description.taskName? task = some name
  projection : List.Forall₂ (Projection.RepresentedBy description vocabulary)
    description.projections domain.projection.rules
  actions : ∀ action : ActionId, Option.Rel (Action.RepresentedBy description vocabulary)
    description.actions[action]? (domain.actions.get? action)
  goals : ∀ goal : GoalId, Option.Rel (Goal.RepresentedBy description)
    description.goals[goal]? domain.goals.goals[goal]?
  /-- A goal has a root in the table if it declares one, and it is the task of this name. -/
  roots : ∀ goal : GoalId, Option.Rel (fun name task => description.taskName? task = some name)
    (description.goals[goal]?.bind (·.root)) (domain.roots.root? goal)
  tasks : ∀ task : TaskId, Option.Rel (Task.RepresentedBy description domain.tasks)
    description.tasks[task]? (domain.tasks.task? task)
  options : List.Forall₂ (GoalOption.RepresentedBy description vocabulary)
    description.options domain.selector.table.options
  threshold : domain.selector.threshold = description.threshold

end Description

end AgentPlanning
