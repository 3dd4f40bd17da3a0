import AgentPlanning.Description.Basic
import AgentPlanning.Domain.Vocabulary

/-!
# Well-formed Descriptions

What a domain description has to be like in order to make sense, read off the description and the
vocabulary alone: every name that it uses is declared or known to the game, no name is declared
twice for one kind of thing, no list of facts contradicts itself, and the declared things are
complete. Nothing here speaks about tables, numbers or the order in which problems are found.
-/

namespace AgentPlanning

/-- The facts are about declared atoms, and no atom is required to be both true and false. -/
structure Description.Fact.Consistent (description : Description)
    (facts : List Description.Fact) : Prop where
  declared : ∀ fact ∈ facts, fact.atom ∈ description.atoms
  agree : ∀ fact ∈ facts, ∀ other ∈ facts, fact.atom = other.atom → fact.value = other.value

/-- The blackboard key of the test is known. -/
def Description.Test.WellFormed (vocabulary : Vocabulary) : Description.Test → Prop
  | .intEquals key _ | .intAtLeast key _ | .intAtMost key _ =>
    vocabulary.intKeys.contains key = true
  | .entityPresent key | .entityAbsent key => vocabulary.entityKeys.contains key = true

structure Description.Projection.WellFormed (description : Description) (vocabulary : Vocabulary)
    (rule : Description.Projection) : Prop where
  atom : rule.atom ∈ description.atoms
  test : rule.test.WellFormed vocabulary

/-- The blackboard key of the binding is known, and orders have the slot that it writes. -/
def Description.Binding.WellFormed (vocabulary : Vocabulary) : Description.Binding → Prop
  | .intToArg key slot => vocabulary.intKeys.contains key = true ∧ slot < 4
  | .entityToTarget key | .entityToTargetContext key =>
    vocabulary.entityKeys.contains key = true

structure Description.Action.WellFormed (description : Description) (vocabulary : Vocabulary)
    (action : Description.Action) : Prop where
  pre : Description.Fact.Consistent description action.pre
  post : Description.Fact.Consistent description action.post
  /-- The order tag is known, if there is an order. -/
  order : ∀ order ∈ action.order, vocabulary.tags.contains order.tag = true
  bindings : ∀ binding ∈ action.bindings, binding.WellFormed vocabulary

structure Description.Goal.WellFormed (description : Description)
    (goal : Description.Goal) : Prop where
  condition : Description.Fact.Consistent description goal.condition
  /-- The root is a declared task, if there is one. -/
  root : ∀ task ∈ goal.root, task ∈ description.tasks.map (·.name)

/-- The subtask is a declared action or a declared task. -/
def Description.Subtask.WellFormed (description : Description) : Description.Subtask → Prop
  | .action name => name ∈ description.actions.map (·.name)
  | .task name => name ∈ description.tasks.map (·.name)

structure Description.Method.WellFormed (description : Description)
    (method : Description.Method) : Prop where
  condition : Description.Fact.Consistent description method.condition
  subtasks : ∀ subtask ∈ method.subtasks, subtask.WellFormed description

structure Description.Task.WellFormed (description : Description)
    (task : Description.Task) : Prop where
  /-- There is some way to do the task. -/
  nonempty : task.methods ≠ []
  methods : ∀ method ∈ task.methods, method.WellFormed description

/-- The atom or the blackboard key of the consideration is known. -/
def Description.Consideration.WellFormed (description : Description) (vocabulary : Vocabulary) :
    Description.Consideration → Prop
  | .atom name _ _ => name ∈ description.atoms
  | .intRange key _ _ _ _ => vocabulary.intKeys.contains key = true

structure Description.GoalOption.WellFormed (description : Description) (vocabulary : Vocabulary)
    (option : Description.GoalOption) : Prop where
  /-- The goal is declared, and has a root if it is to be planned by decomposition. -/
  goal : ∃ goal ∈ description.goals, goal.name = option.goal ∧
    (option.strategy = .decomposition → goal.root.isSome = true)
  considerations : ∀ consideration ∈ option.considerations,
    consideration.WellFormed description vocabulary

/-- The description makes sense for the vocabulary. -/
structure Description.WellFormed (description : Description) (vocabulary : Vocabulary) : Prop where
  atoms_nodup : description.atoms.Nodup
  /-- A world state has room for the atoms. -/
  atoms_fit : description.atoms.length ≤ 256
  actions_nodup : (description.actions.map (·.name)).Nodup
  goals_nodup : (description.goals.map (·.name)).Nodup
  tasks_nodup : (description.tasks.map (·.name)).Nodup
  projections : ∀ rule ∈ description.projections, rule.WellFormed description vocabulary
  actions : ∀ action ∈ description.actions, action.WellFormed description vocabulary
  goals : ∀ goal ∈ description.goals, goal.WellFormed description
  tasks : ∀ task ∈ description.tasks, task.WellFormed description
  options : ∀ option ∈ description.options, option.WellFormed description vocabulary

end AgentPlanning
