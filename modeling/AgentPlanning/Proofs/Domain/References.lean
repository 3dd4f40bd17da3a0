import AgentPlanning.Description.Basic
import AgentPlanning.Domain.Vocabulary
import AgentPlanning.TaskNetwork.Basic

/-!
# References

Every place where a domain description refers to something by name, read off the description
alone. A reference resolves if what it names is declared in the description or known to the
game. The factors in the score of a goal that is not declared are hidden: a reader who looks
the goal up first has no occasion to look at them.

The references are listed in the order in which a description is read: projections, actions,
goals, tasks, the roots of goals, and the goals to choose from.
-/

namespace AgentPlanning

/-- Where in a description a name occurs. -/
inductive Place where
  /-- In the projection at a position, which decides `atom`. -/
  | projection (position : Nat) (atom : String)
  | action (name : String)
  | goal (name : String)
  | method (task name : String)
  /-- As the root of a goal. -/
  | root (goal : String)
  /-- As the goal of the option at a position. -/
  | option (position : Nat) (goal : String)
  /-- In a factor of the option at a position. -/
  | factor (position : Nat) (goal : String)
deriving DecidableEq

/-- The context by which diagnostics name the place. -/
def Place.context : Place → String
  | projection i atom => s!"projection #{i} (`{atom}`)"
  | action name => s!"action `{name}`"
  | goal name => s!"goal `{name}`"
  | method task name => methodContext task name
  | root name => s!"goal `{name}` root"
  | option i name | factor i name => s!"utility goal #{i} (`{name}`)"

/-- Whether the place is a factor in the score of a goal that is not declared. -/
def Place.isHidden (description : Description) : Place → Bool
  | factor _ name => name ∉ description.goals.map (·.name)
  | _ => false

/-- What a name is used as the name of. -/
inductive NameKind where
  | atom
  | tag
  | intKey
  | entityKey
  | action
  | task
  | goal
deriving DecidableEq

/-- An occurrence of a name. -/
structure Reference where
  kind : NameKind
  name : String
  place : Place
deriving DecidableEq

namespace Reference

/-- Whether the name is declared or known to the game. -/
def resolves (description : Description) (vocabulary : Vocabulary) (r : Reference) : Bool :=
  match r.kind with
  | .atom => r.name ∈ description.atoms
  | .tag => vocabulary.tags.contains r.name
  | .intKey => vocabulary.intKeys.contains r.name
  | .entityKey => vocabulary.entityKeys.contains r.name
  | .action => r.name ∈ description.actions.map (·.name)
  | .task => r.name ∈ description.tasks.map (·.name)
  | .goal => r.name ∈ description.goals.map (·.name)

/-- The diagnostic of a reference that does not resolve. -/
def diagnostic (r : Reference) : Diagnostic :=
  match r.kind with
  | .atom => .unknownAtom r.place.context r.name
  | .tag => .unknownTag r.place.context r.name
  | .intKey => .unknownIntKey r.place.context r.name
  | .entityKey => .unknownEntityKey r.place.context r.name
  | .action => .unknownAction r.place.context r.name
  | .task => .unknownTask r.place.context r.name
  | .goal => .unknownGoal r.place.context r.name

end Reference

/-! ## The references of a description -/

namespace Description

def Fact.reference (place : Place) (fact : Fact) : Reference := ⟨.atom, fact.atom, place⟩

def Test.reference (place : Place) : Test → Reference
  | .intEquals key _ | .intAtLeast key _ | .intAtMost key _ => ⟨.intKey, key, place⟩
  | .entityPresent key | .entityAbsent key => ⟨.entityKey, key, place⟩

/-- The references of the projection at position `i`. -/
def Projection.references (rule : Projection) (i : Nat) : List Reference :=
  let place := .projection i rule.atom
  [⟨.atom, rule.atom, place⟩, rule.test.reference place]

def Order.reference (place : Place) (order : Order) : Reference := ⟨.tag, order.tag, place⟩

def Binding.reference (place : Place) : Binding → Reference
  | .intToArg key _ => ⟨.intKey, key, place⟩
  | .entityToTarget key | .entityToTargetContext key => ⟨.entityKey, key, place⟩

def Action.references (action : Action) : List Reference :=
  let place := .action action.name
  action.pre.map (Fact.reference place) ++ (action.post.map (Fact.reference place) ++
    (action.order.toList.map (Order.reference place) ++
      action.bindings.map (Binding.reference place)))

/-- The references of a goal, other than its root. -/
def Goal.references (goal : Goal) : List Reference :=
  goal.condition.map (Fact.reference (.goal goal.name))

def Goal.rootReferences (goal : Goal) : List Reference :=
  goal.root.toList.map fun task => ⟨.task, task, .root goal.name⟩

def Subtask.reference (place : Place) : Subtask → Reference
  | .action name => ⟨.action, name, place⟩
  | .task name => ⟨.task, name, place⟩

/-- The references of a method of the task called `task`. -/
def Method.references (task : String) (method : Method) : List Reference :=
  let place := .method task method.name
  method.condition.map (Fact.reference place) ++ method.subtasks.map (Subtask.reference place)

def Task.references (task : Task) : List Reference :=
  task.methods.flatMap (·.references task.name)

def Consideration.reference (place : Place) : Consideration → Reference
  | .atom name _ _ => ⟨.atom, name, place⟩
  | .intRange key _ _ _ _ => ⟨.intKey, key, place⟩

/-- The references of the option at position `i`. -/
def GoalOption.references (option : GoalOption) (i : Nat) : List Reference :=
  ⟨.goal, option.goal, .option i option.goal⟩ ::
    option.considerations.map (Consideration.reference (.factor i option.goal))

/-- All references of a description. -/
def references (description : Description) : List Reference :=
  (description.projections.zipIdx.flatMap fun (rule, i) => rule.references i) ++
    (description.actions.flatMap (·.references) ++
      (description.goals.flatMap (·.references) ++
        (description.tasks.flatMap (·.references) ++
          (description.goals.flatMap (·.rootReferences) ++
            description.options.zipIdx.flatMap fun (option, i) => option.references i))))

end Description

end AgentPlanning
