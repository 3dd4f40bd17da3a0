import AgentPlanning.Domain.Vocabulary
import AgentPlanning.Description.Basic
import AgentPlanning.Json.Records

/-!
# The JSON Form of Domain Descriptions

Every member of a description that has a default may be missing. The test of a projection is
not nested: its members stand beside the name of the atom.
-/

namespace AgentPlanning

open Json

instance : Codec Description.Fact where
  encode fact := .object [("atom", encode fact.atom), ("value", encode fact.value)]
  decode? v := do
    let o ← v.members?
    return { atom := ← o.required? "atom", value := ← o.optional? "value" true }

namespace Description.Test

/-- The names of the tests in the order of their declaration. -/
def names : List String :=
  ["int_equals", "int_at_least", "int_at_most", "entity_present", "entity_absent"]

/-- The name of a test, which may also be given by its position. -/
def name? : Value → Option String
  | .string s => some s
  | .int n => if 0 ≤ n then names[n.toNat]? else none
  | _ => none

/-- The members of a test. -/
def toMembers : Description.Test → Members
  | intEquals key value =>
    [("op", .string "int_equals"), ("key", encode key), ("value", encode value)]
  | intAtLeast key value =>
    [("op", .string "int_at_least"), ("key", encode key), ("value", encode value)]
  | intAtMost key value =>
    [("op", .string "int_at_most"), ("key", encode key), ("value", encode value)]
  | entityPresent key => [("op", .string "entity_present"), ("key", encode key)]
  | entityAbsent key => [("op", .string "entity_absent"), ("key", encode key)]

/-- Reads a test from the members of an object. -/
def ofMembers? (o : Members) : Option Description.Test := do
  match ← name? (← o.lookup "op") with
  | "int_equals" => return intEquals (← o.required? "key") (← o.required? "value")
  | "int_at_least" => return intAtLeast (← o.required? "key") (← o.required? "value")
  | "int_at_most" => return intAtMost (← o.required? "key") (← o.required? "value")
  | "entity_present" => return entityPresent (← o.required? "key")
  | "entity_absent" => return entityAbsent (← o.required? "key")
  | _ => none

end Description.Test

instance : Codec Description.Projection where
  encode rule := .object (("atom", encode rule.atom) :: rule.test.toMembers)
  decode? v := do
    let o ← v.members?
    return { atom := ← o.required? "atom", test := ← Description.Test.ofMembers? o }

instance : Codec Description.Order where
  encode order := .object
    [("tag", encode order.tag), ("mode", encode order.mode), ("player", encode order.player)]
  decode? v := do
    let o ← v.members?
    return {
      tag := ← o.required? "tag"
      mode := ← o.optional? "mode" .replace
      player := ← o.optional? "player" 0 }

instance : Codec Description.Binding where
  encode
    | .intToArg key slot => .object
      [("kind", .string "int_to_arg"), ("key", encode key), ("slot", encode slot)]
    | .entityToTarget key => .object
      [("kind", .string "entity_to_target"), ("key", encode key)]
    | .entityToTargetContext key => .object
      [("kind", .string "entity_to_target_context"), ("key", encode key)]
  decode? v := do
    let o ← v.members?
    match ← (o.required? "kind" : Option String) with
    | "int_to_arg" => return .intToArg (← o.required? "key") (← o.required? "slot")
    | "entity_to_target" => return .entityToTarget (← o.required? "key")
    | "entity_to_target_context" => return .entityToTargetContext (← o.required? "key")
    | _ => none

instance : Codec Description.Action where
  encode a := .object
    [("name", encode a.name), ("pre", encode a.pre), ("post", encode a.post),
      ("cost", encode a.cost), ("executor", encode a.executor), ("order", encode a.order),
      ("bindings", encode a.bindings)]
  decode? v := do
    let o ← v.members?
    return {
      name := ← o.required? "name"
      pre := ← o.optional? "pre" []
      post := ← o.optional? "post" []
      cost := ← o.optional? "cost" 1
      executor := ← o.optional? "executor" .submitOrder
      order := ← o.optional? "order" none
      bindings := ← o.optional? "bindings" [] }

instance : Codec Description.Goal where
  encode g := .object
    [("name", encode g.name), ("condition", encode g.condition),
      ("heuristic_weight", encode g.weight), ("root_task", encode g.root)]
  decode? v := do
    let o ← v.members?
    return {
      name := ← o.required? "name"
      condition := ← o.optional? "condition" []
      weight := ← o.optional? "heuristic_weight" 1
      root := ← o.optional? "root_task" none }

/-- A subtask is an object with one member, which tells whether it names an action or a task. -/
instance : Codec Description.Subtask where
  encode
    | .action name => .object [("action", encode name)]
    | .task name => .object [("task", encode name)]
  decode?
    | .object [("action", name)] => (decode? name).map .action
    | .object [("task", name)] => (decode? name).map .task
    | _ => none

instance : Codec Description.Method where
  encode m := .object
    [("name", encode m.name), ("condition", encode m.condition), ("cost", encode m.cost),
      ("subtasks", encode m.subtasks)]
  decode? v := do
    let o ← v.members?
    return {
      name := ← o.required? "name"
      condition := ← o.optional? "condition" []
      cost := ← o.optional? "cost" 0
      subtasks := ← o.optional? "subtasks" [] }

instance : Codec Description.Task where
  encode t := .object [("name", encode t.name), ("methods", encode t.methods)]
  decode? v := do
    let o ← v.members?
    return { name := ← o.required? "name", methods := ← o.optional? "methods" [] }

instance : Codec Description.Consideration where
  encode
    | .atom atom ifTrue ifFalse => .object
      [("kind", .string "atom"), ("atom", encode atom), ("if_true", encode ifTrue),
        ("if_false", encode ifFalse)]
    | .intRange key min max low high => .object
      [("kind", .string "int_range"), ("key", encode key), ("min", encode min),
        ("max", encode max), ("low", encode low), ("high", encode high)]
  decode? v := do
    let o ← v.members?
    match ← (o.required? "kind" : Option String) with
    | "atom" =>
      return .atom (← o.required? "atom") (← o.required? "if_true") (← o.required? "if_false")
    | "int_range" =>
      return .intRange (← o.required? "key") (← o.required? "min") (← o.required? "max")
        (← o.required? "low") (← o.required? "high")
    | _ => none

instance : Codec Description.GoalOption where
  encode u := .object
    [("goal", encode u.goal), ("strategy", encode u.strategy),
      ("base_weight", encode u.base), ("considerations", encode u.considerations)]
  decode? v := do
    let o ← v.members?
    return {
      goal := ← o.required? "goal"
      strategy := ← o.optional? "strategy" .search
      base := ← o.optional? "base_weight" 1
      considerations := ← o.optional? "considerations" [] }

instance : Codec Description where
  encode c := .object
    [("atoms", encode c.atoms), ("projections", encode c.projections),
      ("actions", encode c.actions), ("goals", encode c.goals), ("tasks", encode c.tasks),
      ("utility", encode c.options), ("min_utility_score", encode c.threshold)]
  decode? v := do
    let o ← v.members?
    return {
      atoms := ← o.optional? "atoms" []
      projections := ← o.optional? "projections" []
      actions := ← o.optional? "actions" []
      goals := ← o.optional? "goals" []
      tasks := ← o.optional? "tasks" []
      options := ← o.optional? "utility" []
      threshold := ← o.optional? "min_utility_score" 0 }

/-- A vocabulary is written as the lists of its entries. -/
instance : Codec Vocabulary where
  encode vocabulary := .object
    [("tags", encode vocabulary.tags.entries), ("int_keys", encode vocabulary.intKeys.entries),
      ("entity_keys", encode vocabulary.entityKeys.entries)]
  decode? v := do
    let o ← v.members?
    return .ofLists (← o.optional? "tags" []) (← o.optional? "int_keys" [])
      (← o.optional? "entity_keys" [])

end AgentPlanning
