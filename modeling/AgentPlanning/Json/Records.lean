import AgentPlanning.Action.Basic
import AgentPlanning.Goal
import AgentPlanning.Json.Codec
import AgentPlanning.Projection
import AgentPlanning.Trace
import AgentPlanning.Utility

/-!
# The JSON Forms of Planning Records

Records are objects with a member for each field. An alternative without data is a string, and
alternatives with data are objects with a member that tells them apart.
-/

namespace AgentPlanning

open Json

instance : Codec AtomId where
  encode a := .int a.val
  decode? v := do
    let n ← v.intIn? 0 256
    if h : n.toNat < 256 then some ⟨n.toNat, h⟩ else none

instance : Codec WorldState where
  encode s := .object [("words", encode #v[s.w0, s.w1, s.w2, s.w3])]
  decode? v := do
    let words : Vector UInt64 4 ← (← v.members?).required? "words"
    return ⟨words[0], words[1], words[2], words[3]⟩

instance : Codec Condition where
  encode c := .object [("mask", encode c.mask), ("values", encode c.values)]
  decode? v := do
    let o ← v.members?
    return { mask := ← o.required? "mask", values := ← o.required? "values" }

/-- A blackboard is written as the lists of its entries. -/
instance : Codec Blackboard where
  encode bb := .object
    [("ints", encode bb.ints.entries), ("entities", encode bb.entities.entries)]
  decode? v := do
    let o ← v.members?
    return .ofLists (← o.optional? "ints" []) (← o.optional? "entities" [])

instance : Codec PlanningStrategy where
  encode
    | .search => .string "goap"
    | .decomposition => .string "htn"
  decode? v := do
    match ← v.alternative? with
    | "goap" => some .search
    | "htn" => some .decomposition
    | _ => none

instance : Codec SubmitMode where
  encode
    | .replace => .string "replace"
    | .append => .string "append"
    | .prepend => .string "prepend"
  decode? v := do
    match ← v.alternative? with
    | "replace" => some .replace
    | "append" => some .append
    | "prepend" => some .prepend
    | _ => none

instance : Codec Executor where
  encode
    | .submitOrder => .string "submit_order"
  decode? v := do
    match ← v.alternative? with
    | "submit_order" => some .submitOrder
    | _ => none

instance : Codec OrderTemplate where
  encode template := .object
    [("tag", encode template.tag), ("mode", encode template.mode),
      ("player", encode template.player)]
  decode? v := do
    let o ← v.members?
    return {
      tag := ← o.required? "tag"
      mode := ← o.required? "mode"
      player := ← o.required? "player" }

instance : Codec Order where
  encode order := .object
    [("tag", encode order.tag), ("mode", encode order.mode), ("player", encode order.player),
      ("actor", encode order.actor), ("target", encode order.target),
      ("target_context", encode order.targetContext), ("args", encode order.args)]
  decode? v := do
    let o ← v.members?
    return {
      tag := ← o.required? "tag"
      mode := ← o.required? "mode"
      player := ← o.required? "player"
      actor := ← o.required? "actor"
      target := ← o.optional? "target" none
      targetContext := ← o.optional? "target_context" none
      args := ← o.required? "args" }

instance : Codec Binding where
  encode
    | .intToArg key slot => .object
      [("kind", .string "int_to_arg"), ("key", encode key), ("slot", encode slot)]
    | .entityToTarget key => .object
      [("kind", .string "entity_to_target"), ("key", encode key)]
    | .entityToTargetContext key => .object
      [("kind", .string "entity_to_target_context"), ("key", encode key)]
  decode? v := do
    let o ← v.members?
    match ← (o.required? "kind" : Option String) with
    | "int_to_arg" => return .intToArg (← o.required? "key") (← o.required? "slot")
    | "entity_to_target" => return .entityToTarget (← o.required? "key")
    | "entity_to_target_context" => return .entityToTargetContext (← o.required? "key")
    | _ => none

instance : Codec BlackboardTest where
  encode
    | .intEquals key value => .object
      [("op", .string "int_equals"), ("key", encode key), ("value", encode value)]
    | .intAtLeast key value => .object
      [("op", .string "int_at_least"), ("key", encode key), ("value", encode value)]
    | .intAtMost key value => .object
      [("op", .string "int_at_most"), ("key", encode key), ("value", encode value)]
    | .entityPresent key => .object [("op", .string "entity_present"), ("key", encode key)]
    | .entityAbsent key => .object [("op", .string "entity_absent"), ("key", encode key)]
  decode? v := do
    let o ← v.members?
    match ← (o.required? "op" : Option String) with
    | "int_equals" => return .intEquals (← o.required? "key") (← o.required? "value")
    | "int_at_least" => return .intAtLeast (← o.required? "key") (← o.required? "value")
    | "int_at_most" => return .intAtMost (← o.required? "key") (← o.required? "value")
    | "entity_present" => return .entityPresent (← o.required? "key")
    | "entity_absent" => return .entityAbsent (← o.required? "key")
    | _ => none

instance : Codec Projection.Rule where
  encode rule := .object [("atom", encode rule.atom), ("op", encode rule.test)]
  decode? v := do
    let o ← v.members?
    return { atom := ← o.required? "atom", test := ← o.required? "op" }

instance : Codec Consideration where
  encode
    | .atom atom ifTrue ifFalse => .object
      [("kind", .string "atom"), ("atom", encode atom), ("if_true", encode ifTrue),
        ("if_false", encode ifFalse)]
    | .intRange key min max low high => .object
      [("kind", .string "int_range"), ("key", encode key), ("min", encode min),
        ("max", encode max), ("low", encode low), ("high", encode high)]
  decode? v := do
    let o ← v.members?
    match ← (o.required? "kind" : Option String) with
    | "atom" =>
      return .atom (← o.required? "atom") (← o.required? "if_true") (← o.required? "if_false")
    | "int_range" =>
      return .intRange (← o.required? "key") (← o.required? "min") (← o.required? "max")
        (← o.required? "low") (← o.required? "high")
    | _ => none

/-- The numbers of an event are 64-bit quantities. -/
instance : Codec TraceEvent where
  encode event := .object
    [("tick", .int event.tick), ("tag", encode event.tag), ("a", .int event.a),
      ("b", .int event.b)]
  decode? v := do
    let o ← v.members?
    let tick : UInt64 ← o.required? "tick"
    let tag : String ← o.required? "tag"
    let a : UInt64 ← o.required? "a"
    let b : UInt64 ← o.required? "b"
    return { tick := tick.toNat, tag, a := a.toNat, b := b.toNat }

instance : Codec TraceLog where
  encode log := .object [("events", encode log.events.toList)]
  decode? v := do
    let events : List TraceEvent ← (← v.members?).required? "events"
    return ⟨events.toArray⟩

end AgentPlanning
