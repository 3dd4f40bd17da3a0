import AgentPlanning.Description.Builder
import Mathlib.Data.List.Basic

/-!
# Chains of Building Calls

A part of a description that is written as a chain of calls has what the calls of each kind add,
in their order and after what was there before; how calls of different kinds are mixed makes no
difference. Every part can be written as such a chain that begins with its name and its numbers
alone. Main statements:

* `Description.Action.after_eq`, `Description.Goal.after_eq`, `Description.Method.after_eq`,
  `Description.Task.foldl_method`, `Description.GoalOption.foldl_considering`: what a chain of
  calls gives;
* `Description.Action.after_calls`, `Description.Goal.after_calls`,
  `Description.Method.after_calls`: the chain that writes a given part.
-/

namespace AgentPlanning

namespace Description.Action

/-- A call that adds something to an action. -/
inductive Call where
  | needs (fact : Description.Fact)
  | causes (fact : Description.Fact)
  | submits (order : Description.Order)
  | binds (binding : Description.Binding)

namespace Call

/-- The action with what the call adds. -/
@[simp] def addTo (a : Description.Action) : Call → Description.Action
  | needs fact => a.needs fact.atom fact.value
  | causes fact => a.causes fact.atom fact.value
  | submits order => a.submits order
  | binds binding => a.binds binding

/-- The fact that the call adds to those the action needs. -/
@[simp] def needed? : Call → Option Description.Fact
  | needs fact => some fact
  | _ => none

/-- The fact that the call adds to those the action brings about. -/
@[simp] def caused? : Call → Option Description.Fact
  | causes fact => some fact
  | _ => none

/-- The order that the call sets. -/
@[simp] def submitted? : Call → Option Description.Order
  | submits order => some order
  | _ => none

/-- The parameter that the call adds. -/
@[simp] def bound? : Call → Option Description.Binding
  | binds binding => some binding
  | _ => none

end Call

/-- The action after a chain of calls. -/
def after (a : Description.Action) (calls : List Call) : Description.Action :=
  calls.foldl Call.addTo a

/-- Facts and parameters are added in the order of the calls for them; of several orders the last
one counts. -/
theorem after_eq (a : Description.Action) (calls : List Call) :
    a.after calls = { a with
      pre := a.pre ++ calls.filterMap Call.needed?
      post := a.post ++ calls.filterMap Call.caused?
      order := (calls.filterMap Call.submitted?).getLast?.or a.order
      bindings := a.bindings ++ calls.filterMap Call.bound? } := by
  induction calls generalizing a with
  | nil => simp [after]
  | cons call rest ih =>
    have hrest : a.after (call :: rest) = (call.addTo a).after rest := rfl
    rw [hrest, ih]
    cases call with
    | needs fact => simp [needs, List.filterMap_cons]
    | causes fact => simp [causes, List.filterMap_cons]
    | submits order => simp [submits, List.filterMap_cons, List.getLast?_cons]
    | binds binding => simp [binds, List.filterMap_cons]

/-- The calls that write the action. -/
def calls (a : Description.Action) : List Call :=
  a.pre.map .needs ++ a.post.map .causes ++ a.order.toList.map .submits ++
    a.bindings.map .binds

/-- Every action is written by its calls, beginning with its name and its cost. -/
theorem after_calls (a : Description.Action) :
    after { name := a.name, cost := a.cost } a.calls = a := by
  rw [after_eq]
  -- Submitting an order is the only way in which an action can be carried out.
  obtain ⟨name, pre, post, cost, ⟨⟩, order, bindings⟩ := a
  cases order <;>
    simp [calls, List.filterMap_cons, List.filterMap_map, Function.comp_def]

end Description.Action

namespace Description.Goal

/-- A call that adds something to a goal. -/
inductive Call where
  | asks (fact : Description.Fact)
  | withRoot (task : String)

namespace Call

/-- The goal with what the call adds. -/
@[simp] def addTo (g : Description.Goal) : Call → Description.Goal
  | asks fact => g.asks fact.atom fact.value
  | withRoot task => g.withRoot task

/-- The fact that the call adds. -/
@[simp] def asked? : Call → Option Description.Fact
  | asks fact => some fact
  | _ => none

/-- The root task that the call sets. -/
@[simp] def root? : Call → Option String
  | withRoot task => some task
  | _ => none

end Call

/-- The goal after a chain of calls. -/
def after (g : Description.Goal) (calls : List Call) : Description.Goal :=
  calls.foldl Call.addTo g

/-- Facts are added in the order of the calls for them; of several root tasks the last one
counts. -/
theorem after_eq (g : Description.Goal) (calls : List Call) :
    g.after calls = { g with
      condition := g.condition ++ calls.filterMap Call.asked?
      root := (calls.filterMap Call.root?).getLast?.or g.root } := by
  induction calls generalizing g with
  | nil => simp [after]
  | cons call rest ih =>
    have hrest : g.after (call :: rest) = (call.addTo g).after rest := rfl
    rw [hrest, ih]
    cases call with
    | asks fact => simp [asks, List.filterMap_cons]
    | withRoot task => simp [withRoot, List.filterMap_cons, List.getLast?_cons]

/-- The calls that write the goal. -/
def calls (g : Description.Goal) : List Call :=
  g.condition.map .asks ++ g.root.toList.map .withRoot

/-- Every goal is written by its calls, beginning with its name and its weight. -/
theorem after_calls (g : Description.Goal) :
    after { name := g.name, weight := g.weight } g.calls = g := by
  rw [after_eq]
  obtain ⟨name, condition, weight, root⟩ := g
  cases root <;>
    simp [calls, List.filterMap_cons, List.filterMap_map, Function.comp_def]

end Description.Goal

namespace Description.Method

/-- A call that adds something to a method. -/
inductive Call where
  | whenFact (fact : Description.Fact)
  | subtask (part : Description.Subtask)

namespace Call

/-- The method with what the call adds. -/
@[simp] def addTo (m : Description.Method) : Call → Description.Method
  | whenFact fact => m.whenFact fact.atom fact.value
  | subtask part => m.subtask part

/-- The fact that the call adds. -/
@[simp] def fact? : Call → Option Description.Fact
  | whenFact fact => some fact
  | _ => none

/-- The subtask that the call adds. -/
@[simp] def part? : Call → Option Description.Subtask
  | subtask part => some part
  | _ => none

end Call

/-- The method after a chain of calls. -/
def after (m : Description.Method) (calls : List Call) : Description.Method :=
  calls.foldl Call.addTo m

/-- Facts and subtasks are added in the order of the calls for them. -/
theorem after_eq (m : Description.Method) (calls : List Call) :
    m.after calls = { m with
      condition := m.condition ++ calls.filterMap Call.fact?
      subtasks := m.subtasks ++ calls.filterMap Call.part? } := by
  induction calls generalizing m with
  | nil => simp [after]
  | cons call rest ih =>
    have hrest : m.after (call :: rest) = (call.addTo m).after rest := rfl
    rw [hrest, ih]
    cases call with
    | whenFact fact => simp [whenFact, List.filterMap_cons]
    | subtask part => simp [subtask, List.filterMap_cons]

/-- The calls that write the method. -/
def calls (m : Description.Method) : List Call :=
  m.condition.map .whenFact ++ m.subtasks.map .subtask

/-- Every method is written by its calls, beginning with its name and its cost. -/
theorem after_calls (m : Description.Method) :
    after { name := m.name, cost := m.cost } m.calls = m := by
  rw [after_eq]
  simp [calls, List.filterMap_map, Function.comp_def]

end Description.Method

/-- Methods are added in the order of the calls. -/
theorem Description.Task.foldl_method (t : Description.Task) (methods : List Description.Method) :
    methods.foldl Description.Task.method t = { t with methods := t.methods ++ methods } := by
  induction methods generalizing t with
  | nil => simp
  | cons m rest ih => simp [ih, Description.Task.method]

/-- Considerations are added in the order of the calls. -/
theorem Description.GoalOption.foldl_considering (u : Description.GoalOption)
    (considerations : List Description.Consideration) :
    considerations.foldl Description.GoalOption.considering u =
      { u with considerations := u.considerations ++ considerations } := by
  induction considerations generalizing u with
  | nil => simp
  | cons c rest ih => simp [ih, Description.GoalOption.considering]

end AgentPlanning
