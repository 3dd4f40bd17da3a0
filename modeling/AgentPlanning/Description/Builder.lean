import AgentPlanning.Description.Basic

/-!
# Building Domain Descriptions

Functions that add one thing at a time to the end of a part of a description, so that
descriptions can be written as chains.
-/

namespace AgentPlanning

namespace Description.Action

/-- Adds a fact that the action needs. -/
def needs (a : Description.Action) (atom : String) (value : Bool) : Description.Action :=
  { a with pre := a.pre ++ [⟨atom, value⟩] }

/-- Adds a fact that the action brings about. -/
def causes (a : Description.Action) (atom : String) (value : Bool) : Description.Action :=
  { a with post := a.post ++ [⟨atom, value⟩] }

/-- Sets the order of the action. -/
def submits (a : Description.Action) (order : Description.Order) : Description.Action :=
  { a with order := some order }

/-- Adds a parameter of the order. -/
def binds (a : Description.Action) (binding : Description.Binding) : Description.Action :=
  { a with bindings := a.bindings ++ [binding] }

end Description.Action

namespace Description.Goal

/-- Adds a fact that the goal asks for. -/
def asks (g : Description.Goal) (atom : String) (value : Bool) : Description.Goal :=
  { g with condition := g.condition ++ [⟨atom, value⟩] }

/-- Sets the root task of the goal. -/
def withRoot (g : Description.Goal) (task : String) : Description.Goal :=
  { g with root := some task }

end Description.Goal

namespace Description.Method

/-- Adds a fact under which the method applies. -/
def whenFact (m : Description.Method) (atom : String) (value : Bool) : Description.Method :=
  { m with condition := m.condition ++ [⟨atom, value⟩] }

/-- Adds a subtask. -/
def subtask (m : Description.Method) (part : Description.Subtask) : Description.Method :=
  { m with subtasks := m.subtasks ++ [part] }

end Description.Method

/-- Adds a method to the task. -/
def Description.Task.method (t : Description.Task) (m : Description.Method) : Description.Task :=
  { t with methods := t.methods ++ [m] }

/-- Adds a factor to the score. -/
def Description.GoalOption.considering (u : Description.GoalOption)
    (c : Description.Consideration) : Description.GoalOption :=
  { u with considerations := u.considerations ++ [c] }

end AgentPlanning
