import AgentPlanning.AtomRegistry

/-!
# Diagnostics

Every problem of a domain description is one diagnostic, and all diagnostics of a description
are reported together, in the order in which they were found. Most name the place in the
description where they arose, their context.
-/

namespace AgentPlanning

/-- One problem of a domain description. -/
inductive Diagnostic where
  /-- No atom of this name is declared. -/
  | unknownAtom (context name : String)
  /-- The vocabulary has no order tag of this name. -/
  | unknownTag (context name : String)
  /-- The vocabulary has no integer key of this name. -/
  | unknownIntKey (context name : String)
  /-- The vocabulary has no entity key of this name. -/
  | unknownEntityKey (context name : String)
  /-- No action of this name is declared. -/
  | unknownAction (context name : String)
  /-- No task of this name is declared. -/
  | unknownTask (context name : String)
  /-- No goal of this name is declared. -/
  | unknownGoal (context name : String)
  /-- A name is declared twice for one kind of thing. -/
  | repeatedName (kind name : String)
  /-- A list of facts requires an atom to be both true and false. -/
  | contradiction (context atom : String)
  /-- A binding writes an argument that orders do not have. -/
  | slotOutOfRange (context : String) (slot : UInt8)
  /-- A subtask refers to an action beyond the end of the library. -/
  | noSuchAction (context : String) (action len : Nat)
  /-- A task reference points beyond the end of the tasks. -/
  | noSuchTask (context : String) (task len : Nat)
  /-- A task cannot be decomposed in any way. -/
  | noMethods (task : String)
  /-- A goal is to be planned by decomposition but declares no root task. -/
  | noRoot (context goal : String)
  /-- There are more atoms than a world state has room for. -/
  | registryFull (problem : RegistryFull)
deriving DecidableEq, Repr

/-- The wording of the diagnostic. -/
def Diagnostic.message : Diagnostic → String
  | unknownAtom context name => s!"{context}: unknown atom `{name}`"
  | unknownTag context name => s!"{context}: unknown order tag `{name}`"
  | unknownIntKey context name => s!"{context}: unknown int blackboard key `{name}`"
  | unknownEntityKey context name => s!"{context}: unknown entity blackboard key `{name}`"
  | unknownAction context name => s!"{context}: unknown action `{name}`"
  | unknownTask context name => s!"{context}: unknown task `{name}`"
  | unknownGoal context name => s!"{context}: unknown goal preset `{name}`"
  | repeatedName kind name => s!"duplicate {kind} `{name}`"
  | contradiction context atom =>
    s!"{context}: atom `{atom}` is required to be both true and false"
  | slotOutOfRange context slot =>
    s!"{context}: argument slot {slot} is out of range (orders have 4 slots)"
  | noSuchAction context action len =>
    s!"{context}: action id {action} is out of range ({len} actions)"
  | noSuchTask context task len =>
    s!"{context}: task id {task} is out of range ({len} tasks)"
  | noMethods task => s!"task `{task}` has no methods"
  | noRoot context goal => s!"{context}: goal preset `{goal}` has no htn root task"
  | registryFull problem => problem.message

/-- Diagnostics in the order in which they were found. -/
structure Diagnostics where
  toList : List Diagnostic := []
deriving DecidableEq, Inhabited

namespace Diagnostics

/-- The batch with one more diagnostic at its end. -/
def push (batch : Diagnostics) (problem : Diagnostic) : Diagnostics :=
  ⟨batch.toList ++ [problem]⟩

/-- The diagnostics of both batches, those of the first in front. -/
def append (first second : Diagnostics) : Diagnostics :=
  ⟨first.toList ++ second.toList⟩

instance : Append Diagnostics := ⟨append⟩

/-- Whether there are no diagnostics. -/
def isEmpty (batch : Diagnostics) : Bool := batch.toList.isEmpty

/-- The value if there are no diagnostics, and otherwise the diagnostics. -/
def guard {α : Type} (batch : Diagnostics) (value : α) : Except Diagnostics α :=
  if batch.isEmpty then .ok value else .error batch

theorem guard_of_nil {α : Type} {problems : List Diagnostic} (h : problems = []) (value : α) :
    guard ⟨problems⟩ value = .ok value := if_pos (List.isEmpty_iff.2 h)

theorem guard_of_ne_nil {α : Type} {problems : List Diagnostic} (h : problems ≠ []) (value : α) :
    guard ⟨problems⟩ value = .error ⟨problems⟩ := if_neg fun hempty => h (List.isEmpty_iff.1 hempty)

/-- The wording of the batch: a heading with the number of diagnostics, then a line for each. -/
def message (batch : Diagnostics) : String :=
  s!"{batch.toList.length} configuration error(s)" ++
    String.join (batch.toList.map fun problem => "
  - " ++ problem.message)

end Diagnostics

end AgentPlanning
