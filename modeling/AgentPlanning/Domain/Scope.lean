import AgentPlanning.Domain.Checked
import AgentPlanning.Domain.Vocabulary
import AgentPlanning.Description.Basic
import AgentPlanning.Projection

/-!
# Resolving Names

A scope knows what the names of a domain description stand for: the declared atoms, actions,
goals and tasks, and the vocabulary of the game. The number of a declared thing is the position
of its declaration, and of two declarations of one name the first counts.
-/

namespace AgentPlanning

/-- The names that occur earlier in the list as well, once for each repetition. -/
def repeatedNames : List String → List String → List String
  | _, [] => []
  | seen, name :: rest =>
    if name ∈ seen then name :: repeatedNames seen rest
    else repeatedNames (name :: seen) rest

/-- Reports the repeated names of one kind of thing. -/
def reportRepeated (kind : String) (names : List String) : Checked Unit :=
  .report ((repeatedNames [] names).map (.repeatedName kind))

/-- Registers a declared atom. A repeated name is reported, and so is a name for which there is
no room. -/
def declareAtom (registry : AtomRegistry) (name : String) : Checked AtomRegistry :=
  match registry.get? name with
  | some _ => ⟨registry, [.repeatedName "atom" name]⟩
  | none =>
    match registry.intern name with
    | .ok (_, registry) => ⟨registry, []⟩
    | .error e => ⟨registry, [.registryFull e]⟩

/-- Registers all declared atoms. -/
def declareAtoms (names : List String) : Checked AtomRegistry :=
  names.foldlM declareAtom .empty

/-- The name of an atom for which there was no room. -/
def Diagnostic.overflowedAtom? : Diagnostic → Option String
  | registryFull e => some e.name
  | _ => none

/-- What the names of a domain description stand for. -/
structure Scope where
  /-- The names known to the game. -/
  vocabulary : Vocabulary
  atoms : AtomRegistry
  /-- Declared atoms for which there was no room. -/
  overflowed : List String
  actions : List String
  goals : List String
  tasks : List String

namespace Scope

/-- The scope of a description whose atoms have been declared. -/
def ofDescription (description : Description) (vocabulary : Vocabulary)
    (atoms : Checked AtomRegistry) : Scope where
  vocabulary := vocabulary
  atoms := atoms.value
  overflowed := atoms.problems.filterMap (·.overflowedAtom?)
  actions := description.actions.map (·.name)
  goals := description.goals.map (·.name)
  tasks := description.tasks.map (·.name)

/-- The atom of a name. A declared atom without room was reported where it was declared. -/
def atom (scope : Scope) (context name : String) : Checked (Option AtomId) :=
  if name ∈ scope.overflowed then ⟨none, []⟩
  else .found (scope.atoms.get? name) (.unknownAtom context name)

/-- The order tag of a name. -/
def tag (scope : Scope) (context name : String) : Checked (Option OrderTag) :=
  .found (scope.vocabulary.tags.get? name) (.unknownTag context name)

/-- The integer key of a name. -/
def intKey (scope : Scope) (context name : String) : Checked (Option IntKey) :=
  .found (scope.vocabulary.intKeys.get? name) (.unknownIntKey context name)

/-- The entity key of a name. -/
def entityKey (scope : Scope) (context name : String) : Checked (Option EntityKey) :=
  .found (scope.vocabulary.entityKeys.get? name) (.unknownEntityKey context name)

/-- The action of a name. -/
def action (scope : Scope) (context name : String) : Checked (Option Nat) :=
  .found (scope.actions.idxOf? name) (.unknownAction context name)

/-- The task of a name. -/
def task (scope : Scope) (context name : String) : Checked (Option Nat) :=
  .found (scope.tasks.idxOf? name) (.unknownTask context name)

/-- The goal of a name. -/
def goal (scope : Scope) (context name : String) : Checked (Option GoalId) :=
  .found (scope.goals.idxOf? name) (.unknownGoal context name)

/-- Adds a fact to a condition. A fact that contradicts the condition is reported and has no
effect, and neither has one whose atom is unknown. -/
def addFact (scope : Scope) (context : String) (condition : Condition) (fact : Description.Fact) :
    Checked Condition := do
  match ← scope.atom context fact.atom with
  | none => return condition
  | some atom =>
    -- The first of two contradicting facts counts.
    if condition.get? atom = some !fact.value then
      ⟨condition, [.contradiction context fact.atom]⟩
    else return condition.require atom fact.value

/-- The condition of a list of facts. -/
def condition (scope : Scope) (context : String) (facts : List Description.Fact) :
    Checked Condition :=
  facts.foldlM (scope.addFact context) .free

end Scope

end AgentPlanning
