import AgentPlanning.KeyMap

/-!
# Blackboards

A blackboard is an agent's working memory: integers and references to entities, each kind
under its own keys. What only reads a blackboard takes a `BlackboardView`, which may be any
source of such values.
-/

namespace AgentPlanning

/-- The key of an integer on a blackboard. -/
abbrev IntKey := UInt64

/-- The key of an entity reference on a blackboard. -/
abbrev EntityKey := UInt64

/-- A reference to an entity of the game world. -/
abbrev EntityRef := UInt64

/-- Read access to the values of a blackboard. -/
structure BlackboardView where
  int? : IntKey → Option Int32
  entity? : EntityKey → Option EntityRef

/-- The view in which no key has a value. -/
def BlackboardView.none : BlackboardView := ⟨fun _ => .none, fun _ => .none⟩

/-- Integers and entity references under their keys. -/
structure Blackboard where
  ints : KeyMap IntKey Int32
  entities : KeyMap EntityKey EntityRef
deriving DecidableEq

namespace Blackboard

/-- The blackboard without values. -/
def empty : Blackboard := ⟨.empty, .empty⟩

instance : Inhabited Blackboard := ⟨empty⟩

/-- The blackboard of the given entries; of two entries for one key the later counts. -/
def ofLists (ints : List (IntKey × Int32)) (entities : List (EntityKey × EntityRef)) :
    Blackboard :=
  ⟨.ofList ints, .ofList entities⟩

/-- Stores an integer. -/
def setInt (bb : Blackboard) (key : IntKey) (value : Int32) : Blackboard :=
  { bb with ints := bb.ints.insert key value }

/-- Stores an entity reference. -/
def setEntity (bb : Blackboard) (key : EntityKey) (value : EntityRef) : Blackboard :=
  { bb with entities := bb.entities.insert key value }

/-- Removes an integer and returns it. -/
def removeInt (bb : Blackboard) (key : IntKey) : Option Int32 × Blackboard :=
  (bb.ints.get? key, { bb with ints := bb.ints.erase key })

/-- Removes an entity reference and returns it. -/
def removeEntity (bb : Blackboard) (key : EntityKey) : Option EntityRef × Blackboard :=
  (bb.entities.get? key, { bb with entities := bb.entities.erase key })

/-- Read access to the stored values. -/
def view (bb : Blackboard) : BlackboardView :=
  ⟨bb.ints.get?, bb.entities.get?⟩

end Blackboard

end AgentPlanning
