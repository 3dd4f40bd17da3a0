import AgentPlanning.Blackboard
import AgentPlanning.Proofs.Iteration

/-!
# What a Blackboard Remembers

A key of a blackboard has the value that was last stored under it, unless it was removed since;
integers and entity references do not get in each other's way, even under equal keys. Main
statements:

* `int?_ofLists`, `entity?_ofLists`: what is read from a blackboard of given entries;
* `int?_afterAll`, `entity?_afterAll`: what is read after any sequence of changes.
-/

namespace AgentPlanning

/-- Of the entries of a map the last one for a key counts. -/
theorem KeyMap.get?_ofList {κ ν : Type} [LT κ] [DecidableEq κ] [DecidableLT κ]
    [Std.Trichotomous (α := κ) (· < ·)]
    [Trans (α := κ) (β := κ) (γ := κ) (· < ·) (· < ·) (· < ·)] (entries : List (κ × ν))
    (place : κ) : (ofList entries).get? place =
      (entries.filter (·.1 = place)).getLast?.map (·.2) := by
  have hread := read_foldl_eq_getLast? (fun m : KeyMap κ ν => m.get? place)
    (fun m entry => m.get?_insert entry.1 place entry.2) entries empty
  rw [ofList, hread, get?_empty]
  cases (entries.filter (·.1 = place)).getLast? <;> rfl

namespace Blackboard

/-! ## Entries -/

/-- Of the entries for a key the last one is read. -/
theorem int?_ofLists (ints : List (IntKey × Int32)) (entities : List (EntityKey × EntityRef))
    (place : IntKey) : (ofLists ints entities).view.int? place =
      (ints.filter (·.1 = place)).getLast?.map (·.2) :=
  KeyMap.get?_ofList ints place

/-- Of the entries for a key the last one is read. -/
theorem entity?_ofLists (ints : List (IntKey × Int32))
    (entities : List (EntityKey × EntityRef)) (place : EntityKey) :
    (ofLists ints entities).view.entity? place =
      (entities.filter (·.1 = place)).getLast?.map (·.2) :=
  KeyMap.get?_ofList entities place

/-! ## Changes -/

/-- A change of a blackboard. -/
inductive Change where
  | setInt (key : IntKey) (value : Int32)
  | setEntity (key : EntityKey) (value : EntityRef)
  | removeInt (key : IntKey)
  | removeEntity (key : EntityKey)

/-- The blackboard after the change. -/
def after (bb : Blackboard) : Change → Blackboard
  | .setInt key value => bb.setInt key value
  | .setEntity key value => bb.setEntity key value
  | .removeInt key => (bb.removeInt key).2
  | .removeEntity key => (bb.removeEntity key).2

/-- What the change leaves under the key of an integer, if it is a change there. -/
def Change.int? (place : IntKey) : Change → Option (Option Int32)
  | setInt key value => if key = place then some (some value) else none
  | removeInt key => if key = place then some none else none
  | _ => none

/-- What the change leaves under the key of an entity reference, if it is a change there. -/
def Change.entity? (place : EntityKey) : Change → Option (Option EntityRef)
  | setEntity key value => if key = place then some (some value) else none
  | removeEntity key => if key = place then some none else none
  | _ => none

theorem overwrites_int? (place : IntKey) :
    Overwrites (fun bb : Blackboard => bb.view.int? place) (Change.int? place) after := by
  intro bb change
  cases change with
  | setInt key value =>
    simp only [after, setInt, view, KeyMap.get?_insert, Change.int?]
    split <;> rfl
  | removeInt key =>
    simp only [after, removeInt, view, KeyMap.get?_erase, Change.int?]
    split <;> rfl
  | setEntity => rfl
  | removeEntity => rfl

theorem overwrites_entity? (place : EntityKey) :
    Overwrites (fun bb : Blackboard => bb.view.entity? place) (Change.entity? place) after := by
  intro bb change
  cases change with
  | setEntity key value =>
    simp only [after, setEntity, view, KeyMap.get?_insert, Change.entity?]
    split <;> rfl
  | removeEntity key =>
    simp only [after, removeEntity, view, KeyMap.get?_erase, Change.entity?]
    split <;> rfl
  | setInt => rfl
  | removeInt => rfl

/-- The blackboard after a sequence of changes. -/
def afterAll (bb : Blackboard) (changes : List Change) : Blackboard := changes.foldl after bb

/-- An integer is what the last change under its key has left. -/
theorem int?_afterAll (bb : Blackboard) (changes : List Change) (place : IntKey) :
    (bb.afterAll changes).view.int? place =
      (changes.filterMap (Change.int? place)).getLastD (bb.view.int? place) :=
  (overwrites_int? place).read_foldl changes bb

/-- An entity reference is what the last change under its key has left. -/
theorem entity?_afterAll (bb : Blackboard) (changes : List Change) (place : EntityKey) :
    (bb.afterAll changes).view.entity? place =
      (changes.filterMap (Change.entity? place)).getLastD (bb.view.entity? place) :=
  (overwrites_entity? place).read_foldl changes bb

end Blackboard

end AgentPlanning
