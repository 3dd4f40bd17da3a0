import AgentPlanning.Action.Basic

/-!
# The Candidate Index

An action that requires atoms to hold can be applicable only where the lowest of them holds.
The index files every action under that atom, its key, so that in a given state only the
actions under atoms that hold need to be tested. Actions that require no atom to hold are
always candidates and have a group of their own.

The index is built by a counting sort: group sizes are counted, their running sums give each
group its range in one array, and the actions are then placed in order, which keeps ascending
ids within a group.
-/

namespace AgentPlanning

namespace ActionIndex

/-- The group of actions that are always candidates; the groups below it belong to atoms. -/
abbrev unkeyedGroup : Nat := 256

/-- The number of groups. -/
abbrev groupCount : Nat := 257

/-- The group of an action with precondition `pre`: the lowest atom that it requires to hold,
or the group of constant candidates. -/
def groupFor (pre : Condition) : Nat :=
  match pre.positive.lowest? with
  | some atom => atom.val
  | none => unkeyedGroup

/-- The number of actions in each group. -/
def groupSizes (preconditions : List Condition) : Array Nat :=
  preconditions.foldl (fun sizes pre => sizes.modify (groupFor pre) (· + 1))
    (Array.replicate groupCount 0)

/-- The sums of all initial segments, from the empty one to the whole, each increased by
`total`. -/
def runningSums (total : Nat) : List Nat → List Nat
  | [] => [total]
  | n :: rest => total :: runningSums (total + n) rest

/-- The state of the placing pass of the counting sort. -/
structure Filling where
  /-- For each group the next cell to write. -/
  cursors : Array Nat
  /-- The cells of all groups. -/
  cells : Array ActionId
deriving DecidableEq

/-- Writes an action to the next cell of its group. -/
def Filling.place (f : Filling) (action : ActionId) (group : Nat) : Filling where
  cursors := f.cursors.modify group (· + 1)
  cells := f.cells.setIfInBounds (f.cursors.getD group 0) action

/-- The placing pass, for groups that begin at `starts`. -/
def fill (starts : Array Nat) (preconditions : List Condition) : Filling :=
  preconditions.zipIdx.foldl (fun f (pre, action) => f.place action (groupFor pre))
    ⟨starts, Array.replicate preconditions.length 0⟩

end ActionIndex

/-- Actions grouped by key atom. -/
structure ActionIndex where
  /-- Group `b` occupies the cells from `starts[b]` up to `starts[b + 1]`. -/
  starts : Array Nat
  /-- The actions of all groups, group after group. -/
  cells : Array ActionId
deriving DecidableEq

namespace ActionIndex

/-- The index of actions given by their preconditions in id order. -/
def build (preconditions : List Condition) : ActionIndex :=
  -- The last running sum is the end of the last group.
  let starts := (runningSums 0 (groupSizes preconditions).toList).toArray
  ⟨starts, (fill starts preconditions).cells⟩

/-- The number of indexed actions. -/
def size (index : ActionIndex) : Nat := index.cells.size

/-- The actions of a group in ascending order; there is none in a group that does not exist. -/
def group (index : ActionIndex) (b : Nat) : List ActionId :=
  if b < groupCount then
    (index.cells.extract (index.starts.getD b 0) (index.starts.getD (b + 1) 0)).toList
  else []

/-- The actions that require no atom to hold. -/
def unkeyed (index : ActionIndex) : List ActionId :=
  index.group unkeyedGroup

/-- The group that holds `action`. -/
def groupOf? (index : ActionIndex) (action : ActionId) : Option Nat :=
  (List.range groupCount).find? fun b => (index.group b).contains action

/-- The actions worth testing in `state`: those that are always candidates, then those filed
under each atom that holds, in ascending order of the atoms. -/
def candidates (index : ActionIndex) (state : WorldState) : List ActionId :=
  index.unkeyed ++ state.atoms.flatMap fun atom => index.group atom.val

end ActionIndex

end AgentPlanning
