import AgentPlanning.TaskNetwork.Basic

/-!
# Selecting a Method

The methods of a task that apply in a state are tried in order of preference: by cost, then by
position. A selection can resume after the method that was tried last.
-/

namespace AgentPlanning

/-- The rank of a method among the methods of its task. -/
structure MethodKey where
  cost : Nat
  method : MethodId
deriving DecidableEq, Repr

namespace MethodKey

/-- Whether a method is preferred to another. -/
def lt (a b : MethodKey) : Bool :=
  a.cost < b.cost || a.cost == b.cost && a.method < b.method

/-- The preferred one of the best key so far and another one. -/
def preferred (best : Option MethodKey) (key : MethodKey) : Option MethodKey :=
  if best.all (key.lt ·) then some key else best

/-- The most preferred of the given keys. -/
def least? (keys : List MethodKey) : Option MethodKey :=
  keys.foldl preferred none

end MethodKey

namespace TaskNetwork

/-- The keys of the methods of `task` that apply in `state`, in order of declaration. -/
def applicableKeys (network : TaskNetwork) (task : TaskId) (state : WorldState) :
    List MethodKey :=
  match network.task? task with
  | none => []
  | some entry =>
    entry.methodIds.filterMap fun id =>
      match network.method? id with
      | none => none
      | some method =>
        if state.satisfies method.condition then some ⟨method.cost.toNat, id⟩ else none

/-- The most preferred method of `task` that applies in `state` and comes after the method
`lastTried`, if that is given. -/
def nextMethod? (network : TaskNetwork) (task : TaskId) (state : WorldState)
    (lastTried : Option MethodKey) : Option MethodKey :=
  MethodKey.least? <|
    (network.applicableKeys task state).filter fun key => lastTried.all (·.lt key)

end TaskNetwork

end AgentPlanning
