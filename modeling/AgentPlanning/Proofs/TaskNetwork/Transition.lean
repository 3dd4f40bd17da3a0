import AgentPlanning.TaskNetwork.Decomposition

/-!
# What a Step of a Decomposition Can Do

The innermost frame decides what happens next: without a method it selects one or drops out, with
a method it takes up a subtask or is done. The steps are described twice. The equations say where
a given decomposition goes, and the relation says where a step can come from. Main statements:

* `step_of_*`: the step of a decomposition by its innermost frame;
* `stepped_of_step`, `stopped_of_step`: all that a step can do, and all ways to end.
-/

namespace AgentPlanning

namespace Decomposition

variable {network : TaskNetwork} {state : WorldState} {budget : DecompositionBudget}
  {root : TaskId} {below : List Frame} {stats : DecompositionStats} {f : Frame}

/-! ## Selecting a method -/

/-- What a decomposition comes to when the task on top of `below`, which was entered with the
given output, cannot be decomposed. -/
def backtrack (root : TaskId) (below : List Frame) (output : List ActionId)
    (stats : DecompositionStats) : Except DecompositionEnd Decomposition :=
  match below with
  | [] => .error ⟨⟨[], output.toArray, stats⟩, .error (.undecomposable root)⟩
  | parent :: rest =>
    .ok ⟨{ parent with method := none } :: rest, (output.take parent.outputStart).toArray,
      { stats with backtracks := stats.backtracks + 1 }⟩

theorem step_of_tooManySelections {output : Array ActionId} (hmethod : f.method = none)
    (hlimit : budget.selections < stats.selections + 1) :
    step network state budget root ⟨f :: below, output, stats⟩ =
      .error ⟨⟨f :: below, output, { stats with selections := stats.selections + 1 }⟩,
        .error (.tooManySelections budget.selections)⟩ := by
  rw [step]
  simp only [hmethod, select, if_pos hlimit]
  rfl

theorem step_of_nextMethod?_some {output : Array ActionId} (root : TaskId)
    (hmethod : f.method = none) (hlimit : ¬budget.selections < stats.selections + 1)
    {key : MethodKey} (hnext : network.nextMethod? f.task state f.lastTried = some key) :
    step network state budget root ⟨f :: below, output, stats⟩ =
      .ok ⟨{ f with method := some key.method, position := 0, lastTried := some key } :: below,
        output, { stats with selections := stats.selections + 1 }⟩ := by
  rw [step]
  simp only [hmethod, select, if_neg hlimit, hnext]

theorem step_of_nextMethod?_none {output : List ActionId} (hmethod : f.method = none)
    (hlimit : ¬budget.selections < stats.selections + 1)
    (hnext : network.nextMethod? f.task state f.lastTried = none)
    (hstart : f.outputStart = output.length) :
    step network state budget root ⟨f :: below, output.toArray, stats⟩ =
      backtrack root below output { stats with selections := stats.selections + 1 } := by
  -- The frame has emitted nothing since it was entered.
  have htake : output.toArray.take f.outputStart = output.toArray := by
    rw [hstart, ← List.size_toArray, Array.take_eq_extract, Array.extract_size]
  rw [step]
  simp only [hmethod, select, if_neg hlimit, hnext, htake]
  cases below with
  | nil => rfl
  | cons parent rest =>
    rw [backtrack]
    simp

/-! ## Taking up a subtask -/

section Subtask

variable {output : Array ActionId} {id : MethodId} {entry : MethodRow}
  (hmethod : f.method = some id) (hentry : network.method? id = some entry)

include hmethod hentry

theorem step_of_subtasks_done (hget : (network.subtasksOf entry)[f.position]? = none) :
    step network state budget root ⟨f :: below, output, stats⟩ = .ok ⟨below, output, stats⟩ := by
  rw [step]
  simp only [hmethod, advance, hentry, hget]

theorem step_of_action {action : ActionId}
    (hget : (network.subtasksOf entry)[f.position]? = some (.action action)) :
    step network state budget root ⟨f :: below, output, stats⟩ =
      emit budget ⟨{ f with position := f.position + 1 } :: below, output, stats⟩ action := by
  rw [step]
  simp only [hmethod, advance, hentry, hget]

theorem step_of_compound (state : WorldState) (budget : DecompositionBudget) (root : TaskId)
    {task : TaskId} (hget : (network.subtasksOf entry)[f.position]? = some (.compound task)) :
    step network state budget root ⟨f :: below, output, stats⟩ =
      enter budget ⟨{ f with position := f.position + 1 } :: below, output, stats⟩ task := by
  rw [step]
  simp only [hmethod, advance, hentry, hget]

end Subtask

/-! ## All that a step can do -/

/-- A decomposition goes on to another one. -/
inductive Stepped (network : TaskNetwork) (state : WorldState) (budget : DecompositionBudget) :
    Decomposition → Decomposition → Prop where
  /-- The innermost frame selects a method. -/
  | selected {f : Frame} {below : List Frame} {output : Array ActionId}
      {stats : DecompositionStats} {key : MethodKey} (method : f.method = none)
      (limit : stats.selections < budget.selections)
      (next : network.nextMethod? f.task state f.lastTried = some key) :
      Stepped network state budget ⟨f :: below, output, stats⟩
        ⟨{ f with method := some key.method, position := 0, lastTried := some key } :: below,
          output, { stats with selections := stats.selections + 1 }⟩
  /-- The innermost frame finds no method, and that of the next frame fails. -/
  | backtracked {f parent : Frame} {rest : List Frame} {output : Array ActionId}
      {stats : DecompositionStats} (method : f.method = none)
      (limit : stats.selections < budget.selections)
      (next : network.nextMethod? f.task state f.lastTried = none) :
      Stepped network state budget ⟨f :: parent :: rest, output, stats⟩
        ⟨{ parent with method := none } :: rest,
          (output.take f.outputStart).take parent.outputStart,
          { stats with
            selections := stats.selections + 1
            backtracks := stats.backtracks + 1 }⟩
  /-- The innermost frame has done its method. -/
  | completed {f : Frame} {below : List Frame} {output : Array ActionId}
      {stats : DecompositionStats} {id : MethodId} {entry : MethodRow} (method : f.method = some id)
      (row : network.method? id = some entry)
      (subtask : (network.subtasksOf entry)[f.position]? = none) :
      Stepped network state budget ⟨f :: below, output, stats⟩ ⟨below, output, stats⟩
  /-- The innermost frame emits an action. -/
  | emitted {f : Frame} {below : List Frame} {output : Array ActionId}
      {stats : DecompositionStats} {id : MethodId} {entry : MethodRow} {action : ActionId}
      (method : f.method = some id) (row : network.method? id = some entry)
      (subtask : (network.subtasksOf entry)[f.position]? = some (.action action))
      (limit : output.size < budget.planLength) :
      Stepped network state budget ⟨f :: below, output, stats⟩
        ⟨{ f with position := f.position + 1 } :: below, output.push action, stats⟩
  /-- The innermost frame goes on to a nested task. -/
  | entered {f : Frame} {below : List Frame} {output : Array ActionId}
      {stats : DecompositionStats} {id : MethodId} {entry : MethodRow} {task : TaskId}
      (method : f.method = some id) (row : network.method? id = some entry)
      (subtask : (network.subtasksOf entry)[f.position]? = some (.compound task))
      (limit : below.length + 1 < budget.depth) :
      Stepped network state budget ⟨f :: below, output, stats⟩
        ⟨{ task, outputStart := output.size } :: { f with position := f.position + 1 } :: below,
          output, { stats with deepest := max stats.deepest (below.length + 2) }⟩

theorem stepped_of_step {d next : Decomposition}
    (h : step network state budget root d = .ok next) : Stepped network state budget d next := by
  obtain ⟨frames, output, stats⟩ := d
  rw [step] at h
  split at h
  next => cases h
  next f below hframes =>
    obtain rfl : frames = f :: below := hframes
    split at h
    next hmethod =>
      -- Only a selection within the budget goes on, and without a method only above a parent.
      simp only [select] at h
      split at h
      next => cases h
      next hlimit =>
        split at h
        next key hnext =>
          obtain rfl := Except.ok.inj h
          exact .selected hmethod (Nat.le_of_not_lt hlimit) hnext
        next hnext =>
          split at h
          next => cases h
          next parent rest =>
            obtain rfl := Except.ok.inj h
            exact .backtracked hmethod (Nat.le_of_not_lt hlimit) hnext
    next id hmethod =>
      -- Emitting and entering go on within their budgets.
      simp only [advance] at h
      split at h
      next => cases h
      next entry hentry =>
        split at h
        next hget =>
          obtain rfl := Except.ok.inj h
          exact .completed hmethod hentry hget
        next subtask hget =>
          split at h
          next action =>
            rw [emit] at h
            split at h
            next hlimit =>
              obtain rfl := Except.ok.inj h
              exact .emitted hmethod hentry hget hlimit
            next => cases h
          next task =>
            rw [enter] at h
            split at h
            next hlimit =>
              obtain rfl := Except.ok.inj h
              exact .entered hmethod hentry hget hlimit
            next => cases h

/-- How a decomposition ends with a step. -/
inductive Stopped (network : TaskNetwork) (state : WorldState) (budget : DecompositionBudget)
    (root : TaskId) : Decomposition → DecompositionEnd → Prop where
  /-- No task is left. -/
  | done {output : Array ActionId} {stats : DecompositionStats} :
      Stopped network state budget root ⟨[], output, stats⟩ ⟨⟨[], output, stats⟩, .ok ()⟩
  /-- No selection is left. The one that is refused is counted. -/
  | tooManySelections {f : Frame} {below : List Frame} {output : Array ActionId}
      {stats : DecompositionStats} (method : f.method = none)
      (limit : budget.selections ≤ stats.selections) :
      Stopped network state budget root ⟨f :: below, output, stats⟩
        ⟨⟨f :: below, output, { stats with selections := stats.selections + 1 }⟩,
          .error (.tooManySelections budget.selections)⟩
  /-- The root finds no method. -/
  | undecomposable {f : Frame} {output : Array ActionId} {stats : DecompositionStats}
      (method : f.method = none) (limit : stats.selections < budget.selections)
      (next : network.nextMethod? f.task state f.lastTried = none) :
      Stopped network state budget root ⟨[f], output, stats⟩
        ⟨⟨[], output.take f.outputStart, { stats with selections := stats.selections + 1 }⟩,
          .error (.undecomposable root)⟩
  /-- The method of the innermost frame does not exist. -/
  | unknownMethod {f : Frame} {below : List Frame} {output : Array ActionId}
      {stats : DecompositionStats} {id : MethodId} (method : f.method = some id)
      (row : network.method? id = none) :
      Stopped network state budget root ⟨f :: below, output, stats⟩
        ⟨⟨f :: below, output, stats⟩, .error (.unknownTask f.task)⟩
  /-- There is no room for an action. -/
  | tooLong {f : Frame} {below : List Frame} {output : Array ActionId}
      {stats : DecompositionStats} {id : MethodId} {entry : MethodRow} {action : ActionId}
      (method : f.method = some id) (row : network.method? id = some entry)
      (subtask : (network.subtasksOf entry)[f.position]? = some (.action action))
      (limit : budget.planLength ≤ output.size) :
      Stopped network state budget root ⟨f :: below, output, stats⟩
        ⟨⟨{ f with position := f.position + 1 } :: below, output, stats⟩,
          .error (.planTooLong (output.size + 1) budget.planLength)⟩
  /-- There is no room for a frame. -/
  | tooDeep {f : Frame} {below : List Frame} {output : Array ActionId}
      {stats : DecompositionStats} {id : MethodId} {entry : MethodRow} {task : TaskId}
      (method : f.method = some id) (row : network.method? id = some entry)
      (subtask : (network.subtasksOf entry)[f.position]? = some (.compound task))
      (limit : budget.depth ≤ below.length + 1) :
      Stopped network state budget root ⟨f :: below, output, stats⟩
        ⟨⟨{ f with position := f.position + 1 } :: below, output, stats⟩,
          .error (.tooDeep budget.depth)⟩

theorem stopped_of_step {d : Decomposition} {ended : DecompositionEnd}
    (h : step network state budget root d = .error ended) :
    Stopped network state budget root d ended := by
  obtain ⟨frames, output, stats⟩ := d
  rw [step] at h
  split at h
  next hframes =>
    obtain rfl : frames = [] := hframes
    obtain rfl := Except.error.inj h
    exact .done
  next f below hframes =>
    obtain rfl : frames = f :: below := hframes
    split at h
    next hmethod =>
      -- A selection ends the decomposition if it is refused, or if it fails at the root.
      simp only [select] at h
      split at h
      next hlimit =>
        obtain rfl := Except.error.inj h
        exact .tooManySelections hmethod (Nat.le_of_lt_succ hlimit)
      next hlimit =>
        split at h
        next => cases h
        next hnext =>
          split at h
          next =>
            obtain rfl := Except.error.inj h
            exact .undecomposable hmethod (Nat.le_of_not_lt hlimit) hnext
          next => cases h
    next id hmethod =>
      simp only [advance] at h
      split at h
      next hentry =>
        obtain rfl := Except.error.inj h
        exact .unknownMethod hmethod hentry
      next entry hentry =>
        split at h
        next => cases h
        next subtask hget =>
          split at h
          next action =>
            rw [emit] at h
            split at h
            next => cases h
            next hlimit =>
              obtain rfl := Except.error.inj h
              exact .tooLong hmethod hentry hget (Nat.le_of_not_lt hlimit)
          next task =>
            rw [enter] at h
            split at h
            next => cases h
            next hlimit =>
              obtain rfl := Except.error.inj h
              exact .tooDeep hmethod hentry hget (Nat.le_of_not_lt hlimit)

end Decomposition

end AgentPlanning
