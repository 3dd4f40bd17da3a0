import AgentPlanning.Proofs.Iteration
import AgentPlanning.Proofs.TaskNetwork.Transition
import Mathlib.Algebra.GroupWithZero.Nat

/-!
# Decompositions End within their Bound

A selection uses up budget, and pays for the steps that carry out the selected method. Main
statements:

* `potential_of_stepped`: every step decreases the selections that are left, each counted with the
  steps of a method, plus the steps that the frames have left;
* `wellFounded_step`, `exists_runWithin_stepBound`: no sequence of steps goes on forever, and a
  decomposition ends within its bound;
* `runWithin_of_enter`: a run is not cut short by the bound.
-/

namespace AgentPlanning

namespace Decomposition

variable {network : TaskNetwork} {state : WorldState} {budget : DecompositionBudget}
  {root : TaskId} {stats : DecompositionStats}

/-- The number of steps that a frame takes itself until it has done its method. -/
def stepsLeft (network : TaskNetwork) (f : Frame) : Nat :=
  match f.method.bind network.method? with
  | none => 0
  | some entry => (network.subtasksOf entry).length - f.position + 1

theorem length_subtasksOf_le (network : TaskNetwork) (entry : MethodRow) :
    (network.subtasksOf entry).length ≤ network.subtasks.size := by
  rw [TaskNetwork.subtasksOf]
  exact entry.subtasks.length_read_le network.subtasks

theorem stepsLeft_le (network : TaskNetwork) (f : Frame) :
    stepsLeft network f ≤ network.subtasks.size + 1 := by
  rw [stepsLeft]
  split
  · exact Nat.zero_le _
  next entry _ =>
    have hlength := length_subtasksOf_le network entry
    omega

theorem stepsLeft_of_none {f : Frame} (h : f.method = none) : stepsLeft network f = 0 := by
  rw [stepsLeft, h, Option.bind_none]

/-- A frame that takes up a subtask has one step less left. -/
theorem stepsLeft_of_subtask {f : Frame} {id : MethodId} {entry : MethodRow} {subtask : Subtask}
    (hmethod : f.method = some id) (hentry : network.method? id = some entry)
    (hget : (network.subtasksOf entry)[f.position]? = some subtask) :
    stepsLeft network { f with position := f.position + 1 } + 1 = stepsLeft network f := by
  obtain ⟨hlt, -⟩ := List.getElem?_eq_some_iff.1 hget
  rw [stepsLeft, stepsLeft, hmethod, Option.bind_some, hentry]
  dsimp only
  omega

theorem stepsLeft_pos {f : Frame} {id : MethodId} {entry : MethodRow}
    (hmethod : f.method = some id) (hentry : network.method? id = some entry) :
    0 < stepsLeft network f := by
  rw [stepsLeft, hmethod, Option.bind_some, hentry]
  exact Nat.succ_pos _

/-- The selections that are left, each counted with the steps of a method, and the steps that the
frames have left. -/
def potential (network : TaskNetwork) (budget : DecompositionBudget) (d : Decomposition) : Nat :=
  (budget.selections - d.stats.selections) * (network.subtasks.size + 2) +
    (d.frames.map (stepsLeft network)).sum

theorem selectionsLeft_mul (hlimit : stats.selections < budget.selections) (size : Nat) :
    (budget.selections - (stats.selections + 1)) * (size + 2) + (size + 2) =
      (budget.selections - stats.selections) * (size + 2) := by
  rw [← Nat.succ_mul]
  congr 1
  omega

theorem potential_of_stepped {d next : Decomposition} (h : Stepped network state budget d next) :
    potential network budget next < potential network budget d := by
  cases h with
  | @selected f below output stats key hmethod hlimit =>
    -- The selection pays for the method.
    have hpaid := selectionsLeft_mul hlimit network.subtasks.size
    have hmethodLe := stepsLeft_le network
      { f with method := some key.method, position := 0, lastTried := some key }
    simp only [potential, List.map_cons, List.sum_cons]
    omega
  | @backtracked f parent rest output stats hmethod hlimit =>
    -- The next frame has no method any more, which only takes steps away.
    have hpaid := selectionsLeft_mul hlimit network.subtasks.size
    have hparent : stepsLeft network { parent with method := none } = 0 := stepsLeft_of_none rfl
    simp only [potential, List.map_cons, List.sum_cons, hparent]
    omega
  | completed hmethod hentry =>
    have hpos := stepsLeft_pos hmethod hentry
    simp only [potential, List.map_cons, List.sum_cons]
    omega
  | emitted hmethod hentry hget =>
    have hless := stepsLeft_of_subtask hmethod hentry hget
    simp only [potential, List.map_cons, List.sum_cons]
    omega
  | @entered f below output stats id entry task hmethod hentry hget =>
    have hless := stepsLeft_of_subtask hmethod hentry hget
    have hnew : stepsLeft network { task, outputStart := output.size } = 0 :=
      stepsLeft_of_none rfl
    simp only [potential, List.map_cons, List.sum_cons, hnew]
    omega

theorem potential_of_enter {d : Decomposition} (h : enter budget {} root = .ok d) :
    potential network budget d < stepBound network budget := by
  rw [enter] at h
  split at h
  next =>
    obtain rfl := Except.ok.inj h
    have hroot : stepsLeft network { task := root, outputStart := 0 } = 0 := stepsLeft_of_none rfl
    rw [potential, stepBound, Nat.succ_mul]
    show budget.selections * _ + (stepsLeft network { task := root, outputStart := 0 } + 0) < _
    rw [hroot]
    omega
  next => cases h

/-- No sequence of steps goes on forever, wherever it begins. -/
theorem wellFounded_step (network : TaskNetwork) (state : WorldState)
    (budget : DecompositionBudget) (root : TaskId) :
    WellFounded fun next d => step network state budget root d = .ok next :=
  Subrelation.wf (fun hstep => potential_of_stepped (stepped_of_step hstep))
    (measure (potential network budget)).wf

/-- A decomposition ends within its bound. -/
theorem exists_runWithin_stepBound (state : WorldState) (root : TaskId) {d : Decomposition}
    (h : potential network budget d < stepBound network budget) :
    ∃ ended, runWithin (step network state budget root) (stepBound network budget) d =
      some ended := by
  refine exists_runWithin_of_measure (P := fun _ => True) (fun _ _ _ _ => trivial) ?_ trivial h
  intro _ _ _ hstep
  exact potential_of_stepped (stepped_of_step hstep)

/-- A run that has entered its root takes all of its steps, and is not cut short by the bound. -/
theorem runWithin_of_enter (state : WorldState) (hroot : root < network.size)
    {first : Decomposition} (hfirst : enter budget {} root = .ok first) :
    runWithin (step network state budget root) (stepBound network budget) first =
      some (run network state budget root) := by
  have hpotential : potential network budget first < stepBound network budget :=
    potential_of_enter hfirst
  obtain ⟨ended, hended⟩ := exists_runWithin_stepBound state root hpotential
  rw [run, reset_eq, if_pos hroot]
  simp only [hfirst, hended, Option.getD_some]

end Decomposition

end AgentPlanning
