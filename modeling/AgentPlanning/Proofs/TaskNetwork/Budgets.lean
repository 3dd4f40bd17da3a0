import AgentPlanning.Proofs.TaskNetwork.Termination
import AgentPlanning.TaskNetwork.Planner

/-!
# Decomposing within the Budgets

A decomposition ends, also where tasks refer back to themselves, and on its way it keeps to each of
its budgets. A frame or an action is added only if there is room for it, and backtracking only takes
frames and actions away. A selection is made only if one is left; the one that is refused is counted
and ends the decomposition. Main statements:

* `bounded_of_stepped`, `bounded_of_mem_trail`: the stack, the plan and the counters after a step
  and in a whole run;
* `countP_selects_le`, `stats_run`: the number of selections in a run, and what is counted in the
  end;
* `TaskPlanner.within_budgets`: a call of the planner.
-/

namespace AgentPlanning

/-- The decompositions in which the steps of a run begin; there are none if the run ends before its
first step. -/
def TaskNetwork.trail (network : TaskNetwork) (state : WorldState) (budget : DecompositionBudget)
    (root : TaskId) : List Decomposition :=
  if root < network.size then
    match Decomposition.enter budget {} root with
    | .error _ => []
    | .ok first =>
      AgentPlanning.trail (Decomposition.step network state budget root)
        (Decomposition.stepBound network budget) first
  else []

namespace Decomposition

variable {network : TaskNetwork} {state : WorldState} {budget : DecompositionBudget}
  {root : TaskId} {d next : Decomposition} {ended : DecompositionEnd}

/-- Whether the next step selects a method: the innermost frame has none, and there is a selection
left. -/
def selects (budget : DecompositionBudget) (d : Decomposition) : Bool :=
  d.frames.head?.any (·.method.isNone) && d.stats.selections < budget.selections

/-! ## Steps -/

/-- The decomposition keeps to its budgets. -/
structure Bounded (budget : DecompositionBudget) (d : Decomposition) : Prop where
  frames_le : d.frames.length ≤ budget.depth
  output_le : d.output.size ≤ budget.planLength
  deepest_le : d.stats.deepest ≤ budget.depth
  selections_le : d.stats.selections ≤ budget.selections

theorem bounded_of_enter {task : TaskId} (h : enter budget d task = .ok next)
    (hd : Bounded budget d) : Bounded budget next := by
  rw [enter] at h
  split at h
  next hroom =>
    obtain rfl := Except.ok.inj h
    exact ⟨hroom, hd.output_le, Nat.max_le.2 ⟨hd.deepest_le, hroom⟩, hd.selections_le⟩
  next => cases h

/-- The empty decomposition, before its root is entered. -/
theorem bounded_empty (budget : DecompositionBudget) : Bounded budget {} :=
  ⟨Nat.zero_le _, Nat.zero_le _, Nat.zero_le _, Nat.zero_le _⟩

/-- A step keeps to the budgets. -/
theorem bounded_of_stepped (h : Stepped network state budget d next) (hd : Bounded budget d) :
    Bounded budget next := by
  obtain ⟨hframes, houtput, hdeepest, hselections⟩ := hd
  cases h with
  | selected _ hlimit => exact ⟨hframes, houtput, hdeepest, hlimit⟩
  | @backtracked f parent rest output stats _ hlimit =>
    -- What the failed method has emitted is taken back.
    have htake (limit : Nat) (actions : Array ActionId) :
        (actions.take limit).size ≤ actions.size := by
      rw [Array.take_eq_extract, Array.size_extract]
      omega
    refine ⟨Nat.le_of_succ_le hframes, ?_, hdeepest, hlimit⟩
    exact Nat.le_trans (htake _ _) (Nat.le_trans (htake _ _) houtput)
  | completed => exact ⟨Nat.le_of_succ_le hframes, houtput, hdeepest, hselections⟩
  | @emitted f below output stats id entry action _ _ _ hlimit =>
    refine ⟨hframes, ?_, hdeepest, hselections⟩
    rw [Array.size_push]
    exact hlimit
  | entered _ _ _ hlimit =>
    exact ⟨hlimit, houtput, Nat.max_le.2 ⟨hdeepest, hlimit⟩, hselections⟩

/-- A step counts the selection that it makes. -/
theorem selections_of_stepped (h : Stepped network state budget d next) :
    next.stats.selections = d.stats.selections + (selects budget d).toNat := by
  cases h with
  | selected hmethod hlimit => simp [selects, hmethod, hlimit]
  | backtracked hmethod hlimit => simp [selects, hmethod, hlimit]
  | completed hmethod => simp [selects, hmethod]
  | emitted hmethod => simp [selects, hmethod]
  | entered hmethod => simp [selects, hmethod]

/-- A decomposition that ends counts at most one more selection. -/
theorem stats_of_stopped (h : Stopped network state budget root d ended) :
    ended.last.stats.deepest = d.stats.deepest ∧
      ended.last.stats.selections ≤ d.stats.selections + 1 := by
  cases h with
  | tooManySelections => exact ⟨rfl, Nat.le_refl _⟩
  | undecomposable => exact ⟨rfl, Nat.le_refl _⟩
  | done | unknownMethod | tooLong | tooDeep => exact ⟨rfl, Nat.le_succ _⟩

/-! ## Runs -/

/-- A run has no first step, and nothing has been done and counted, or it takes its steps within the
bound. -/
theorem run_cases (network : TaskNetwork) (state : WorldState) (budget : DecompositionBudget)
    (root : TaskId) :
    (network.trail state budget root = [] ∧ (run network state budget root).last = {}) ∨
    ∃ first, Bounded budget first ∧
      network.trail state budget root =
        trail (step network state budget root) (stepBound network budget) first ∧
      runWithin (step network state budget root) (stepBound network budget) first =
        some (run network state budget root) := by
  rw [TaskNetwork.trail, run, reset_eq]
  split
  next hroot =>
    cases henter : enter budget {} root with
    | error ended =>
      -- There is no room for the root.
      rw [enter] at henter
      split at henter
      · cases henter
      · obtain rfl := Except.error.inj henter
        exact .inl ⟨rfl, rfl⟩
    | ok first =>
      have hrun := runWithin_of_enter state hroot henter
      rw [run, reset_eq, if_pos hroot, henter] at hrun
      exact .inr ⟨first, bounded_of_enter henter (bounded_empty budget), rfl, hrun⟩
  next => exact .inl ⟨rfl, rfl⟩

/-- Wherever a step of a run begins, the decomposition keeps to its budgets. -/
theorem bounded_of_mem_trail (h : d ∈ network.trail state budget root) : Bounded budget d := by
  rcases run_cases network state budget root with ⟨hnone, -⟩ | ⟨first, hfirst, htrail, -⟩
  · rw [hnone] at h
    exact absurd h List.not_mem_nil
  · rw [htrail] at h
    refine forall_mem_trail (P := Bounded budget) ?_ _ hfirst d h
    exact fun _ _ hd hstep => bounded_of_stepped (stepped_of_step hstep) hd

theorem selections_lt_of_selects (h : selects budget d = true) :
    d.stats.selections < budget.selections := by
  rw [selects, Bool.and_eq_true] at h
  exact of_decide_eq_true h.2

/-- A run makes no more selections than are left when it begins. -/
theorem countP_selects_le (network : TaskNetwork) (state : WorldState) (root : TaskId) (n : Nat)
    (hd : d.stats.selections ≤ budget.selections) :
    d.stats.selections +
        (trail (step network state budget root) n d).countP (selects budget) ≤
      budget.selections := by
  induction n generalizing d with
  | zero => exact hd
  | succ n ih =>
    -- The first step makes a selection only if there is one left.
    have hfirst : d.stats.selections + (selects budget d).toNat ≤ budget.selections := by
      cases hselects : selects budget d with
      | false => exact hd
      | true => exact selections_lt_of_selects hselects
    have hcount (rest : List Decomposition) :
        (d :: rest).countP (selects budget) =
          (selects budget d).toNat + rest.countP (selects budget) := by
      rw [List.countP_cons, Nat.add_comm]
      cases selects budget d <;> rfl
    rw [trail, hcount, ← Nat.add_assoc]
    cases hstep : step network state budget root d with
    | error => exact hfirst
    | ok next =>
      have hnext := selections_of_stepped (stepped_of_step hstep)
      rw [← hnext] at hfirst ⊢
      exact ih hfirst

/-- A run ends with the counters within the budgets, but for a selection that is refused. -/
theorem stats_run (network : TaskNetwork) (state : WorldState) (budget : DecompositionBudget)
    (root : TaskId) :
    (run network state budget root).last.stats.deepest ≤ budget.depth ∧
      (run network state budget root).last.stats.selections ≤ budget.selections + 1 := by
  rcases run_cases network state budget root with ⟨-, hlast⟩ | ⟨first, hfirst, -, hrun⟩
  · rw [hlast]
    exact ⟨Nat.zero_le _, Nat.zero_le _⟩
  · -- The budgets are kept to until the last step, which may refuse a selection.
    obtain ⟨d, hd, hstep⟩ := exists_step_of_runWithin
      (fun _ _ hd hstep => bounded_of_stepped (stepped_of_step hstep) hd) hfirst hrun
    obtain ⟨hdeepest, hselections⟩ := stats_of_stopped (stopped_of_step hstep)
    exact ⟨hdeepest ▸ hd.deepest_le, Nat.le_trans hselections (Nat.succ_le_succ hd.selections_le)⟩

end Decomposition

namespace TaskPlanner

open Decomposition

theorem latestStats_plan (planner : TaskPlanner) (network : TaskNetwork) (state : WorldState)
    (root : TaskId) : (planner.plan network state root).2.latestStats =
      (run network state planner.budget root).last.stats := by
  rw [plan, run_left planner.latest]
  dsimp only
  split <;> rfl

/-- A planner ends within its budgets, also if tasks refer back to themselves. No sequence of steps
goes on forever, and the run ends with the answer that is returned. It makes no more selections than
the budget allows, and wherever a step begins there are no more frames and no more actions than the
budget allows. The counters say so, but a selection that is refused is counted as well. -/
theorem within_budgets (planner : TaskPlanner) (network : TaskNetwork) (state : WorldState)
    (root : TaskId) :
    (WellFounded fun next d => step network state planner.budget root d = .ok next) ∧
    (root < network.size → ∀ first, enter planner.budget planner.latest.reset root = .ok first →
      runWithin (step network state planner.budget root) (stepBound network planner.budget) first =
        some (run network state planner.budget root planner.latest)) ∧
    (network.trail state planner.budget root).countP (selects planner.budget) ≤
      planner.budget.selections ∧
    (∀ d ∈ network.trail state planner.budget root,
      d.frames.length ≤ planner.budget.depth ∧ d.output.size ≤ planner.budget.planLength) ∧
    (planner.plan network state root).2.latestStats.deepest ≤ planner.budget.depth ∧
    (planner.plan network state root).2.latestStats.selections ≤
      planner.budget.selections + 1 := by
  obtain ⟨hdeepest, hselections⟩ := stats_run network state planner.budget root
  rw [planner.latestStats_plan, run_left planner.latest]
  refine ⟨wellFounded_step network state planner.budget root,
    fun hroot _ hfirst => runWithin_of_enter state hroot hfirst, ?_, fun d hd => ?_, hdeepest,
    hselections⟩
  · rcases run_cases network state planner.budget root with
      ⟨hnone, -⟩ | ⟨first, hfirst, htrail, -⟩
    · rw [hnone]
      exact Nat.zero_le _
    · rw [htrail]
      have hcount := countP_selects_le network state root (stepBound network planner.budget)
        hfirst.selections_le
      exact Nat.le_trans (Nat.le_add_left _ _) hcount
  · have hbounded := bounded_of_mem_trail hd
    exact ⟨hbounded.frames_le, hbounded.output_le⟩

/-- A task that is done by doing it again. -/
def forever : TaskNetwork := .flatten [
  { name := "forever", methods := [{ name := "again", cost := 1, subtasks := [.compound 0] }] }]

/-- Room for eight frames. -/
def lowCeiling : DecompositionBudget := { depth := 8 }

/-- The task is entered eight times over, and not once more. -/
theorem within_budgets_forever :
    (WellFounded fun next d => step forever .empty lowCeiling 0 d = .ok next) ∧
    (0 < forever.size ∧
      enter lowCeiling {} 0 =
        .ok ⟨[{ task := 0, outputStart := 0 }], #[], { deepest := 1 }⟩ ∧
      runWithin (step forever .empty lowCeiling 0) (stepBound forever lowCeiling)
        ⟨[{ task := 0, outputStart := 0 }], #[], { deepest := 1 }⟩ =
        some (run forever .empty lowCeiling 0)) ∧
    (forever.trail .empty lowCeiling 0).countP (selects lowCeiling) ≤ 1024 ∧
    (∃ d ∈ forever.trail .empty lowCeiling 0,
      d.frames.length = 8 ∧ d.frames.length ≤ 8 ∧ d.output.size ≤ 64) ∧
    ((ofBudget lowCeiling).plan forever .empty 0).2.latestStats.deepest ≤ 8 ∧
    ((ofBudget lowCeiling).plan forever .empty 0).2.latestStats.selections ≤ 1024 + 1 := by
  obtain ⟨hsteps, hrun, hcount, htrail, hdeepest, hselections⟩ :=
    within_budgets (ofBudget lowCeiling) forever .empty 0
  have hsize : 0 < forever.size := by decide +kernel
  have hfirst : enter lowCeiling {} 0 =
      .ok ⟨[{ task := 0, outputStart := 0 }], #[], { deepest := 1 }⟩ := rfl
  have hdeep : ∃ d ∈ forever.trail .empty lowCeiling 0, d.frames.length = 8 := by
    decide +kernel
  obtain ⟨d, hd, height⟩ := hdeep
  exact ⟨hsteps, ⟨hsize, hfirst, hrun hsize _ hfirst⟩, hcount, ⟨d, hd, height, htrail d hd⟩,
    hdeepest, hselections⟩

end TaskPlanner

end AgentPlanning
