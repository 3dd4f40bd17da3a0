import AgentPlanning.Proofs.Action.Agreement
import AgentPlanning.Proofs.Search.Answers
import AgentPlanning.Proofs.Search.Renaming
import AgentPlanning.Proofs.TaskNetwork.Answers

/-!
# Planning with Agreeing Conditions

Both planners read conditions only through what they require of constrained atoms. For a search,
a problem with agreeing conditions is the same problem, and for a decomposition a network with
agreeing conditions is the same network. Values of unconstrained atoms therefore change no plan, no
error and no counter. Main statements:

* `SearchProblem.Agrees.renames`: a search sees no difference;
* `Decomposition.step_eq`, `Decomposition.run_eq`: nor does a decomposition;
* `planning_eq_of_agrees`: what libraries offer and what planners answer.
-/

namespace AgentPlanning

/-! ## Searching -/

/-- The problems have the same start and weight, and agreeing libraries and goals. -/
structure SearchProblem.Agrees (problem other : SearchProblem) : Prop where
  library : problem.library.Agrees other.library
  start : other.start = problem.start
  goal : problem.goal.Agrees other.goal
  weight : other.weight = problem.weight

/-- No state has to be renamed to get from the one problem to the other. -/
theorem SearchProblem.Agrees.renames {problem other : SearchProblem} (h : problem.Agrees other) :
    problem.Renames other (Equiv.refl WorldState) where
  start := h.start
  candidates := h.library.candidates_eq
  isApplicable := h.library.isApplicable_eq
  apply := h.library.apply_eq
  cost? := h.library.cost?_eq
  satisfies := h.goal.satisfies_eq
  estimate := fun state => by
    rw [estimate, estimate, h.weight, Equiv.refl_apply, h.goal.mismatches_eq]

/-- The calls ask for the same, up to values of unconstrained atoms, and have the same space for a
plan. -/
structure SearchPlanner.Call.Agrees (call other : Call) : Prop where
  problem : call.problem.Agrees other.problem
  space : ∀ budget, other.space budget = call.space budget

/-! ## Decomposing -/

/-- The methods have agreeing conditions, and the same cost and subtasks. -/
structure MethodRow.Agrees (row other : MethodRow) : Prop where
  condition : row.condition.Agrees other.condition
  cost : other.cost = row.cost
  subtasks : other.subtasks = row.subtasks

instance : DecidableRel MethodRow.Agrees := fun row other =>
  decidable_of_iff
    (row.condition.Agrees other.condition ∧ other.cost = row.cost ∧ other.subtasks = row.subtasks)
    ⟨fun ⟨hcondition, hcost, hsubtasks⟩ => ⟨hcondition, hcost, hsubtasks⟩,
      fun h => ⟨h.condition, h.cost, h.subtasks⟩⟩

/-- The networks have the same tasks and subtasks, and agree method by method. -/
structure TaskNetwork.Agrees (network other : TaskNetwork) : Prop where
  tasks : other.tasks = network.tasks
  methods : List.Forall₂ MethodRow.Agrees network.methods.toList other.methods.toList
  subtasks : other.subtasks = network.subtasks

namespace TaskNetwork.Agrees

variable {network other : TaskNetwork} (h : network.Agrees other)

include h

theorem rel_method? (id : MethodId) :
    Option.Rel MethodRow.Agrees (network.method? id) (other.method? id) := by
  rw [method?, method?, ← Array.getElem?_toList, ← Array.getElem?_toList]
  exact rel_getElem? h.methods id

theorem subtasksOf_eq {row otherRow : MethodRow} (hrow : row.Agrees otherRow) :
    other.subtasksOf otherRow = network.subtasksOf row := by
  rw [subtasksOf, subtasksOf, h.subtasks, hrow.subtasks]

theorem applicableKeys_eq (task : TaskId) (state : WorldState) :
    other.applicableKeys task state = network.applicableKeys task state := by
  rw [applicableKeys, applicableKeys, task?, task?, h.tasks]
  split
  next => rfl
  next entry _ =>
    -- A method applies where the agreeing one does, and has the same rank there.
    refine congrArg (List.filterMap · _) (funext fun id => ?_)
    generalize network.method? id = row, other.method? id = otherRow, h.rel_method? id = hrel
    cases hrel with
    | none => rfl
    | some hrow =>
      dsimp only
      rw [hrow.condition.satisfies_eq, hrow.cost]

theorem nextMethod?_eq (task : TaskId) (state : WorldState) (lastTried : Option MethodKey) :
    other.nextMethod? task state lastTried = network.nextMethod? task state lastTried := by
  rw [nextMethod?, nextMethod?, h.applicableKeys_eq]

end TaskNetwork.Agrees

namespace Decomposition

variable {network other : TaskNetwork} (h : network.Agrees other) (state : WorldState)
  (budget : DecompositionBudget) (root : TaskId)

include h

theorem select_eq (top : Frame) (below : List Frame) (d : Decomposition) :
    select other state budget root top below d = select network state budget root top below d := by
  rw [select, select, h.nextMethod?_eq]

theorem advance_eq (top : Frame) (method : MethodId) (below : List Frame) (d : Decomposition) :
    advance other budget top method below d = advance network budget top method below d := by
  rw [advance, advance]
  generalize network.method? method = row, other.method? method = otherRow,
    h.rel_method? method = hrel
  cases hrel with
  | none => rfl
  | some hrow =>
    -- The condition of a method that was selected is not looked at again.
    dsimp only
    rw [h.subtasksOf_eq hrow]

theorem step_eq (d : Decomposition) :
    step other state budget root d = step network state budget root d := by
  rw [step, step]
  simp only [select_eq h, advance_eq h]

theorem run_eq (left : Decomposition) :
    run other state budget root left = run network state budget root left := by
  have hstep : step other state budget root = step network state budget root :=
    funext (step_eq h state budget root)
  have hsize : other.size = network.size := congrArg Array.size h.tasks
  -- The bound depends on the budgets and on the number of subtasks.
  have hbound : stepBound other budget = stepBound network budget := by
    rw [stepBound, stepBound, h.subtasks]
  rw [run, run, hstep, hsize, hbound]

end Decomposition

/-! ## Both planners -/

section Planning

open SearchPlanner TaskPlanner

/-- Values of unconstrained atoms change nothing. With agreeing conditions the same actions can be
taken, with the same effects, are candidates in the same order and are filed in the same groups. A
search planner returns the same plans or errors and counts the same, for all budgets and whatever
calls came before, and so does a task planner. -/
theorem planning_eq_of_agrees {library otherLibrary : ActionLibrary} {call otherCall : Call}
    {network otherNetwork : TaskNetwork} (hlibrary : library.Agrees otherLibrary)
    (hcall : call.Agrees otherCall) (hnetwork : network.Agrees otherNetwork) :
    (∀ action state,
      otherLibrary.isApplicable action state = library.isApplicable action state ∧
      otherLibrary.apply action state = library.apply action state) ∧
    (∀ state, otherLibrary.candidates state = library.candidates state ∧
      otherLibrary.applicable state = library.applicable state) ∧
    (∀ action, otherLibrary.index.groupOf? action = library.index.groupOf? action) ∧
    (∀ budget history otherHistory,
      (afterAll budget otherHistory).answer otherCall = (afterAll budget history).answer call ∧
      ((afterAll budget otherHistory).after otherCall).latestStats =
        ((afterAll budget history).after call).latestStats) ∧
    ∀ (planner : TaskPlanner) state root,
      planner.plan otherNetwork state root = planner.plan network state root := by
  refine ⟨fun action state => ?_, fun state => ?_, fun action => ?_, fun budget => ?_,
    fun planner state root => ?_⟩
  · exact ⟨hlibrary.isApplicable_eq action state, hlibrary.apply_eq action state⟩
  · exact ⟨hlibrary.candidates_eq state, hlibrary.applicable_eq state⟩
  · rw [hlibrary.index_eq]
  · exact answer_eq_of_renames hcall.problem.renames (hcall.space budget)
  · rw [TaskPlanner.plan, TaskPlanner.plan, Decomposition.run_eq hnetwork]

/-- The condition with all values of unconstrained atoms set. -/
def Condition.clutter (c : Condition) : Condition := ⟨c.mask, c.values ||| ~~~c.mask⟩

/-- The ways across the wall, with cluttered conditions. -/
def clutteredCrossing : ActionLibrary :=
  .ofList <| (crossing.ids.filterMap crossing.get?).map fun action =>
    { action with pre := action.pre.clutter, post := action.post.clutter }

/-- Asks for a way across the wall, with a goal of which all values are set. -/
def clutteredCall : Call := .plan clutteredCrossing .empty guidedCall.problem.goal.clutter 1

/-- Asks for a way across the wall, with the trimmed goal. -/
def trimmedCall : Call := .plan crossing .empty guidedCall.problem.goal.clutter.trim 1

/-- The journey, with cluttered conditions. -/
def clutteredJourney : TaskNetwork :=
  { journey with
    methods := journey.methods.map fun row => { row with condition := row.condition.clutter } }

/-- The leap asks for nothing, so it is filed under no atom, whatever its values are. -/
theorem planning_eq_cluttered :
    clutteredCrossing.Agrees crossing ∧ clutteredCall.Agrees trimmedCall ∧
    clutteredJourney.Agrees journey ∧
    (crossing.isApplicable 0 .empty = clutteredCrossing.isApplicable 0 .empty ∧
      crossing.apply 0 .empty = clutteredCrossing.apply 0 .empty) ∧
    (crossing.candidates .empty = clutteredCrossing.candidates .empty ∧
      crossing.applicable .empty = clutteredCrossing.applicable .empty) ∧
    crossing.index.groupOf? 0 = clutteredCrossing.index.groupOf? 0 ∧
    ((afterAll ⟨3, 2⟩ [vainCall]).answer trimmedCall =
        (afterAll ⟨3, 2⟩ [crampedCall]).answer clutteredCall ∧
      ((afterAll ⟨3, 2⟩ [vainCall]).after trimmedCall).latestStats =
        ((afterAll ⟨3, 2⟩ [crampedCall]).after clutteredCall).latestStats) ∧
    (TaskPlanner.ofBudget {}).plan journey .empty 0 =
      (TaskPlanner.ofBudget {}).plan clutteredJourney .empty 0 := by
  have hlibrary : clutteredCrossing.Agrees crossing := by decide +kernel
  have hcall : clutteredCall.Agrees trimmedCall :=
    ⟨⟨hlibrary, rfl, Condition.agrees_trim _, rfl⟩, fun _ => rfl⟩
  have hnetwork : clutteredJourney.Agrees journey := ⟨rfl, by decide +kernel, rfl⟩
  obtain ⟨htaken, hcandidates, hgroup, hanswer, hplan⟩ :=
    planning_eq_of_agrees hlibrary hcall hnetwork
  exact ⟨hlibrary, hcall, hnetwork, htaken 0 .empty, hcandidates .empty, hgroup 0,
    hanswer ⟨3, 2⟩ [crampedCall] [vainCall], hplan (.ofBudget {}) .empty 0⟩

end Planning

end AgentPlanning
