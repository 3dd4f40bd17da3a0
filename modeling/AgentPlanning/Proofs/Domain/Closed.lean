import AgentPlanning.Proofs.Domain.Faithful

/-!
# Closed Domains

The tables of a domain refer to each other by numbers. A domain is closed if every number that
planning meets on its way from one table to the next is that of an entry. Main statements:

* `Description.Subtask.RepresentedBy.existsIn`: the name of a subtask becomes the number of an
  entry;
* `Domain.closed_of_ofDescription`: the domain of a description is closed.
-/

namespace AgentPlanning

/-- The subtask is an action or a task of the domain. -/
def Subtask.ExistsIn (domain : Domain) : Subtask → Prop
  | .action id => domain.actions.contains id = true
  | .compound id => id < domain.tasks.size

/-- Whatever the tables of the domain refer to exists. -/
structure Domain.Closed (domain : Domain) : Prop where
  /-- The goals to choose from are goals of the domain. -/
  chosenGoals : ∀ option ∈ domain.selector.table.options,
    (domain.goals.get? option.goal).isSome = true
  /-- Those that are planned by decomposition have roots. -/
  chosenRoots : ∀ option ∈ domain.selector.table.options, option.strategy = .decomposition →
    (domain.roots.root? option.goal).isSome = true
  /-- Roots are tasks of the domain. -/
  roots : ∀ goal, ∀ root ∈ domain.roots.root? goal, root < domain.tasks.size
  /-- The methods of a task consist of actions and tasks of the domain. -/
  subtasks : ∀ task, ∀ row ∈ domain.tasks.task? task, ∀ id ∈ row.methodIds,
    ∀ method ∈ domain.tasks.method? id, ∀ subtask ∈ domain.tasks.subtasksOf method,
      subtask.ExistsIn domain

theorem ActionLibrary.isSome_get? (library : ActionLibrary) (action : ActionId) :
    (library.get? action).isSome = library.contains action := by
  rw [get?, row?, Option.isSome_map, contains, size]
  exact Bool.eq_iff_iff.2 (by simp)

/-- An entry that has a name is there. -/
theorem isSome_of_map_eq_some {α : Type} {x : Option α} {f : α → String} {name : String}
    (h : x.map f = some name) : x.isSome = true := by
  obtain ⟨a, rfl, -⟩ := Option.map_eq_some_iff.1 h
  rfl

/-! ## The domain of a description -/

section Represented

variable {description : Description} {vocabulary : Vocabulary} {domain : Domain}
  (hactions : ∀ action : ActionId,
    Option.Rel (Description.Action.RepresentedBy description vocabulary)
      description.actions[action]? (domain.actions.get? action))
  (htasks : ∀ task : TaskId,
    Option.Rel (Description.Task.RepresentedBy description domain.tasks)
      description.tasks[task]? (domain.tasks.task? task))

include htasks

/-- A task with a name is one of the domain. -/
theorem lt_size_of_taskName? {task : TaskId} {name : String}
    (h : description.taskName? task = some name) : task < domain.tasks.size := by
  have hrow := isSome_of_rel (htasks task) (isSome_of_map_eq_some h)
  obtain ⟨row, hrow⟩ := Option.isSome_iff_exists.1 hrow
  exact (Array.getElem?_eq_some_iff.1 hrow).1

include hactions

/-- What is represented exists. -/
theorem Description.Subtask.RepresentedBy.existsIn {subtask : Description.Subtask}
    {found : AgentPlanning.Subtask} (h : subtask.RepresentedBy description found) :
    found.ExistsIn domain := by
  cases h with
  | @action name id hname =>
    show domain.actions.contains id = true
    rw [← ActionLibrary.isSome_get?]
    exact isSome_of_rel (hactions id) (isSome_of_map_eq_some hname)
  | task hname => exact lt_size_of_taskName? htasks hname

/-- The methods of represented tasks have subtasks that exist. -/
theorem existsIn_of_represented {task : TaskId} {row : TaskRow}
    (hrow : domain.tasks.task? task = some row) {id : MethodId} (hid : id ∈ row.methodIds)
    {method : MethodRow} (hmethod : domain.tasks.method? id = some method)
    {subtask : Subtask} (hsubtask : subtask ∈ domain.tasks.subtasksOf method) :
    subtask.ExistsIn domain := by
  -- Task, method and subtask each have one in the description that they were resolved from.
  obtain ⟨source, -, htask⟩ := exists_of_rel_some (hrow ▸ htasks task)
  obtain ⟨source, -, found, hfound, hsource⟩ := exists_of_mem_right htask.methods hid
  obtain rfl := Option.some.inj (hmethod.symm.trans hfound)
  obtain ⟨part, -, hpart⟩ := exists_of_mem_right hsource.subtasks hsubtask
  exact hpart.existsIn hactions htasks

end Represented

namespace Domain

variable {description : Description} {vocabulary : Vocabulary} {domain : Domain}

/-- No reference leads out of the domain of a description. -/
theorem closed_of_ofDescription (h : ofDescription description vocabulary = .ok domain) :
    domain.Closed := by
  obtain ⟨hproblems, rfl⟩ := Checked.toExcept_eq_ok_iff.1 h
  have hwell := problems_resolve.1 hproblems
  simp only [resolve, Checked.problems_bind_eq_nil, Checked.problems_bind_pure] at hproblems
  obtain ⟨hatoms, -, hactions, hgoals, htasks, hroots, hoptions⟩ := hproblems
  have hfits := Scope.fits_ofDescription vocabulary hatoms
  -- There is a network, against which the roots were checked.
  obtain ⟨network, hnetwork, hrows⟩ :=
    Scope.yields_taskNetwork hfits hwell.actions_nodup hwell.tasks_nodup htasks
  have hsize := Scope.size_taskNetwork hfits network hnetwork
  rw [hnetwork] at hroots
  have hlibrary := Scope.yields_actionLibrary hfits hactions
  have htable := Scope.yields_goalTable hfits hgoals
  have hroots := Scope.yields_rootTable hfits hwell.tasks_nodup hsize hroots
  obtain ⟨hoptions, -⟩ := Scope.yields_goalSelector hfits hwell.goals_nodup hoptions
  have hnetworkEq : (resolve description vocabulary).value.tasks = network :=
    congrArg (fun n : Option TaskNetwork => n.getD {}) hnetwork
  have hrootsEq : (resolve description vocabulary).value.roots =
      (Scope.rootTable _ (some network) description.goals).value :=
    congrArg (fun n => (Scope.rootTable _ n description.goals).value) hnetwork
  rw [← hrootsEq] at hroots
  rw [← hnetworkEq] at hrows
  refine ⟨?chosenGoals, ?chosenRoots, ?roots, ?subtasks⟩
  case chosenGoals =>
    intro option hoption
    -- An option was resolved from one of the description, whose goal is declared.
    obtain ⟨source, -, hsource⟩ := exists_of_mem_right hoptions hoption
    rw [GoalTable.get?, Option.isSome_map]
    exact isSome_of_rel (htable option.goal) (isSome_of_map_eq_some hsource.goal)
  case chosenRoots =>
    intro option hoption hstrategy
    obtain ⟨source, hmem, hsource⟩ := exists_of_mem_right hoptions hoption
    refine isSome_of_rel (hroots option.goal) ?_
    -- The goal that the option names is the one at its number, since names are different.
    obtain ⟨goal, hgoal, hname⟩ := Option.map_eq_some_iff.1 hsource.goal
    obtain ⟨other, hother, heq, hroot⟩ := (hwell.options source hmem).goal
    obtain rfl := List.inj_on_of_nodup_map hwell.goals_nodup hother
      (List.mem_of_getElem? hgoal) (heq.trans hname.symm)
    rw [hgoal]
    exact hroot (hsource.strategy.symm.trans hstrategy)
  case roots =>
    intro goal root hroot
    obtain ⟨name, -, hname⟩ := exists_of_rel_some (Option.mem_def.1 hroot ▸ hroots goal)
    exact lt_size_of_taskName? hrows hname
  case subtasks =>
    intro task row hrow id hid method hmethod subtask hsubtask
    exact existsIn_of_represented hlibrary hrows hrow hid hmethod hsubtask

end Domain

end AgentPlanning
