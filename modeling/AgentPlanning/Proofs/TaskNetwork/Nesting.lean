import AgentPlanning.Proofs.TaskNetwork.Answers
import AgentPlanning.Proofs.TaskNetwork.Budgets
import AgentPlanning.Proofs.TaskNetwork.Faults
import Mathlib.Data.List.Perm.Subperm

/-!
# How Deeply Tasks are Nested

The stack of a decomposition is always a path through the network: every task on it is a subtask of
the method that the task below has selected. So the stack runs full only if there is a path that is
longer than the budget, and a path without repetitions is no longer than the number of tasks. Main
statements:

* `Decomposition.nested_of_stepped`: every step leaves a path from the root on the stack;
* `Decomposition.exists_chain_of_tooDeep`: a run that is too deep has found a path that does not fit
  on the stack;
* `TaskNetwork.length_le_of_acyclic`: a path of an acyclic network visits no task twice;
* `TaskPlanner.nesting_of_tooDeep`: when a planner reports that tasks are nested too deeply.
-/

namespace AgentPlanning

namespace TaskNetwork

/-- `child` is a subtask of a method of `task` that applies in the state. -/
def Nests (network : TaskNetwork) (state : WorldState) (task child : TaskId) : Prop :=
  ∃ id row, network.HasMethod state task id row ∧ .compound child ∈ network.subtasksOf row

/-- `child` is a subtask of a method of `task`, in whatever states the method applies. -/
def RefersTo (network : TaskNetwork) (task child : TaskId) : Prop :=
  ∃ entry, network.task? task = some entry ∧ ∃ id ∈ entry.methodIds,
    ∃ row, network.method? id = some row ∧ .compound child ∈ network.subtasksOf row

/-- The subtasks of all methods of a task. -/
def references (network : TaskNetwork) (task : TaskId) : List Subtask :=
  (network.task? task).toList.flatMap fun entry => entry.methodIds.flatMap fun id =>
    (network.method? id).toList.flatMap network.subtasksOf

theorem refersTo_iff {network : TaskNetwork} {task child : TaskId} :
    network.RefersTo task child ↔ .compound child ∈ network.references task := by
  simp only [RefersTo, references, List.mem_flatMap, Option.mem_toList]

instance (network : TaskNetwork) (task child : TaskId) :
    Decidable (network.RefersTo task child) :=
  decidable_of_iff _ refersTo_iff.symm

/-- No task refers back to itself, not even through other tasks. -/
def Acyclic (network : TaskNetwork) : Prop :=
  ∀ task, ¬Relation.TransGen network.RefersTo task task

end TaskNetwork

/-! ## The path on the stack -/

namespace Decomposition

open TaskNetwork

variable {network : TaskNetwork} {state : WorldState} {budget : DecompositionBudget}
  {root : TaskId} {d next : Decomposition} {f g : Frame} {below : List Frame}

/-- The frames form a path that begins with the root: each nests the one above it. A frame that has
selected a method has selected one that applies. -/
structure Nested (network : TaskNetwork) (state : WorldState) (root : TaskId)
    (frames : List Frame) : Prop where
  path : (frames.map (·.task)).IsChain fun inner outer => network.Nests state outer inner
  start : ∀ task ∈ (frames.map (·.task)).getLast?, task = root
  chosen : ∀ f ∈ frames, ∀ id, f.method = some id → ∃ row, network.HasMethod state f.task id row

namespace Nested

/-- A frame without a method, for the root alone. -/
theorem single (hmethod : f.method = none) (htask : f.task = root) :
    Nested network state root [f] where
  path := .singleton _
  start task h := (Option.some.inj h).symm.trans htask
  chosen g hg id hid := by
    obtain rfl := List.mem_singleton.1 hg
    cases hmethod.symm.trans hid

/-- The innermost task is taken off the stack. -/
theorem tail (h : Nested network state root (f :: below)) : Nested network state root below where
  path := h.path.tail
  start task htask := by
    cases below with
    | nil => cases htask
    | cons => exact h.start task htask
  chosen g hg := h.chosen g (List.mem_cons_of_mem _ hg)

/-- The innermost task goes on, perhaps with another method. -/
theorem replace (h : Nested network state root (f :: below)) (htask : g.task = f.task)
    (hmethod : ∀ id, g.method = some id → ∃ row, network.HasMethod state f.task id row) :
    Nested network state root (g :: below) where
  path := by
    rw [List.map_cons, htask]
    exact h.path
  start := by
    rw [List.map_cons, htask]
    exact h.start
  chosen := by
    refine List.forall_mem_cons.2 ⟨?_, (List.forall_mem_cons.1 h.chosen).2⟩
    rwa [htask]

/-- The innermost task goes on with its method. -/
theorem advance (h : Nested network state root (f :: below)) :
    Nested network state root ({ f with position := f.position + 1 } :: below) :=
  h.replace rfl (h.chosen f List.mem_cons_self)

/-- A task is put on the stack that the innermost one nests. -/
theorem push (h : Nested network state root (f :: below))
    (hnests : network.Nests state f.task g.task) (hmethod : g.method = none) :
    Nested network state root (g :: f :: below) where
  path := .cons_cons hnests h.path
  start := h.start
  chosen := by
    refine List.forall_mem_cons.2 ⟨fun id hid => ?_, h.chosen⟩
    cases hmethod.symm.trans hid

theorem getLast?_eq_root (h : Nested network state root (f :: below)) :
    ((f :: below).map (·.task)).getLast? = some root := by
  cases hlast : ((f :: below).map (·.task)).getLast? with
  | none => simp at hlast
  | some task => rw [h.start task hlast]

end Nested

/-- A subtask of the method that the innermost frame has selected is nested in its task. -/
theorem nests_of_subtask (h : Nested network state root (f :: below)) {id : MethodId}
    {entry : MethodRow} {task : TaskId} (hmethod : f.method = some id)
    (hentry : network.method? id = some entry)
    (hget : (network.subtasksOf entry)[f.position]? = some (.compound task)) :
    network.Nests state f.task task := by
  obtain ⟨row, hrow⟩ := h.chosen f List.mem_cons_self id hmethod
  obtain rfl : row = entry := Option.some.inj (hrow.found.symm.trans hentry)
  exact ⟨id, row, hrow, List.mem_of_getElem? hget⟩

/-- Whichever method is selected next applies. -/
theorem exists_hasMethod_of_nextMethod? {task : TaskId} {lastTried : Option MethodKey}
    {key : MethodKey} (h : network.nextMethod? task state lastTried = some key) :
    ∃ row, network.HasMethod state task key.method row := by
  rw [network.nextMethod?_eq_head?] at h
  have hmem : key ∈ network.preferences task state :=
    (List.mem_filter.1 (List.mem_of_mem_head? h)).1
  obtain ⟨row, hrow, -⟩ := mem_preferences.1 hmem
  exact ⟨row, hrow⟩

/-- Every step leaves a path from the root on the stack. -/
theorem nested_of_stepped (h : Stepped network state budget d next)
    (hd : Nested network state root d.frames) : Nested network state root next.frames := by
  -- Only a task that is entered makes the path longer; nothing changes the tasks below the top.
  cases h with
  | selected _ _ hnext =>
    refine hd.replace rfl fun id hid => ?_
    obtain rfl := Option.some.inj hid
    exact exists_hasMethod_of_nextMethod? hnext
  | backtracked => exact hd.tail.replace rfl fun _ hid => by cases hid
  | completed => exact hd.tail
  | emitted => exact hd.advance
  | entered hmethod hentry hget =>
    refine hd.advance.push ?_ rfl
    exact nests_of_subtask hd hmethod hentry hget

/-- There is no room for the root only if there is no room at all. -/
theorem depth_eq_zero_of_enter {ended : DecompositionEnd}
    (h : enter budget {} root = .error ended) :
    budget.depth = 0 ∧ ended.outcome = .error (.tooDeep budget.depth) := by
  rw [enter] at h
  split at h
  next => cases h
  next hfull =>
    obtain rfl := Except.error.inj h
    exact ⟨Nat.eq_zero_of_not_pos hfull, rfl⟩

theorem nested_of_enter (h : enter budget {} root = .ok d) :
    Nested network state root d.frames := by
  rw [enter] at h
  split at h
  next =>
    obtain rfl := Except.ok.inj h
    exact .single rfl rfl
  next => cases h

/-- The tasks of a full stack and the one that does not fit on it are a path. -/
theorem exists_chain_of_stopped {ended : DecompositionEnd} {limit : Nat}
    (hd : Bounded budget d) (hnested : Nested network state root d.frames)
    (h : Stopped network state budget root d ended)
    (houtcome : ended.outcome = .error (.tooDeep limit)) :
    limit = budget.depth ∧ ∃ chain : List TaskId, chain.length = budget.depth + 1 ∧
      chain.head? = some root ∧ chain.IsChain (network.Nests state) := by
  cases h with
  | done | tooManySelections | undecomposable | unknownMethod | tooLong => cases houtcome
  | @tooDeep f below output stats id entry task hmethod hentry hget hfull =>
    obtain rfl := PlanError.tooDeep.inj (Except.error.inj houtcome)
    have hheight : below.length + 1 = budget.depth := Nat.le_antisymm hd.frames_le hfull
    -- The path from the root outwards is the stack from the bottom up.
    refine ⟨rfl, (task :: (f :: below).map (·.task)).reverse, ?_, ?_, List.isChain_reverse.2 ?_⟩
    · simp [hheight]
    · rw [List.head?_reverse]
      exact hnested.getLast?_eq_root
    · exact .cons_cons (nests_of_subtask hnested hmethod hentry hget) hnested.path

/-- If the stack runs full, there is a path from the root that does not fit on it. -/
theorem exists_chain_of_tooDeep {limit : Nat}
    (h : (run network state budget root).outcome = .error (.tooDeep limit)) :
    limit = budget.depth ∧ ∃ chain : List TaskId, chain.length = budget.depth + 1 ∧
      chain.head? = some root ∧ chain.IsChain (network.Nests state) := by
  by_cases hroot : root < network.size
  · cases henter : enter budget {} root with
    | error ended =>
      -- The root alone is too much for an empty stack.
      obtain ⟨hdepth, houtcome⟩ := depth_eq_zero_of_enter henter
      rw [run, reset_eq, if_pos hroot, henter] at h
      obtain rfl := PlanError.tooDeep.inj (Except.error.inj (houtcome.symm.trans h))
      exact ⟨rfl, [root], by rw [hdepth]; rfl, rfl, .singleton _⟩
    | ok first =>
      have hrun := runWithin_of_enter state hroot henter
      obtain ⟨d, ⟨hbounded, hnested⟩, hstep⟩ := exists_step_of_runWithin
        (P := fun d => Bounded budget d ∧ Nested network state root d.frames)
        (fun _ _ hd hstep => ⟨bounded_of_stepped (stepped_of_step hstep) hd.1,
          nested_of_stepped (stepped_of_step hstep) hd.2⟩)
        ⟨bounded_of_enter henter (bounded_empty budget), nested_of_enter henter⟩ hrun
      exact exists_chain_of_stopped hbounded hnested (stopped_of_step hstep) h
  · rw [run, if_neg hroot] at h
    cases h

end Decomposition

/-! ## Paths without repetitions -/

namespace TaskNetwork

variable {network : TaskNetwork} {state : WorldState} {task child : TaskId}

theorem Nests.refersTo (h : network.Nests state task child) : network.RefersTo task child := by
  obtain ⟨id, row, hmethod, hchild⟩ := h
  obtain ⟨entry, hentry, hid⟩ := hmethod.own
  exact ⟨entry, hentry, id, hid, row, hmethod.found, hchild⟩

/-- The tasks that a network refers to exist. -/
theorem RefersTo.lt_size {tasks : List Task} {actionCount : Nat}
    (hnetwork : ofTasks tasks actionCount = .ok network) (h : network.RefersTo task child) :
    child < network.size := by
  obtain ⟨hnone, rfl⟩ := ofTasks_eq_ok_iff.1 hnetwork
  obtain ⟨entry, hentry, id, hid, row, hrow, hchild⟩ := h
  have hreads := reads_flatten tasks
  -- The method whose subtask it is belongs to one of the tasks.
  obtain ⟨source, hsource, hmethod⟩ := hreads.exists_methodOf_mem hentry hid hrow
  rw [hreads.size]
  exact lt_length_of_faults_eq_nil hnone hsource hmethod hchild

/-- A path of an acyclic network visits no task twice, so it is no longer than there are tasks. -/
theorem length_le_of_acyclic {chain : List TaskId} (hacyclic : network.Acyclic)
    (hchain : chain.IsChain network.RefersTo) (hsize : ∀ task ∈ chain, task < network.size) :
    chain.length ≤ network.size := by
  -- Every task on the path leads to all the tasks after it, so it is none of them.
  have hpairwise : chain.Pairwise (Relation.TransGen network.RefersTo) :=
    List.isChain_iff_pairwise.1 (hchain.imp fun _ _ => Relation.TransGen.single)
  have hnodup : chain.Nodup := by
    refine hpairwise.imp fun hpath heq => ?_
    rw [heq] at hpath
    exact hacyclic _ hpath
  have hsubset : chain ⊆ List.range network.size := fun task htask =>
    List.mem_range.2 (hsize task htask)
  have hlength := (hnodup.subperm hsubset).length_le
  rwa [List.length_range] at hlength

/-- A path from a task of a network stays among the tasks of the network. If there are no cycles, it
is no longer than there are tasks. -/
theorem length_le_of_head? {tasks : List Task} {actionCount : Nat} {root : TaskId}
    {chain : List TaskId} (hnetwork : ofTasks tasks actionCount = .ok network)
    (hacyclic : network.Acyclic) (hroot : root < network.size) (hhead : chain.head? = some root)
    (hchain : chain.IsChain network.RefersTo) : chain.length ≤ network.size := by
  refine length_le_of_acyclic hacyclic hchain ?_
  refine hchain.induction (· < network.size) chain ?_ ?_
  · intro task child hrefers _
    exact hrefers.lt_size hnetwork
  · intro hne
    rw [List.head?_eq_some_head hne] at hhead
    rwa [Option.some.inj hhead]

/-- A network in which every reference goes to a later task has no cycles. -/
theorem acyclic_of_lt (h : ∀ task child, network.RefersTo task child → task < child) :
    network.Acyclic := by
  intro task hpath
  have hlater : ∀ child, Relation.TransGen network.RefersTo task child → task < child := by
    intro child hpath
    induction hpath with
    | single hrefers => exact h _ _ hrefers
    | tail _ hrefers ih => exact ih.trans (h _ _ hrefers)
  exact Nat.lt_irrefl _ (hlater task hpath)

end TaskNetwork

/-! ## The answers of a planner -/

namespace TaskPlanner

open TaskNetwork

theorem plan_eq_error {planner : TaskPlanner} {network : TaskNetwork} {state : WorldState}
    {root : TaskId} {reason : PlanError}
    (h : (planner.plan network state root).1 = .error reason) :
    (Decomposition.run network state planner.budget root).outcome = .error reason := by
  rw [plan, Decomposition.run_left planner.latest] at h
  dsimp only at h
  split at h
  next => cases h
  next found houtcome =>
    obtain rfl := Except.error.inj h
    exact houtcome

/-- A planner reports that tasks are nested too deeply only where there is a path of one task more
than the budget allows, from the root on, in which every task is a subtask of a method of the one
before that applies in the state. If no task refers back to itself and the budget allows as many
tasks as there are, it never does. -/
theorem nesting_of_tooDeep {tasks : List Task} {actionCount : Nat} {network : TaskNetwork}
    (hnetwork : ofTasks tasks actionCount = .ok network) (planner : TaskPlanner)
    (state : WorldState) (root : TaskId) :
    (∀ limit, (planner.plan network state root).1 = .error (.tooDeep limit) →
      limit = planner.budget.depth ∧
      ∃ chain : List TaskId, chain.length = planner.budget.depth + 1 ∧
        chain.head? = some root ∧ chain.IsChain (network.Nests state)) ∧
    (network.Acyclic → network.size ≤ planner.budget.depth →
      ∀ limit, (planner.plan network state root).1 ≠ .error (.tooDeep limit)) := by
  refine ⟨fun limit h => Decomposition.exists_chain_of_tooDeep (plan_eq_error h),
    fun hacyclic hdepth limit h => ?_⟩
  -- The path that does not fit on the stack would be longer than there are tasks.
  obtain ⟨-, chain, hlength, hhead, hchain⟩ :=
    Decomposition.exists_chain_of_tooDeep (plan_eq_error h)
  by_cases hroot : root < network.size
  · have hrefers : chain.IsChain network.RefersTo := hchain.imp fun _ _ => Nests.refersTo
    have hle := length_le_of_head? hnetwork hacyclic hroot hhead hrefers
    omega
  · rw [planner.fst_plan_of_size_le network state root hroot] at h
    cases h

/-- Three tasks, each of which but the last is done by doing the next one. -/
def ladder : List Task := [
  { name := "top", methods := [{ name := "descend", subtasks := [.compound 1] }] },
  { name := "middle", methods := [{ name := "descend", subtasks := [.compound 2] }] },
  { name := "bottom", methods := [{ name := "arrive", subtasks := [.action 0] }] }]

theorem acyclic_ladder : (flatten ladder).Acyclic := by
  have hnetwork : ofTasks ladder 1 = .ok (flatten ladder) := by decide +kernel
  have hlater : ∀ task < 3, ∀ child < 3, (flatten ladder).RefersTo task child → task < child := by
    decide +kernel
  refine acyclic_of_lt fun task child hrefers => ?_
  have ⟨entry, hentry, _⟩ := hrefers
  have htask : task < 3 := (Array.getElem?_eq_some_iff.1 hentry).1
  exact hlater task htask child (hrefers.lt_size hnetwork) hrefers

/-- There is no way down with room for two tasks, and with room for three there is. -/
theorem nesting_of_ladder :
    ofTasks ladder 1 = .ok (flatten ladder) ∧
    (((ofBudget { depth := 2 }).plan (flatten ladder) .empty 0).1 = .error (.tooDeep 2) ∧
      ∃ chain : List TaskId, chain.length = 3 ∧ chain.head? = some 0 ∧
        chain.IsChain ((flatten ladder).Nests .empty)) ∧
    ((flatten ladder).Acyclic ∧ (flatten ladder).size ≤ 3 ∧
      ∀ limit, ((ofBudget { depth := 3 }).plan (flatten ladder) .empty 0).1 ≠
        .error (.tooDeep limit)) := by
  have hnetwork : ofTasks ladder 1 = .ok (flatten ladder) := by decide +kernel
  have hplan : ((ofBudget { depth := 2 }).plan (flatten ladder) .empty 0).1 =
      .error (.tooDeep 2) := by
    decide +kernel
  have hsize : (flatten ladder).size ≤ 3 := by decide +kernel
  obtain ⟨-, hchain⟩ := (nesting_of_tooDeep hnetwork (ofBudget { depth := 2 }) .empty 0).1 2 hplan
  exact ⟨hnetwork, ⟨hplan, hchain⟩, acyclic_ladder, hsize,
    (nesting_of_tooDeep hnetwork (ofBudget { depth := 3 }) .empty 0).2 acyclic_ladder hsize⟩

end TaskPlanner

end AgentPlanning
