import AgentPlanning.Proofs.Correspondence
import AgentPlanning.Proofs.TaskNetwork.Answers
import AgentPlanning.Proofs.TaskNetwork.Budgets

/-!
# What the Frames Have Emitted

Every frame remembers how long the output was when the frame was entered, and falls back to that
length when its method fails. At every point of a decomposition these lengths divide the output up
among the frames, and the part of each frame consists of the plans of the subtasks that its current
method has completed. So backtracking takes back what the failed method has emitted and nothing
else. Main statements:

* `DecompositionTree.eq_of_isPreferred`: a subtask has one plan;
* `accounted_of_stepped`: every step accounts for the whole output, frame by frame;
* `divided_of_accounted`: the parts of the frames are the plans of what they have completed;
* `divided_of_mem_trail`: what the frames have emitted wherever a step begins, and what a dead end
  takes back.
-/

namespace AgentPlanning

/-! ## The plan for a subtask -/

namespace TaskNetwork

variable {network : TaskNetwork} {state : WorldState}

/-- The plan for an action is the action alone; that for a task consists of the leaves of its
preferred decomposition tree. -/
def IsPlanFor (network : TaskNetwork) (state : WorldState) (subtask : Subtask)
    (plan : List ActionId) : Prop :=
  ∃ tree : DecompositionTree, tree.subtask = subtask ∧ tree.IsDecomposition network state ∧
    tree.IsPreferred network state ∧ tree.leaves = plan

/-- The actions are the plans for the given subtasks, one after the other. -/
def ArePlansFor (network : TaskNetwork) (state : WorldState) (subtasks : List Subtask)
    (actions : List ActionId) : Prop :=
  ∃ plans, List.Forall₂ (network.IsPlanFor state) subtasks plans ∧ plans.flatten = actions

theorem ArePlansFor.eq_nil {actions : List ActionId} (h : network.ArePlansFor state [] actions) :
    actions = [] := by
  obtain ⟨plans, hplans, rfl⟩ := h
  obtain rfl := List.forall₂_nil_left_iff.1 hplans
  rfl

theorem IsBestMethod.unique {task : TaskId} {id other : MethodId} {row otherRow : MethodRow}
    (h : network.IsBestMethod state task id row)
    (h' : network.IsBestMethod state task other otherRow) : id = other ∧ row = otherRow := by
  -- Each of the two keys is no later than the other.
  have hle := h.least other otherRow h'.method h'.feasible
  have hge := h'.least id row h.method h.feasible
  rw [UInt32.lt_iff_toNat_lt, ← UInt32.toNat_inj] at hle hge
  have hkey : (⟨row.cost.toNat, id⟩ : MethodKey) = ⟨otherRow.cost.toNat, other⟩ :=
    MethodKey.le_antisymm (MethodKey.le_iff.2 hle) (MethodKey.le_iff.2 hge)
  obtain rfl : id = other := congrArg MethodKey.method hkey
  exact ⟨rfl, Option.some.inj (h.method.found.symm.trans h'.method.found)⟩

end TaskNetwork

namespace DecompositionTree

variable {network : TaskNetwork} {state : WorldState}

theorem IsPreferred.of_task {task : TaskId} {id : MethodId} {parts : List DecompositionTree}
    (h : (DecompositionTree.task task id parts).IsPreferred network state) :
    (∃ row, network.IsBestMethod state task id row) ∧
      ∀ part ∈ parts, part.IsPreferred network state := by
  cases h with
  | task best each => exact ⟨⟨_, best⟩, each⟩

/-- There is only one preferred decomposition tree for a subtask. -/
theorem eq_of_isPreferred {s t : DecompositionTree} (hs : s.IsDecomposition network state)
    (hs' : s.IsPreferred network state) (ht : t.IsDecomposition network state)
    (ht' : t.IsPreferred network state) (h : s.subtask = t.subtask) : s = t := by
  induction hs generalizing t with
  | action a =>
    cases ht with
    | action b => rw [Subtask.action.inj h]
    | task => cases h
  | @task task id row parts hmethod hsubtasks hparts ih =>
    cases ht with
    | action => cases h
    | @task _ other otherRow otherParts hmethod' hsubtasks' hparts' =>
      obtain rfl := Subtask.compound.inj h
      -- Both trees begin with the best method, so their parts are for the same subtasks.
      obtain ⟨⟨_, hbest⟩, heach⟩ := hs'.of_task
      obtain ⟨⟨_, hbest'⟩, heach'⟩ := ht'.of_task
      obtain ⟨rfl, -⟩ := hbest.unique hbest'
      obtain rfl : row = otherRow := Option.some.inj (hmethod.found.symm.trans hmethod'.found)
      have hmap : parts.map subtask = otherParts.map subtask := hsubtasks.trans hsubtasks'.symm
      have hlength : parts.length = otherParts.length := by
        simpa using congrArg List.length hmap
      refine congrArg _ (List.ext_getElem hlength fun i hi hi' => ?_)
      have hget : parts[i].subtask = otherParts[i].subtask := by
        simpa [hi, hi'] using congrArg (·[i]?) hmap
      exact ih _ (List.getElem_mem hi) (heach _ (List.getElem_mem hi))
        (hparts' _ (List.getElem_mem hi')) (heach' _ (List.getElem_mem hi')) hget

end DecompositionTree

namespace TaskNetwork

variable {network : TaskNetwork} {state : WorldState}

theorem IsPlanFor.unique {subtask : Subtask} {plan other : List ActionId}
    (h : network.IsPlanFor state subtask plan) (h' : network.IsPlanFor state subtask other) :
    plan = other := by
  obtain ⟨tree, rfl, htree, hpreferred, rfl⟩ := h
  obtain ⟨tree', hsubtask, htree', hpreferred', rfl⟩ := h'
  rw [DecompositionTree.eq_of_isPreferred htree hpreferred htree' hpreferred' hsubtask.symm]

theorem DoneBy.eq_of_nil {output final : List ActionId}
    (h : network.DoneBy state output [] final) : final = output := by
  obtain ⟨parts, hsubtasks, -, rfl⟩ := h
  obtain rfl := List.map_eq_nil_iff.1 hsubtasks
  exact List.append_nil output

theorem DoneBy.take {output final : List ActionId} {subtasks : List Subtask} {start : Nat}
    (h : network.DoneBy state output subtasks final) (hstart : start = output.length) :
    final.take start = output := by
  obtain ⟨_, -, -, rfl⟩ := h
  rw [hstart, List.take_left]

/-- What is emitted for the subtasks are the plans for them. -/
theorem DoneBy.exists_arePlansFor {output final : List ActionId} {subtasks : List Subtask}
    (h : network.DoneBy state output subtasks final) :
    ∃ emitted, network.ArePlansFor state subtasks emitted ∧ final = output ++ emitted := by
  obtain ⟨parts, rfl, hparts, rfl⟩ := h
  refine ⟨_, ⟨parts.map DecompositionTree.leaves, ?_, rfl⟩, rfl⟩
  rw [List.forall₂_map_left_iff, List.forall₂_map_right_iff, List.forall₂_same]
  exact fun part hpart => ⟨part, rfl, (hparts part hpart).1, (hparts part hpart).2, rfl⟩

theorem DoneBy.isPlanFor {subtask : Subtask} {final : List ActionId}
    (h : network.DoneBy state [] [subtask] final) : network.IsPlanFor state subtask final := by
  obtain ⟨emitted, ⟨plans, hplans, rfl⟩, rfl⟩ := h.exists_arePlansFor
  obtain ⟨plan, _, hplan, hnil, rfl⟩ := List.forall₂_cons_left_iff.1 hplans
  obtain rfl := List.forall₂_nil_left_iff.1 hnil
  simpa using hplan

end TaskNetwork

/-! ## What the frames have completed -/

namespace Decomposition

open TaskNetwork

variable {network : TaskNetwork} {state : WorldState} {budget : DecompositionBudget}
  {root task : TaskId} {d next : Decomposition} {f : Frame} {below : List Frame}
  {id : MethodId} {entry : MethodRow}

/-- The subtasks of its current method that a frame has taken up; without a method there are
none. -/
def takenUp (network : TaskNetwork) (f : Frame) : List Subtask :=
  match f.method.bind network.method? with
  | none => []
  | some entry => (network.subtasksOf entry).take f.position

/-- The subtasks that each frame has completed, the innermost frame first. With another frame on
top, the subtask that was taken up last is still in progress. -/
def completed (network : TaskNetwork) : List Frame → List (List Subtask)
  | [] => []
  | top :: below => takenUp network top :: below.map fun f => (takenUp network f).dropLast

/-- The part of the output that each frame has emitted, the innermost frame first: it begins where
the frame was entered and ends where the next one was. -/
def partsOf : List Frame → List ActionId → List (List ActionId)
  | [], _ => []
  | f :: below, output => output.drop f.outputStart :: partsOf below (output.take f.outputStart)

theorem toList_take (output : Array ActionId) (n : Nat) :
    (output.take n).toList = output.toList.take n := by
  rw [Array.take_eq_extract, Array.toList_extract, List.extract_eq_take_drop, List.drop_zero,
    Nat.sub_zero]

theorem takenUp_of_none (h : f.method = none) : takenUp network f = [] := by
  rw [takenUp, h, Option.bind_none]

theorem takenUp_of_position (h : f.position = 0) : takenUp network f = [] := by
  rw [takenUp]
  split
  · rfl
  · rw [h, List.take_zero]

theorem takenUp_of_some (hmethod : f.method = some id) (hentry : network.method? id = some entry) :
    takenUp network f = (network.subtasksOf entry).take f.position := by
  rw [takenUp, hmethod, Option.bind_some, hentry]

theorem takenUp_advance (hmethod : f.method = some id) (hentry : network.method? id = some entry)
    {subtask : Subtask} (hget : (network.subtasksOf entry)[f.position]? = some subtask) :
    takenUp network { f with position := f.position + 1 } = takenUp network f ++ [subtask] := by
  have hnew : takenUp network { f with position := f.position + 1 } =
      (network.subtasksOf entry).take (f.position + 1) := takenUp_of_some hmethod hentry
  rw [hnew, takenUp_of_some hmethod hentry, List.take_add_one, hget, Option.toList_some]

theorem takenUp_of_done (hmethod : f.method = some id) (hentry : network.method? id = some entry)
    (hget : (network.subtasksOf entry)[f.position]? = none) :
    takenUp network f = network.subtasksOf entry := by
  rw [takenUp_of_some hmethod hentry]
  exact List.take_of_length_le (List.getElem?_eq_none_iff.1 hget)

theorem mem_subtasksAt_of_mem_takenUp {key : MethodKey} (hmethod : f.method = some key.method)
    {subtask : Subtask} (h : subtask ∈ takenUp network f) : subtask ∈ network.subtasksAt key := by
  rw [takenUp, hmethod, Option.bind_some] at h
  rw [subtasksAt]
  cases hentry : network.method? key.method with
  | none =>
    rw [hentry] at h
    cases h
  | some entry =>
    rw [hentry] at h
    exact List.mem_of_mem_take h

/-! ## What the selections of a frame have shown -/

/-- The frame has tried the methods of its task in order of preference. -/
structure Tried (network : TaskNetwork) (state : WorldState) (f : Frame) : Prop where
  /-- The method that it carries out applies, and was selected last. -/
  current : ∀ id, f.method = some id → ∃ row, network.HasMethod state f.task id row ∧
    f.lastTried = some ⟨row.cost.toNat, id⟩
  /-- The other methods that it cannot select any more cannot be carried out. -/
  failed : ∀ key ∈ network.preferences f.task state,
    key ∉ network.remaining f.task state f.lastTried → f.method ≠ some key.method →
      ¬network.Feasible state (network.subtasksAt key)

namespace Tried

/-- A frame that was just entered can select any method. -/
theorem entered (network : TaskNetwork) (state : WorldState) (task : TaskId) (start : Nat) :
    Tried network state { task, outputStart := start } where
  current _ h := by cases h
  failed key hkey hnot := by
    rw [network.remaining_none] at hnot
    exact absurd hkey hnot

theorem advance (h : Tried network state f) :
    Tried network state { f with position := f.position + 1 } :=
  ⟨h.current, h.failed⟩

theorem selected (h : Tried network state f) (hmethod : f.method = none) {key : MethodKey}
    (hnext : network.nextMethod? f.task state f.lastTried = some key) :
    Tried network state
      { f with method := some key.method, position := 0, lastTried := some key } := by
  rw [network.nextMethod?_eq_head?] at hnext
  obtain ⟨keys, hkeys⟩ := List.head?_eq_some_iff.1 hnext
  have hmem : key ∈ network.remaining f.task state f.lastTried := hkeys ▸ List.mem_cons_self
  refine ⟨fun id hid => ?_, fun other hother hnot hne => ?_⟩
  · obtain rfl := Option.some.inj hid
    obtain ⟨row, hrow, hcost⟩ := mem_preferences.1 (List.mem_filter.1 hmem).1
    exact ⟨row, hrow, by rw [← hcost]⟩
  · -- It is neither the selected method nor one of those that remain after it.
    refine h.failed other hother (fun hremains => ?_) (by rw [hmethod]; exact nofun)
    rw [hkeys] at hremains
    rcases List.mem_cons.1 hremains with rfl | hlater
    · exact hne rfl
    · exact hnot ((remaining_some hkeys).symm ▸ hlater)

/-- A frame that finds no method has a task without a decomposition. -/
theorem not_decomposable (h : Tried network state f) (hmethod : f.method = none)
    (hnext : network.nextMethod? f.task state f.lastTried = none) :
    ¬network.Decomposable state f.task := by
  intro hdecomposable
  obtain ⟨id, row, hrow, hfeasible⟩ := exists_feasible_of_decomposable hdecomposable
  rw [network.nextMethod?_eq_head?, List.head?_eq_none_iff] at hnext
  refine h.failed ⟨row.cost.toNat, id⟩ (mem_preferences.2 ⟨row, hrow, rfl⟩) ?_ ?_ ?_
  · rw [hnext]
    exact List.not_mem_nil
  · rw [hmethod]
    exact nofun
  · rwa [hrow.subtasksAt_eq]

/-- The method of a frame is given up because one of its subtasks has no decomposition. -/
theorem backtracked (h : Tried network state f) (htask : .compound task ∈ takenUp network f)
    (hnot : ¬network.Decomposable state task) : Tried network state { f with method := none } := by
  refine ⟨fun _ hid => (by cases hid), fun key hkey hgone _ hfeasible => ?_⟩
  by_cases hmethod : f.method = some key.method
  · exact hnot (hfeasible task (mem_subtasksAt_of_mem_takenUp hmethod htask))
  · exact h.failed key hkey hgone hmethod hfeasible

/-- A method that is carried out is the best one, since those before it have failed. -/
theorem isBestMethod (h : Tried network state f) (hmethod : f.method = some id)
    (hentry : network.method? id = some entry)
    (hfeasible : network.Feasible state (network.subtasksOf entry)) :
    network.IsBestMethod state f.task id entry := by
  obtain ⟨row, hrow, hlast⟩ := h.current id hmethod
  obtain rfl : row = entry := Option.some.inj (hrow.found.symm.trans hentry)
  refine ⟨hrow, hfeasible, fun other otherRow hother hotherFeasible => ?_⟩
  rw [UInt32.lt_iff_toNat_lt, ← UInt32.toNat_inj]
  by_cases hsame : id = other
  · subst hsame
    obtain rfl : row = otherRow := Option.some.inj (hrow.found.symm.trans hother.found)
    exact .inr ⟨rfl, Nat.le_refl _⟩
  · -- The other method remains, so it comes later.
    have hremains : ⟨otherRow.cost.toNat, other⟩ ∈ network.remaining f.task state f.lastTried := by
      refine Classical.byContradiction fun hgone => ?_
      refine h.failed _ (mem_preferences.2 ⟨otherRow, hother, rfl⟩) hgone ?_ ?_
      · rw [hmethod]
        exact fun heq => hsame (Option.some.inj heq)
      · rwa [hother.subtasksAt_eq]
    have hlater := (List.mem_filter.1 hremains).2
    rw [hlast] at hlater
    exact MethodKey.le_iff.1 (MethodKey.le_of_lt hlater)

end Tried

/-! ## Accounting for the output -/

/-- The frames are waiting for `task`, which was entered with the given output. Each of them has
emitted what its completed subtasks have, and is at work on a task on top of it. -/
inductive Waiting (network : TaskNetwork) (state : WorldState) (root : TaskId) :
    List Frame → TaskId → List ActionId → Prop where
  /-- Nothing waits for the root. -/
  | root : Waiting network state root [] root []
  /-- A frame waits for the subtask that it has taken up last. -/
  | nested {f : Frame} {below : List Frame} {task : TaskId} {before output : List ActionId}
      {done : List Subtask} (outer : Waiting network state root below f.task before)
      (start : f.outputStart = before.length) (tried : Tried network state f)
      (takenUp_eq : takenUp network f = done ++ [.compound task])
      (share : network.DoneBy state before done output) :
      Waiting network state root (f :: below) task output

/-- The output is accounted for: the innermost frame has emitted what the subtasks that it has taken
up have, and the others wait for it. -/
inductive Accounted (network : TaskNetwork) (state : WorldState) (root : TaskId) :
    List Frame → List ActionId → Prop where
  /-- Nothing is left to do. -/
  | finished {output : List ActionId} (plan : network.DoneBy state [] [.compound root] output) :
      Accounted network state root [] output
  /-- The innermost frame is at work. -/
  | working {f : Frame} {below : List Frame} {before output : List ActionId}
      (outer : Waiting network state root below f.task before)
      (start : f.outputStart = before.length) (tried : Tried network state f)
      (share : network.DoneBy state before (takenUp network f) output) :
      Accounted network state root (f :: below) output

/-- When the task is done for which the frames were waiting, the next one goes on. -/
theorem Waiting.resume {before output : List ActionId}
    (h : Waiting network state root below task before)
    (hdone : network.DoneBy state before [.compound task] output) :
    Accounted network state root below output := by
  cases h with
  | root => exact .finished hdone
  | nested outer start tried takenUp_eq share =>
    refine .working outer start tried ?_
    rw [takenUp_eq]
    exact share.append hdone

/-- Under a frame without a method, the next one waits with the plans for the subtasks that it has
completed, and falls back to the output that it was entered with. -/
theorem Accounted.falls_back {output : Array ActionId} {parent : Frame}
    (h : Accounted network state root (f :: parent :: below) output.toList)
    (hmethod : f.method = none) :
    Tried network state f ∧ f.outputStart = output.toList.length ∧ ∃ before done,
      Waiting network state root below parent.task before ∧
      parent.outputStart = before.length ∧ Tried network state parent ∧
      takenUp network parent = done ++ [.compound f.task] ∧
      network.DoneBy state before done output.toList ∧
      ((output.take f.outputStart).take parent.outputStart).toList = before := by
  obtain _ | ⟨outer, start, tried, share⟩ := h
  rw [takenUp_of_none hmethod] at share
  cases outer with
  | @nested _ _ _ before _ done outer start' tried' takenUp_eq share' =>
    obtain rfl := share.eq_of_nil
    refine ⟨tried, start, before, done, outer, start', tried', takenUp_eq, share', ?_⟩
    rw [toList_take, toList_take, share.take start, share'.take start']

/-- Every step accounts for the whole output, if the one before did. -/
theorem accounted_of_stepped (h : Stepped network state budget d next)
    (hd : Accounted network state root d.frames d.output.toList) :
    Accounted network state root next.frames next.output.toList := by
  cases h with
  | selected hmethod _ hnext =>
    obtain _ | ⟨outer, start, tried, share⟩ := hd
    refine .working outer start (tried.selected hmethod hnext) ?_
    -- The frame has emitted nothing, and its new method has not begun.
    rw [takenUp_of_none hmethod] at share
    rwa [takenUp_of_position rfl]
  | @backtracked f parent rest output stats hmethod _ hnext =>
    obtain ⟨tried, -, before, done, outer, start, tried', takenUp_eq, -, hback⟩ :=
      hd.falls_back hmethod
    have hmem : .compound f.task ∈ takenUp network parent := takenUp_eq ▸ List.mem_concat_self
    refine .working outer start
      (tried'.backtracked hmem (tried.not_decomposable hmethod hnext)) ?_
    rw [hback, takenUp_of_none rfl]
    exact .nil before
  | completed hmethod hentry hget =>
    obtain _ | ⟨outer, start, tried, share⟩ := hd
    rw [takenUp_of_done hmethod hentry hget] at share
    exact outer.resume (share.of_best (tried.isBestMethod hmethod hentry share.feasible))
  | emitted hmethod hentry hget =>
    obtain _ | ⟨outer, start, tried, share⟩ := hd
    refine .working outer start tried.advance ?_
    rw [takenUp_advance hmethod hentry hget, Array.toList_push]
    exact share.append (.action _ _)
  | @entered f below output stats id entry task hmethod hentry hget =>
    obtain _ | ⟨outer, start, tried, share⟩ := hd
    -- The frame waits for the new one, which has emitted nothing yet.
    have hwaiting : Waiting network state root ({ f with position := f.position + 1 } :: below) task
        output.toList :=
      .nested outer start tried.advance (takenUp_advance hmethod hentry hget) share
    exact .working hwaiting rfl (.entered network state _ _) (.nil _)

theorem accounted_of_enter (h : enter budget {} root = .ok d) :
    Accounted network state root d.frames d.output.toList := by
  rw [enter] at h
  split at h
  next =>
    obtain rfl := Except.ok.inj h
    exact .working .root rfl (.entered network state root _) (.nil [])
  next => cases h

/-- Wherever a step of a run begins, the whole output is accounted for. -/
theorem accounted_of_mem_trail (h : d ∈ network.trail state budget root) :
    Accounted network state root d.frames d.output.toList := by
  rw [TaskNetwork.trail] at h
  split at h
  next =>
    cases hfirst : enter budget {} root with
    | error =>
      rw [hfirst] at h
      cases h
    | ok first =>
      rw [hfirst] at h
      refine forall_mem_trail (P := fun d => Accounted network state root d.frames d.output.toList)
        ?_ _ (accounted_of_enter hfirst) d h
      exact fun _ _ hd hstep => accounted_of_stepped (stepped_of_step hstep) hd
  next => cases h

/-! ## The parts of the frames -/

/-- The output is divided up among the frames, from the outermost to the innermost. -/
structure Divided (network : TaskNetwork) (state : WorldState) (root : TaskId)
    (d : Decomposition) : Prop where
  /-- A frame was entered with no less output than those below it, and the output is no shorter
  now. -/
  ascending : ((d.frames.map (·.outputStart)).reverse ++ [d.output.size]).Pairwise (· ≤ ·)
  /-- A frame with another one on top is at work on the task of that one. -/
  inProgress : d.frames.IsChain fun inner outer =>
    (takenUp network outer).getLast? = some (.compound inner.task)
  /-- The part of each frame consists of the plans for the subtasks that it has completed. -/
  parts : List.Forall₂ (network.ArePlansFor state) (completed network d.frames)
    (partsOf d.frames d.output.toList)
  /-- There is nothing before the part of the outermost frame. -/
  whole : d.frames ≠ [] → (partsOf d.frames d.output.toList).reverse.flatten = d.output.toList
  /-- Without a frame left, the output is the plan for the root. -/
  finished : d.frames = [] → network.IsPlanFor state (.compound root) d.output.toList

theorem partsOf_cons {before emitted : List ActionId} (hstart : f.outputStart = before.length) :
    partsOf (f :: below) (before ++ emitted) = emitted :: partsOf below before := by
  rw [partsOf, hstart, List.drop_left, List.take_left]

theorem flatten_reverse_cons (emitted : List ActionId) (parts : List (List ActionId)) :
    (emitted :: parts).reverse.flatten = parts.reverse.flatten ++ emitted := by
  rw [List.reverse_cons, List.flatten_concat]

/-- A frame on top was entered after those below it. -/
theorem descending_cons {m n : Nat} {starts : List Nat} (h : (m :: starts).Pairwise (· ≥ ·))
    (hle : m ≤ n) : (n :: m :: starts).Pairwise (· ≥ ·) := by
  refine List.pairwise_cons.2 ⟨List.forall_mem_cons.2 ⟨hle, fun start hstart => ?_⟩, h⟩
  exact Nat.le_trans (List.rel_of_pairwise_cons h hstart) hle

namespace Waiting

variable {output : List ActionId}

theorem descending (h : Waiting network state root below task output) :
    (output.length :: below.map (·.outputStart)).Pairwise (· ≥ ·) := by
  induction h with
  | root => exact List.pairwise_singleton _ _
  | nested _ start _ _ share ih =>
    obtain ⟨emitted, -, rfl⟩ := share.exists_arePlansFor
    rw [List.map_cons, start]
    exact descending_cons ih (by simp)

theorem isChain (h : Waiting network state root below task output) (hf : f.task = task) :
    (f :: below).IsChain fun inner outer =>
      (takenUp network outer).getLast? = some (.compound inner.task) := by
  induction h generalizing f with
  | root => exact .singleton f
  | nested _ _ _ takenUp_eq _ ih =>
    refine .cons_cons ?_ (ih rfl)
    rw [takenUp_eq, List.getLast?_concat, hf]

/-- The frames that wait have emitted the plans for all their subtasks but the last one. -/
theorem parts (h : Waiting network state root below task output) :
    List.Forall₂ (network.ArePlansFor state)
        (below.map fun f => (takenUp network f).dropLast) (partsOf below output) ∧
      (partsOf below output).reverse.flatten = output := by
  induction h with
  | root => exact ⟨.nil, rfl⟩
  | nested _ start _ takenUp_eq share ih =>
    obtain ⟨emitted, hemitted, rfl⟩ := share.exists_arePlansFor
    rw [partsOf_cons start, flatten_reverse_cons, ih.2, List.map_cons, takenUp_eq,
      List.dropLast_concat]
    exact ⟨.cons hemitted ih.1, rfl⟩

end Waiting

theorem divided_of_accounted (h : Accounted network state root d.frames d.output.toList) :
    Divided network state root d := by
  obtain ⟨frames, output, stats⟩ := d
  dsimp only at h
  generalize hactions : output.toList = actions at h
  cases h with
  | finished plan =>
    subst hactions
    exact ⟨List.pairwise_singleton _ _, .nil, .nil, fun hne => absurd rfl hne,
      fun _ => plan.isPlanFor⟩
  | working outer start tried share =>
    obtain ⟨emitted, hemitted, rfl⟩ := share.exists_arePlansFor
    obtain ⟨hparts, hwhole⟩ := outer.parts
    refine ⟨?_, outer.isChain rfl, ?_, fun _ => ?_, fun hnil => by cases hnil⟩
    · rw [← List.reverse_cons, List.pairwise_reverse, List.map_cons, start]
      refine descending_cons outer.descending ?_
      simp [← Array.length_toList, hactions]
    · rw [hactions, partsOf_cons start]
      exact .cons hemitted hparts
    · rw [hactions, partsOf_cons start, flatten_reverse_cons, hwhole]

/-! ## Dead ends -/

theorem getElem?_completed_of_none {frames : List Frame} {i : Nat} (hf : frames[i]? = some f)
    (hmethod : f.method = none) : (completed network frames)[i]? = some [] := by
  cases frames with
  | nil => cases hf
  | cons top below =>
    cases i with
    | zero =>
      obtain rfl := Option.some.inj hf
      exact congrArg some (takenUp_of_none hmethod)
    | succ i =>
      rw [List.getElem?_cons_succ] at hf
      rw [completed, List.getElem?_cons_succ, List.getElem?_map, hf, Option.map_some,
        takenUp_of_none hmethod, List.dropLast_nil]

/-- A frame without a method has emitted nothing. -/
theorem Divided.part_of_none (h : Divided network state root d) {i : Nat}
    (hf : d.frames[i]? = some f) (hmethod : f.method = none) :
    (partsOf d.frames d.output.toList)[i]? = some [] := by
  have hrel := rel_getElem? h.parts i
  rw [getElem?_completed_of_none hf hmethod] at hrel
  generalize (partsOf d.frames d.output.toList)[i]? = part at hrel
  cases hrel with
  | some hplans => rw [hplans.eq_nil]

/-- A frame without a method on top of the stack has nothing to take back. -/
theorem Accounted.take_eq {output : Array ActionId}
    (h : Accounted network state root (f :: below) output.toList) (hmethod : f.method = none) :
    output.take f.outputStart = output := by
  obtain _ | ⟨-, start, -, share⟩ := h
  rw [takenUp_of_none hmethod] at share
  rw [← Array.toList_inj, toList_take, share.take start, share.eq_of_nil]

/-- When the frame on top finds no method, the one below it takes back the plans for the subtasks
that its method had completed. -/
theorem exists_failed_of_backtrack (hd : Accounted network state root d.frames d.output.toList)
    (h : Stepped network state budget d next)
    (hcount : d.stats.backtracks < next.stats.backtracks) :
    ∃ child parent rest failed, d.frames = child :: parent :: rest ∧ child.method = none ∧
      partsOf d.frames d.output.toList = [] :: failed :: partsOf rest next.output.toList ∧
      network.ArePlansFor state (takenUp network parent).dropLast failed ∧
      next.frames = { parent with method := none } :: rest ∧
      next.output = (d.output.take child.outputStart).take parent.outputStart ∧
      d.output.toList = next.output.toList ++ failed := by
  cases h with
  | selected | completed | emitted | entered => exact absurd hcount (Nat.lt_irrefl _)
  | @backtracked child parent rest output stats hmethod =>
    obtain ⟨-, start, before, done, -, start', -, takenUp_eq, share, hback⟩ :=
      hd.falls_back hmethod
    obtain ⟨failed, hfailed, houtput⟩ := share.exists_arePlansFor
    have hparts : partsOf (child :: parent :: rest) output.toList =
        [] :: failed :: partsOf rest before := by
      rw [← List.append_nil output.toList, partsOf_cons start, houtput, partsOf_cons start']
    refine ⟨child, parent, rest, failed, rfl, hmethod, ?_, ?_, rfl, rfl, ?_⟩
    · rw [hback, hparts]
    · rwa [takenUp_eq, List.dropLast_concat]
    · rw [hback, houtput]

/-- Wherever a step of a run begins, the output is divided up among the frames, and the part of each
frame consists of the plans, of which there is one for each subtask, for what its current method has
completed. A frame without a method has emitted nothing. So at a dead end the frame on top has
nothing to take back, and the one below it takes back what its failed method had emitted. -/
theorem divided_of_mem_trail (h : d ∈ network.trail state budget root) :
    Divided network state root d ∧
    (∀ subtask plan other, network.IsPlanFor state subtask plan →
      network.IsPlanFor state subtask other → plan = other) ∧
    (∀ (i : Nat) (f : Frame), d.frames[i]? = some f → f.method = none →
      (partsOf d.frames d.output.toList)[i]? = some []) ∧
    (∀ (top : Frame) (below : List Frame), d.frames = top :: below → top.method = none →
      d.output.take top.outputStart = d.output) ∧
    ∀ next, step network state budget root d = .ok next →
      d.stats.backtracks < next.stats.backtracks →
      ∃ child parent rest failed, d.frames = child :: parent :: rest ∧ child.method = none ∧
        partsOf d.frames d.output.toList = [] :: failed :: partsOf rest next.output.toList ∧
        network.ArePlansFor state (takenUp network parent).dropLast failed ∧
        next.frames = { parent with method := none } :: rest ∧
        next.output = (d.output.take child.outputStart).take parent.outputStart ∧
        d.output.toList = next.output.toList ++ failed := by
  have hd := accounted_of_mem_trail h
  have hdivided := divided_of_accounted hd
  refine ⟨hdivided, fun _ _ _ hplan hother => hplan.unique hother,
    fun i f hf hmethod => hdivided.part_of_none hf hmethod, fun top below hframes hmethod => ?_,
    fun next hstep hcount => exists_failed_of_backtrack hd (stepped_of_step hstep) hcount⟩
  rw [hframes] at hd
  exact hd.take_eq hmethod

/-- The cruise cannot be boarded, after a horse was saddled for the ride to it. -/
def stranded : Decomposition where
  frames := [{ task := 1, outputStart := 1 },
    { task := 3, method := some 6, position := 2, lastTried := some ⟨0, 6⟩, outputStart := 0 }]
  output := #[4]
  stats := { selections := 4, backtracks := 1, deepest := 3 }

/-- The ride is given up with the saddling, which is the plan for the first of its two subtasks. -/
theorem divided_stranded :
    stranded ∈ TaskPlanner.journey.trail .empty {} 3 ∧
    Divided TaskPlanner.journey .empty 3 stranded ∧
    ∃ next, step TaskPlanner.journey .empty {} 3 stranded = .ok next ∧ next.output = #[] ∧
      partsOf stranded.frames [4] = [[], [4]] ∧
      TaskPlanner.journey.ArePlansFor .empty [.compound 2] [4] := by
  have hmem : stranded ∈ TaskPlanner.journey.trail .empty {} 3 := by decide +kernel
  obtain ⟨hdivided, -, -, -, hback⟩ := divided_of_mem_trail hmem
  obtain ⟨next, hstep, hcount, houtput⟩ : ∃ next,
      step TaskPlanner.journey .empty {} 3 stranded = .ok next ∧
      stranded.stats.backtracks < next.stats.backtracks ∧ next.output = #[] :=
    ⟨⟨[{ task := 3, position := 2, lastTried := some ⟨0, 6⟩, outputStart := 0 }], #[],
      { selections := 5, backtracks := 2, deepest := 3 }⟩, by rfl, by decide, rfl⟩
  refine ⟨hmem, hdivided, next, hstep, houtput, rfl, ?_⟩
  obtain ⟨_, parent, _, failed, hframes, -, hparts, hplans, -⟩ := hback next hstep hcount
  obtain rfl := (List.cons.inj (List.cons.inj hframes).2).1
  obtain rfl : [4] = failed := (List.cons.inj (List.cons.inj hparts).2).1
  exact hplans

end Decomposition

end AgentPlanning
