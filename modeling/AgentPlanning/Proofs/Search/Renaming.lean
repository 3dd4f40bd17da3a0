import AgentPlanning.Proofs.Search.History
import Mathlib.Logic.Equiv.Basic

/-!
# Searches that Differ by a Renaming of the States

A search looks at its states only through the library and the goal: which actions are candidates,
which of them can be taken, where they lead, and how far the goal seems to be. If the states of a
problem are renamed so that none of this changes, then the search for the other problem takes the
same steps, on renamed states. The nodes correspond one to one, the open lists are the same, and so
are the plans and the counters. Main statements:

* `reach_rename`, `foldlM_rename`, `step_rename`: an operation, an expansion and a step on renamed
  states;
* `Renames.mapSearch_eq`: the search with a plain map;
* `answer_eq_of_renames`: planners of the same budgets, whatever they have done before.
-/

namespace AgentPlanning

/-- Renaming the states of the problem leads to the other one, as far as a search can see. -/
structure SearchProblem.Renames (problem other : SearchProblem) (rename : WorldState ≃ WorldState) :
    Prop where
  start : other.start = rename problem.start
  candidates : ∀ state,
    other.library.candidates (rename state) = problem.library.candidates state
  isApplicable : ∀ action state,
    other.library.isApplicable action (rename state) = problem.library.isApplicable action state
  apply : ∀ action state,
    other.library.apply action (rename state) = rename (problem.library.apply action state)
  cost? : ∀ action, other.library.cost? action = problem.library.cost? action
  satisfies : ∀ state, (rename state).satisfies other.goal = state.satisfies problem.goal
  estimate : ∀ state, other.estimate (rename state) = problem.estimate state

/-- The node with its state renamed. -/
def Node.rename (rename : WorldState → WorldState) (node : Node) : Node :=
  { node with state := rename node.state }

/-- The search on renamed states. -/
def MapSearch.rename (rename : WorldState ≃ WorldState) (s : MapSearch) : MapSearch :=
  { s with
    nodes := s.nodes.map (Node.rename rename)
    known := s.known ∘ rename.symm }

/-- The ended search on renamed states. -/
def MapSearchEnd.rename (rename : WorldState ≃ WorldState) (ended : MapSearchEnd) : MapSearchEnd :=
  ⟨ended.search.rename rename, ended.outcome⟩

namespace MapSearch

/-- What an operation leads to, on renamed states. -/
def renameResult (rename : WorldState ≃ WorldState) :
    Except MapSearchEnd MapSearch → Except MapSearchEnd MapSearch
  | .ok s => .ok (s.rename rename)
  | .error ended => .error (ended.rename rename)

variable {problem other : SearchProblem} {rename : WorldState ≃ WorldState} {nodeLimit : Nat}

/-! ## Nodes -/

/-- A path to a node can be replaced before or after the states are renamed. -/
theorem modify_rename (nodes : Array Node) (index : NodeIndex) (arrival : Option Arrival)
    (cost : Nat) :
    (nodes.map (Node.rename rename)).modify index (fun node => { node with arrival, cost }) =
      (nodes.modify index fun node => { node with arrival, cost }).map (Node.rename rename) := by
  refine Array.ext_getElem? fun i => ?_
  rw [Array.getElem?_modify, Array.getElem?_map, Array.getElem?_map, Array.getElem?_modify]
  split
  · cases nodes[i]? <;> rfl
  · rfl

theorem pathBefore_rename (nodes : Array Node) (steps : Nat) (i : NodeIndex)
    (suffix : List ActionId) :
    pathBefore (nodes.map (Node.rename rename)) steps i suffix =
      pathBefore nodes steps i suffix := by
  induction steps generalizing i suffix with
  | zero => rfl
  | succ steps ih =>
    -- The arrivals do not name states.
    have harrival : (nodes.map (Node.rename rename))[i]?.bind (·.arrival) =
        nodes[i]?.bind (·.arrival) := by
      rw [Array.getElem?_map, Option.bind_map]
      rfl
    rw [pathBefore, pathBefore, harrival]
    split
    · rfl
    · exact ih _ _

theorem pathTo_rename (nodes : Array Node) (i : NodeIndex) :
    pathTo (nodes.map (Node.rename rename)) i = pathTo nodes i := by
  rw [pathTo, Array.size_map, pathBefore_rename, pathTo]

/-! ## Operations -/

section Operations

variable (h : problem.Renames other rename)

include h

theorem enqueue_rename (s : MapSearch) (node : NodeIndex) (state : WorldState) (cost : Nat) :
    enqueue other nodeLimit (s.rename rename) node (rename state) cost =
      renameResult rename (enqueue problem nodeLimit s node state cost) := by
  rw [enqueue, enqueue]
  by_cases hroom : s.openList.size < openLimit nodeLimit
  · simp only [if_pos hroom, h.estimate]
    exact if_pos hroom
  · simp only [if_neg hroom]
    exact if_neg hroom

theorem reach_rename (s : MapSearch) (state : WorldState) (arrival : Arrival) (cost : Nat) :
    reach other nodeLimit (s.rename rename) (rename state) arrival cost =
      renameResult rename (reach problem nodeLimit s state arrival cost) := by
  have hknown : (s.rename rename).known (rename state) = s.known state :=
    congrArg s.known (rename.symm_apply_apply state)
  rw [reach, reach, hknown]
  cases s.known state with
  | some node =>
    dsimp only
    have hcost : ((s.rename rename).nodes[node]?).any (cost < ·.cost) =
        (s.nodes[node]?).any (cost < ·.cost) := by
      rw [MapSearch.rename, Array.getElem?_map, Option.any_map]
      rfl
    rw [hcost]
    split
    · rw [← enqueue_rename h]
      congr 1
      rw [MapSearch.rename, MapSearch.rename]
      simp only [modify_rename]
    · rfl
  | none =>
    dsimp only
    have hsize : (s.rename rename).nodes.size = s.nodes.size := Array.size_map
    rw [hsize]
    by_cases hroom : s.nodes.size < nodeLimit
    · rw [if_pos hroom, if_pos hroom, ← enqueue_rename h]
      congr 1
      -- The new node has the same place in both searches.
      rw [MapSearch.rename, MapSearch.rename]
      simp only [Array.map_push, Function.update_comp_equiv, Equiv.symm_symm]
      rfl
    · rw [if_neg hroom, if_neg hroom]
      rfl

theorem tryAction_rename (parent : NodeIndex) (state : WorldState) (cost : Nat) (s : MapSearch)
    (action : ActionId) :
    tryAction other nodeLimit parent (rename state) cost (s.rename rename) action =
      renameResult rename (tryAction problem nodeLimit parent state cost s action) := by
  rw [tryAction, tryAction, h.isApplicable]
  split
  · dsimp only
    rw [h.apply, h.cost?]
    by_cases hsame : problem.library.apply action state = state
    · rw [if_pos hsame, if_pos (congrArg rename hsame)]
      rfl
    · rw [if_neg hsame, if_neg fun heq => hsame (rename.injective heq)]
      exact reach_rename h { s with generated := s.generated + 1 } _ _ _
  · rfl

theorem foldlM_rename (parent : NodeIndex) (state : WorldState) (cost : Nat)
    (actions : List ActionId) (s : MapSearch) :
    actions.foldlM (tryAction other nodeLimit parent (rename state) cost) (s.rename rename) =
      renameResult rename
        (actions.foldlM (tryAction problem nodeLimit parent state cost) s) := by
  induction actions generalizing s with
  | nil => rfl
  | cons action rest ih =>
    rw [List.foldlM_cons, List.foldlM_cons, tryAction_rename h]
    cases tryAction problem nodeLimit parent state cost s action with
    | error => rfl
    | ok next => exact ih next

/-- A step takes out the same entry, and does the same with its node. -/
theorem step_rename (s : MapSearch) :
    step other nodeLimit (s.rename rename) =
      renameResult rename (step problem nodeLimit s) := by
  have hopen : (s.rename rename).openList = s.openList := rfl
  rw [step, step, hopen]
  cases s.openList.pop? with
  | none => rfl
  | some first =>
    obtain ⟨entry, rest⟩ := first
    dsimp only
    have hget : (s.rename rename).nodes[entry.node]? =
        s.nodes[entry.node]?.map (Node.rename rename) := Array.getElem?_map
    rw [hget]
    cases s.nodes[entry.node]? with
    | none => rfl
    | some node =>
      rw [Option.map_some]
      dsimp only [Node.rename]
      rw [h.satisfies]
      split
      · rfl
      · split
        · rfl
        · rw [expand, expand, h.candidates]
          exact foldlM_rename h _ _ _ _ { s with openList := rest, expanded := s.expanded + 1 }

theorem runWithin_rename (n : Nat) (s : MapSearch) :
    runWithin (step other nodeLimit) n (s.rename rename) =
      (runWithin (step problem nodeLimit) n s).map (·.rename rename) := by
  induction n generalizing s with
  | zero => rfl
  | succ n ih =>
    rw [runWithin, runWithin, step_rename h]
    cases step problem nodeLimit s with
    | error => rfl
    | ok next => exact ih next

theorem withRoot_rename :
    withRoot other .initial = (withRoot problem .initial).rename rename := by
  rw [withRoot, withRoot, MapSearch.rename, h.start, h.estimate]
  simp only [initial, Array.map_push, Array.map_empty, Function.update_comp_equiv, Equiv.symm_symm]
  rfl

theorem run_rename (s : MapSearch) :
    run other nodeLimit (s.rename rename) = (run problem nodeLimit s).rename rename := by
  rw [run, run, runWithin_rename h]
  cases runWithin (step problem nodeLimit) (Search.stepBound nodeLimit) s <;> rfl

end Operations

theorem stats_rename (s : MapSearch) : (s.rename rename).stats = s.stats := by
  rw [stats, stats, MapSearch.rename, Array.size_map]

end MapSearch

theorem MapSearchEnd.plan_rename (rename : WorldState ≃ WorldState) (ended : MapSearchEnd)
    (space : Nat) : (ended.rename rename).plan space = ended.plan space := by
  rw [plan, plan, MapSearchEnd.rename]
  cases ended.outcome with
  | error => rfl
  | ok i =>
    have hpath : pathTo (ended.search.rename rename).nodes i = pathTo ended.search.nodes i :=
      MapSearch.pathTo_rename _ i
    simp only [hpath]

/-- The search for the other problem finds the same plan and counts the same. -/
theorem SearchProblem.Renames.mapSearch_eq {problem other : SearchProblem}
    {rename : WorldState ≃ WorldState} (h : problem.Renames other rename) (nodeLimit : Nat) :
    (∀ space, (other.mapSearch nodeLimit).plan space = (problem.mapSearch nodeLimit).plan space) ∧
      (other.mapSearch nodeLimit).search.stats = (problem.mapSearch nodeLimit).search.stats := by
  rw [mapSearch, mapSearch, h.start, h.satisfies]
  split
  · exact ⟨fun _ => rfl, rfl⟩
  · split
    · -- A start that satisfies the goal is renamed to one that does.
      exact ⟨fun _ => rfl, rfl⟩
    · rw [MapSearch.withRoot_rename h, MapSearch.run_rename h]
      exact ⟨MapSearchEnd.plan_rename rename _, MapSearch.stats_rename _⟩

namespace SearchPlanner

/-- Planners of the same budgets answer both problems with the same plan or the same error, and
count the same, whatever calls they have answered before. -/
theorem answer_eq_of_renames {call other : Call} {rename : WorldState ≃ WorldState}
    (h : call.problem.Renames other.problem rename) {budget : SearchBudget}
    (hspace : other.space budget = call.space budget) (history otherHistory : List Call) :
    (afterAll budget otherHistory).answer other = (afterAll budget history).answer call ∧
      ((afterAll budget otherHistory).after other).latestStats =
        ((afterAll budget history).after call).latestStats := by
  obtain ⟨hplan, hstats⟩ := h.mapSearch_eq budget.nodes
  constructor
  · rw [answer_eq_plan, answer_eq_plan, hspace, hplan]
  · rw [latestStats_eq_stats, latestStats_eq_stats, hstats]

end SearchPlanner

end AgentPlanning
