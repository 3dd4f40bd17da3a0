import AgentPlanning.Proofs.Search.Frontier
import AgentPlanning.Proofs.Search.Termination

/-!
# How a Search Ends

A search that does not end at once comes to a last step, before which its nodes form a tree with
a frontier. What its outcome means follows from that. Main statements:

* `runWithin_search`: a search is not cut short by its bound;
* `exists_last_step`, `search_cases_of_kept`: there is a last step, before which everything holds
  that every step keeps, or the search ends at once;
* `table_search`, `bounded_search`: the table that a search leaves can be used by the next one;
* `exists_of_search_ok`, `exists_route_of_search_ok`: a node that is found belongs to a tree,
  satisfies the goal and is reached on the route that is read off;
* `reason_of_search_error`: what keeps a search from finding a node;
* `not_executes_of_search_unreachable`: a search that gives up for lack of open nodes has reached
  every state that can be reached, and none of them satisfies the goal.
-/

namespace AgentPlanning

namespace Search

variable {problem : SearchProblem} {nodeLimit : Nat} {s t : Search} {ended : SearchEnd}

/-! ## The table after a search -/

section Table

variable {P : StateTable → Prop}
  (hstore : ∀ table slot index, P table → P (StateTable.store table slot index))

include hstore

/-- All that becomes of the table is that nodes are stored. -/
theorem table_of_noted {state : WorldState} {arrival : Arrival} {cost : Nat}
    (h : Noted problem nodeLimit s state arrival cost t) (hs : P s.table) : P t.table := by
  cases h with
  | kept => exact hs
  | improved => exact hs
  | added => exact hstore _ _ _ hs

theorem table_of_foldlM {i : NodeIndex} {state : WorldState} {cost : Nat}
    {actions : List ActionId} (hs : P s.table)
    (hfold : actions.foldlM (tryAction problem nodeLimit i state cost) s = .ok t) :
    P t.table := by
  refine motive_of_foldlM (motive := fun _ u => P u.table) ?_ [] hs hfold
  intro _ _ u v hu htry
  cases tried_of_tryAction htry with
  | passed => exact hu
  | noted _ _ hnoted => exact table_of_noted hstore hnoted hu

theorem table_of_stepped (h : Stepped problem nodeLimit s t) (hs : P s.table) : P t.table := by
  cases h with
  | dropped => exact hs
  | expanded _ _ _ _ hexpand =>
    -- Taking out the entry does not touch the table.
    refine table_of_foldlM hstore ?_ hexpand
    exact hs

theorem table_of_stopped (h : Stopped problem nodeLimit s ended) (hs : P s.table) :
    P ended.search.table := by
  cases h with
  | exhausted => exact hs
  | found => exact hs
  | gaveUp _ _ _ _ hexpand hout =>
    have hlast := table_of_foldlM hstore (by exact hs) hexpand
    rcases hout.outOfBudget.table with heq | ⟨slot, index, heq⟩
    · exact heq ▸ hlast
    · exact heq ▸ hstore _ slot index hlast

/-- What holds of the emptied table, and is kept by storing nodes, holds after a search. -/
theorem table_search (problem : SearchProblem) (nodeLimit : Nat) {left : Search}
    (hclear : P left.table.clear) : P (problem.search nodeLimit left).search.table := by
  rw [SearchProblem.search]
  split
  · exact hclear
  · split
    · exact hclear
    · have hroot : P (withRoot problem left.reset).table := by
        rw [withRoot]
        dsimp only
        split
        · exact hstore _ _ _ hclear
        · exact hclear
      rw [run]
      cases hrun : runWithin (step problem nodeLimit) (stepBound nodeLimit)
          (withRoot problem left.reset) with
      | none => exact hroot
      | some ended =>
        obtain ⟨last, hlast, hstop⟩ := exists_step_of_runWithin (P := fun u => P u.table)
          (fun u next hu hstep => table_of_stepped hstore (stepped_of_step hstep) hu) hroot hrun
        exact table_of_stopped hstore (stopped_of_step hstop) hlast

end Table

/-- The next search can use the table that a search leaves. -/
theorem bounded_search (problem : SearchProblem) (nodeLimit : Nat) {left : Search}
    (hbounded : left.table.Bounded) : (problem.search nodeLimit left).search.table.Bounded :=
  table_search (P := StateTable.Bounded)
    (fun _ slot index h => StateTable.bounded_store h slot index) problem nodeLimit
    (StateTable.bounded_clear hbounded)

/-! ## The last step -/

theorem potential_withRoot {table : StateTable} (hclean : table.Clean) (hlimit : nodeLimit ≠ 0) :
    potential nodeLimit (withRoot problem (initial table)) < stepBound nodeLimit := by
  obtain ⟨n, rfl⟩ := Nat.exists_eq_succ_of_ne_zero hlimit
  have hopen : (OpenList.empty.push ⟨problem.estimate problem.start, 0, 0, 0⟩).toList.length = 1 :=
    (OpenList.toList_push ..).length_eq
  have hcost : totalCost #[⟨problem.start, none, 0⟩] = 0 := rfl
  have hallowance : n.succ - (#[⟨problem.start, none, 0⟩] : Array Node).size = n := rfl
  rw [withRoot_initial problem hclean, potential, hopen, hcost, hallowance, stepBound,
    Nat.succ_mul]
  have hpos : 0 < UInt32.size := by decide
  omega

/-- A search may also end before its first step. -/
inductive EndsAtOnce (problem : SearchProblem) (nodeLimit : Nat) (ended : SearchEnd) : Prop where
  /-- There is no room for the first node. -/
  | noRoom (outcome : ended.outcome = .error (.tooManyStates nodeLimit)) (limit : nodeLimit = 0)
      (nodes : ended.search.nodes = #[])
  /-- The start satisfies the goal. -/
  | atGoal (goal : problem.start.satisfies problem.goal = true)
      (nodes : ended.search.nodes = #[⟨problem.start, none, 0⟩]) (outcome : ended.outcome = .ok 0)
      (limit : nodeLimit ≠ 0)

/-- A search that does not end at once takes all of its steps, and is not cut short by the bound. -/
theorem runWithin_search {left : Search} (hbounded : left.table.Bounded) (hlimit : nodeLimit ≠ 0)
    (hstart : problem.start.satisfies problem.goal = false) :
    runWithin (step problem nodeLimit) (stepBound nodeLimit)
      (withRoot problem left.reset) = some (problem.search nodeLimit left) := by
  have hclean := StateTable.clean_clear hbounded
  obtain ⟨ended, hended⟩ :=
    exists_runWithin_stepBound problem (potential_withRoot hclean hlimit)
  rw [SearchProblem.search, reset_eq]
  simp only [if_neg hlimit, hstart, Bool.false_eq_true, if_false]
  rw [run, hended, Option.getD_some]

section LastStep

variable {P : Search → Prop}
  (hkept : ∀ s t, Frontier problem s → P s → Stepped problem nodeLimit s t → P t)

include hkept

/-- A search that does not end at once comes to a last step, before which everything holds that
every step keeps. -/
theorem exists_last_step {left : Search} (hbounded : left.table.Bounded) (hlimit : nodeLimit ≠ 0)
    (hstart : problem.start.satisfies problem.goal = false)
    (hroot : P (withRoot problem left.reset)) :
    ∃ s, Frontier problem s ∧ P s ∧
      Stopped problem nodeLimit s (problem.search nodeLimit left) := by
  -- What every step keeps still holds before the last one.
  obtain ⟨last, ⟨hfrontier, hlast⟩, hstop⟩ := exists_step_of_runWithin
    (P := fun u => Frontier problem u ∧ P u)
    (fun u next hu hstep => ⟨frontier_of_stepped hu.1 (stepped_of_step hstep),
      hkept u next hu.1 hu.2 (stepped_of_step hstep)⟩)
    ⟨frontier_withRoot (StateTable.clean_clear hbounded), hroot⟩
    (runWithin_search hbounded hlimit hstart)
  exact ⟨last, hfrontier, hlast, stopped_of_step hstop⟩

/-- A search ends at once, or it comes to a last step. -/
theorem search_cases_of_kept {left : Search} (hbounded : left.table.Bounded)
    (hroot : nodeLimit ≠ 0 → P (withRoot problem left.reset)) :
    EndsAtOnce problem nodeLimit (problem.search nodeLimit left) ∨
    ∃ s, Frontier problem s ∧ P s ∧
      Stopped problem nodeLimit s (problem.search nodeLimit left) := by
  by_cases hlimit : nodeLimit = 0
  · rw [SearchProblem.search, if_pos hlimit]
    exact .inl (.noRoom rfl hlimit rfl)
  · cases hstart : problem.start.satisfies problem.goal with
    | true =>
      rw [SearchProblem.search]
      simp only [if_neg hlimit, hstart, if_true]
      exact .inl (.atGoal hstart rfl rfl hlimit)
    | false => exact .inr (exists_last_step hkept hbounded hlimit hstart (hroot hlimit))

end LastStep

theorem search_cases (problem : SearchProblem) (nodeLimit : Nat) {left : Search}
    (hbounded : left.table.Bounded) :
    EndsAtOnce problem nodeLimit (problem.search nodeLimit left) ∨
    ∃ s, Frontier problem s ∧ Stopped problem nodeLimit s (problem.search nodeLimit left) := by
  have hkept : ∀ s t, Frontier problem s → True → Stepped problem nodeLimit s t → True :=
    fun _ _ _ _ _ => trivial
  refine (search_cases_of_kept hkept hbounded fun _ => trivial).imp_right ?_
  exact fun ⟨s, hfrontier, _, hstopped⟩ => ⟨s, hfrontier, hstopped⟩

/-! ## A node that is found -/

/-- A node that is found belongs to a tree and satisfies the goal. -/
theorem exists_of_search_ok {left : Search} (hbounded : left.table.Bounded) {i : NodeIndex}
    (hok : (problem.search nodeLimit left).outcome = .ok i) :
    SearchTree problem (problem.search nodeLimit left).search.nodes ∧
      ∃ node, (problem.search nodeLimit left).search.nodes[i]? = some node ∧
        node.state.satisfies problem.goal = true := by
  rcases search_cases problem nodeLimit hbounded with hend | ⟨s, hfrontier, hstopped⟩
  · cases hend with
    | noRoom houtcome => cases hok.symm.trans houtcome
    | atGoal hgoal hnodes houtcome =>
      obtain rfl := Except.ok.inj (hok.symm.trans houtcome)
      rw [hnodes]
      exact ⟨searchTree_singleton problem, _, rfl, hgoal⟩
  · generalize problem.search nodeLimit left = ended at hok hstopped
    cases hstopped with
    | exhausted => cases hok
    | found _ hnode _ hgoal =>
      -- The nodes are those of before the last step.
      obtain rfl := Except.ok.inj hok
      exact ⟨hfrontier.tree, _, hnode, hgoal⟩
    | gaveUp _ _ _ _ _ hout =>
      obtain ⟨reason, hreason, -⟩ := hout.outOfBudget.reason
      cases hok.symm.trans hreason

/-- The plan that is read off for a node that is found is its route in the tree. -/
theorem exists_route_of_search_ok {left : Search} (hbounded : left.table.Bounded) {i : NodeIndex}
    (hok : (problem.search nodeLimit left).outcome = .ok i) :
    SearchTree problem (problem.search nodeLimit left).search.nodes ∧
      ∃ node, (problem.search nodeLimit left).search.nodes[i]? = some node ∧
        Route (problem.search nodeLimit left).search.nodes i
          (pathTo (problem.search nodeLimit left).search.nodes i) := by
  obtain ⟨tree, node, hnode, -⟩ := exists_of_search_ok hbounded hok
  obtain ⟨route, hroute⟩ := tree.routed (lt_size_of_getElem? hnode)
  exact ⟨tree, node, hnode, (hroute.pathTo_eq tree).symm ▸ hroute⟩

/-! ## Giving up -/

/-- A search that finds no node has none left to expand, or has run out of budget. -/
theorem reason_of_search_error {left : Search} (hbounded : left.table.Bounded) {reason : PlanError}
    (herror : (problem.search nodeLimit left).outcome = .error reason) :
    reason = .unreachable ∨ reason.isOutOfBudget = true := by
  rcases search_cases problem nodeLimit hbounded with hend | ⟨s, -, hstopped⟩
  · cases hend with
    | noRoom houtcome =>
      obtain rfl := Except.error.inj (herror.symm.trans houtcome)
      exact .inr rfl
    | atGoal _ _ houtcome => cases herror.symm.trans houtcome
  · generalize problem.search nodeLimit left = ended at herror hstopped
    cases hstopped with
    | exhausted => exact .inl (Except.error.inj herror).symm
    | found => cases herror
    | gaveUp _ _ _ _ _ hout =>
      obtain ⟨other, hother, hbudget⟩ := hout.outOfBudget.reason
      obtain rfl := Except.error.inj (herror.symm.trans hother)
      exact .inr hbudget

/-- If all nodes are expanded, a plan from the state of a node ends in the state of a node. -/
theorem exists_node_of_executes (hexpanded : ∀ i < s.nodes.size, IsExpanded problem s.nodes i)
    {start final : WorldState} {plan : List ActionId}
    (h : problem.library.Executes start plan final) {i : NodeIndex} {node : Node}
    (hnode : s.nodes[i]? = some node) (hstate : node.state = start) :
    ∃ (j : NodeIndex) (last : Node), s.nodes[j]? = some last ∧ last.state = final := by
  induction h generalizing i node with
  | nil => exact ⟨i, node, hnode, hstate⟩
  | cons applicable _ ih =>
    obtain ⟨node', hnode', -, hreaches⟩ := hexpanded i (lt_size_of_getElem? hnode)
    obtain rfl := Option.some.inj (hnode.symm.trans hnode')
    subst hstate
    -- The next state of the plan is that of a node again.
    obtain ⟨j, next, hnext, hsame, -⟩ := hreaches _ applicable
    exact ih hnext hsame

/-- If a search gives up because nothing is open, no state that can be reached satisfies the
goal. -/
theorem not_executes_of_search_unreachable {left : Search} (hbounded : left.table.Bounded)
    (herror : (problem.search nodeLimit left).outcome = .error .unreachable)
    {plan : List ActionId} {final : WorldState}
    (h : problem.library.Executes problem.start plan final) :
    final.satisfies problem.goal = false := by
  rcases search_cases problem nodeLimit hbounded with hend | ⟨s, hfrontier, hstopped⟩
  · cases hend with
    | noRoom houtcome => cases herror.symm.trans houtcome
    | atGoal _ _ houtcome => cases herror.symm.trans houtcome
  · generalize problem.search nodeLimit left = ended at herror hstopped
    cases hstopped with
    | exhausted hpop =>
      -- Nothing is open, so every node is expanded.
      have hexpanded : ∀ i < s.nodes.size, IsExpanded problem s.nodes i := fun i hi => by
        refine (hfrontier.covered i hi).resolve_left ?_
        rintro ⟨node, -, entry, hmem, -, -⟩
        rw [OpenList.pop?_eq_none_iff.1 hpop] at hmem
        exact List.not_mem_nil hmem
      obtain ⟨j, last, hlast, rfl⟩ :=
        exists_node_of_executes hexpanded h hfrontier.tree.root rfl
      obtain ⟨last', hlast', hgoal, -⟩ := hexpanded j (lt_size_of_getElem? hlast)
      obtain rfl := Option.some.inj (hlast.symm.trans hlast')
      exact hgoal
    | found => cases herror
    | gaveUp _ _ _ _ _ hout =>
      obtain ⟨reason, hreason, hbudget⟩ := hout.outOfBudget.reason
      obtain rfl := Except.error.inj (herror.symm.trans hreason)
      cases hbudget

end Search

end AgentPlanning
