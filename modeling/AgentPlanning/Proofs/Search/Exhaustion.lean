import AgentPlanning.Proofs.Search.Answers
import AgentPlanning.Proofs.Search.Capacity
import AgentPlanning.Proofs.Search.History
import Mathlib.Data.Set.Card

/-!
# When the Budget of a Search Runs out

A search allocates a node for each state that it reaches and never a second one, so it cannot
have more nodes than states can be reached, and it lacks a node only if there is one more state
than nodes in its budget. Main statements:

* `SearchTree.size_le_encard_reachable`: there are no more nodes than states that can be reached;
* `withinBudget_search`: what holds of the nodes and of the outcome when a search ends;
* `exhaustion_of_answer`: what a planner may report about its budget.
-/

namespace AgentPlanning

/-- The states that plans lead to. -/
def ActionLibrary.reachable (library : ActionLibrary) (start : WorldState) : Set WorldState :=
  {final | ∃ plan, library.Executes start plan final}

/-- The nodes of a search tree have different states, all of which can be reached. -/
theorem SearchTree.size_le_encard_reachable {problem : SearchProblem} {nodes : Array Node}
    (tree : SearchTree problem nodes) :
    (nodes.size : ℕ∞) ≤ (problem.library.reachable problem.start).encard := by
  have hget : ∀ i : Fin nodes.size, nodes[i.val]? = some nodes[i] := fun i =>
    Array.getElem?_eq_getElem i.isLt
  have hinj : Function.Injective fun i : Fin nodes.size => nodes[i].state := fun i j hij =>
    Fin.ext (tree.distinct (hget i) (hget j) hij)
  calc (nodes.size : ℕ∞)
      = ENat.card (Fin nodes.size) := by simp
    _ ≤ (Set.range fun i : Fin nodes.size => nodes[i].state).encard := hinj.encard_range
    _ ≤ (problem.library.reachable problem.start).encard := by
        refine Set.encard_le_encard ?_
        rintro _ ⟨i, rfl⟩
        obtain ⟨plan, hroute⟩ := tree.routed i.isLt
        exact ⟨plan, tree.executes_of_route hroute (hget i)⟩

namespace Search

variable {problem : SearchProblem} {nodeLimit : Nat} {s t : Search} {ended : SearchEnd}

/-- What holds of a search that has ended, as far as its budget is concerned. -/
structure WithinBudget (problem : SearchProblem) (nodeLimit : Nat) (ended : SearchEnd) : Prop where
  size_le : ended.search.nodes.size ≤ nodeLimit
  size_le_encard : (ended.search.nodes.size : ℕ∞) ≤
    (problem.library.reachable problem.start).encard
  /-- The table was not full. -/
  outcome_ne : ∀ slots, ended.outcome ≠ .error (.tableFull slots)
  /-- If there were too many states then there are more than nodes, and all nodes are in use. -/
  of_tooManyStates : ∀ limit, ended.outcome = .error (.tooManyStates limit) →
    limit = nodeLimit ∧ ended.search.nodes.size = nodeLimit ∧
      (nodeLimit : ℕ∞) < (problem.library.reachable problem.start).encard

/-- A search that ends for any other reason needs only keep within its budget. -/
theorem withinBudget_of_ne (tree : SearchTree problem ended.search.nodes)
    (hsize : ended.search.nodes.size ≤ nodeLimit)
    (htable : ∀ slots, ended.outcome ≠ .error (.tableFull slots))
    (hstates : ∀ limit, ended.outcome ≠ .error (.tooManyStates limit)) :
    WithinBudget problem nodeLimit ended :=
  ⟨hsize, tree.size_le_encard_reachable, htable, fun limit h => absurd h (hstates limit)⟩

theorem withinBudget_of_refused {i : NodeIndex} {node : Node} {done : List ActionId}
    {action : ActionId} (h : Expanding problem i node done s) (hfits : Fits nodeLimit s)
    (hrefused : Refused problem nodeLimit i node.state node.cost s action ended) :
    WithinBudget problem nodeLimit ended := by
  have htree := tree_of_refused h hrefused
  have hsize := (fits_of_refused hfits hrefused).size_le
  obtain ⟨happlicable, -, hoverrun⟩ := hrefused
  cases hoverrun with
  | tooManyStates hlookup hfull =>
    have hall : s.nodes.size = nodeLimit := Nat.le_antisymm hfits.size_le hfull
    -- With a node for the new state there would be one node more than the budget allows.
    have hlarger := (h.tree.push (fun _ _ hother =>
      StateTable.state_ne_of_lookup_free h.table hlookup hother) (h.arrives happlicable)
      (addCost_le_maxCost _ _)).size_le_encard_reachable
    rw [Array.size_push, hall, Nat.cast_succ,
      ENat.add_one_le_iff (ENat.natCast_ne_top _)] at hlarger
    refine ⟨hsize, htree.size_le_encard_reachable, ?_, fun limit heq => ?_⟩
    · exact fun _ heq => by cases heq
    obtain rfl : nodeLimit = limit := by cases heq; rfl
    exact ⟨rfl, hall, hlarger⟩
  | tooManyOpen =>
    exact withinBudget_of_ne htree hsize (fun _ heq => by cases heq) fun _ heq => by cases heq
  | tableFull hlookup => exact absurd hlookup (hfits.lookup_ne_full _)

theorem withinBudget_of_stopped (h : Frontier problem s) (hfits : Fits nodeLimit s)
    (hstopped : Stopped problem nodeLimit s ended) : WithinBudget problem nodeLimit ended := by
  cases hstopped with
  | exhausted =>
    exact withinBudget_of_ne h.tree hfits.size_le (fun _ heq => by cases heq)
      fun _ heq => by cases heq
  | found =>
    exact withinBudget_of_ne h.tree hfits.size_le (fun _ heq => by cases heq)
      fun _ heq => by cases heq
  | gaveUp hpop hnode _ _ hexpand hrefused =>
    refine withinBudget_of_refused (expanding_of_foldlM (expanding_of_pop h hpop hnode) hexpand)
      (fits_of_foldlM hexpand ?_) hrefused
    exact ⟨hfits.size_le, hfits.takenCount_le, hfits.limit_lt⟩

/-- However a search ends, it has kept within its budget, and what it reports about it is true. -/
theorem withinBudget_search (problem : SearchProblem) {left : Search}
    (hbounded : left.table.Bounded) (hslots : nodeLimit < left.table.slots.size) :
    WithinBudget problem nodeLimit (problem.search nodeLimit left) := by
  have hroot (hlimit : nodeLimit ≠ 0) :
      Fits nodeLimit (withRoot problem left.reset) :=
    fits_withRoot problem (StateTable.clean_clear hbounded) hlimit
      (left.table.size_clear.symm ▸ hslots)
  have hkept : ∀ s t, Frontier problem s → Fits nodeLimit s → Stepped problem nodeLimit s t →
      Fits nodeLimit t := fun _ _ _ hfits hstep => fits_of_stepped hstep hfits
  rcases search_cases_of_kept hkept hbounded hroot with
    hend | ⟨s, hfrontier, hfits, hstopped⟩
  · cases hend with
    | noRoom houtcome hlimit hnodes =>
      have hstart : problem.start ∈ problem.library.reachable problem.start := ⟨[], .nil _⟩
      have hpos := Set.encard_pos.2 ⟨_, hstart⟩
      subst hlimit
      rw [← Array.size_eq_zero_iff] at hnodes
      refine ⟨Nat.le_of_eq hnodes, by simp [hnodes], fun slots heq => ?_, fun limit heq => ?_⟩
      · cases houtcome.symm.trans heq
      · cases houtcome.symm.trans heq
        exact ⟨rfl, hnodes, hpos⟩
    | atGoal _ hnodes houtcome hlimit =>
      refine withinBudget_of_ne (hnodes ▸ searchTree_singleton problem) ?_ (fun slots heq => ?_)
        fun limit heq => ?_
      · rw [hnodes]
        exact Nat.pos_of_ne_zero hlimit
      · cases houtcome.symm.trans heq
      · cases houtcome.symm.trans heq
  · exact withinBudget_of_stopped hfrontier hfits hstopped

end Search

namespace SearchPlanner

theorem withinBudget_afterAll (budget : SearchBudget) (history : List Call) (call : Call) :
    Search.WithinBudget call.problem budget.nodes
      (call.problem.search budget.nodes (afterAll budget history).latest) := by
  have hready := ready_afterAll budget history
  refine Search.withinBudget_search call.problem hready.bounded ?_
  rw [hready.size_eq]
  exact StateTable.lt_slotCount budget.nodes

/-- A planner never reports a full table. If it reports too many states then more states can be
reached than it may keep, and it kept as many as it may. However a call ends, no more states were
kept than the budget allows, and no more than can be reached. -/
theorem exhaustion_of_answer (budget : SearchBudget) (history : List Call) (call : Call) :
    (∀ slots, (afterAll budget history).answer call ≠ .error (.tableFull slots)) ∧
    (∀ limit, (afterAll budget history).answer call = .error (.tooManyStates limit) →
      limit = budget.nodes ∧
      ((afterAll budget history).after call).latestStats.reached = budget.nodes ∧
      (budget.nodes : ℕ∞) < (call.problem.library.reachable call.problem.start).encard) ∧
    ((afterAll budget history).after call).latestStats.reached ≤ budget.nodes ∧
    (((afterAll budget history).after call).latestStats.reached : ℕ∞) ≤
      (call.problem.library.reachable call.problem.start).encard := by
  have hwithin := withinBudget_afterAll budget history call
  -- The counters and the reason for a failure are those of the search.
  have hreached : ((afterAll budget history).after call).latestStats.reached =
      (call.problem.search budget.nodes (afterAll budget history).latest).search.nodes.size := by
    rw [latestStats_after, budget_afterAll]
    rfl
  have houtcome {reason : PlanError} (hlong : ∀ needed space, reason ≠ .planTooLong needed space)
      (h : (afterAll budget history).answer call = .error reason) :
      (call.problem.search budget.nodes (afterAll budget history).latest).outcome =
        .error reason := by
    rw [answer_eq, budget_afterAll] at h
    exact (outcome_of_extractPlan_error h).resolve_right fun ⟨needed, heq⟩ => hlong _ _ heq
  refine ⟨fun slots h => ?_, fun limit h => ?_, hreached ▸ hwithin.size_le,
    hreached ▸ hwithin.size_le_encard⟩
  · exact hwithin.outcome_ne slots (houtcome (fun _ _ heq => by cases heq) h)
  · rw [hreached]
    exact hwithin.of_tooManyStates limit (houtcome (fun _ _ heq => by cases heq) h)

/-- Two nodes are not enough for the three states around the wall. -/
theorem exhaustion_crossing :
    (afterAll ⟨2, 2⟩ []).answer crossingCall = .error (.tooManyStates 2) ∧
      2 = 2 ∧ ((afterAll ⟨2, 2⟩ []).after crossingCall).latestStats.reached = 2 ∧
      ((2 : Nat) : ℕ∞) < (crossing.reachable .empty).encard := by
  have hanswer : (afterAll ⟨2, 2⟩ []).answer crossingCall = .error (.tooManyStates 2) := by
    decide +kernel
  exact ⟨hanswer, (exhaustion_of_answer ⟨2, 2⟩ [] crossingCall).2.1 2 hanswer⟩

end SearchPlanner

end AgentPlanning
