import AgentPlanning.Proofs.Search.Answers
import AgentPlanning.Proofs.Search.Trail
import AgentPlanning.Proofs.Search.UnitCost
import Mathlib.Order.Bounds.Defs

/-!
# Searching with a Consistent Estimate

If no action lowers the estimate by more than its cost, and no sum of costs exceeds the greatest
one, then nodes come up in the order of their estimated total costs, and a node that comes up has
been reached as cheaply as possible. So it is never reached more cheaply later on, and its state
does not come up again. Main statements:

* `exists_open_or_node`: along a plan there is an open entry, or the plan leads to a node;
* `settled_of_noted`, `settled_of_pop`, `settled_of_step`: what an operation and a step keep;
* `ordered_trail`: the nodes that come up in a run;
* `cheapest_of_consistent`: the nodes that come up in a call, and the counters of the call.
-/

namespace AgentPlanning

/-- What the plans cost that lead from the start to the state. -/
def SearchProblem.costsTo (problem : SearchProblem) (state : WorldState) : Set Nat :=
  {cost | ∃ plan, problem.library.Executes problem.start plan state ∧
    problem.library.planCost? plan = some cost}

variable {problem : SearchProblem} {nodeLimit : Nat}

theorem SearchProblem.zero_mem_costsTo (problem : SearchProblem) :
    0 ∈ problem.costsTo problem.start :=
  ⟨[], .nil _, rfl⟩

theorem SearchProblem.add_mem_costsTo {state : WorldState} {cost : Nat} {action : ActionId}
    (h : cost ∈ problem.costsTo state)
    (happlicable : problem.library.isApplicable action state = true) :
    cost + problem.library.actionCost action ∈
      problem.costsTo (problem.library.apply action state) := by
  obtain ⟨plan, hexecutes, hcost⟩ := h
  refine ⟨plan ++ [action], hexecutes.concat happlicable, ?_⟩
  exact ActionLibrary.planCost?_concat hcost hexecutes.contains
    (ActionLibrary.contains_of_isApplicable happlicable)

/-- A plan lowers the weighted count of unsatisfied atoms by no more than it costs. -/
theorem weighted_mismatches_le_add (hconsistent : problem.Consistent 1) {start final : WorldState}
    {plan : List ActionId} (h : problem.library.Executes start plan final) {cost : Nat}
    (hcost : problem.library.planCost? plan = some cost) :
    problem.weight.toNat * problem.goal.mismatches start ≤
      cost + problem.weight.toNat * problem.goal.mismatches final := by
  induction h generalizing cost with
  | nil => exact Nat.le_add_left ..
  | @cons state _ action rest applicable _ ih =>
    rw [ActionLibrary.planCost?_cons _ (ActionLibrary.contains_of_isApplicable applicable)] at hcost
    obtain ⟨costRest, hrest, rfl⟩ := Option.map_eq_some_iff.1 hcost
    have hfirst := hconsistent action state applicable
    have hlater := ih hrest
    omega

namespace Search

variable {s t : Search}

/-! ## Exact costs -/

/-- No cost exceeds the greatest one: not the estimated total cost of an open entry, and not the
cost of a successor, if the step expands a node to the end. -/
structure Exact (problem : SearchProblem) (nodeLimit : Nat) (s : Search) : Prop where
  estimates : ∀ entry ∈ s.openList.toList, ∀ node ∈ s.nodes[entry.node]?,
    entry.cost + problem.weight.toNat * problem.goal.mismatches node.state ≤ maxCost
  costs : (step problem nodeLimit s).isOk → ∀ due ∈ s.due?,
    ∀ action ∈ problem.library.candidates due.2.state,
      problem.library.isApplicable action due.2.state = true →
      problem.library.apply action due.2.state ≠ due.2.state →
        due.1.cost + problem.library.actionCost action ≤ maxCost

instance (problem : SearchProblem) (nodeLimit : Nat) (s : Search) :
    Decidable (s.Exact problem nodeLimit) :=
  decidable_of_iff
    ((∀ entry ∈ s.openList.toList, ∀ node ∈ s.nodes[entry.node]?,
      entry.cost + problem.weight.toNat * problem.goal.mismatches node.state ≤ maxCost) ∧
    ((step problem nodeLimit s).isOk → ∀ due ∈ s.due?,
      ∀ action ∈ problem.library.candidates due.2.state,
        problem.library.isApplicable action due.2.state = true →
        problem.library.apply action due.2.state ≠ due.2.state →
          due.1.cost + problem.library.actionCost action ≤ maxCost))
    ⟨fun h => ⟨h.1, h.2⟩, fun h => ⟨h.estimates, h.costs⟩⟩

/-- The estimate of an open entry is exact. -/
theorem Exact.estimate_eq (h : s.Exact problem nodeLimit) (hestimated : Estimated problem s)
    {entry : OpenList.Entry} (hentry : entry ∈ s.openList.toList) {node : Node}
    (hnode : s.nodes[entry.node]? = some node) :
    entry.estimate =
      entry.cost + problem.weight.toNat * problem.goal.mismatches node.state := by
  have hle := h.estimates entry hentry node hnode
  obtain ⟨known, hknown, hestimate⟩ := hestimated entry hentry
  obtain rfl := Option.some.inj (hnode.symm.trans hknown)
  rw [hestimate, addCost, SearchProblem.estimate, Nat.mul_comm (problem.goal.mismatches _)]
  omega

/-! ## Along a plan -/

/-- Along a plan from a node, of which the cost and the cost of the plan stay within a bound, there
is an open entry whose estimate stays within the bound, or the plan leads to a node that does. -/
theorem exists_open_or_node (hfrontier : Frontier problem s) (hconsistent : problem.Consistent 1)
    {start final : WorldState} {plan : List ActionId}
    (h : problem.library.Executes start plan final) {cost bound : Nat}
    (hcost : problem.library.planCost? plan = some cost) {i : NodeIndex} {node : Node}
    (hnode : s.nodes[i]? = some node) (hstate : node.state = start)
    (hbound : node.cost + cost ≤ bound) :
    (∃ entry ∈ s.openList.toList,
      entry.estimate ≤ bound + problem.weight.toNat * problem.goal.mismatches final) ∨
    ∃ (j : NodeIndex) (last : Node), s.nodes[j]? = some last ∧ last.state = final ∧
      last.cost ≤ bound := by
  induction h generalizing cost i node with
  | nil => exact .inr ⟨i, node, hnode, hstate, Nat.le_trans (Nat.le_add_right ..) hbound⟩
  | @cons state final action rest applicable executes ih =>
    subst hstate
    rcases hfrontier.covered i (lt_size_of_getElem? hnode) with hopen | hexpanded
    · -- The rest of the plan is still ahead of the entry.
      obtain ⟨known, hknown, entry, hmem, hindex, hentry⟩ := hopen
      obtain rfl := Option.some.inj (hnode.symm.trans hknown)
      obtain ⟨own, hown, hestimate⟩ := hfrontier.estimated entry hmem
      rw [hindex] at hown
      obtain rfl := Option.some.inj (hnode.symm.trans hown)
      refine .inl ⟨entry, hmem, ?_⟩
      have hahead := weighted_mismatches_le_add hconsistent (.cons applicable executes) hcost
      have hweighted := problem.estimate_le node.state
      have hsum : entry.estimate ≤ node.cost + problem.estimate node.state := by
        rw [hestimate, hentry]
        exact Nat.min_le_left _ _
      omega
    · -- An expanded node reaches the next state of the plan, at the cost of the action.
      obtain ⟨known, hknown, -, hreaches⟩ := hexpanded
      obtain rfl := Option.some.inj (hnode.symm.trans hknown)
      obtain ⟨j, next, hnext, hsame, hle⟩ := hreaches action applicable
      rw [ActionLibrary.planCost?_cons _
        (ActionLibrary.contains_of_isApplicable applicable)] at hcost
      obtain ⟨costRest, hrest, rfl⟩ := Option.map_eq_some_iff.1 hcost
      have hadd : addCost node.cost (problem.library.actionCost action) ≤
          node.cost + problem.library.actionCost action := Nat.min_le_left _ _
      exact ih hrest hnext hsame (by omega)

/-! ## What has come up so far -/

/-- The nodes come up in the order of their estimated total costs, no state comes up twice, and
each was reached as cheaply as possible. -/
structure Ordered (problem : SearchProblem) (due : List (OpenList.Entry × Node)) : Prop where
  sorted : (due.map (·.1.estimate)).Pairwise (· ≤ ·)
  distinct : (due.map (·.2.state)).Nodup
  cheapest : ∀ d ∈ due, IsLeast (problem.costsTo d.2.state) d.1.cost

/-- A search in which the given nodes have come up. -/
structure Settled (problem : SearchProblem) (due : List (OpenList.Entry × Node)) (s : Search) :
    Prop extends Ordered problem due where
  /-- The cost of a node is that of a plan. -/
  paid : ∀ (i : NodeIndex) (node : Node), s.nodes[i]? = some node →
    node.cost ∈ problem.costsTo node.state
  /-- A node is not opened twice at the same cost. -/
  nodup : (s.openList.toList.map fun entry => (entry.node, entry.cost)).Nodup
  /-- A node is never opened at less than its cost. -/
  cost_le : ∀ entry ∈ s.openList.toList, ∃ node, s.nodes[entry.node]? = some node ∧
    node.cost ≤ entry.cost
  /-- A node that came up is as it was. -/
  kept : ∀ d ∈ due, s.nodes[d.1.node]? = some d.2 ∧ d.2.cost = d.1.cost
  /-- It is no longer open. -/
  closed : ∀ d ∈ due, ∀ entry ∈ s.openList.toList, entry.node = d.1.node →
    entry.cost ≠ d.1.cost
  /-- What is still open comes later. -/
  ahead : ∀ d ∈ due, ∀ entry ∈ s.openList.toList, d.1.estimate ≤ entry.estimate

/-! ## Taking note of a path -/

section Noted

variable {due : List (OpenList.Entry × Node)} {state : WorldState} {arrival : Arrival} {cost : Nat}

/-- A node that has not come up is opened, at a lower cost than it was open at before. -/
theorem settled_opened {u : Search} {index : NodeIndex} (h : Settled problem due s)
    (hopen : u.openList = s.openList) (hnode : u.nodes[index]? = some ⟨state, some arrival, cost⟩)
    (hothers : ∀ i ≠ index, u.nodes[i]? = s.nodes[i]?) (hpaid : cost ∈ problem.costsTo state)
    (hdue : ∀ d ∈ due, d.1.node ≠ index)
    (hfresh : ∀ entry ∈ s.openList.toList, entry.node = index → cost < entry.cost)
    (hahead : ∀ d ∈ due, d.1.estimate ≤ addCost cost (problem.estimate state)) :
    Settled problem due (opened problem u index state cost) := by
  rw [← hopen] at hfresh
  have hentries := h.cost_le
  have hnodup := h.nodup
  rw [← hopen] at hentries hnodup
  refine ⟨h.toOrdered, fun i node hi => ?_, ?_, fun entry hentry => ?_, fun d hd => ?_,
    fun d hd entry hentry hsame => ?_, fun d hd entry hentry => ?_⟩
  · by_cases heq : i = index
    · subst heq
      obtain rfl := Option.some.inj (hnode.symm.trans hi)
      exact hpaid
    · exact h.paid i node ((hothers i heq).symm.trans hi)
  · refine ((OpenList.toList_push ..).map _).nodup_iff.2 (List.nodup_cons.2 ⟨?_, hnodup⟩)
    intro hmem
    obtain ⟨entry, hentry, hpair⟩ := List.mem_map.1 hmem
    obtain ⟨hindex, hcost⟩ := Prod.mk.inj hpair
    exact absurd hcost (Nat.ne_of_gt (hfresh entry hentry hindex))
  · rcases mem_opened.1 hentry with rfl | hold
    · exact ⟨_, hnode, Nat.le_refl _⟩
    · by_cases heq : entry.node = index
      · exact ⟨_, heq ▸ hnode, Nat.le_of_lt (hfresh entry hold heq)⟩
      · obtain ⟨node, hi, hle⟩ := hentries entry hold
        exact ⟨node, (hothers _ heq).trans hi, hle⟩
  · obtain ⟨hkept, hsame⟩ := h.kept d hd
    exact ⟨(hothers _ (hdue d hd)).trans hkept, hsame⟩
  · rcases mem_opened.1 hentry with rfl | hold
    · exact absurd hsame.symm (hdue d hd)
    · exact h.closed d hd entry (hopen ▸ hold) hsame
  · rcases mem_opened.1 hentry with rfl | hold
    · exact hahead d hd
    · exact h.ahead d hd entry (hopen ▸ hold)

/-- A path to a state is noted, at the cost of a plan. A node that came up is not affected, because
no plan to its state costs less. -/
theorem settled_of_noted (h : Settled problem due s)
    (hnoted : Noted problem nodeLimit s state arrival cost t)
    (hpaid : cost ∈ problem.costsTo state)
    (hahead : ∀ d ∈ due, d.1.estimate ≤ addCost cost (problem.estimate state)) :
    Settled problem due t := by
  cases hnoted with
  | kept => exact h
  | @improved index known _ hknown hstate hlt =>
    have hget := SearchTree.getElem?_improved arrival cost hknown
    have hnode : (s.nodes.modify index fun node => { node with arrival, cost })[index]? =
        some ⟨state, some arrival, cost⟩ := by
      rw [hget, if_pos rfl, hstate]
    refine settled_opened h rfl hnode (fun i hi => ?_) hpaid (fun d hd => ?_)
      (fun entry hentry hindex => ?_) hahead
    · exact (hget i).trans (if_neg (Ne.symm hi))
    · rintro rfl
      obtain ⟨hkept, hsame⟩ := h.kept d hd
      obtain rfl := Option.some.inj (hknown.symm.trans hkept)
      have hle := (h.cheapest d hd).2 (hstate ▸ hpaid)
      omega
    · obtain ⟨node, hnode, hle⟩ := h.cost_le entry hentry
      rw [hindex] at hnode
      obtain rfl := Option.some.inj (hknown.symm.trans hnode)
      exact Nat.lt_of_lt_of_le hlt hle
  | added =>
    have hnode : (s.nodes.push ⟨state, some arrival, cost⟩)[s.nodes.size]? =
        some ⟨state, some arrival, cost⟩ := Array.getElem?_push_size
    refine settled_opened h rfl hnode (fun i hi => ?_) hpaid (fun d hd => ?_)
      (fun entry hentry hindex => ?_) hahead
    · exact Array.getElem?_push.trans (if_neg hi)
    · exact Nat.ne_of_lt (lt_size_of_getElem? (h.kept d hd).1)
    · -- No entry belongs to a node that is not there yet.
      obtain ⟨node, hnode, -⟩ := h.cost_le entry hentry
      exact absurd hindex (Nat.ne_of_lt (lt_size_of_getElem? hnode))

/-- What is due is at most the estimated total cost of a successor. -/
theorem le_estimate_of_consistent (hconsistent : problem.Consistent 1) {estimate : Nat}
    {action : ActionId} (happlicable : problem.library.isApplicable action state = true)
    (hestimate : estimate ≤ cost + problem.weight.toNat * problem.goal.mismatches state)
    (hle : estimate ≤ maxCost) :
    estimate ≤ addCost (cost + problem.library.actionCost action)
      (problem.estimate (problem.library.apply action state)) := by
  have hbound := hconsistent action state happlicable
  rw [addCost, SearchProblem.estimate, Nat.mul_comm (problem.goal.mismatches _)]
  omega

end Noted

/-! ## Steps -/

section Steps

variable {due : List (OpenList.Entry × Node)} {entry : OpenList.Entry} {node : Node}
  {rest : OpenList}

/-- A node that comes up was reached as cheaply as possible, and did not come up before. -/
theorem ordered_concat (hfrontier : Frontier problem s) (hconsistent : problem.Consistent 1)
    (h : Settled problem due s) (hexact : s.Exact problem nodeLimit)
    (hdue : s.due? = some (entry, node)) : Ordered problem (due ++ [(entry, node)]) := by
  obtain ⟨rest, hpop, hnode, hlive⟩ := due?_eq_some hdue
  obtain ⟨hperm, hfirst⟩ := OpenList.toList_of_pop? hpop
  have hentry : entry ∈ s.openList.toList := hperm.mem_iff.2 List.mem_cons_self
  have hestimate := hexact.estimate_eq hfrontier.estimated hentry hnode
  refine ⟨?_, ?_, fun d hd => ?_⟩
  · rw [List.map_append, List.pairwise_append]
    refine ⟨h.sorted, List.pairwise_singleton _ _, fun a ha b hb => ?_⟩
    obtain ⟨d, hd, rfl⟩ := List.mem_map.1 ha
    obtain rfl := List.mem_singleton.1 hb
    exact h.ahead d hd entry hentry
  · rw [List.map_append, List.map_singleton, ← List.concat_eq_append]
    refine List.Nodup.concat (fun hmem => ?_) h.distinct
    -- The node of a state that came up is not open at its cost.
    obtain ⟨d, hd, hstate⟩ := List.mem_map.1 hmem
    obtain ⟨hkept, hcost⟩ := h.kept d hd
    have hindex : d.1.node = entry.node := hfrontier.tree.distinct hkept hnode hstate
    rw [hindex] at hkept
    obtain rfl := Option.some.inj (hnode.symm.trans hkept)
    exact h.closed d hd entry hentry hindex.symm (hlive.symm.trans hcost)
  · rcases List.mem_append.1 hd with hold | hnew
    · exact h.cheapest d hold
    obtain rfl := List.mem_singleton.1 hnew
    refine ⟨hlive ▸ h.paid _ _ hnode, fun cost hcost => ?_⟩
    obtain ⟨plan, hexecutes, hplan⟩ := hcost
    -- If a plan were cheaper, it would have led to the node already, or be ahead of it.
    rcases exists_open_or_node hfrontier hconsistent hexecutes hplan hfrontier.tree.root rfl
      (Nat.le_of_eq (Nat.zero_add cost)) with ⟨other, hother, hle⟩ | ⟨j, last, hlast, hstate, hle⟩
    · have hmin : entry.estimate ≤ other.estimate := by
        rcases List.mem_cons.1 (hperm.mem_iff.1 hother) with rfl | hrest
        · exact Nat.le_refl _
        · rcases OpenList.Entry.le_iff.1 (hfirst other hrest) with hlt | ⟨heq, -⟩
          · exact Nat.le_of_lt hlt
          · exact Nat.le_of_eq heq
      dsimp only at hle ⊢
      omega
    · obtain rfl : j = entry.node := hfrontier.tree.distinct hlast hnode hstate
      obtain rfl := Option.some.inj (hnode.symm.trans hlast)
      dsimp only
      omega

/-- An entry is taken out whose node does not come up. -/
theorem settled_of_perm {u : Search} {other : OpenList.Entry} (h : Settled problem due s)
    (hnodes : u.nodes = s.nodes)
    (hperm : s.openList.toList.Perm (other :: u.openList.toList)) : Settled problem due u := by
  have hsub : ∀ e ∈ u.openList.toList, e ∈ s.openList.toList :=
    fun e he => hperm.mem_iff.2 (List.mem_cons_of_mem _ he)
  have hnodup := (hperm.map fun entry => (entry.node, entry.cost)).nodup_iff.1 h.nodup
  refine ⟨h.toOrdered, ?_, (List.nodup_cons.1 hnodup).2, fun e he => ?_, ?_,
    fun d hd e he => h.closed d hd e (hsub e he), fun d hd e he => h.ahead d hd e (hsub e he)⟩
  · rw [hnodes]
    exact h.paid
  · rw [hnodes]
    exact h.cost_le e (hsub e he)
  · rw [hnodes]
    exact h.kept

/-- The node that comes up is no longer open once its entry has been taken out. -/
theorem settled_of_pop {u : Search} (hordered : Ordered problem (due ++ [(entry, node)]))
    (h : Settled problem due s) (hpop : s.openList.pop? = some (entry, rest))
    (hnode : s.nodes[entry.node]? = some node) (hlive : node.cost = entry.cost)
    (hnodes : u.nodes = s.nodes) (hopen : u.openList = rest) :
    Settled problem (due ++ [(entry, node)]) u := by
  obtain ⟨hperm, hfirst⟩ := OpenList.toList_of_pop? hpop
  rw [← hopen] at hperm hfirst
  have hrest := settled_of_perm h hnodes hperm
  refine ⟨hordered, hrest.paid, hrest.nodup, hrest.cost_le, fun d hd => ?_, fun d hd e he => ?_,
    fun d hd e he => ?_⟩
  · rcases List.mem_append.1 hd with hold | hnew
    · exact hrest.kept d hold
    · obtain rfl := List.mem_singleton.1 hnew
      rw [hnodes]
      exact ⟨hnode, hlive⟩
  · rcases List.mem_append.1 hd with hold | hnew
    · exact hrest.closed d hold e he
    · obtain rfl := List.mem_singleton.1 hnew
      intro hindex hcost
      -- The node would have been opened twice at this cost.
      have hnodup := (hperm.map fun entry => (entry.node, entry.cost)).nodup_iff.1 h.nodup
      refine (List.nodup_cons.1 hnodup).1 (List.mem_map.2 ⟨e, he, ?_⟩)
      exact Prod.ext hindex hcost
  · rcases List.mem_append.1 hd with hold | hnew
    · exact hrest.ahead d hold e he
    · obtain rfl := List.mem_singleton.1 hnew
      rcases OpenList.Entry.le_iff.1 (hfirst e he) with hlt | ⟨heq, -⟩
      · exact Nat.le_of_lt hlt
      · exact Nat.le_of_eq heq

/-- An action of the node that came up last. -/
theorem settled_of_tried (hconsistent : problem.Consistent 1) (h : Settled problem due s)
    {i : NodeIndex} {state : WorldState} {cost : Nat} {action : ActionId}
    (hpaid : cost ∈ problem.costsTo state)
    (hdue : ∀ d ∈ due, d.1.estimate ≤ maxCost ∧
      d.1.estimate ≤ cost + problem.weight.toNat * problem.goal.mismatches state)
    (hexact : problem.library.isApplicable action state = true →
      problem.library.apply action state ≠ state →
        cost + problem.library.actionCost action ≤ maxCost)
    (htried : Tried problem nodeLimit i state cost s action t) : Settled problem due t := by
  cases htried with
  | passed => exact h
  | noted applicable changes hnoted =>
    have hsum : addCost cost (problem.library.actionCost action) =
        cost + problem.library.actionCost action := Nat.min_eq_left (hexact applicable changes)
    rw [hsum] at hnoted
    refine settled_of_noted ?_ hnoted (SearchProblem.add_mem_costsTo hpaid applicable)
      fun d hd => ?_
    · -- The count of successors is of no account here.
      exact ⟨h.toOrdered, h.paid, h.nodup, h.cost_le, h.kept, h.closed, h.ahead⟩
    · obtain ⟨hle, hbound⟩ := hdue d hd
      exact le_estimate_of_consistent hconsistent applicable hbound hle

/-- After a step the node that was due has come up. -/
theorem settled_of_step (hfrontier : Frontier problem s) (hconsistent : problem.Consistent 1)
    (h : Settled problem due s) (hexact : s.Exact problem nodeLimit)
    (hstep : step problem nodeLimit s = .ok t) :
    Settled problem (due ++ s.due?.toList) t := by
  have hok : (step problem nodeLimit s).isOk := by rw [hstep]; rfl
  cases stepped_of_step hstep with
  | dropped hpop hstale =>
    rw [due?_of_stale hpop hstale, Option.toList_none, List.append_nil]
    exact settled_of_perm h rfl (OpenList.toList_of_pop? hpop).1
  | @expanded entry rest node _ hpop hnode hlive _ hexpand =>
    have hdue := due?_of_live hpop hnode hlive
    have hordered := ordered_concat hfrontier hconsistent h hexact hdue
    rw [hdue, Option.toList_some]
    have hentry : entry ∈ s.openList.toList :=
      (OpenList.toList_of_pop? hpop).1.mem_iff.2 List.mem_cons_self
    have hestimate := hexact.estimate_eq hfrontier.estimated hentry hnode
    have hrange := hexact.estimates entry hentry node hnode
    -- Everything that came up has an estimate no greater than that of the last entry.
    have hbound : ∀ d ∈ due ++ [(entry, node)], d.1.estimate ≤ entry.estimate := by
      intro d hd
      rcases List.mem_append.1 hd with hold | hnew
      · exact h.ahead d hold entry hentry
      · obtain rfl := List.mem_singleton.1 hnew
        exact Nat.le_refl _
    have hpopped : Settled problem (due ++ [(entry, node)])
        { s with openList := rest, expanded := s.expanded + 1 } :=
      settled_of_pop hordered h hpop hnode hlive rfl rfl
    refine motive_of_foldlM (motive := fun _ u => Settled problem (due ++ [(entry, node)]) u) ?_ []
      hpopped hexpand
    intro _ action u v hu htry
    refine settled_of_tried hconsistent hu (h.paid _ _ hnode) (fun d hd => ?_) ?_
      (tried_of_tryAction htry)
    · have hle := hbound d hd
      omega
    · intro happlicable hchanges
      rw [hlive]
      exact hexact.costs hok _ hdue action
        (ActionLibrary.mem_candidates_of_isApplicable happlicable) happlicable hchanges

end Steps

/-! ## Runs -/

theorem settled_withRoot (problem : SearchProblem) {table : StateTable} (hclean : table.Clean) :
    Settled problem [] (withRoot problem (initial table)) := by
  rw [withRoot_initial problem hclean]
  have hperm := OpenList.toList_push .empty ⟨problem.estimate problem.start, 0, 0, 0⟩
  refine ⟨⟨.nil, List.nodup_nil, fun d hd => absurd hd List.not_mem_nil⟩, fun i node hnode => ?_,
    ?_, fun entry hentry => ?_, fun d hd => absurd hd List.not_mem_nil,
    fun d hd => absurd hd List.not_mem_nil, fun d hd => absurd hd List.not_mem_nil⟩
  · obtain ⟨-, rfl⟩ := eq_of_getElem?_singleton hnode
    exact problem.zero_mem_costsTo
  · exact (hperm.map _).nodup_iff.2 (List.nodup_singleton _)
  · obtain rfl := List.mem_singleton.1 (hperm.mem_iff.1 hentry)
    exact ⟨_, rfl, Nat.le_refl _⟩

/-- The nodes that come up in a run, after those that came up before. -/
theorem ordered_trail (hconsistent : problem.Consistent 1) {n : Nat}
    {due : List (OpenList.Entry × Node)} (hfrontier : Frontier problem s)
    (h : Settled problem due s)
    (hexact : ∀ u ∈ trail (step problem nodeLimit) n s, u.Exact problem nodeLimit) :
    Ordered problem (due ++ (trail (step problem nodeLimit) n s).filterMap due?) := by
  induction n generalizing due s with
  | zero =>
    rw [trail, List.filterMap_nil, List.append_nil]
    exact h.toOrdered
  | succ n ih =>
    rw [trail] at hexact ⊢
    obtain ⟨hfirst, hlater⟩ := List.forall_mem_cons.1 hexact
    rw [filterMap_due?_cons, ← List.append_assoc]
    cases hstep : step problem nodeLimit s with
    | error ended =>
      rw [List.filterMap_nil, List.append_nil]
      cases hdue : s.due? with
      | none => rw [Option.toList_none, List.append_nil]; exact h.toOrdered
      | some d => exact ordered_concat hfrontier hconsistent h hfirst hdue
    | ok next =>
      rw [hstep] at hlater
      exact ih (frontier_of_stepped hfrontier (stepped_of_step hstep))
        (settled_of_step hfrontier hconsistent h hfirst hstep) hlater

/-- The nodes that come up in a search. -/
theorem ordered_due (hconsistent : problem.Consistent 1) {left : Search}
    (hbounded : left.table.Bounded)
    (hexact : ∀ s ∈ problem.trail nodeLimit left, s.Exact problem nodeLimit) :
    Ordered problem (problem.due nodeLimit left) := by
  have hclean := StateTable.clean_clear hbounded
  have hroot := settled_withRoot problem hclean
  rcases problem.trail_cases nodeLimit hbounded with ⟨htrail, -⟩ | ⟨htrail, -⟩
  · rw [SearchProblem.due, htrail]
    exact hroot.toOrdered
  · rw [htrail, left.reset_eq] at hexact
    have hordered := ordered_trail hconsistent (frontier_withRoot hclean) hroot hexact
    rwa [List.nil_append, ← left.reset_eq, ← htrail] at hordered

/-- If every state comes up only once, there are as many nodes as expansions. -/
theorem expanded_le_size {left : Search} (hbounded : left.table.Bounded)
    (hdistinct : ((problem.due nodeLimit left).map (·.2.state)).Nodup) :
    (problem.search nodeLimit left).search.expanded ≤
      (problem.search nodeLimit left).search.nodes.size := by
  calc (problem.search nodeLimit left).search.expanded
      = expansions problem (problem.due nodeLimit left) := problem.expanded_eq nodeLimit hbounded
    _ ≤ (problem.due nodeLimit left).length := List.countP_le_length
    _ = ((problem.due nodeLimit left).map (·.2.state)).length := (List.length_map _).symm
    _ ≤ ((problem.search nodeLimit left).search.nodes.toList.map (·.state)).length :=
        (hdistinct.subperm (problem.map_due_subset nodeLimit hbounded)).length_le
    _ = (problem.search nodeLimit left).search.nodes.size := by
        rw [List.length_map, Array.length_toList]

end Search

namespace SearchPlanner

variable {budget : SearchBudget} {history : List Call} {call : Call}

/-- If no action lowers the weighted count of unsatisfied atoms by more than its cost, and no cost
exceeds the greatest one, then the nodes come up in the order of their estimated total costs, no
state comes up twice, and the cost of a node that comes up is the least that a plan to its state
has. All of these nodes but one that satisfies the goal are expanded, so no more nodes are expanded
than are reached. -/
theorem cheapest_of_consistent (hconsistent : call.problem.Consistent 1)
    (hexact : ∀ s ∈ call.problem.trail budget.nodes (afterAll budget history).latest,
      s.Exact call.problem budget.nodes) :
    let due := call.problem.due budget.nodes (afterAll budget history).latest
    let stats := ((afterAll budget history).after call).latestStats
    (due.map (·.1.estimate)).Pairwise (· ≤ ·) ∧
    (due.map (·.2.state)).Nodup ∧
    (∀ d ∈ due, IsLeast (call.problem.costsTo d.2.state) d.1.cost) ∧
    stats.expanded = due.countP (fun d => !d.2.state.satisfies call.problem.goal) ∧
    stats.expanded ≤ stats.reached := by
  intro due stats
  have hbounded := bounded_afterAll budget history
  obtain ⟨hsorted, hdistinct, hcheapest⟩ := Search.ordered_due hconsistent hbounded hexact
  have hstats : stats =
      (call.problem.search budget.nodes (afterAll budget history).latest).search.stats := by
    have hlatest := latestStats_after (afterAll budget history) call
    rwa [budget_afterAll] at hlatest
  rw [hstats]
  exact ⟨hsorted, hdistinct, hcheapest, call.problem.expanded_eq budget.nodes hbounded,
    Search.expanded_le_size hbounded hdistinct⟩

/-- The leap reaches the other side first. But it is reached more cheaply before it comes up. -/
theorem cheapest_guidedCall :
    guidedCall.problem.Consistent 1 ∧
    (∀ s ∈ guidedCall.problem.trail 3 (afterAll ⟨3, 2⟩ [crampedCall]).latest,
      s.Exact guidedCall.problem 3) ∧
    (guidedCall.problem.due 3 (afterAll ⟨3, 2⟩ [crampedCall]).latest).map
      (fun d => (d.1.estimate, d.1.cost)) = [(1, 0), (2, 1), (2, 2)] ∧
    ∀ d ∈ guidedCall.problem.due 3 (afterAll ⟨3, 2⟩ [crampedCall]).latest,
      IsLeast (guidedCall.problem.costsTo d.2.state) d.1.cost := by
  have hconsistent : guidedCall.problem.Consistent 1 :=
    SearchProblem.consistent_of_gain_le (by decide +kernel)
  have hexact : ∀ s ∈ guidedCall.problem.trail 3 (afterAll ⟨3, 2⟩ [crampedCall]).latest,
      s.Exact guidedCall.problem 3 := by
    decide +kernel
  obtain ⟨-, -, hcheapest, -⟩ :=
    @cheapest_of_consistent ⟨3, 2⟩ [crampedCall] guidedCall hconsistent hexact
  exact ⟨hconsistent, hexact, by decide +kernel, hcheapest⟩

end SearchPlanner

end AgentPlanning
