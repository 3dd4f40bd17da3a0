import AgentPlanning.Proofs.Search.ParentLinks

/-!
# Open and Expanded Nodes

A path that is noted opens its node at the cost of the path. Later the entry comes up and the node
is expanded at that cost, or the entry is dropped because the node was opened again at a lower cost.
Since every path that is noted is cheaper than those before it, a node is opened at most once at a
cost, and so it is expanded at most once at a cost. Main statements:

* `ledger_of_noted`, `ledger_of_stepped`: no node is opened twice at the same cost, and the current
  cost of a node is one at which it is open or was expanded;
* `Progress.cost_lt_of_due`: a state that comes up again has become cheaper;
* `Progress.open_xor_closed`: a node is open at its current cost, or it was expanded at that cost;
* `SearchPlanner.open_xor_expanded`: what is known of the nodes whenever a step begins.
-/

namespace AgentPlanning

/-- A node and a cost at which it was opened. -/
abbrev Opening := NodeIndex × Nat

/-- The node of an entry, and the cost at which the entry opened it. -/
def OpenList.Entry.opening (entry : OpenList.Entry) : Opening := (entry.node, entry.cost)

/-- The open entries of a search. -/
def Search.openings (s : Search) : List Opening := s.openList.toList.map (·.opening)

/-- The expansions in steps that began in the given searches. -/
def SearchProblem.expandedIn (problem : SearchProblem) (past : List Search) :
    List (OpenList.Entry × Node) :=
  (past.filterMap Search.due?).filter (Search.isExpansion problem)

/-- What has become of the openings of the nodes: each is still in the list or was expanded, unless
the node was opened again at a lower cost. -/
structure Ledger (nodes : Array Node) (openings : List Opening) : Prop where
  /-- No node was opened twice at the same cost. -/
  nodup : openings.Nodup
  /-- No node was opened at less than its current cost. -/
  cost_le : ∀ opening ∈ openings, ∃ node, nodes[opening.1]? = some node ∧ node.cost ≤ opening.2
  /-- Every node was opened at its current cost. -/
  current : ∀ (i : NodeIndex) (node : Node), nodes[i]? = some node → (i, node.cost) ∈ openings

namespace Ledger

variable {nodes nodes' : Array Node} {openings openings' : List Opening}

theorem perm (h : Ledger nodes openings) (hperm : openings'.Perm openings) :
    Ledger nodes openings' where
  nodup := hperm.nodup_iff.2 h.nodup
  cost_le opening hmem := h.cost_le opening (hperm.mem_iff.1 hmem)
  current i node hnode := hperm.mem_iff.2 (h.current i node hnode)

/-- A node is opened at a lower cost than ever before, and no other node changes. -/
theorem cons (h : Ledger nodes openings) {index : NodeIndex} {node : Node}
    (hindex : nodes'[index]? = some node)
    (hlower : ∀ known, nodes[index]? = some known → node.cost < known.cost)
    (hothers : ∀ i ≠ index, nodes'[i]? = nodes[i]?) :
    Ledger nodes' ((index, node.cost) :: openings) where
  nodup := by
    refine List.nodup_cons.2 ⟨fun hmem => ?_, h.nodup⟩
    obtain ⟨known, hknown, hle⟩ := h.cost_le _ hmem
    exact absurd (hlower known hknown) (Nat.not_lt.2 hle)
  cost_le := by
    refine List.forall_mem_cons.2 ⟨⟨node, hindex, Nat.le_refl _⟩, fun opening hmem => ?_⟩
    obtain ⟨known, hknown, hle⟩ := h.cost_le opening hmem
    by_cases heq : opening.1 = index
    · rw [heq] at hknown ⊢
      exact ⟨node, hindex, Nat.le_trans (Nat.le_of_lt (hlower known hknown)) hle⟩
    · exact ⟨known, (hothers _ heq).trans hknown, hle⟩
  current i other hother := by
    by_cases heq : i = index
    · subst heq
      obtain rfl := Option.some.inj (hindex.symm.trans hother)
      exact List.mem_cons_self
    · exact List.mem_cons_of_mem _ (h.current i other ((hothers i heq).symm.trans hother))

/-- An opening that is not at the current cost of the node may be forgotten. -/
theorem of_cons {opening : Opening} (h : Ledger nodes (opening :: openings))
    (hstale : ∀ node, nodes[opening.1]? = some node → node.cost ≠ opening.2) :
    Ledger nodes openings where
  nodup := h.nodup.of_cons
  cost_le other hmem := h.cost_le other (List.mem_cons_of_mem _ hmem)
  current i node hnode := by
    refine (List.mem_cons.1 (h.current i node hnode)).resolve_left fun heq => ?_
    subst heq
    exact hstale node hnode rfl

end Ledger

namespace Search

variable {problem : SearchProblem} {nodeLimit : Nat} {s t : Search}

/-! ## Keeping the ledger -/

theorem openings_of_pop {entry : OpenList.Entry} {rest : OpenList}
    (hpop : s.openList.pop? = some (entry, rest)) :
    s.openings.Perm (entry.opening :: rest.toList.map (·.opening)) :=
  (OpenList.toList_of_pop? hpop).1.map _

theorem openings_opened (problem : SearchProblem) (s : Search) (index : NodeIndex)
    (state : WorldState) (cost : Nat) :
    (s.opened problem index state cost).openings.Perm ((index, cost) :: s.openings) :=
  (OpenList.toList_push ..).map _

/-- A path that is noted opens its node at a lower cost than ever before. -/
theorem ledger_of_noted {state : WorldState} {arrival : Arrival} {cost : Nat}
    {done : List Opening} (hnoted : Noted problem nodeLimit s state arrival cost t)
    (h : Ledger s.nodes (done ++ s.openings)) : Ledger t.nodes (done ++ t.openings) := by
  cases hnoted with
  | kept => exact h
  | @improved index known _ hknown _ hlt =>
    have hget := SearchTree.getElem?_improved arrival cost hknown
    have hopened := openings_opened problem
      { s with nodes := s.nodes.modify index fun node => { node with arrival, cost } }
      index state cost
    refine Ledger.perm (Ledger.cons h ((hget index).trans (if_pos rfl)) (fun old hold => ?_)
      fun i hi => (hget i).trans (if_neg hi.symm))
      ((hopened.append_left done).trans List.perm_middle)
    obtain rfl := Option.some.inj (hknown.symm.trans hold)
    exact hlt
  | @added slot _ _ =>
    have hopened := openings_opened problem
      { s with
        nodes := s.nodes.push ⟨state, some arrival, cost⟩
        table := s.table.store slot s.nodes.size } s.nodes.size state cost
    refine Ledger.perm (Ledger.cons h Array.getElem?_push_size (fun old hold => ?_)
      fun i hi => ?_) ((hopened.append_left done).trans List.perm_middle)
    · -- There was no node at that place before.
      exact absurd (lt_size_of_getElem? hold) (Nat.lt_irrefl _)
    · exact Array.getElem?_push.trans (if_neg hi)

theorem ledger_of_tried {parent : NodeIndex} {state : WorldState} {cost : Nat} {action : ActionId}
    {done : List Opening} (htried : Tried problem nodeLimit parent state cost s action t)
    (h : Ledger s.nodes (done ++ s.openings)) : Ledger t.nodes (done ++ t.openings) := by
  cases htried with
  | passed => exact h
  | noted _ _ hnoted => exact ledger_of_noted hnoted h

theorem ledger_of_foldlM {parent : NodeIndex} {state : WorldState} {cost : Nat}
    {actions : List ActionId} {done : List Opening}
    (hfold : actions.foldlM (tryAction problem nodeLimit parent state cost) s = .ok t)
    (h : Ledger s.nodes (done ++ s.openings)) : Ledger t.nodes (done ++ t.openings) :=
  motive_of_foldlM (motive := fun _ u => Ledger u.nodes (done ++ u.openings))
    (fun _ _ _ _ hu htry => ledger_of_tried (tried_of_tryAction htry) hu) [] h hfold

theorem expandedIn_concat (problem : SearchProblem) (past : List Search) (s : Search) :
    problem.expandedIn (past ++ [s]) =
      problem.expandedIn past ++ s.due?.toList.filter (isExpansion problem) := by
  rw [SearchProblem.expandedIn, List.filterMap_append, List.filter_append]
  cases hdue : s.due? <;> simp [SearchProblem.expandedIn, hdue]

theorem mem_expandedIn {past : List Search} {due : OpenList.Entry × Node} :
    due ∈ problem.expandedIn past ↔
      (∃ u ∈ past, u.due? = some due) ∧ isExpansion problem due = true := by
  rw [SearchProblem.expandedIn, List.mem_filter, List.mem_filterMap]

/-- The openings of nodes up to a search, after steps that began in the searches of `past`. -/
def openingsUpTo (problem : SearchProblem) (past : List Search) (s : Search) : List Opening :=
  (problem.expandedIn past).map (·.1.opening) ++ s.openings

theorem openingsUpTo_of_pop {past : List Search} {entry : OpenList.Entry} {rest : OpenList}
    (hpop : s.openList.pop? = some (entry, rest)) :
    (openingsUpTo problem past s).Perm ((problem.expandedIn past).map (·.1.opening) ++
      entry.opening :: rest.toList.map (·.opening)) :=
  (openings_of_pop hpop).append_left _

/-- The opening of the node that is expanded goes from the open ones to the expanded ones, and a
stale one is forgotten. -/
theorem ledger_of_stepped {past : List Search} (hstep : Stepped problem nodeLimit s t)
    (h : Ledger s.nodes (openingsUpTo problem past s)) :
    Ledger t.nodes (openingsUpTo problem (past ++ [s]) t) := by
  rw [openingsUpTo, expandedIn_concat]
  cases hstep with
  | dropped hpop hstale =>
    rw [due?_of_stale hpop hstale, Option.toList_none, List.filter_nil, List.append_nil]
    exact (h.perm ((openingsUpTo_of_pop hpop).trans List.perm_middle).symm).of_cons hstale
  | @expanded entry rest node t hpop hnode hlive hgoal hexpand =>
    have hexpansion : isExpansion problem (entry, node) = true := by
      rw [isExpansion, hgoal]
      rfl
    rw [due?_of_live hpop hnode hlive, Option.toList_some, List.filter_cons_of_pos hexpansion,
      List.filter_nil]
    refine ledger_of_foldlM hexpand (h.perm ?_)
    rw [List.map_append, List.append_assoc]
    exact (openingsUpTo_of_pop hpop).symm

/-! ## The searches of a run -/

/-- The node was expanded at its current cost, and where its actions lead is known to be at most as
dear as the way through the node. -/
def IsClosed (problem : SearchProblem) (past : List Search) (nodes : Array Node) (i : NodeIndex)
    (node : Node) : Prop :=
  (∃ due ∈ problem.expandedIn past, due.1.node = i ∧ due.2.cost = node.cost) ∧
    ∀ action, problem.library.isApplicable action node.state = true →
      Reaches problem nodes node.state node.cost action

/-- A later expansion of a state is at a lower cost. -/
def Descending (due : List (OpenList.Entry × Node)) : Prop :=
  due.Pairwise fun a b => a.2.state = b.2.state → b.2.cost < a.2.cost

/-- A search in which a step begins, after steps that began in the searches of `past`. -/
structure Progress (problem : SearchProblem) (nodeLimit : Nat) (past : List Search) (s : Search) :
    Prop extends Frontier problem s where
  fits : Fits nodeLimit s
  ledger : Ledger s.nodes (openingsUpTo problem past s)
  /-- No node was lost, and none became dearer. -/
  noDearer : ∀ earlier ∈ past, NoDearer earlier.nodes s.nodes
  descending : Descending (problem.expandedIn past)

namespace Progress

variable {past : List Search} (h : Progress problem nodeLimit past s)

include h

/-- A node that comes up again has become cheaper since. -/
theorem cost_lt_of_due {due earlier : OpenList.Entry × Node} (hdue : s.due? = some due)
    (hearlier : earlier ∈ problem.expandedIn past) (hstate : earlier.2.state = due.2.state) :
    due.2.cost < earlier.2.cost := by
  obtain ⟨entry, node⟩ := due
  obtain ⟨rest, hpop, hnode, hlive⟩ := due?_eq_some hdue
  obtain ⟨⟨u, hu, hexpanded⟩, -⟩ := mem_expandedIn.1 hearlier
  obtain ⟨-, -, hbefore, hliveBefore⟩ := due?_eq_some hexpanded
  -- The two expansions are of the same node.
  obtain ⟨known, hknown, hsame, -⟩ := h.noDearer u hu _ _ hbefore
  have hindex : earlier.1.node = entry.node := h.tree.distinct hknown hnode (hsame.trans hstate)
  rw [hindex] at hknown
  obtain rfl := Option.some.inj (hnode.symm.trans hknown)
  have hmem : earlier.1.opening ∈ (problem.expandedIn past).map (·.1.opening) :=
    List.mem_map_of_mem hearlier
  have hle : node.cost ≤ earlier.1.cost := by
    obtain ⟨other, hother, hle⟩ := h.ledger.cost_le _ (List.mem_append_left _ hmem)
    rw [OpenList.Entry.opening, hindex] at hother
    obtain rfl := Option.some.inj (hnode.symm.trans hother)
    exact hle
  rw [hliveBefore]
  refine Nat.lt_of_le_of_ne hle fun heq => ?_
  -- At the same cost the node would have been opened twice.
  have hopen : entry.opening ∈ s.openings := (openings_of_pop hpop).mem_iff.2 List.mem_cons_self
  have hopening : earlier.1.opening = entry.opening :=
    Prod.ext hindex (heq.symm.trans hlive)
  exact (List.nodup_append.1 h.ledger.nodup).2.2 _ hmem _ hopen hopening

theorem descending_concat : Descending (problem.expandedIn (past ++ [s])) := by
  rw [expandedIn_concat, Descending, List.pairwise_append]
  refine ⟨h.descending, ?_, fun earlier hearlier due hdue hstate => ?_⟩
  · refine List.Pairwise.filter _ ?_
    cases s.due? with
    | none => exact .nil
    | some due => exact List.pairwise_singleton _ _
  · have hlast := Option.mem_toList.1 (List.mem_filter.1 hdue).1
    exact h.cost_lt_of_due hlast hearlier hstate

/-- A node is open at its current cost, by one entry, or it was expanded at that cost. -/
theorem open_xor_closed {i : NodeIndex} {node : Node} (hnode : s.nodes[i]? = some node) :
    Xor (s.openings.count (i, node.cost) = 1) (IsClosed problem past s.nodes i node) := by
  obtain ⟨-, hnodup, hdisjoint⟩ := List.nodup_append.1 h.ledger.nodup
  rcases List.mem_append.1 (h.ledger.current i node hnode) with hexpanded | hopen
  · right
    have hclosed : (i, node.cost) ∉ s.openings := fun hopen =>
      hdisjoint _ hexpanded _ hopen rfl
    refine ⟨⟨?_, ?_⟩, fun hcount => ?_⟩
    · obtain ⟨due, hdue, heq⟩ := List.mem_map.1 hexpanded
      obtain ⟨hindex, hcost⟩ := Prod.mk.inj heq
      obtain ⟨⟨u, -, hu⟩, -⟩ := mem_expandedIn.1 hdue
      obtain ⟨-, -, -, hlive⟩ := due?_eq_some hu
      exact ⟨due, hdue, hindex, hlive.trans hcost⟩
    · -- A node that is not open is expanded.
      rcases h.covered i (lt_size_of_getElem? hnode) with
        ⟨known, hknown, entry, hentry, hindex, hcost⟩ | ⟨known, hknown, -, hreaches⟩
      · obtain rfl := Option.some.inj (hnode.symm.trans hknown)
        exact absurd (List.mem_map.2 ⟨entry, hentry, Prod.ext hindex hcost⟩) hclosed
      · obtain rfl := Option.some.inj (hnode.symm.trans hknown)
        exact hreaches
    · rw [List.count_eq_zero_of_not_mem hclosed] at hcount
      cases hcount
  · left
    refine ⟨List.count_eq_one_of_mem hnodup hopen, ?_⟩
    rintro ⟨⟨due, hdue, hindex, hcost⟩, -⟩
    -- The node would have been opened at this cost twice.
    obtain ⟨⟨u, -, hu⟩, -⟩ := mem_expandedIn.1 hdue
    obtain ⟨-, -, -, hlive⟩ := due?_eq_some hu
    exact hdisjoint _ (List.mem_map_of_mem hdue) _ hopen (Prod.ext hindex (hlive.symm.trans hcost))

/-- The table knows every node by its state. -/
theorem lookup_eq {i : NodeIndex} {node : Node} (hnode : s.nodes[i]? = some node) :
    s.table.lookup s.nodes node.state = .known i := by
  cases hlookup : s.table.lookup s.nodes node.state with
  | known j =>
    obtain ⟨other, hother, hstate⟩ := StateTable.exists_of_lookupFrom hlookup
    rw [h.tree.distinct hother hnode hstate]
  | free slot => exact absurd rfl (StateTable.state_ne_of_lookup_free h.table hlookup hnode)
  | full => exact absurd hlookup (h.fits.lookup_ne_full _)

end Progress

/-- What holds before a step holds before the next one. -/
theorem progress_of_stepped {past : List Search} (h : Progress problem nodeLimit past s)
    (hstep : Stepped problem nodeLimit s t) : Progress problem nodeLimit (past ++ [s]) t where
  toFrontier := frontier_of_stepped h.toFrontier hstep
  fits := fits_of_stepped hstep h.fits
  ledger := ledger_of_stepped hstep h.ledger
  noDearer earlier hearlier := by
    have hnodes := (expanded_of_stepped hstep).2
    rcases List.mem_append.1 hearlier with hpast | hlast
    · exact (h.noDearer earlier hpast).trans hnodes
    · exact List.mem_singleton.1 hlast ▸ hnodes
  descending := h.descending_concat

section Table

variable {left : Search} (hbounded : left.table.Bounded)
  (hslots : nodeLimit < left.table.slots.size)

include hbounded

/-- In the beginning the start is open, and nothing was expanded. -/
theorem ledger_withRoot : Ledger (withRoot problem left.reset).nodes
    (openingsUpTo problem [] (withRoot problem left.reset)) := by
  have hempty : Ledger #[] [] := ⟨.nil, by simp, by simp⟩
  rw [left.reset_eq, withRoot_initial problem (StateTable.clean_clear hbounded)]
  have hroot : #[(⟨problem.start, none, 0⟩ : Node)][0]? = some ⟨problem.start, none, 0⟩ := rfl
  refine (hempty.cons hroot ?_ ?_).perm ?_
  · intro known hknown
    cases hknown
  · intro i hi
    exact Array.getElem?_eq_none (Nat.pos_of_ne_zero hi)
  · exact (OpenList.toList_push ..).map (·.opening)

theorem progress_withRoot (hlimit : nodeLimit ≠ 0) (hslots : nodeLimit < left.table.slots.size) :
    Progress problem nodeLimit [] (withRoot problem left.reset) where
  toFrontier := frontier_withRoot (StateTable.clean_clear hbounded)
  fits := fits_withRoot problem (StateTable.clean_clear hbounded) hlimit
    (left.table.size_clear.symm ▸ hslots)
  ledger := ledger_withRoot hbounded
  noDearer _ hmem := absurd hmem List.not_mem_nil
  descending := .nil

variable (problem) in
include hslots in
theorem progress_of_getElem?_trail {k : Nat}
    (h : (problem.trail nodeLimit left)[k]? = some s) :
    Progress problem nodeLimit ((problem.trail nodeLimit left).take k) s := by
  by_cases hlimit : nodeLimit = 0
  · rw [SearchProblem.trail, if_pos hlimit] at h
    cases h
  · rcases SearchProblem.trail_cases problem nodeLimit hbounded with ⟨hnone, -⟩ | ⟨htrail, -⟩
    · rw [hnone] at h
      cases h
    · rw [htrail] at h ⊢
      exact motive_of_trail (motive := Progress problem nodeLimit)
        (fun _ _ _ hu hstep => progress_of_stepped hu (stepped_of_step hstep)) []
        (progress_withRoot hbounded hlimit hslots) _ h

include hslots in
/-- This includes the step in which the search ends. -/
theorem descending_trail :
    Descending (problem.expandedIn (problem.trail nodeLimit left)) := by
  rcases List.eq_nil_or_concat (problem.trail nodeLimit left) with hnil | ⟨past, last, hlast⟩
  · rw [hnil]
    exact .nil
  · have hprogress := progress_of_getElem?_trail problem hbounded hslots (s := last)
      (k := past.length) (by rw [hlast]; simp)
    rw [hlast] at hprogress ⊢
    rw [List.concat_eq_append, List.take_left] at hprogress
    exact List.concat_eq_append ▸ hprogress.descending_concat

end Table

/-- No node is lost until the search ends, and none becomes dearer. -/
theorem noDearer_of_mem_trail {n : Nat} {ended : SearchEnd}
    (h : runWithin (step problem nodeLimit) n s = some ended) :
    ∀ u ∈ trail (step problem nodeLimit) n s, NoDearer u.nodes ended.search.nodes := by
  induction n generalizing s with
  | zero => cases h
  | succ n ih =>
    rw [trail]
    refine List.forall_mem_cons.2 ⟨(expanded_of_runWithin h).2.1, ?_⟩
    rw [runWithin] at h
    cases hstep : step problem nodeLimit s with
    | error => exact fun _ hmem => absurd hmem List.not_mem_nil
    | ok next =>
      rw [hstep] at h
      exact ih h

end Search

namespace SearchPlanner

/-- Whenever a step begins, every node is open at its current cost, by one entry, or it was expanded
at that cost and its successors are known; it is never both. No node is lost, and a state that is
expanded again has become cheaper. -/
theorem open_xor_expanded (budget : SearchBudget) (history : List Call) (call : Call) :
    (∀ k s, (call.problem.trail budget.nodes (afterAll budget history).latest)[k]? = some s →
      (∀ (i : NodeIndex) (node : Node), s.nodes[i]? = some node →
        Xor (s.openings.count (i, node.cost) = 1)
          (Search.IsClosed call.problem
            ((call.problem.trail budget.nodes (afterAll budget history).latest).take k)
            s.nodes i node) ∧
        s.table.lookup s.nodes node.state = .known i) ∧
      (∀ earlier ∈ (call.problem.trail budget.nodes (afterAll budget history).latest).take k,
        NoDearer earlier.nodes s.nodes) ∧
      NoDearer s.nodes
        (call.problem.search budget.nodes (afterAll budget history).latest).search.nodes) ∧
    Search.Descending (call.problem.expandedIn
      (call.problem.trail budget.nodes (afterAll budget history).latest)) := by
  have hready := ready_afterAll budget history
  have hslots : budget.nodes < (afterAll budget history).latest.table.slots.size :=
    hready.size_eq ▸ StateTable.lt_slotCount budget.nodes
  refine ⟨fun k s hs => ?_, Search.descending_trail hready.bounded hslots⟩
  have hprogress := Search.progress_of_getElem?_trail call.problem hready.bounded hslots hs
  refine ⟨fun i node hnode => ?_, hprogress.noDearer, ?_⟩
  · exact ⟨hprogress.open_xor_closed hnode, hprogress.lookup_eq hnode⟩
  · rcases SearchProblem.trail_cases call.problem budget.nodes hready.bounded with
      ⟨hnone, -⟩ | ⟨htrail, hrun⟩
    · rw [hnone] at hs
      cases hs
    · rw [htrail] at hs
      exact Search.noDearer_of_mem_trail hrun s (List.mem_of_getElem? hs)

/-- There are two ways to a place (atom 0), a jump or a stroll (atom 2) and a cut, and it is left
(atom 1) at a high cost. With a weight of 5 the estimate leads along the jump first, and two nodes
are expanded twice. -/
example :
    let detours : ActionLibrary := .ofList [
      { name := "jump", pre := .free, post := Condition.free.require 0 true, cost := 3 },
      { name := "stroll", pre := .free, post := Condition.free.require 2 true, cost := 1 },
      { name := "cut", pre := Condition.free.require 2 true,
        post := (Condition.free.require 0 true).require 2 false, cost := 1 },
      { name := "leave", pre := Condition.free.require 0 true,
        post := Condition.free.require 1 true, cost := 10 }]
    let problem := (Call.plan detours .empty
      ((Condition.free.require 0 true).require 1 true) 5).problem
    (problem.expandedIn (problem.trail 8 (ofBudget ⟨8, 2⟩).latest)).map (·.1.opening) =
      [(0, 0), (1, 3), (3, 4), (2, 1), (1, 2), (3, 3)] := by
  decide +kernel

end SearchPlanner

end AgentPlanning
