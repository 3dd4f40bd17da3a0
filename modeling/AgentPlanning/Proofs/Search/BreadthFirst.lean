import AgentPlanning.Proofs.Action.PlanOrder
import AgentPlanning.Proofs.Search.Answers
import AgentPlanning.Proofs.Search.Trail

/-!
# Searching without a Preference

If all actions cost the same and the estimate is zero, then the search goes through the plans in
their order: first the shorter ones, then those that take earlier candidates. The nodes are
expanded in the order in which they were reached, the plan to a node is the first one to its
state, and it is never replaced. Main statements:

* `entry_eq_of_pop`: the open list is a queue;
* `layered_of_tried`, `layered_of_stepped`: the plans to the nodes are in order, and no plan to a
  successor comes before that of its node;
* `exists_notAfter_of_executes`: at any time, a plan has come to a node, or it is not earlier than
  the next one to be expanded;
* `first_of_answer`: the plan that is returned is the first of all plans that reach the goal.
-/

namespace AgentPlanning

namespace ActionLibrary

/-- All actions cost the same. -/
def UniformCost (library : ActionLibrary) (cost : UInt32) : Prop :=
  ∀ row ∈ library.actions, row.cost = cost

instance (library : ActionLibrary) (cost : UInt32) : Decidable (library.UniformCost cost) :=
  inferInstanceAs (Decidable (∀ row ∈ library.actions, row.cost = cost))

theorem actionCost_of_uniformCost {library : ActionLibrary} {cost : UInt32}
    (huniform : library.UniformCost cost) {action : ActionId}
    (h : library.contains action = true) : library.actionCost action = cost.toNat := by
  have hlt : action < library.actions.size := of_decide_eq_true h
  rw [actionCost, cost?, row?, Array.getElem?_eq_getElem hlt, Option.map_some, Option.getD_some,
    huniform _ (Array.getElem_mem hlt)]

end ActionLibrary

variable {problem : SearchProblem} {nodeLimit : Nat}

theorem SearchProblem.estimate_of_weight (hweight : problem.weight = 0) (state : WorldState) :
    problem.estimate state = 0 := by
  rw [estimate, hweight]
  exact Nat.zero_min _

namespace Search

variable {s t : Search}

/-! ## The open list as a queue -/

/-- The entry of a node that has never been reached more cheaply. -/
def entryOf (i : NodeIndex) (node : Node) : OpenList.Entry :=
  ⟨node.cost, node.cost, UInt32.ofNat i, i⟩

/-- Exactly the nodes from `first` on are open, each by one entry, and the entries are numbered as
the nodes are. -/
structure Queued (s : Search) (first : Nat) : Prop where
  seq_eq : s.seq + 1 = UInt32.ofNat s.nodes.size
  nodup : s.openList.toList.Nodup
  mem_iff : ∀ entry, entry ∈ s.openList.toList ↔
    first ≤ entry.node ∧ ∃ node, s.nodes[entry.node]? = some node ∧
      entry = entryOf entry.node node

theorem Queued.mem_entryOf {first : Nat} (h : Queued s first) {i : NodeIndex} {node : Node}
    (hnode : s.nodes[i]? = some node) (hi : first ≤ i) : entryOf i node ∈ s.openList.toList :=
  (h.mem_iff _).2 ⟨hi, node, hnode, rfl⟩

/-- If costs do not fall from node to node, the first node of the queue comes up. -/
theorem entry_eq_of_pop {first : Nat} (h : Queued s first) (hsize : s.nodes.size ≤ UInt32.size)
    (hcosts : ∀ (i j : NodeIndex) (a b : Node), i ≤ j → s.nodes[i]? = some a →
      s.nodes[j]? = some b → a.cost ≤ b.cost)
    {entry : OpenList.Entry} {rest : OpenList} (hpop : s.openList.pop? = some (entry, rest)) :
    ∃ node, s.nodes[first]? = some node ∧ entry = entryOf first node ∧
      Queued { s with openList := rest, expanded := s.expanded + 1 } (first + 1) := by
  obtain ⟨hperm, hfirst⟩ := OpenList.toList_of_pop? hpop
  obtain ⟨hle, known, hknown, hentry⟩ := (h.mem_iff entry).1 (hperm.mem_iff.2 List.mem_cons_self)
  have hlt := lt_size_of_getElem? hknown
  obtain ⟨node, hnode⟩ : ∃ node, s.nodes[first]? = some node :=
    ⟨_, Array.getElem?_eq_getElem (Nat.lt_of_le_of_lt hle hlt)⟩
  -- The entry of the first node is open, and the one that comes up is not after it.
  have hindex : entry.node = first := by
    have hmem := h.mem_entryOf hnode (Nat.le_refl first)
    rcases List.mem_cons.1 (hperm.mem_iff.1 hmem) with heq | hrest
    · rw [← heq]
      rfl
    · have hcost := hcosts _ _ _ _ hle hnode hknown
      have hbefore := OpenList.Entry.le_iff.1 (hfirst _ hrest)
      rw [hentry] at hbefore
      simp only [entryOf, UInt32.le_iff_toNat_le, UInt32.toNat_ofNat'] at hbefore
      rw [Nat.mod_eq_of_lt (Nat.lt_of_lt_of_le hlt hsize),
        Nat.mod_eq_of_lt (Nat.lt_of_le_of_lt hle (Nat.lt_of_lt_of_le hlt hsize))] at hbefore
      rcases hbefore with hless | ⟨-, hless | ⟨-, hindex⟩⟩
      · exact absurd hless (Nat.not_lt_of_le hcost)
      · exact absurd hless (Nat.not_lt_of_le hcost)
      · exact Nat.le_antisymm hindex hle
  rw [hindex] at hknown hentry
  refine ⟨known, hknown, hentry, h.seq_eq, ?_, fun other => ?_⟩
  · exact (List.nodup_cons.1 (hperm.nodup_iff.1 h.nodup)).2
  · have hfresh := (List.nodup_cons.1 (hperm.nodup_iff.1 h.nodup)).1
    constructor
    · intro hother
      obtain ⟨hother', node, hnode', heq⟩ :=
        (h.mem_iff other).1 (hperm.mem_iff.2 (List.mem_cons_of_mem _ hother))
      refine ⟨Nat.lt_of_le_of_ne hother' ?_, node, hnode', heq⟩
      rintro rfl
      obtain rfl := Option.some.inj (hknown.symm.trans hnode')
      rw [hentry, ← heq] at hfresh
      exact hfresh hother
    · rintro ⟨hother, node, hnode', heq⟩
      have hmem := (h.mem_iff other).2 ⟨Nat.le_of_succ_le hother, node, hnode', heq⟩
      refine (List.mem_cons.1 (hperm.mem_iff.1 hmem)).resolve_left ?_
      rintro rfl
      rw [hindex] at hother
      exact Nat.lt_irrefl _ hother

/-- A new node joins the end of the queue. -/
theorem queued_of_added {first slot : Nat} {state : WorldState} {arrival : Arrival} {cost : Nat}
    (h : Queued s first) (hfirst : first ≤ s.nodes.size) (hweight : problem.weight = 0)
    (hcost : cost ≤ maxCost) : Queued (s.added problem slot state arrival cost) first := by
  have hentry : (⟨addCost cost (problem.estimate state), cost, s.seq + 1, s.nodes.size⟩ :
      OpenList.Entry) = entryOf s.nodes.size ⟨state, some arrival, cost⟩ := by
    rw [SearchProblem.estimate_of_weight hweight, addCost, Nat.add_zero, Nat.min_eq_left hcost,
      h.seq_eq]
    rfl
  have hmem {entry : OpenList.Entry} :
      entry ∈ (s.added problem slot state arrival cost).openList.toList ↔
        entry = entryOf s.nodes.size ⟨state, some arrival, cost⟩ ∨ entry ∈ s.openList.toList :=
    hentry ▸ mem_opened
  have hold {i : NodeIndex} {node : Node} (hi : s.nodes[i]? = some node) :
      (s.nodes.push ⟨state, some arrival, cost⟩)[i]? = some node := by
    rw [Array.getElem?_push, if_neg (Nat.ne_of_lt (lt_size_of_getElem? hi)), hi]
  refine ⟨?_, ?_, fun entry => ?_⟩
  · show s.seq + 1 + 1 = UInt32.ofNat (s.nodes.push _).size
    rw [h.seq_eq, Array.size_push, UInt32.ofNat_add]
    rfl
  · refine (OpenList.toList_push ..).nodup_iff.2 (List.nodup_cons.2 ⟨fun hknown => ?_, h.nodup⟩)
    -- No entry belongs to the node that is not there yet.
    obtain ⟨-, node, hnode, -⟩ := (h.mem_iff _).1 hknown
    exact absurd (lt_size_of_getElem? hnode) (Nat.lt_irrefl _)
  · rw [hmem]
    constructor
    · rintro (rfl | hknown)
      · exact ⟨hfirst, _, Array.getElem?_push_size, rfl⟩
      · obtain ⟨hle, node, hnode, heq⟩ := (h.mem_iff entry).1 hknown
        exact ⟨hle, node, hold hnode, heq⟩
    · rintro ⟨hle, node, hnode, heq⟩
      have hget : (s.nodes.push ⟨state, some arrival, cost⟩)[entry.node]? = some node := hnode
      rw [Array.getElem?_push] at hget
      split at hget
      next hlast =>
        obtain rfl := Option.some.inj hget
        rw [hlast] at heq
        exact .inl heq
      next => exact .inr ((h.mem_iff entry).2 ⟨hle, node, hget, heq⟩)

/-! ## The plans to the nodes -/

/-- The action leads on from the plan to the state of a node, and the plan to this node does not
come after the one that goes on by the action. -/
def Onward (problem : SearchProblem) (plans : List (List ActionId)) (nodes : Array Node)
    (plan : List ActionId) (state : WorldState) (action : ActionId) : Prop :=
  ∃ (m : NodeIndex) (first : List ActionId) (next : Node), plans[m]? = some first ∧
    nodes[m]? = some next ∧ next.state = problem.library.apply action state ∧
    problem.library.NotAfter problem.start first (plan ++ [action])

/-- A plan keeps leading on when there is one more node. -/
theorem Onward.push {plans : List (List ActionId)} {nodes : Array Node} {plan : List ActionId}
    {state : WorldState} {action : ActionId} (h : Onward problem plans nodes plan state action)
    (added : List ActionId) (new : Node) :
    Onward problem (plans ++ [added]) (nodes.push new) plan state action := by
  obtain ⟨m, first, next, hfirst, hnext, hstate, hle⟩ := h
  have hm : m ≠ nodes.size := Nat.ne_of_lt (lt_size_of_getElem? hnext)
  refine ⟨m, first, next, ?_, by rwa [Array.getElem?_push, if_neg hm], hstate, hle⟩
  rwa [List.getElem?_append_left (List.getElem?_eq_some_iff.1 hfirst).1]

/-- A plan of a list with one more plan is an old one, or it is the last one. -/
theorem cases_of_getElem?_concat {plans : List (List ActionId)} {added plan : List ActionId}
    {i : Nat} (h : (plans ++ [added])[i]? = some plan) :
    i < plans.length ∧ plans[i]? = some plan ∨ i = plans.length ∧ plan = added := by
  obtain ⟨hi, -⟩ := List.getElem?_eq_some_iff.1 h
  rw [List.length_append] at hi
  rcases Nat.lt_succ_iff_lt_or_eq.1 hi with hold | rfl
  · exact .inl ⟨hold, by rwa [List.getElem?_append_left hold] at h⟩
  · exact .inr ⟨rfl, Option.some.inj (h.symm.trans List.getElem?_concat_length)⟩

/-- The nodes are reached by the given plans, in the order of the plans. The nodes before `k` have
been expanded, and of node `k` the actions `done` have been considered. -/
structure Layered (problem : SearchProblem) (cost : UInt32) (k : NodeIndex)
    (done : List ActionId) (plans : List (List ActionId)) (nodes : Array Node) : Prop where
  size_eq : plans.length = nodes.size
  routed : ∀ (i : NodeIndex) (plan : List ActionId), plans[i]? = some plan → Route nodes i plan
  sorted : plans.Pairwise (problem.library.Before problem.start)
  cost_eq : ∀ (i : NodeIndex) (plan : List ActionId) (node : Node), plans[i]? = some plan →
    nodes[i]? = some node → node.cost = min (plan.length * cost.toNat) maxCost
  /-- Every plan but the empty one goes on from that of an expanded node. -/
  parents : ∀ plan ∈ plans, plan = [] ∨ ∃ (j : NodeIndex) (parent : List ActionId)
    (action : ActionId), plans[j]? = some parent ∧ plan = parent ++ [action] ∧
      (j < k ∨ j = k ∧ action ∈ done)
  /-- An expanded node does not satisfy the goal. -/
  goal : ∀ (i : NodeIndex) (node : Node), i < k → nodes[i]? = some node →
    node.state.satisfies problem.goal = false
  /-- An action that has been considered leads on. -/
  onward : ∀ (i : NodeIndex) (plan : List ActionId) (node : Node) (action : ActionId),
    i < k ∨ i = k ∧ action ∈ done → plans[i]? = some plan → nodes[i]? = some node →
    problem.library.isApplicable action node.state = true →
    Onward problem plans nodes plan node.state action

section Layers

variable {cost : UInt32} {k : NodeIndex} {done : List ActionId} {plans : List (List ActionId)}
  {nodes : Array Node}

theorem Layered.exists_plan (h : Layered problem cost k done plans nodes) {i : NodeIndex}
    {node : Node} (hnode : nodes[i]? = some node) : ∃ plan, plans[i]? = some plan :=
  ⟨_, List.getElem?_eq_getElem (h.size_eq ▸ lt_size_of_getElem? hnode)⟩

theorem Layered.exists_node (h : Layered problem cost k done plans nodes) {i : NodeIndex}
    {plan : List ActionId} (hplan : plans[i]? = some plan) : ∃ node, nodes[i]? = some node := by
  obtain ⟨hlt, -⟩ := List.getElem?_eq_some_iff.1 hplan
  exact ⟨_, Array.getElem?_eq_getElem (h.size_eq ▸ hlt)⟩

theorem Layered.before (h : Layered problem cost k done plans nodes) {i j : NodeIndex}
    {p q : List ActionId} (hp : plans[i]? = some p) (hq : plans[j]? = some q) (hij : i < j) :
    problem.library.Before problem.start p q := by
  obtain ⟨hi, rfl⟩ := List.getElem?_eq_some_iff.1 hp
  obtain ⟨hj, rfl⟩ := List.getElem?_eq_some_iff.1 hq
  exact List.pairwise_iff_getElem.1 h.sorted i j hi hj hij

theorem Layered.notAfter (h : Layered problem cost k done plans nodes) {i j : NodeIndex}
    {p q : List ActionId} (hp : plans[i]? = some p) (hq : plans[j]? = some q) (hij : i ≤ j) :
    problem.library.NotAfter problem.start p q := by
  rcases Nat.eq_or_lt_of_le hij with rfl | hlt
  · exact .inl (Option.some.inj (hp.symm.trans hq))
  · exact .inr (h.before hp hq hlt)

/-- Costs do not fall from node to node. -/
theorem Layered.cost_mono (h : Layered problem cost k done plans nodes) {i j : NodeIndex}
    {a b : Node} (hij : i ≤ j) (ha : nodes[i]? = some a) (hb : nodes[j]? = some b) :
    a.cost ≤ b.cost := by
  obtain ⟨p, hp⟩ := h.exists_plan ha
  obtain ⟨q, hq⟩ := h.exists_plan hb
  have hlength := (h.notAfter hp hq hij).length_le
  have hscaled := Nat.mul_le_mul_right cost.toNat hlength
  rw [h.cost_eq i p a hp ha, h.cost_eq j q b hq hb]
  omega

theorem Layered.executes (h : Layered problem cost k done plans nodes)
    (tree : SearchTree problem nodes) {i : NodeIndex} {plan : List ActionId} {node : Node}
    (hplan : plans[i]? = some plan) (hnode : nodes[i]? = some node) :
    problem.library.Executes problem.start plan node.state :=
  tree.executes_of_route (h.routed i plan hplan) hnode

/-- Every known plan comes before the one that goes on from node `k` by an action that has not
been considered yet. -/
theorem Layered.before_concat (h : Layered problem cost k done plans nodes)
    (tree : SearchTree problem nodes) {plan : List ActionId} {node : Node}
    (hplan : plans[k]? = some plan) (hnode : nodes[k]? = some node) {action : ActionId}
    {rest : List ActionId}
    (hcandidates : problem.library.candidates node.state = done ++ action :: rest)
    (hnew : action ∉ done) {other : List ActionId} (hother : other ∈ plans) :
    problem.library.Before problem.start other (plan ++ [action]) := by
  rcases h.parents other hother with rfl | ⟨j, parent, last, hparent, rfl, hlt | ⟨rfl, hlast⟩⟩
  · refine ActionLibrary.before_of_length_lt ?_
    rw [List.length_append]
    exact Nat.succ_pos _
  · -- The plan goes on from an earlier plan.
    obtain ⟨known, hknown⟩ := h.exists_node hparent
    exact (h.before hparent hplan hlt).concat_concat (h.executes tree hparent hknown)
      (h.executes tree hplan hnode) last action
  · -- The plan goes on from the same plan, by an earlier candidate.
    obtain rfl := Option.some.inj (hplan.symm.trans hparent)
    refine ActionLibrary.before_concat_of_lt (h.executes tree hplan hnode) ?_
    rw [ActionLibrary.position, ActionLibrary.position, hcandidates,
      List.idxOf_append_of_mem hlast, List.idxOf_append_of_notMem hnew, List.idxOf_cons_self,
      Nat.add_zero]
    exact List.idxOf_lt_length_of_mem hlast

/-- If the next state is known then its plan does not come after the one that goes on from node
`k`. -/
theorem Layered.exists_notAfter (h : Layered problem cost k done plans nodes)
    (tree : SearchTree problem nodes) {plan : List ActionId} {node : Node}
    (hplan : plans[k]? = some plan) (hnode : nodes[k]? = some node) {action : ActionId}
    {rest : List ActionId}
    (hcandidates : problem.library.candidates node.state = done ++ action :: rest)
    (happlicable : problem.library.isApplicable action node.state = true) {m : NodeIndex}
    {next : Node} (hnext : nodes[m]? = some next)
    (hstate : next.state = problem.library.apply action node.state) :
    ∃ first, plans[m]? = some first ∧
      problem.library.NotAfter problem.start first (plan ++ [action]) := by
  by_cases hdone : action ∈ done
  · obtain ⟨i, first, known, hfirst, hknown, hsame, hle⟩ :=
      h.onward k plan node action (.inr ⟨rfl, hdone⟩) hplan hnode happlicable
    obtain rfl : i = m := tree.distinct hknown hnext (hsame.trans hstate.symm)
    exact ⟨first, hfirst, hle⟩
  · obtain ⟨first, hfirst⟩ := h.exists_plan hnext
    exact ⟨first, hfirst, .inr (h.before_concat tree hplan hnode hcandidates hdone
      (List.mem_of_getElem? hfirst))⟩

/-- The cost of one more action. -/
theorem Layered.addCost_eq (h : Layered problem cost k done plans nodes)
    (huniform : problem.library.UniformCost cost) {plan : List ActionId} {node : Node}
    (hplan : plans[k]? = some plan) (hnode : nodes[k]? = some node) {action : ActionId}
    (happlicable : problem.library.isApplicable action node.state = true) :
    addCost node.cost (problem.library.actionCost action) =
      min ((plan ++ [action]).length * cost.toNat) maxCost := by
  rw [ActionLibrary.actionCost_of_uniformCost huniform
    (ActionLibrary.contains_of_isApplicable happlicable), h.cost_eq k plan node hplan hnode,
    addCost, List.length_append, List.length_singleton, Nat.succ_mul]
  omega

/-- One more action of node `k` that leads to a known state. -/
theorem Layered.of_known (h : Layered problem cost k done plans nodes) {action : ActionId}
    (hknown : ∀ (plan : List ActionId) (node : Node), plans[k]? = some plan →
      nodes[k]? = some node → problem.library.isApplicable action node.state = true →
      Onward problem plans nodes plan node.state action) :
    Layered problem cost k (done ++ [action]) plans nodes := by
  refine ⟨h.size_eq, h.routed, h.sorted, h.cost_eq, fun plan hplan => ?_, h.goal,
    fun i plan node other hi hplan hnode happlicable => ?_⟩
  · refine (h.parents plan hplan).imp_right ?_
    rintro ⟨j, parent, last, hparent, heq, hj⟩
    exact ⟨j, parent, last, hparent, heq, hj.imp_right (.imp_right (List.mem_append_left _))⟩
  · rcases hi with hlt | ⟨rfl, hother⟩
    · exact h.onward i plan node other (.inl hlt) hplan hnode happlicable
    · rcases List.mem_append.1 hother with hold | hnew
      · exact h.onward i plan node other (.inr ⟨rfl, hold⟩) hplan hnode happlicable
      · obtain rfl := List.mem_singleton.1 hnew
        exact hknown plan node hplan hnode happlicable

/-- One more action of node `k` that leads to a new state. -/
theorem Layered.of_new (h : Layered problem cost k done plans nodes)
    (tree : SearchTree problem nodes) {plan : List ActionId} {node : Node}
    (hplan : plans[k]? = some plan) (hnode : nodes[k]? = some node) {action : ActionId}
    {rest : List ActionId}
    (hcandidates : problem.library.candidates node.state = done ++ action :: rest)
    (hfresh : action ∉ done) {new : Node} (harrival : new.arrival = some ⟨k, action⟩)
    (hstate : new.state = problem.library.apply action node.state)
    (hcost : new.cost = min ((plan ++ [action]).length * cost.toNat) maxCost) :
    Layered problem cost k (done ++ [action]) (plans ++ [plan ++ [action]]) (nodes.push new) := by
  have hk := lt_size_of_getElem? hnode
  have hsize := h.size_eq
  have hnewNode : (nodes.push new)[nodes.size]? = some new := Array.getElem?_push_size
  have hnewPlan : (plans ++ [plan ++ [action]])[nodes.size]? = some (plan ++ [action]) :=
    hsize ▸ List.getElem?_concat_length
  have holdNode {i : NodeIndex} (hi : i < nodes.size) : (nodes.push new)[i]? = nodes[i]? := by
    rw [Array.getElem?_push, if_neg (Nat.ne_of_lt hi)]
  have holdPlan {i : NodeIndex} (hi : i < nodes.size) :
      (plans ++ [plan ++ [action]])[i]? = plans[i]? :=
    List.getElem?_append_left (hsize ▸ hi)
  refine ⟨?_, fun i p hp => ?_, ?_, fun i p a hp ha => ?_, fun p hp => ?_, fun i a hi ha => ?_,
    fun i p a other hi hp ha hother => ?_⟩
  · rw [List.length_append, hsize, Array.size_push]
    rfl
  · rcases cases_of_getElem?_concat hp with ⟨-, hold⟩ | ⟨rfl, rfl⟩
    · exact SearchTree.route_push (h.routed i p hold) new
    · rw [hsize]
      exact .step hnewNode harrival (SearchTree.route_push (h.routed k plan hplan) new)
  · refine List.pairwise_append.2 ⟨h.sorted, List.pairwise_singleton _ _, fun p hp q hq => ?_⟩
    obtain rfl := List.mem_singleton.1 hq
    exact h.before_concat tree hplan hnode hcandidates hfresh hp
  · rcases cases_of_getElem?_concat hp with ⟨hi, hold⟩ | ⟨rfl, rfl⟩
    · exact h.cost_eq i p a hold (holdNode (hsize ▸ hi) ▸ ha)
    · obtain rfl := Option.some.inj (hnewNode.symm.trans (hsize ▸ ha))
      exact hcost
  · rcases List.mem_append.1 hp with hold | hlast
    · refine (h.parents p hold).imp_right ?_
      rintro ⟨j, parent, last, hparent, heq, hj⟩
      obtain ⟨hlt, -⟩ := List.getElem?_eq_some_iff.1 hparent
      exact ⟨j, parent, last, (holdPlan (hsize ▸ hlt)).trans hparent, heq,
        hj.imp_right (.imp_right (List.mem_append_left _))⟩
    · obtain rfl := List.mem_singleton.1 hlast
      exact .inr ⟨k, plan, action, (holdPlan hk).trans hplan, rfl,
        .inr ⟨rfl, List.mem_append_right _ (List.mem_singleton_self _)⟩⟩
  · rw [holdNode (Nat.lt_trans hi hk)] at ha
    exact h.goal i a hi ha
  · -- The node and its plan are old, and so are the successors by the other actions.
    have hiSize : i < nodes.size := by
      rcases hi with hlt | ⟨rfl, -⟩
      · exact Nat.lt_trans hlt hk
      · exact hk
    rw [holdPlan hiSize] at hp
    rw [holdNode hiSize] at ha
    rcases hi with hlt | ⟨rfl, hmem⟩
    · exact (h.onward i p a other (.inl hlt) hp ha hother).push _ _
    rcases List.mem_append.1 hmem with hold | hlast
    · exact (h.onward i p a other (.inr ⟨rfl, hold⟩) hp ha hother).push _ _
    obtain rfl := List.mem_singleton.1 hlast
    obtain rfl := Option.some.inj (hplan.symm.trans hp)
    obtain rfl := Option.some.inj (hnode.symm.trans ha)
    exact ⟨nodes.size, _, new, hnewPlan, hnewNode, hstate, .refl _ _⟩

end Layers

/-! ## Steps -/

section Steps

variable {cost : UInt32} {k : NodeIndex} {done : List ActionId} {plans : List (List ActionId)}

/-- One more action of the node that is being expanded. -/
theorem layered_of_tried {node : Node} (hexpanding : Expanding problem k node done s)
    (hqueued : Queued s (k + 1)) (h : Layered problem cost k done plans s.nodes)
    (huniform : problem.library.UniformCost cost) (hweight : problem.weight = 0)
    {action : ActionId} {rest : List ActionId}
    (hcandidates : problem.library.candidates node.state = done ++ action :: rest)
    (htried : Tried problem nodeLimit k node.state node.cost s action t) :
    Queued t (k + 1) ∧ ∃ plans, Layered problem cost k (done ++ [action]) plans t.nodes := by
  obtain ⟨plan, hplan⟩ := h.exists_plan hexpanding.node_eq
  have hlt := lt_size_of_getElem? hexpanding.node_eq
  cases htried with
  | passed useless =>
    refine ⟨hqueued, plans, h.of_known fun other known hother hknown happlicable => ?_⟩
    obtain rfl := Option.some.inj (hexpanding.node_eq.symm.trans hknown)
    -- The action leads back to the node itself.
    exact ⟨k, other, node, hother, hknown, (useless happlicable).symm, .concat _ _ _⟩
  | noted happlicable changes hnoted =>
    have hnotAfter {m : NodeIndex} {next : Node} (hnext : s.nodes[m]? = some next)
        (hstate : next.state = problem.library.apply action node.state) :=
      h.exists_notAfter hexpanding.tree hplan hexpanding.node_eq hcandidates happlicable hnext
        hstate
    have hcost := h.addCost_eq huniform hplan hexpanding.node_eq happlicable
    cases hnoted with
    | @kept index known _ hknown hstate _ =>
      refine ⟨⟨hqueued.seq_eq, hqueued.nodup, hqueued.mem_iff⟩, plans,
        h.of_known fun other node' hother hnode' _ => ?_⟩
      obtain rfl := Option.some.inj (hplan.symm.trans hother)
      obtain rfl := Option.some.inj (hexpanding.node_eq.symm.trans hnode')
      obtain ⟨first, hfirst, hle⟩ := hnotAfter hknown hstate
      exact ⟨index, first, known, hfirst, hknown, hstate, hle⟩
    | @improved index known _ hknown hstate hless =>
      -- No plan is replaced, because an earlier plan is no longer.
      obtain ⟨first, hfirst, hle⟩ := hnotAfter hknown hstate
      have hscaled := Nat.mul_le_mul_right cost.toNat hle.length_le
      rw [hcost, h.cost_eq index first known hfirst hknown] at hless
      omega
    | added hlookup _ =>
      have hnew : action ∉ done := by
        intro hdone
        obtain ⟨m, next, hnext, hstate, -⟩ := hexpanding.reaches action hdone happlicable
        exact StateTable.state_ne_of_lookup_free hexpanding.table hlookup hnext hstate
      refine ⟨queued_of_added ⟨hqueued.seq_eq, hqueued.nodup, hqueued.mem_iff⟩ hlt hweight
        (addCost_le_maxCost _ _), plans ++ [plan ++ [action]], ?_⟩
      exact h.of_new hexpanding.tree hplan hexpanding.node_eq hcandidates hnew rfl rfl hcost

/-- After the expansion of node `k` the next node is to be expanded. -/
theorem Layered.next {nodes : Array Node} {node : Node} (hnode : nodes[k]? = some node)
    (hgoal : node.state.satisfies problem.goal = false)
    (h : Layered problem cost k (problem.library.candidates node.state) plans nodes) :
    Layered problem cost (k + 1) [] plans nodes := by
  refine ⟨h.size_eq, h.routed, h.sorted, h.cost_eq, fun plan hplan => ?_, fun i a hi ha => ?_,
    fun i plan a action hi hplan ha happlicable => ?_⟩
  · refine (h.parents plan hplan).imp_right ?_
    rintro ⟨j, parent, last, hparent, heq, hlt | ⟨rfl, -⟩⟩
    · exact ⟨j, parent, last, hparent, heq, .inl (Nat.lt_succ_of_lt hlt)⟩
    · exact ⟨j, parent, last, hparent, heq, .inl (Nat.lt_succ_self j)⟩
  · rcases Nat.lt_succ_iff_lt_or_eq.1 hi with hlt | rfl
    · exact h.goal i a hlt ha
    · obtain rfl := Option.some.inj (hnode.symm.trans ha)
      exact hgoal
  · have hlt := hi.resolve_right fun hmem => absurd hmem.2 List.not_mem_nil
    refine h.onward i plan a action ?_ hplan ha happlicable
    rcases Nat.lt_succ_iff_lt_or_eq.1 hlt with hlt | rfl
    · exact .inl hlt
    · -- Every action that can be taken was among the candidates.
      obtain rfl := Option.some.inj (hnode.symm.trans ha)
      exact .inr ⟨rfl, ActionLibrary.mem_candidates_of_isApplicable happlicable⟩

/-- The nodes are expanded in the order of their plans, as long as there are numbers for the
entries. -/
def InOrder (problem : SearchProblem) (cost : UInt32) (s : Search) : Prop :=
  s.nodes.size ≤ UInt32.size →
    ∃ k plans, Queued s k ∧ Layered problem cost k [] plans s.nodes

theorem inOrder_of_stepped (huniform : problem.library.UniformCost cost)
    (hweight : problem.weight = 0) (hfrontier : Frontier problem s) (h : InOrder problem cost s)
    (hstep : Stepped problem nodeLimit s t) : InOrder problem cost t := by
  intro hsize
  cases hstep with
  | dropped hpop hstale =>
    -- No entry is stale, since no node is ever reached more cheaply.
    obtain ⟨k, plans, hqueued, hlayered⟩ := h hsize
    obtain ⟨node, hnode, rfl, -⟩ :=
      entry_eq_of_pop hqueued hsize (fun i j a b => hlayered.cost_mono) hpop
    exact absurd rfl (hstale node hnode)
  | @expanded entry rest node _ hpop hnode hlive hgoal hexpand =>
    have hgrows := (extends_of_foldlM hexpand).noDearer.size_le
    have hsize' : s.nodes.size ≤ UInt32.size := Nat.le_trans hgrows hsize
    obtain ⟨k, plans, hqueued, hlayered⟩ := h hsize'
    obtain ⟨first, hfirst, rfl, hrest⟩ :=
      entry_eq_of_pop hqueued hsize' (fun i j a b => hlayered.cost_mono) hpop
    obtain rfl : first = node := Option.some.inj (hfirst.symm.trans hnode)
    -- Of the candidates some have been considered, and the others are still to come.
    have hall := motive_of_foldlM
      (motive := fun done u => Expanding problem k first done u ∧
        ∀ rest, problem.library.candidates first.state = done ++ rest →
          Queued u (k + 1) ∧ ∃ plans, Layered problem cost k done plans u.nodes)
      (fun done action u v hu htry => ?_) []
      ⟨expanding_of_pop hfrontier hpop hnode, fun _ _ => ⟨hrest, plans, hlayered⟩⟩ hexpand
    · rw [List.nil_append] at hall
      obtain ⟨hexpanding, hdone⟩ := hall
      obtain ⟨hqueued', plans', hlayered'⟩ := hdone [] (List.append_nil _).symm
      exact ⟨k + 1, plans', hqueued', hlayered'.next hexpanding.node_eq hgoal⟩
    · obtain ⟨hexpanding, hdone⟩ := hu
      refine ⟨expanding_of_tried hexpanding (tried_of_tryAction htry), fun rest hcandidates => ?_⟩
      rw [List.append_assoc, List.singleton_append] at hcandidates
      obtain ⟨hqueued', plans', hlayered'⟩ := hdone _ hcandidates
      exact layered_of_tried hexpanding hqueued' hlayered' huniform hweight hcandidates
        (tried_of_tryAction htry)

/-- In the beginning the start is the only node, and the empty plan leads to it. -/
theorem layered_singleton (problem : SearchProblem) (cost : UInt32) :
    Layered problem cost 0 [] [[]] #[⟨problem.start, none, 0⟩] := by
  have hempty {i : NodeIndex} {plan : List ActionId}
      (hplan : ([[]] : List (List ActionId))[i]? = some plan) : i = 0 ∧ plan = [] := by
    rw [List.getElem?_singleton] at hplan
    split at hplan
    next hi => exact ⟨hi, (Option.some.inj hplan).symm⟩
    next => cases hplan
  refine ⟨rfl, fun i plan hplan => ?_, List.pairwise_singleton _ _,
    fun i plan node hplan hnode => ?_, fun plan hplan => .inl (List.mem_singleton.1 hplan),
    fun i _ hi => absurd hi (Nat.not_lt_zero i), fun i _ _ _ hi => ?_⟩
  · obtain ⟨rfl, rfl⟩ := hempty hplan
    exact .root
  · obtain ⟨-, rfl⟩ := hempty hplan
    rw [(eq_of_getElem?_singleton hnode).2, List.length_nil, Nat.zero_mul]
    rfl
  · rcases hi with hlt | ⟨-, hmem⟩
    · exact absurd hlt (Nat.not_lt_zero i)
    · exact absurd hmem List.not_mem_nil

theorem inOrder_withRoot (hweight : problem.weight = 0) {table : StateTable}
    (hclean : table.Clean) : InOrder problem cost (withRoot problem (initial table)) := by
  intro _
  rw [withRoot_initial problem hclean, SearchProblem.estimate_of_weight hweight]
  have hperm := OpenList.toList_push .empty ⟨0, 0, 0, 0⟩
  refine ⟨0, [[]], ⟨rfl, hperm.nodup_iff.2 (List.nodup_singleton _), fun entry => ?_⟩,
    layered_singleton problem cost⟩
  rw [hperm.mem_iff, OpenList.toList_empty, List.mem_singleton]
  constructor
  · rintro rfl
    exact ⟨Nat.zero_le _, _, rfl, rfl⟩
  · rintro ⟨-, node, hnode, heq⟩
    obtain ⟨hindex, rfl⟩ := eq_of_getElem?_singleton hnode
    rw [hindex] at heq
    exact heq

/-! ## The first plan -/

/-- A plan from the start has come to a node, by a plan that is not after it, or it is not before
the plan to a node that is still to be expanded. -/
theorem exists_notAfter_of_executes {nodes : Array Node} (tree : SearchTree problem nodes)
    (h : Layered problem cost k [] plans nodes) {state final : WorldState}
    {rest : List ActionId} (hrest : problem.library.Executes state rest final)
    {before : List ActionId} (hbefore : problem.library.Executes problem.start before state)
    {i : NodeIndex} {plan : List ActionId} {node : Node} (hplan : plans[i]? = some plan)
    (hnode : nodes[i]? = some node) (hstate : node.state = state)
    (hle : problem.library.NotAfter problem.start plan before) :
    ∃ (m : NodeIndex) (first : List ActionId) (last : Node), plans[m]? = some first ∧
      nodes[m]? = some last ∧ (k ≤ m ∨ last.state = final) ∧
      problem.library.NotAfter problem.start first (before ++ rest) := by
  induction hrest generalizing before i plan node with
  | nil =>
    rw [List.append_nil]
    exact ⟨i, plan, node, hplan, hnode, .inr hstate, hle⟩
  | @cons state final action rest applicable _ ih =>
    subst hstate
    rcases Nat.lt_or_ge i k with hlt | hge
    · -- The node has been expanded, so the plan goes on from a node that is reached no later.
      obtain ⟨m, first, next, hfirst, hnext, hsame, hfirstLe⟩ :=
        h.onward i plan node action (.inl hlt) hplan hnode applicable
      have hgoes := hle.concat_concat (h.executes tree hplan hnode) hbefore action
      have hlater := ih (hbefore.concat applicable) hfirst hnext hsame (hfirstLe.trans hgoes)
      rwa [List.append_assoc, List.singleton_append] at hlater
    · refine ⟨i, plan, node, hplan, hnode, .inl hge, hle.trans ?_⟩
      refine .inr (ActionLibrary.before_of_length_lt ?_)
      rw [List.length_append, List.length_cons]
      omega

/-- The plan to a node that is found is not after any plan to the goal. -/
theorem notAfter_of_search_ok (huniform : problem.library.UniformCost cost)
    (hweight : problem.weight = 0) {left : Search} (hbounded : left.table.Bounded)
    (hsize : (problem.search nodeLimit left).search.nodes.size ≤ UInt32.size) {i : NodeIndex}
    (hok : (problem.search nodeLimit left).outcome = .ok i) {other : List ActionId}
    {final : WorldState} (hother : problem.library.Executes problem.start other final)
    (hgoal : final.satisfies problem.goal = true) :
    problem.library.NotAfter problem.start
      (pathTo (problem.search nodeLimit left).search.nodes i) other := by
  have hkept : ∀ s t, Frontier problem s → InOrder problem cost s →
      Stepped problem nodeLimit s t → InOrder problem cost t :=
    fun s t hfrontier hs hstep => inOrder_of_stepped huniform hweight hfrontier hs hstep
  rcases search_cases_of_kept hkept hbounded
    (fun _ => inOrder_withRoot hweight (StateTable.clean_clear hbounded)) with
    hend | ⟨s, hfrontier, hinOrder, hstopped⟩
  · cases hend with
    | noRoom houtcome => cases hok.symm.trans houtcome
    | atGoal _ hnodes houtcome =>
      -- The empty plan is before all others.
      obtain rfl := Except.ok.inj (hok.symm.trans houtcome)
      rw [hnodes]
      cases other with
      | nil => exact .refl _ _
      | cons action rest => exact .inr (ActionLibrary.before_of_length_lt (Nat.succ_pos _))
  · generalize problem.search nodeLimit left = ended at hok hsize hstopped
    cases hstopped with
    | exhausted => cases hok
    | @found entry rest node hpop hnode _ _ =>
      obtain rfl := Except.ok.inj hok
      obtain ⟨k, plans, hqueued, h⟩ := hinOrder hsize
      obtain ⟨known, hknown, rfl, -⟩ :=
        entry_eq_of_pop hqueued hsize (fun i j a b => h.cost_mono) hpop
      obtain ⟨plan, hplan⟩ := h.exists_plan hknown
      have hpath : pathTo s.nodes k = plan := (h.routed k plan hplan).pathTo_eq hfrontier.tree
      -- The empty plan has come to the start, and from there the other plan goes on.
      obtain ⟨empty, hempty⟩ := h.exists_plan hfrontier.tree.root
      obtain rfl : empty = [] :=
        hfrontier.tree.route_unique (h.routed 0 empty hempty) .root
      obtain ⟨m, first, last, hfirst, hlast, hahead, hle⟩ := exists_notAfter_of_executes
        hfrontier.tree h hother (.nil _) hempty hfrontier.tree.root rfl (.refl _ _)
      have hkm : k ≤ m := by
        rcases hahead with hkm | hstate
        · exact hkm
        · refine Nat.le_of_not_lt fun hlt => ?_
          rw [← hstate, h.goal m last hlt hlast] at hgoal
          cases hgoal
      show problem.library.NotAfter problem.start (pathTo s.nodes k) other
      rw [hpath]
      exact (h.notAfter hplan hfirst hkm).trans hle
    | gaveUp _ _ _ _ _ hrefused =>
      obtain ⟨reason, hreason, -⟩ := hrefused.outOfBudget.reason
      cases hok.symm.trans hreason

end Steps

end Search

namespace SearchPlanner

variable {budget : SearchBudget} {history : List Call} {call : Call} {plan : List ActionId}
  {cost : UInt32}

/-- If all actions cost the same and nothing is estimated, then a plan that is returned is the
first of the shortest plans that reach the goal: any other shortest plan takes a later candidate
of the common state where it first differs. Entries are numbered modulo 2^32, so this holds as long
as no more states are reached. -/
theorem first_of_answer (huniform : call.problem.library.UniformCost cost)
    (hweight : call.problem.weight = 0)
    (hreached : ((afterAll budget history).after call).latestStats.reached ≤ UInt32.size)
    (h : (afterAll budget history).answer call = .ok plan) :
    ∃ final, call.problem.library.Executes call.problem.start plan final ∧
      final.satisfies call.problem.goal = true ∧
      ∀ other final', call.problem.library.Executes call.problem.start other final' →
        final'.satisfies call.problem.goal = true →
        plan.length ≤ other.length ∧
        (plan.length = other.length →
          other = plan ∨ call.problem.library.Precedes call.problem.start plan other) := by
  obtain ⟨-, final, hexecutes, hgoal, -⟩ := executes_of_answer h
  refine ⟨final, hexecutes, hgoal, fun other final' hother hgoal' => ?_⟩
  obtain ⟨i, hok, rfl⟩ := exists_of_answer_ok h
  rw [latestStats_after, budget_afterAll] at hreached
  have hle := Search.notAfter_of_search_ok huniform hweight (bounded_afterAll budget history)
    hreached hok hother hgoal'
  exact ⟨hle.length_le, hle.eq_or_precedes hexecutes hother⟩

/-- Airing takes nothing, so it is the first candidate, and the chores are done in this order. -/
theorem first_choresCall :
    choresCall.problem.library.UniformCost 3 ∧ choresCall.problem.weight = 0 ∧
    ((afterAll ⟨4, 2⟩ [crossingCall]).after choresCall).latestStats.reached ≤ UInt32.size ∧
    (afterAll ⟨4, 2⟩ [crossingCall]).answer choresCall = .ok [1, 0] ∧
    ∃ final, chores.Executes (WorldState.empty.set 2 true) [1, 0] final ∧
      final.satisfies choresCall.problem.goal = true ∧
      ∀ other final', chores.Executes (WorldState.empty.set 2 true) other final' →
        final'.satisfies choresCall.problem.goal = true →
        2 ≤ other.length ∧ (2 = other.length →
          other = [1, 0] ∨ chores.Precedes (WorldState.empty.set 2 true) [1, 0] other) := by
  have huniform : choresCall.problem.library.UniformCost 3 := by decide +kernel
  have hreached :
      ((afterAll ⟨4, 2⟩ [crossingCall]).after choresCall).latestStats.reached ≤ UInt32.size := by
    decide +kernel
  have hanswer : (afterAll ⟨4, 2⟩ [crossingCall]).answer choresCall = .ok [1, 0] := by
    decide +kernel
  exact ⟨huniform, rfl, hreached, hanswer, first_of_answer huniform rfl hreached hanswer⟩

end SearchPlanner

end AgentPlanning
