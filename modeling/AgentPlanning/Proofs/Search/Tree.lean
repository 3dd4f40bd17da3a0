import AgentPlanning.Proofs.Search.Path
import AgentPlanning.Proofs.Search.StateTable
import AgentPlanning.Proofs.Search.Transition
import Mathlib.Data.Fintype.Card

/-!
# The Search Tree

The nodes of a search form a tree: each but the first was reached from its parent by an action
that can be taken there, at no more than its recorded cost. A cheaper path replaces the arrival
of a node in place. That closes no cycle, because costs never fall along a path and the new path
is strictly cheaper than everything that led through the node.

Main statements:

* `Route.pathTo_eq`, `SearchTree.executes_of_route`: the plan that is read off the arrivals of a
  node can be carried out from the start and ends in the node's state;
* `SearchTree.nodup_visited`: it visits no state twice;
* `SearchTree.planCost_le`: it costs no more than is recorded, unless the recorded cost is the
  greatest one;
* `searchTree_of_noted`: taking note of a path keeps the tree.
-/

namespace AgentPlanning

/-- Following the arrivals from node `i` back to the first node gives the actions of the plan,
the last one first. -/
inductive Route (nodes : Array Node) : NodeIndex → List ActionId → Prop where
  /-- The first node is where every plan begins. -/
  | root : Route nodes 0 []
  /-- The plan to a node is the plan to its parent and one more action. -/
  | step {i : NodeIndex} {node : Node} {arrival : Arrival} {plan : List ActionId}
      (node_eq : nodes[i]? = some node) (arrival_eq : node.arrival = some arrival)
      (route : Route nodes arrival.parent plan) : Route nodes i (plan ++ [arrival.action])

/-- The arrival is by an action that can be taken in its parent's state and leads to `state`, at
no more than `cost`. -/
def Arrives (problem : SearchProblem) (nodes : Array Node) (arrival : Arrival)
    (state : WorldState) (cost : Nat) : Prop :=
  ∃ parent, nodes[arrival.parent]? = some parent ∧
    problem.library.isApplicable arrival.action parent.state = true ∧
    problem.library.apply arrival.action parent.state = state ∧
    addCost parent.cost (problem.library.actionCost arrival.action) ≤ cost

/-- The nodes form a tree of paths from the start. -/
structure SearchTree (problem : SearchProblem) (nodes : Array Node) : Prop where
  /-- The first node is the start, which costs nothing. -/
  root : nodes[0]? = some ⟨problem.start, none, 0⟩
  /-- No two nodes have the same state. -/
  distinct : ∀ {i j : NodeIndex} {a b : Node}, nodes[i]? = some a → nodes[j]? = some b →
    a.state = b.state → i = j
  /-- Costs are at most the greatest one. -/
  cost_le : ∀ {i : NodeIndex} {a : Node}, nodes[i]? = some a → a.cost ≤ maxCost
  /-- A recorded arrival is possible and costs no more than recorded. -/
  arrives : ∀ {i : NodeIndex} {a : Node} {arrival : Arrival}, nodes[i]? = some a →
    a.arrival = some arrival → Arrives problem nodes arrival a.state a.cost
  /-- The arrivals lead from every node back to the first. -/
  routed : ∀ {i : NodeIndex}, i < nodes.size → ∃ plan, Route nodes i plan

variable {problem : SearchProblem} {nodes : Array Node}

theorem lt_size_of_getElem? {i : NodeIndex} {node : Node} (h : nodes[i]? = some node) :
    i < nodes.size :=
  (Array.getElem?_eq_some_iff.1 h).1

/-! ## Routes -/

namespace SearchTree

/-- There is only one route to a node. -/
theorem route_unique (tree : SearchTree problem nodes) {i : NodeIndex} {p q : List ActionId}
    (hp : Route nodes i p) (hq : Route nodes i q) : p = q := by
  induction hp generalizing q with
  | root =>
    cases hq with
    | root => rfl
    | step hnode harrival _ =>
      -- The first node has no arrival.
      obtain rfl := Option.some.inj (tree.root.symm.trans hnode)
      cases harrival
  | step hnode harrival _ ih =>
    cases hq with
    | root =>
      obtain rfl := Option.some.inj (tree.root.symm.trans hnode)
      cases harrival
    | step hnode' harrival' hroute' =>
      obtain rfl := Option.some.inj (hnode.symm.trans hnode')
      obtain rfl := Option.some.inj (harrival.symm.trans harrival')
      rw [ih hroute']

theorem route_lt_size (tree : SearchTree problem nodes) {i : NodeIndex} {plan : List ActionId}
    (h : Route nodes i plan) : i < nodes.size := by
  cases h with
  | root => exact lt_size_of_getElem? tree.root
  | step hnode _ _ => exact lt_size_of_getElem? hnode

/-- A route passes through a node at each distance from the start. -/
theorem exists_route_of_le {i : NodeIndex} {plan : List ActionId} (h : Route nodes i plan) {k : Nat}
    (hk : k ≤ plan.length) : ∃ j q, Route nodes j q ∧ q.length = k := by
  induction h with
  | root =>
    obtain rfl : k = 0 := by simpa using hk
    exact ⟨0, [], .root, rfl⟩
  | @step i node arrival plan hnode harrival hroute ih =>
    -- Either the node itself is at the distance, or a node before it.
    rcases Nat.eq_or_lt_of_le hk with rfl | hlt
    · exact ⟨i, _, .step hnode harrival hroute, rfl⟩
    · rw [List.length_append, List.length_singleton] at hlt
      exact ih (Nat.le_of_lt_succ hlt)

/-- A route is shorter than there are nodes, since it visits each at most once. -/
theorem route_length_lt (tree : SearchTree problem nodes) {i : NodeIndex} {plan : List ActionId}
    (h : Route nodes i plan) : plan.length < nodes.size := by
  choose at_ q hroute hlength using fun k : Fin (plan.length + 1) =>
    exists_route_of_le h (Nat.le_of_lt_succ k.isLt)
  -- Nodes at different distances are different, because each has only one route.
  have hinj : Function.Injective fun k =>
      (⟨at_ k, tree.route_lt_size (hroute k)⟩ : Fin nodes.size) := by
    intro k l hkl
    have hsame : at_ k = at_ l := congrArg Fin.val hkl
    have hq : q k = q l := tree.route_unique (hsame ▸ hroute k) (hroute l)
    exact Fin.ext (by rw [← hlength k, ← hlength l, hq])
  simpa [Nat.succ_le_iff] using Fintype.card_le_of_injective _ hinj

end SearchTree

theorem Route.pathBefore_eq (tree : SearchTree problem nodes) {i : NodeIndex}
    {plan : List ActionId} (h : Route nodes i plan) {steps : Nat} (hsteps : plan.length ≤ steps)
    (suffix : List ActionId) : pathBefore nodes steps i suffix = plan ++ suffix := by
  induction h generalizing steps suffix with
  | root =>
    cases steps with
    | zero => rfl
    | succ steps =>
      -- The first node has no arrival, so the walk back ends there.
      rw [pathBefore, tree.root, Option.bind_some]
      rfl
  | @step i node arrival plan hnode harrival _ ih =>
    rw [List.length_append, List.length_singleton] at hsteps
    obtain ⟨steps, rfl⟩ := Nat.exists_eq_add_one.2 (Nat.lt_of_lt_of_le (Nat.succ_pos _) hsteps)
    rw [pathBefore, hnode, Option.bind_some, harrival, List.append_assoc]
    exact ih (Nat.le_of_succ_le_succ hsteps) (arrival.action :: suffix)

/-- The path that is read off the arrivals is the route. -/
theorem Route.pathTo_eq (tree : SearchTree problem nodes) {i : NodeIndex} {plan : List ActionId}
    (h : Route nodes i plan) : pathTo nodes i = plan := by
  rw [pathTo, h.pathBefore_eq tree (Nat.le_of_lt (tree.route_length_lt h)), List.append_nil]

/-! ## The plan of a node -/

namespace SearchTree

/-- The route to a node can be carried out from the start and ends in the node's state. -/
theorem executes_of_route (tree : SearchTree problem nodes) {i : NodeIndex}
    {plan : List ActionId} (h : Route nodes i plan) {node : Node} (hnode : nodes[i]? = some node) :
    problem.library.Executes problem.start plan node.state := by
  induction h generalizing node with
  | root =>
    obtain rfl := Option.some.inj (tree.root.symm.trans hnode)
    exact .nil _
  | step hnode' harrival _ ih =>
    obtain rfl := Option.some.inj (hnode'.symm.trans hnode)
    obtain ⟨parent, hparent, happlicable, hstate, -⟩ := tree.arrives hnode' harrival
    rw [← hstate]
    exact (ih hparent).concat happlicable

/-- Every state that a route visits belongs to a node that is no further from the start. -/
theorem exists_route_of_mem_visited (tree : SearchTree problem nodes) {i : NodeIndex}
    {plan : List ActionId} (h : Route nodes i plan) {state : WorldState}
    (hmem : state ∈ problem.library.visited problem.start plan) :
    ∃ j node q, nodes[j]? = some node ∧ node.state = state ∧ Route nodes j q ∧
      q.length ≤ plan.length := by
  induction h with
  | root =>
    obtain rfl : state = problem.start := by simpa [ActionLibrary.visited] using hmem
    exact ⟨0, _, [], tree.root, rfl, .root, Nat.le_refl _⟩
  | @step i node arrival plan hnode harrival hroute ih =>
    obtain ⟨parent, hparent, -, hstate, -⟩ := tree.arrives hnode harrival
    rw [ActionLibrary.visited_concat arrival.action (tree.executes_of_route hroute hparent),
      List.mem_append, List.mem_singleton] at hmem
    rcases hmem with hmem | rfl
    · obtain ⟨j, other, q, hother, hsame, hq, hlength⟩ := ih hmem
      exact ⟨j, other, q, hother, hsame, hq, by simp; omega⟩
    · exact ⟨i, node, _, hnode, hstate.symm, .step hnode harrival hroute, Nat.le_refl _⟩

/-- The route to a node visits no state twice. -/
theorem nodup_visited (tree : SearchTree problem nodes) {i : NodeIndex} {plan : List ActionId}
    (h : Route nodes i plan) : (problem.library.visited problem.start plan).Nodup := by
  induction h with
  | root => exact List.nodup_singleton _
  | @step i node arrival plan hnode harrival hroute ih =>
    obtain ⟨parent, hparent, -, hstate, -⟩ := tree.arrives hnode harrival
    rw [ActionLibrary.visited_concat arrival.action (tree.executes_of_route hroute hparent),
      hstate, ← List.concat_eq_append]
    refine List.Nodup.concat (fun hmem => ?_) ih
    -- A state that came up before belongs to this node, which would have a shorter route too.
    obtain ⟨j, other, q, hother, hsame, hq, hlength⟩ := tree.exists_route_of_mem_visited hroute hmem
    obtain rfl : j = i := tree.distinct hother hnode hsame
    have hlong := congrArg List.length (tree.route_unique hq (.step hnode harrival hroute))
    rw [List.length_append, List.length_singleton] at hlong
    omega

/-- The route to a node costs no more than is recorded, unless that is the greatest cost. -/
theorem planCost_le (tree : SearchTree problem nodes) {i : NodeIndex} {plan : List ActionId}
    (h : Route nodes i plan) {node : Node} (hnode : nodes[i]? = some node)
    (hcost : node.cost < maxCost) :
    ∃ cost, problem.library.planCost? plan = some cost ∧ cost ≤ node.cost := by
  induction h generalizing node with
  | root => exact ⟨0, rfl, Nat.zero_le _⟩
  | @step i _ arrival plan hnode' harrival hroute ih =>
    obtain rfl := Option.some.inj (hnode'.symm.trans hnode)
    obtain ⟨parent, hparent, happlicable, -, hle⟩ := tree.arrives hnode' harrival
    -- The sum is below the greatest cost, so nothing was cut off.
    rw [addCost] at hle
    obtain ⟨cost, hplan, hparentCost⟩ := ih hparent (by omega)
    refine ⟨_, ActionLibrary.planCost?_concat hplan ?_ ?_, by omega⟩
    · exact (tree.executes_of_route hroute hparent).contains
    · exact ActionLibrary.contains_of_isApplicable happlicable

end SearchTree

/-! ## Taking note of a path -/

/-- Every node keeps its state, and its path gets no dearer. -/
def NoDearer (nodes nodes' : Array Node) : Prop :=
  ∀ (i : NodeIndex) (node : Node), nodes[i]? = some node →
    ∃ node', nodes'[i]? = some node' ∧ node'.state = node.state ∧ node'.cost ≤ node.cost

theorem noDearer_push (nodes : Array Node) (node : Node) : NoDearer nodes (nodes.push node) := by
  intro i other hother
  have hne : i ≠ nodes.size := Nat.ne_of_lt (lt_size_of_getElem? hother)
  exact ⟨other, by rw [Array.getElem?_push, if_neg hne, hother], rfl, Nat.le_refl _⟩

theorem noDearer_modify {index : NodeIndex} {known : Node} {arrival : Arrival} {cost : Nat}
    (hknown : nodes[index]? = some known) (hcost : cost < known.cost) :
    NoDearer nodes (nodes.modify index fun node => { node with arrival, cost }) := by
  intro i node hnode
  rw [Array.getElem?_modify, hnode]
  split
  next heq =>
    subst heq
    obtain rfl := Option.some.inj (hknown.symm.trans hnode)
    exact ⟨_, rfl, rfl, Nat.le_of_lt hcost⟩
  next => exact ⟨node, rfl, rfl, Nat.le_refl _⟩

/-- Cheaper parents leave an arrival possible. -/
theorem Arrives.mono {nodes' : Array Node} {arrival : Arrival} {state : WorldState} {cost : Nat}
    (h : Arrives problem nodes arrival state cost) (hle : NoDearer nodes nodes') :
    Arrives problem nodes' arrival state cost := by
  obtain ⟨parent, hparent, happlicable, hstate, hcost⟩ := h
  obtain ⟨parent', hparent', hsame, hcost'⟩ := hle _ _ hparent
  exact ⟨parent', hparent', hsame ▸ happlicable, hsame ▸ hstate,
    Nat.le_trans (addCost_mono hcost' _) hcost⟩

namespace SearchTree

variable {state : WorldState} {arrival : Arrival} {cost : Nat}

theorem route_push {i : NodeIndex} {plan : List ActionId} (h : Route nodes i plan) (node : Node) :
    Route (nodes.push node) i plan := by
  induction h with
  | root => exact .root
  | step hnode harrival _ ih =>
    have hne := Nat.ne_of_lt (lt_size_of_getElem? hnode)
    exact .step (by rw [Array.getElem?_push, if_neg hne, hnode]) harrival ih

/-- The tree grows by a node for a new state. -/
theorem push (tree : SearchTree problem nodes)
    (hnew : ∀ (i : NodeIndex) (node : Node), nodes[i]? = some node → node.state ≠ state)
    (harrives : Arrives problem nodes arrival state cost) (hcost : cost ≤ maxCost) :
    SearchTree problem (nodes.push ⟨state, some arrival, cost⟩) := by
  have hmono := noDearer_push nodes ⟨state, some arrival, cost⟩
  have hroot : 0 ≠ nodes.size := Nat.ne_of_lt (lt_size_of_getElem? tree.root)
  refine ⟨?_, fun {i j a b} ha hb hab => ?_, fun {i a} ha => ?_, fun {i a _} ha harrival => ?_,
    fun {i} hi => ?_⟩
  · rw [Array.getElem?_push, if_neg hroot, tree.root]
  · -- Only the new node has the new state.
    rw [Array.getElem?_push] at ha hb
    split at ha <;> split at hb
    next hi hj => exact hi.trans hj.symm
    next =>
      obtain rfl := Option.some.inj ha
      exact absurd hab.symm (hnew j b hb)
    next =>
      obtain rfl := Option.some.inj hb
      exact absurd hab (hnew i a ha)
    next => exact tree.distinct ha hb hab
  · rw [Array.getElem?_push] at ha
    split at ha
    next =>
      obtain rfl := Option.some.inj ha
      exact hcost
    next => exact tree.cost_le ha
  · rw [Array.getElem?_push] at ha
    split at ha
    next =>
      obtain rfl := Option.some.inj ha
      obtain rfl := Option.some.inj harrival
      exact harrives.mono hmono
    next => exact (tree.arrives ha harrival).mono hmono
  · -- The route to the new node is the route to its parent and one more action.
    rw [Array.size_push] at hi
    rcases Nat.lt_succ_iff_lt_or_eq.1 hi with hold | rfl
    · obtain ⟨plan, hroute⟩ := tree.routed hold
      exact ⟨plan, route_push hroute _⟩
    · obtain ⟨parent, hparent, -⟩ := harrives
      obtain ⟨plan, hroute⟩ := tree.routed (lt_size_of_getElem? hparent)
      exact ⟨_, .step Array.getElem?_push_size rfl (route_push hroute _)⟩

section Improve

variable {index : NodeIndex} {known : Node}

/-- After an improvement the improved node has the new arrival, and all others are as before. -/
theorem getElem?_improved (arrival : Arrival) (cost : Nat) (hknown : nodes[index]? = some known)
    (i : NodeIndex) :
    (nodes.modify index fun node => { node with arrival, cost })[i]? =
      if index = i then some { known with arrival, cost } else nodes[i]? := by
  rw [Array.getElem?_modify]
  split
  next heq => rw [← heq, hknown, Option.map_some]
  next => rfl

/-- An improvement changes no state. -/
theorem exists_of_improved (hknown : nodes[index]? = some known) {i : NodeIndex} {a : Node}
    (ha : (nodes.modify index fun node => { node with arrival, cost })[i]? = some a) :
    ∃ b, nodes[i]? = some b ∧ b.state = a.state := by
  rw [getElem?_improved _ _ hknown] at ha
  split at ha
  next heq =>
    obtain rfl := Option.some.inj ha
    exact ⟨known, heq ▸ hknown, rfl⟩
  next => exact ⟨a, ha, rfl⟩

/-- A route to a node that is cheaper than the improved one stays. -/
theorem route_improved_of_lt (tree : SearchTree problem nodes)
    (hknown : nodes[index]? = some known) {i : NodeIndex} {plan : List ActionId}
    (h : Route nodes i plan) {node : Node} (hnode : nodes[i]? = some node)
    (hlt : node.cost < known.cost) :
    Route (nodes.modify index fun node => { node with arrival, cost }) i plan := by
  induction h generalizing node with
  | root => exact .root
  | @step i _ last plan hnode' harrival _ ih =>
    obtain rfl := Option.some.inj (hnode'.symm.trans hnode)
    -- Costs do not fall along a route, so its nodes are all cheaper than the improved one.
    have hne : index ≠ i := by
      rintro rfl
      obtain rfl := Option.some.inj (hknown.symm.trans hnode)
      exact Nat.lt_irrefl _ hlt
    obtain ⟨parent, hparent, -, -, hle⟩ := tree.arrives hnode' harrival
    have hparentLe := le_addCost (tree.cost_le hparent) (problem.library.actionCost last.action)
    refine .step ?_ harrival (ih hparent (by omega))
    rw [getElem?_improved _ _ hknown, if_neg hne, hnode']

/-- A node of the tree keeps its place when it is reached more cheaply. -/
theorem improve (tree : SearchTree problem nodes) (hknown : nodes[index]? = some known)
    (hstate : known.state = state) (hlt : cost < known.cost)
    (harrives : Arrives problem nodes arrival state cost) :
    SearchTree problem (nodes.modify index fun node => { node with arrival, cost }) := by
  have hmono : NoDearer nodes (nodes.modify index fun node => { node with arrival, cost }) :=
    noDearer_modify hknown hlt
  have hget := getElem?_improved arrival cost hknown
  -- The first node costs nothing, so it is never improved.
  have hroot : index ≠ 0 := by
    rintro rfl
    obtain rfl := Option.some.inj (hknown.symm.trans tree.root)
    exact Nat.not_lt_zero _ hlt
  refine ⟨?_, fun {i j a b} ha hb hab => ?_, fun {i a} ha => ?_, fun {i a last} ha hlast => ?_,
    fun {i} hi => ?_⟩
  · rw [hget, if_neg hroot, tree.root]
  · -- The states are those of before.
    obtain ⟨a', ha', hsame⟩ := exists_of_improved hknown ha
    obtain ⟨b', hb', hsame'⟩ := exists_of_improved hknown hb
    exact tree.distinct ha' hb' (hsame.trans (hab.trans hsame'.symm))
  · rw [hget] at ha
    split at ha
    next =>
      obtain rfl := Option.some.inj ha
      exact Nat.le_trans (Nat.le_of_lt hlt) (tree.cost_le hknown)
    next => exact tree.cost_le ha
  · rw [hget] at ha
    split at ha
    next =>
      obtain rfl := Option.some.inj ha
      obtain rfl := Option.some.inj hlast
      exact hstate ▸ harrives.mono hmono
    next => exact (tree.arrives ha hlast).mono hmono
  · rw [Array.size_modify] at hi
    obtain ⟨plan, hroute⟩ := tree.routed hi
    clear hi
    -- An old route is followed up to the improved node, whose new route is put in its place.
    induction hroute with
    | root => exact ⟨[], .root⟩
    | @step i node last plan hnode hlast _ ih =>
      by_cases heq : index = i
      · -- The new parent is cheaper, so its own route is untouched.
        obtain ⟨parent, hparent, -, -, hle⟩ := harrives
        obtain ⟨route, hroute⟩ := tree.routed (lt_size_of_getElem? hparent)
        have hparentLe := le_addCost (tree.cost_le hparent)
          (problem.library.actionCost arrival.action)
        have hcheap : parent.cost < known.cost := by omega
        refine ⟨route ++ [arrival.action], .step (by rw [hget, if_pos heq]) rfl ?_⟩
        exact tree.route_improved_of_lt hknown hroute hparent hcheap
      · obtain ⟨route, hroute⟩ := ih
        exact ⟨route ++ [last.action], .step (by rw [hget, if_neg heq, hnode]) hlast hroute⟩

end Improve

end SearchTree

namespace Search

variable {nodeLimit : Nat} {s t : Search} {state : WorldState} {arrival : Arrival} {cost : Nat}

theorem noDearer_of_noted (h : Noted problem nodeLimit s state arrival cost t) :
    NoDearer s.nodes t.nodes := by
  cases h with
  | kept => exact fun _ node hnode => ⟨node, hnode, rfl, Nat.le_refl _⟩
  | improved _ hknown _ hlt => exact noDearer_modify hknown hlt
  | added => exact noDearer_push _ _

/-- Taking note of a path that goes on from a node keeps the tree and the table. -/
theorem searchTree_of_noted (h : Noted problem nodeLimit s state arrival cost t)
    (tree : SearchTree problem s.nodes) (htable : s.table.Holds s.nodes)
    (harrives : Arrives problem s.nodes arrival state cost) (hcost : cost ≤ maxCost) :
    SearchTree problem t.nodes ∧ t.table.Holds t.nodes := by
  cases h with
  | kept => exact ⟨tree, htable⟩
  | @improved index known _ hknown hstate hlt =>
    refine ⟨tree.improve hknown hstate hlt harrives, StateTable.holds_of_states htable ?_⟩
    exact fun _ _ hnode' => SearchTree.exists_of_improved hknown hnode'
  | added hlookup _ =>
    refine ⟨tree.push (fun i node hnode => ?_) harrives hcost,
      StateTable.holds_store htable hlookup rfl⟩
    exact StateTable.state_ne_of_lookup_free htable hlookup hnode

end Search

end AgentPlanning
