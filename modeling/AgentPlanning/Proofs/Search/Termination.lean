import AgentPlanning.Proofs.Search.Transition
import Mathlib.Algebra.GroupWithZero.Nat

/-!
# Every Search Ends

A step takes an entry from the open list, and an entry is added only when a node is allocated or
its cost falls. The number of open entries, the costs of all nodes and an allowance for the nodes
that may still be allocated therefore add up to a potential that every step decreases. Main
statements:

* `potential_of_noted`: taking note of a path does not increase the potential;
* `potential_of_stepped`: a step decreases it;
* `wellFounded_step`, `exists_runWithin_stepBound`: no sequence of steps goes on forever, and a
  search ends within its bound.
-/

namespace AgentPlanning

/-- Changing one value of a list changes the sum by the difference. -/
theorem sum_map_modify {α : Type} (l : List α) (i : Nat) (f : α → α) (g : α → Nat) {a : α}
    (ha : l[i]? = some a) : ((l.modify i f).map g).sum + g a = (l.map g).sum + g (f a) := by
  induction l generalizing i with
  | nil => simp at ha
  | cons b rest ih =>
    cases i with
    | zero =>
      obtain rfl : b = a := by simpa using ha
      simp only [List.modify_zero_cons, List.map_cons, List.sum_cons]
      omega
    | succ i =>
      have hrest := ih i (by simpa using ha)
      simp only [List.modify_succ_cons, List.map_cons, List.sum_cons]
      omega

namespace Search

variable {problem : SearchProblem} {nodeLimit : Nat} {s t : Search}

/-- The sum of the costs of all nodes. -/
def totalCost (nodes : Array Node) : Nat := (nodes.toList.map (·.cost)).sum

/-- The number of open entries, the costs of all nodes, and an allowance for the nodes that may
still be allocated. -/
def potential (nodeLimit : Nat) (s : Search) : Nat :=
  s.openList.toList.length + totalCost s.nodes + (nodeLimit - s.nodes.size) * UInt32.size

theorem length_openList_opened (problem : SearchProblem) (s : Search) (index : NodeIndex)
    (state : WorldState) (cost : Nat) :
    (s.opened problem index state cost).openList.toList.length = s.openList.toList.length + 1 :=
  (OpenList.toList_push ..).length_eq

theorem totalCost_push (nodes : Array Node) (node : Node) :
    totalCost (nodes.push node) = totalCost nodes + node.cost := by
  rw [totalCost, Array.toList_push, List.map_append, List.sum_append, totalCost]
  simp

/-- Taking note of a path does not increase the potential. -/
theorem potential_of_noted {state : WorldState} {arrival : Arrival} {cost : Nat}
    (h : Noted problem nodeLimit s state arrival cost t) (hcost : cost ≤ maxCost) :
    potential nodeLimit t ≤ potential nodeLimit s := by
  cases h with
  | kept => exact Nat.le_refl _
  | @improved index known _ hknown _ hlt =>
    have hopen := length_openList_opened problem
      { s with nodes := s.nodes.modify index fun node => { node with arrival, cost } }
      index state cost
    -- The cost falls by one at least, which pays for the entry.
    have hsum : totalCost (s.nodes.modify index fun node => { node with arrival, cost }) +
        known.cost = totalCost s.nodes + cost := by
      rw [totalCost, Array.toList_modify]
      exact sum_map_modify _ _ _ _ (by rw [Array.getElem?_toList, hknown])
    rw [potential, improved, hopen, potential]
    simp only [opened, Array.size_modify]
    omega
  | @added slot _ hsize =>
    have hopen := length_openList_opened problem
      { s with
        nodes := s.nodes.push ⟨state, some arrival, cost⟩
        table := s.table.store slot s.nodes.size } s.nodes.size state cost
    have hallowance : (nodeLimit - (s.nodes.size + 1)) * UInt32.size + UInt32.size =
        (nodeLimit - s.nodes.size) * UInt32.size := by
      rw [← Nat.succ_mul]
      congr 1
      omega
    rw [potential, added, hopen, potential]
    simp only [opened, Array.size_push, totalCost_push]
    -- The allowance of the node pays for its cost and its entry.
    have hlt : cost < UInt32.size := Nat.lt_of_le_of_lt hcost (by decide)
    omega

theorem potential_of_tried {parent : NodeIndex} {state : WorldState} {cost : Nat}
    {action : ActionId} (h : Tried problem nodeLimit parent state cost s action t) :
    potential nodeLimit t ≤ potential nodeLimit s := by
  cases h with
  | passed => exact Nat.le_refl _
  | noted _ _ hnoted =>
    have hle := potential_of_noted hnoted (addCost_le_maxCost _ _)
    exact hle

theorem potential_of_pop {entry : OpenList.Entry} {rest : OpenList} (expanded : Nat)
    (hpop : s.openList.pop? = some (entry, rest)) :
    potential nodeLimit { s with openList := rest, expanded } < potential nodeLimit s := by
  have hlength := (OpenList.toList_of_pop? hpop).1.length_eq
  rw [List.length_cons] at hlength
  rw [potential, potential, hlength]
  dsimp only
  omega

/-- A step decreases the potential, by the entry that it takes out. -/
theorem potential_of_stepped (h : Stepped problem nodeLimit s t) :
    potential nodeLimit t < potential nodeLimit s := by
  cases h with
  | dropped hpop _ => exact potential_of_pop s.expanded hpop
  | @expanded entry rest node _ hpop _ _ _ hexpand =>
    refine Nat.lt_of_le_of_lt ?_ (potential_of_pop (s.expanded + 1) hpop)
    refine motive_of_foldlM (motive := fun _ u => potential nodeLimit u ≤ potential nodeLimit
      { s with openList := rest, expanded := s.expanded + 1 }) ?_ [] (Nat.le_refl _) hexpand
    intro _ _ _ _ hle htry
    exact Nat.le_trans (potential_of_tried (tried_of_tryAction htry)) hle

/-- No sequence of steps goes on forever, wherever it begins. -/
theorem wellFounded_step (problem : SearchProblem) (nodeLimit : Nat) :
    WellFounded fun t s => step problem nodeLimit s = .ok t :=
  Subrelation.wf (fun hstep => potential_of_stepped (stepped_of_step hstep))
    (measure (potential nodeLimit)).wf

/-- A search ends within its bound. -/
theorem exists_runWithin_stepBound (problem : SearchProblem)
    (h : potential nodeLimit s < stepBound nodeLimit) :
    ∃ ended, runWithin (step problem nodeLimit) (stepBound nodeLimit) s = some ended :=
  exists_runWithin_of_measure (P := fun _ => True) (fun _ _ _ _ => trivial)
    (fun _ _ _ hstep => potential_of_stepped (stepped_of_step hstep)) trivial h

end Search

end AgentPlanning
