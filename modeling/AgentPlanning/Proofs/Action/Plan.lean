import AgentPlanning.Action.Library

/-!
# Carrying out Plans

A plan is carried out by taking its actions one after the other, each in the state that the
earlier ones lead to. This module fixes what that means and how the states and the costs of a
plan grow by one more action. Main statements:

* `Executes.concat`, `visited_concat`: one more action leads to one more state;
* `planCost?_concat`, `Executes.exists_planCost?`: the cost of a plan is the sum of the costs of
  its actions, and a plan that can be carried out has one.
-/

namespace AgentPlanning

namespace ActionLibrary

variable {library : ActionLibrary}

/-- The plan can be carried out from the first state, and ends in the last. -/
inductive Executes (library : ActionLibrary) : WorldState → List ActionId → WorldState → Prop where
  /-- The empty plan ends where it begins. -/
  | nil (state : WorldState) : Executes library state [] state
  /-- The first action can be taken, and the others can be carried out after it. -/
  | cons {state final : WorldState} {action : ActionId} {rest : List ActionId}
      (applicable : library.isApplicable action state = true)
      (executes : Executes library (library.apply action state) rest final) :
      Executes library state (action :: rest) final

/-- The states that a plan visits, from the one in which it begins to the one in which it ends. -/
def visited (library : ActionLibrary) : WorldState → List ActionId → List WorldState
  | state, [] => [state]
  | state, action :: rest => state :: library.visited (library.apply action state) rest

/-- The cost of an action; an id that is not in the library costs nothing. -/
def actionCost (library : ActionLibrary) (action : ActionId) : Nat :=
  ((library.cost? action).getD 0).toNat

/-! ## One more action -/

theorem Executes.concat {start state : WorldState} {plan : List ActionId} {action : ActionId}
    (h : library.Executes start plan state)
    (applicable : library.isApplicable action state = true) :
    library.Executes start (plan ++ [action]) (library.apply action state) := by
  induction h with
  | nil state => exact .cons applicable (.nil _)
  | cons first _ ih => exact .cons first (ih applicable)

theorem visited_concat {start state : WorldState} {plan : List ActionId} (action : ActionId)
    (h : library.Executes start plan state) :
    library.visited start (plan ++ [action]) =
      library.visited start plan ++ [library.apply action state] := by
  induction h with
  | nil => rfl
  | cons _ _ ih => rw [List.cons_append, visited, visited, ih, List.cons_append]

theorem contains_of_isApplicable {action : ActionId} {state : WorldState}
    (h : library.isApplicable action state = true) : library.contains action = true := by
  obtain ⟨found, hfound, -⟩ := (Option.any_eq_true ..).1 h
  obtain ⟨hlt, -⟩ := Array.getElem?_eq_some_iff.1 hfound
  exact decide_eq_true hlt

/-- A plan that can be carried out has actions of the library only. -/
theorem Executes.contains {start final : WorldState} {plan : List ActionId}
    (h : library.Executes start plan final) : ∀ action ∈ plan, library.contains action = true := by
  induction h with
  | nil => simp
  | cons applicable _ ih => exact List.forall_mem_cons.2 ⟨contains_of_isApplicable applicable, ih⟩

/-! ## Costs -/

theorem planCost?_cons {action : ActionId} (rest : List ActionId)
    (h : library.contains action = true) :
    library.planCost? (action :: rest) =
      (library.planCost? rest).map (library.actionCost action + ·) := by
  have hlt : action < library.actions.size := of_decide_eq_true h
  have hcost : library.cost? action = some library.actions[action].cost := by
    rw [cost?, row?, Array.getElem?_eq_getElem hlt, Option.map_some]
  rw [planCost?, hcost, actionCost, hcost]
  cases library.planCost? rest <;> rfl

/-- A plan that can be carried out has a cost. -/
theorem Executes.exists_planCost? {start final : WorldState} {plan : List ActionId}
    (h : library.Executes start plan final) : ∃ cost, library.planCost? plan = some cost := by
  induction h with
  | nil => exact ⟨0, rfl⟩
  | cons applicable _ ih =>
    obtain ⟨cost, hcost⟩ := ih
    rw [planCost?_cons _ (contains_of_isApplicable applicable), hcost]
    exact ⟨_, rfl⟩

theorem planCost?_concat {plan : List ActionId} {action : ActionId} {cost : Nat}
    (h : library.planCost? plan = some cost) (hplan : ∀ a ∈ plan, library.contains a = true)
    (haction : library.contains action = true) :
    library.planCost? (plan ++ [action]) = some (cost + library.actionCost action) := by
  induction plan generalizing cost with
  | nil =>
    obtain rfl : 0 = cost := by simpa [planCost?] using h
    rw [List.nil_append, planCost?_cons _ haction, planCost?, Option.map_some, Nat.add_comm]
  | cons first rest ih =>
    obtain ⟨hfirst, hrest⟩ := List.forall_mem_cons.1 hplan
    rw [planCost?_cons _ hfirst] at h
    obtain ⟨costRest, hcostRest, rfl⟩ := Option.map_eq_some_iff.1 h
    rw [List.cons_append, planCost?_cons _ hfirst, ih hcostRest hrest, Option.map_some,
      Nat.add_assoc]

end ActionLibrary

end AgentPlanning
