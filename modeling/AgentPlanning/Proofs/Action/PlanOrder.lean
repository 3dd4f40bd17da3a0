import AgentPlanning.Proofs.Action.Grouping
import AgentPlanning.Proofs.Action.Plan
import Mathlib.Data.List.Shortlex

/-!
# The Order of Plans

Actions are considered in the order of the candidates of a state. That orders the plans from a
state: shorter plans come first, and of equally long ones the one comes first that takes the
earlier candidate where the two first differ. Main statements:

* `Before.concat_concat`, `before_concat_of_lt`: how the order grows by one more action;
* `NotAfter.concat_concat`: plans to the same state keep their order under the same next action;
* `precedes_of_positions_lt`: the order of the positions compares the first different actions;
* `NotAfter.length_le`, `NotAfter.eq_or_precedes`: what the order says about two plans.
-/

namespace AgentPlanning

namespace ActionLibrary

/-- The position of an action among the candidates of a state. -/
def position (library : ActionLibrary) (state : WorldState) (action : ActionId) : Nat :=
  (library.candidates state).idxOf action

/-- The positions of the actions of a plan, each among the candidates of the state in which it is
taken. -/
def positions (library : ActionLibrary) : WorldState → List ActionId → List Nat
  | _, [] => []
  | state, action :: rest =>
    library.position state action :: library.positions (library.apply action state) rest

/-- The plans differ, and where they first do, the first plan takes an earlier candidate of the
state that both lead to. -/
inductive Precedes (library : ActionLibrary) :
    WorldState → List ActionId → List ActionId → Prop where
  /-- They differ in the first action. -/
  | differ {state : WorldState} {a b : ActionId} (p q : List ActionId)
      (lt : library.position state a < library.position state b) :
      Precedes library state (a :: p) (b :: q)
  /-- They agree in the first action, and differ later on. -/
  | agree {state : WorldState} {a : ActionId} {p q : List ActionId}
      (precedes : Precedes library (library.apply a state) p q) :
      Precedes library state (a :: p) (a :: q)

/-- The first plan is shorter, or it is as long and takes the earlier candidate. -/
def Before (library : ActionLibrary) (state : WorldState) (p q : List ActionId) : Prop :=
  List.Shortlex (· < ·) (library.positions state p) (library.positions state q)

/-- The plans are the same, or the first one comes before the second. -/
def NotAfter (library : ActionLibrary) (state : WorldState) (p q : List ActionId) : Prop :=
  p = q ∨ library.Before state p q

variable {library : ActionLibrary} {start state : WorldState} {p q : List ActionId}

@[simp]
theorem length_positions (state : WorldState) (plan : List ActionId) :
    (library.positions state plan).length = plan.length := by
  induction plan generalizing state with
  | nil => rfl
  | cons action rest ih => rw [positions, List.length_cons, ih, List.length_cons]

theorem positions_concat (action : ActionId) (h : library.Executes start p state) :
    library.positions start (p ++ [action]) =
      library.positions start p ++ [library.position state action] := by
  induction h with
  | nil => rfl
  | cons _ _ ih => rw [List.cons_append, positions, positions, ih, List.cons_append]

/-- An action that can be taken is determined by its position. -/
theorem position_inj {a b : ActionId} (ha : library.isApplicable a state = true)
    (h : library.position state a = library.position state b) : a = b :=
  (List.idxOf_inj (mem_candidates_of_isApplicable ha)).1 h

/-! ## One more action -/

theorem lex_append {x y : List Nat} (h : List.Lex (· < ·) x y) (hlength : x.length = y.length)
    (s t : List Nat) : List.Lex (· < ·) (x ++ s) (y ++ t) := by
  induction h with
  | nil => cases hlength
  | cons _ ih => exact .cons (ih (Nat.succ.inj hlength))
  | rel hlt => exact .rel hlt

theorem before_of_length_lt (h : p.length < q.length) : library.Before start p q := by
  refine List.Shortlex.of_length_lt ?_
  rwa [length_positions, length_positions]

theorem before_iff : library.Before start p q ↔ p.length < q.length ∨
    p.length = q.length ∧ library.positions start p < library.positions start q := by
  rw [Before, List.shortlex_def, length_positions, length_positions]
  rfl

theorem Before.trans {r : List ActionId} (hpq : library.Before start p q)
    (hqr : library.Before start q r) : library.Before start p r := by
  rw [before_iff] at *
  rcases hpq with hpq | ⟨hpq, hlt⟩ <;> rcases hqr with hqr | ⟨hqr, hlt'⟩
  · exact .inl (Nat.lt_trans hpq hqr)
  · exact .inl (hqr ▸ hpq)
  · exact .inl (hpq ▸ hqr)
  · exact .inr ⟨hpq.trans hqr, List.lt_trans hlt hlt'⟩

theorem Before.length_le (h : library.Before start p q) : p.length ≤ q.length := by
  rcases before_iff.1 h with hlt | ⟨heq, -⟩
  · exact Nat.le_of_lt hlt
  · exact Nat.le_of_eq heq

/-- A plan that comes first does so whatever action is added to each. -/
theorem Before.concat_concat {state' : WorldState} (h : library.Before start p q)
    (hp : library.Executes start p state) (hq : library.Executes start q state') (a b : ActionId) :
    library.Before start (p ++ [a]) (q ++ [b]) := by
  rcases before_iff.1 h with hlt | ⟨heq, hlt⟩
  · refine before_of_length_lt ?_
    rw [List.length_append, List.length_append]
    exact Nat.add_lt_add_right hlt 1
  · refine before_iff.2 (.inr ⟨?_, ?_⟩)
    · rw [List.length_append, List.length_append, heq]
      rfl
    · rw [positions_concat a hp, positions_concat b hq]
      exact lex_append hlt (by rw [length_positions, length_positions, heq]) _ _

/-- Of two actions that are added to the same plan the earlier candidate comes first. -/
theorem before_concat_of_lt (hp : library.Executes start p state) {a b : ActionId}
    (h : library.position state a < library.position state b) :
    library.Before start (p ++ [a]) (p ++ [b]) := by
  rw [Before, positions_concat a hp, positions_concat b hp]
  exact List.Shortlex.append_left ((List.shortlex_singleton_iff _ _).2 h) _

/-- Where the positions of two plans first differ, the plans do. -/
theorem precedes_of_positions_lt {final final' : WorldState}
    (hp : library.Executes start p final) (hq : library.Executes start q final')
    (hlength : p.length = q.length) (h : library.positions start p < library.positions start q) :
    library.Precedes start p q := by
  induction hp generalizing q with
  | nil =>
    obtain rfl := List.length_eq_zero_iff.1 hlength.symm
    exact absurd h (List.lt_irrefl _)
  | @cons state _ a rest applicable _ ih =>
    cases hq with
    | nil => cases hlength
    | @cons _ _ b rest' _ hrest' =>
      rcases List.cons_lt_cons_iff.1 h with hlt | ⟨heq, hlt⟩
      · exact .differ rest rest' hlt
      · -- Actions of the same position are the same.
        obtain rfl := position_inj applicable heq
        exact .agree (ih hrest' (Nat.succ.inj hlength) hlt)

namespace NotAfter

theorem refl (start : WorldState) (p : List ActionId) : library.NotAfter start p p := .inl rfl

theorem trans {r : List ActionId} (hpq : library.NotAfter start p q)
    (hqr : library.NotAfter start q r) : library.NotAfter start p r := by
  rcases hpq with rfl | hpq
  · exact hqr
  rcases hqr with rfl | hqr
  · exact .inr hpq
  · exact .inr (hpq.trans hqr)

/-- Two plans keep their order if the same action is added. -/
theorem concat_concat {state' : WorldState} (h : library.NotAfter start p q)
    (hp : library.Executes start p state) (hq : library.Executes start q state')
    (action : ActionId) : library.NotAfter start (p ++ [action]) (q ++ [action]) := by
  rcases h with rfl | h
  · exact .refl _ _
  · exact .inr (h.concat_concat hp hq action action)

theorem concat (start : WorldState) (p : List ActionId) (action : ActionId) :
    library.NotAfter start p (p ++ [action]) := by
  refine .inr (before_of_length_lt ?_)
  rw [List.length_append]
  exact Nat.lt_succ_self _

/-! ## What the order says -/

theorem length_le (h : library.NotAfter start p q) : p.length ≤ q.length := by
  rcases h with rfl | h
  · exact Nat.le_refl _
  · exact h.length_le

/-- Of two different plans of one length, which can both be carried out, the first precedes. -/
theorem eq_or_precedes {final final' : WorldState} (h : library.NotAfter start p q)
    (hp : library.Executes start p final) (hq : library.Executes start q final')
    (hlength : p.length = q.length) : q = p ∨ library.Precedes start p q := by
  rcases h with rfl | h
  · exact .inl rfl
  · obtain ⟨-, hlt⟩ := (before_iff.1 h).resolve_left (Nat.not_lt_of_ge (Nat.le_of_eq hlength.symm))
    exact .inr (precedes_of_positions_lt hp hq hlength hlt)

end NotAfter

end ActionLibrary

end AgentPlanning
