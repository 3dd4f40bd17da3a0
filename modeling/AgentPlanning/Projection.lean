import AgentPlanning.WorldState.Basic
import AgentPlanning.Blackboard

/-!
# Projecting a Blackboard to a World State

A projection derives atoms from an agent's blackboard: each rule tests one value and writes
the outcome to one atom. Rules act in order, so of two rules for one atom the later decides.
-/

namespace AgentPlanning

/-- A test of one blackboard value. A missing integer passes no integer test. -/
inductive BlackboardTest where
  /-- The integer is present and equal to `value`. -/
  | intEquals (key : IntKey) (value : Int32)
  /-- The integer is present and at least `value`. -/
  | intAtLeast (key : IntKey) (value : Int32)
  /-- The integer is present and at most `value`. -/
  | intAtMost (key : IntKey) (value : Int32)
  /-- The entity is present. -/
  | entityPresent (key : EntityKey)
  /-- The entity is absent. -/
  | entityAbsent (key : EntityKey)
deriving DecidableEq

/-- The outcome of the test. -/
def BlackboardTest.evaluate (test : BlackboardTest) (view : BlackboardView) : Bool :=
  match test with
  | intEquals key value => view.int? key == some value
  | intAtLeast key value => (view.int? key).any (value ≤ ·)
  | intAtMost key value => (view.int? key).any (· ≤ value)
  | entityPresent key => (view.entity? key).isSome
  | entityAbsent key => (view.entity? key).isNone

/-- One atom and the test that decides it. -/
structure Projection.Rule where
  atom : AtomId
  test : BlackboardTest
deriving DecidableEq

/-- Projection rules in the order in which they act. -/
structure Projection where
  rules : List Projection.Rule
deriving DecidableEq

namespace Projection

/-- Writes the atoms of all rules over `base`. -/
def update (p : Projection) (base : WorldState) (view : BlackboardView) : WorldState :=
  p.rules.foldl (fun s rule => s.set rule.atom (rule.test.evaluate view)) base

/-- The state in which only the atoms of rules can hold. -/
def state (p : Projection) (view : BlackboardView) : WorldState :=
  p.update .empty view

end Projection

end AgentPlanning
