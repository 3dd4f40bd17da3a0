import AgentPlanning.Blackboard
import AgentPlanning.Goal
import AgentPlanning.Span

/-!
# Choosing a Goal by Utility

Each goal that an agent may pursue has a score: a base weight multiplied by the scores of its
considerations, in binary32 arithmetic. The agent pursues the first goal of the greatest score,
unless even that score is below a threshold.

A choice is made from two flat tables, one of the goals and one of the considerations of all goals,
of which each goal has a range.
-/

namespace AgentPlanning

/-- One factor in the score of a goal. -/
inductive Consideration where
  /-- One of two scores, depending on whether an atom holds. -/
  | atom (atom : AtomId) (ifTrue ifFalse : Float32)
  /-- A score that goes from `low` to `high` while an integer goes from `min` to `max`. -/
  | intRange (key : IntKey) (min max : Int32) (low high : Float32)
deriving BEq, DecidableEq

/-- The binary32 number nearest to an integer. -/
def binary32 (n : Int32) : Float32 := .ofModel (.ofInt32 n)

/-- `x` brought between zero and one; a NaN stays a NaN. -/
def unitClamp (x : Float32) : Float32 :=
  if x < 0 then 0 else if 1 < x then 1 else x

namespace Consideration

/-- The score of an integer in a range. An empty range is a threshold at `max`, and inside a
range the score is interpolated linearly. -/
def rangeScore (min max : Int32) (low high : Float32) (value : Int32) : Float32 :=
  if max ≤ min then
    if max ≤ value then high else low
  else
    let start := binary32 min
    low + (high - low) * unitClamp ((binary32 value - start) / (binary32 max - start))

/-- The score of the consideration. A missing integer scores `low`. -/
def score (c : Consideration) (state : WorldState) (view : BlackboardView) : Float32 :=
  match c with
  | atom a ifTrue ifFalse => if state.get a then ifTrue else ifFalse
  | intRange key min max low high =>
    match view.int? key with
    | none => low
    | some value => rangeScore min max low high value

end Consideration

/-- A goal that may be chosen, and what makes it desirable. -/
structure GoalOption where
  goal : GoalId
  /-- How the goal is planned for. -/
  strategy : PlanningStrategy
  /-- The score before any consideration. -/
  base : Float32
  /-- The factors of the score, in the order of multiplication. -/
  considerations : List Consideration := []
deriving BEq, DecidableEq

/-- The least binary32 number. -/
def negativeInfinity : Float32 := Float32.ofBits 0xFF800000

/-- The product of the base weight and the considerations from left to right. A product that
is not a number counts as the least score. -/
def GoalOption.score (g : GoalOption) (state : WorldState) (view : BlackboardView) : Float32 :=
  let product := g.considerations.foldl (fun acc c => acc * c.score state view) g.base
  if product.isNaN then negativeInfinity else product

/-- A row of the table of goals to choose from. -/
structure GoalRow where
  goal : GoalId
  /-- How the goal is planned for. -/
  strategy : PlanningStrategy
  /-- The score before any consideration. -/
  base : Float32
  /-- The rows of the goal's considerations. -/
  considerations : Span
deriving BEq, DecidableEq

/-- Goals to choose from and their considerations in flat tables. -/
structure GoalRows where
  /-- The goals in order of declaration. -/
  rows : Array GoalRow := #[]
  /-- The considerations of all goals, goal after goal. -/
  considerations : Array Consideration := #[]
deriving BEq, DecidableEq

namespace GoalRows

/-- The tables with a goal added to them. -/
def add (table : GoalRows) (option : GoalOption) : GoalRows :=
  let entry : GoalRow :=
    { goal := option.goal
      strategy := option.strategy
      base := option.base
      considerations := ⟨table.considerations.size, option.considerations.length⟩ }
  { rows := table.rows.push entry
    considerations := table.considerations.appendList option.considerations }

/-- The tables of the given goals. -/
def ofList (options : List GoalOption) : GoalRows :=
  options.foldl add {}

/-- The goal of a row, with the considerations of its range. -/
def optionOf (table : GoalRows) (row : GoalRow) : GoalOption where
  goal := row.goal
  strategy := row.strategy
  base := row.base
  considerations := row.considerations.read table.considerations

/-- The goals that the tables are read back as, in order of declaration. -/
def options (table : GoalRows) : List GoalOption :=
  table.rows.toList.map table.optionOf

end GoalRows

/-- The goals to choose from and the least score that a choice may have. -/
structure GoalSelector where
  /-- The tables of the goals. -/
  table : GoalRows := {}
  /-- A choice must not score below this. -/
  threshold : Float32 := 0
deriving BEq, DecidableEq

/-- A chosen goal. -/
structure GoalChoice where
  goal : GoalId
  /-- How it is planned for. -/
  strategy : PlanningStrategy
  score : Float32
  /-- Its position among the goals to choose from. -/
  index : Nat
deriving BEq, DecidableEq

namespace GoalSelector

/-- The selector of the given goals. -/
def ofList (goals : List GoalOption) (threshold : Float32) : GoalSelector :=
  ⟨.ofList goals, threshold⟩

/-- The scores of all goals in order of declaration. -/
def scores (selector : GoalSelector) (state : WorldState) (view : BlackboardView) :
    List Float32 :=
  selector.table.options.map (·.score state view)

/-- The choice that a goal would be. -/
def choiceOf (state : WorldState) (view : BlackboardView) (g : GoalOption) (index : Nat) :
    GoalChoice :=
  ⟨g.goal, g.strategy, g.score state view, index⟩

/-- The better of the best choice so far and a later one; the earlier wins a tie. -/
def better (best : Option GoalChoice) (next : GoalChoice) : Option GoalChoice :=
  match best with
  | none => some next
  | some choice => if choice.score < next.score then some next else some choice

/-- The first goal of the greatest score; `none` if there is no goal. -/
def best? (selector : GoalSelector) (state : WorldState) (view : BlackboardView) :
    Option GoalChoice :=
  selector.table.options.zipIdx.foldl
    (fun best (g, index) => better best (choiceOf state view g index)) none

/-- The best choice, unless its score is below the threshold. -/
def select (selector : GoalSelector) (state : WorldState) (view : BlackboardView) :
    Option GoalChoice :=
  (selector.best? state view).filter fun choice => !(choice.score < selector.threshold)

end GoalSelector

end AgentPlanning
