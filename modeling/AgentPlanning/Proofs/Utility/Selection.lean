import AgentPlanning.Proofs.Binary32.Order
import AgentPlanning.Proofs.Utility.Tables

/-!
# Choosing the First of the Best Goals

No score is a NaN, so the scores of all goals can be compared with each other. The scan over the
goals keeps the best choice so far and gives it up only for a better one, which makes its result the
first of the greatest scores. Main statements:

* `GoalOption.score_eq`, `GoalOption.isNaN_score`: the score of a goal by its own factors;
* `GoalSelector.best?_eq_argmax`: the scan takes the first choice of the greatest score;
* `GoalSelector.select_first_greatest`: which goal is chosen, and when none is.
-/

namespace AgentPlanning

open Binary32
open Float.Model

/-! ## Scores -/

theorem unpack_negativeInfinity : negativeInfinity.toModel.unpack = .infinity .negative := by
  have hpack : negativeInfinity = .ofModel (.pack (.infinity .negative)) := by decide +kernel
  rw [hpack, unpack_pack (u := .infinity .negative) trivial]
  rfl

theorem isNaN_negativeInfinity : negativeInfinity.isNaN = false := by
  rw [isNaN_eq, unpack_negativeInfinity]
  rfl

/-- No other number is less than or equal to negative infinity. -/
theorem eq_negativeInfinity_of_le {x : Float32} (hx : x.isNaN = false)
    (hle : x ≤ negativeInfinity) : x = negativeInfinity := by
  rw [le_iff_place_le hx isNaN_negativeInfinity, place, place, unpack_negativeInfinity] at hle
  have hbot : place x = ⊥ := le_bot_iff.mp hle
  rw [← unpack_inj, unpack_of_place_eq_bot hx hbot, unpack_negativeInfinity]

namespace GoalOption

variable (g : GoalOption) (state : WorldState) (view : BlackboardView)

/-- The base weight of the goal multiplied by the scores of its considerations, in order. -/
def product : Float32 :=
  (g.considerations.map (·.score state view)).foldl (· * ·) g.base

/-- The score of a goal is the product of its factors, unless that is a NaN. -/
theorem score_eq : g.score state view =
    if (g.product state view).isNaN then negativeInfinity else g.product state view := by
  rw [score, product, List.foldl_map]

theorem isNaN_score : (g.score state view).isNaN = false := by
  rw [score_eq]
  split
  · exact isNaN_negativeInfinity
  next hnan => exact eq_false_of_ne_true hnan

end GoalOption

/-! ## The scan over the goals -/

namespace GoalSelector

variable (selector : GoalSelector) (state : WorldState) (view : BlackboardView)

/-- The choices among which the scan takes the best, in order of declaration. -/
def choices : List GoalChoice :=
  selector.table.options.zipIdx.map fun (g, index) => choiceOf state view g index

variable {selector state view} {choice : GoalChoice}

theorem getElem?_choices (index : Nat) : (selector.choices state view)[index]? =
    selector.table.options[index]?.map fun g => choiceOf state view g index := by
  simp [choices, List.getElem?_zipIdx, Function.comp_def]

theorem scores_eq : selector.scores state view =
    (selector.choices state view).map (·.score) := by
  ext1 index
  rw [List.getElem?_map, getElem?_choices, scores, List.getElem?_map,
    Option.map_map]
  rfl

theorem isNaN_score_of_mem_choices (h : choice ∈ selector.choices state view) :
    choice.score.isNaN = false := by
  obtain ⟨index, hindex⟩ := List.mem_iff_getElem?.1 h
  rw [getElem?_choices] at hindex
  obtain ⟨g, -, rfl⟩ := Option.map_eq_some_iff.1 hindex
  exact g.isNaN_score state view

/-- Taking the better of two choices step by step leads to the first of the greatest score, as long
as all scores can be compared. -/
theorem foldl_better_eq_argmax {choices : List GoalChoice}
    (hcompared : ∀ choice ∈ choices, choice.score.isNaN = false) :
    choices.foldl better none = choices.argmax fun choice => place choice.score := by
  induction choices using List.reverseRecOn with
  | nil => rfl
  | append_singleton before next ih =>
    obtain ⟨hbefore, hnext⟩ := List.forall_mem_append.1 hcompared
    rw [List.foldl_append, List.foldl_cons, List.foldl_nil, ih hbefore, List.argmax_concat]
    cases hbest : before.argmax fun choice => place choice.score with
    | none => rfl
    | some best =>
      -- The best choice so far is one of those before, so its score is not a NaN either.
      have hscore := hbefore best (List.argmax_mem hbest)
      simp only [better, lt_iff_place_lt hscore (hnext next List.mem_cons_self)]

/-- The scan takes the first choice of the greatest score. -/
theorem best?_eq_argmax : selector.best? state view =
    (selector.choices state view).argmax fun choice => place choice.score := by
  rw [← foldl_better_eq_argmax fun _ h => isNaN_score_of_mem_choices h, choices, List.foldl_map,
    best?]

/-- What comes before the first greatest element of a list is less than it. -/
theorem exists_split_of_mem_argmax {α β : Type} [LinearOrder β] {f : α → β} {l : List α} {a : α}
    (h : a ∈ l.argmax f) :
    ∃ before after, l = before ++ a :: after ∧ ∀ b ∈ before, f b < f a := by
  induction l using List.reverseRecOn generalizing a with
  | nil => cases h
  | append_singleton l last ih =>
    rw [List.argmax_concat] at h
    cases hbest : l.argmax f with
    | none =>
      rw [hbest] at h
      obtain rfl := Option.some.inj h
      obtain rfl := List.argmax_eq_none.1 hbest
      exact ⟨[], [], rfl, List.forall_mem_nil _⟩
    | some best =>
      rw [hbest] at h
      dsimp only at h
      split at h
      next hlt =>
        -- The last element is greater than the best one before, and so than all of them.
        obtain rfl := Option.some.inj h
        refine ⟨l, [], rfl, fun b hb => ?_⟩
        exact (List.le_of_mem_argmax hb hbest).trans_lt hlt
      next hge =>
        obtain rfl := Option.some.inj h
        obtain ⟨before, after, rfl, hbefore⟩ := ih hbest
        exact ⟨before, after ++ [last], by simp, hbefore⟩

/-! ## The choice -/

/-- The positions of the greatest ones of the given scores. -/
def greatest (scores : List Float32) : Set Nat :=
  {index | ∃ score, scores[index]? = some score ∧ ∀ other ∈ scores, other ≤ score}

/-- The best choice is the one at its own index, and those before it are worse. -/
theorem getElem?_choices_of_best? (h : selector.best? state view = some choice) :
    (selector.choices state view)[choice.index]? = some choice ∧
      ∀ index < choice.index, ∀ other, (selector.choices state view)[index]? = some other →
        place other.score < place choice.score := by
  rw [best?_eq_argmax] at h
  obtain ⟨before, after, hsplit, hbefore⟩ := exists_split_of_mem_argmax h
  have hget : (selector.choices state view)[before.length]? = some choice := by
    rw [hsplit, List.getElem?_append_right (Nat.le_refl _), Nat.sub_self, List.getElem?_cons_zero]
  -- The choice stands after those before it, and its index says so.
  have hindex : choice.index = before.length := by
    obtain ⟨g, -, rfl⟩ := Option.map_eq_some_iff.1 ((getElem?_choices _).symm.trans hget)
    rfl
  rw [hindex]
  refine ⟨hget, fun index hlt other hother => hbefore other ?_⟩
  rw [hsplit, List.getElem?_append_left hlt] at hother
  exact List.mem_of_getElem? hother

/-- The best choice is that of the goal at its index. -/
theorem eq_choiceOf_of_best? (h : selector.best? state view = some choice) :
    ∃ g, selector.table.options[choice.index]? = some g ∧
      choice = choiceOf state view g choice.index := by
  obtain ⟨hget, -⟩ := getElem?_choices_of_best? h
  rw [getElem?_choices] at hget
  obtain ⟨g, hg, hchoice⟩ := Option.map_eq_some_iff.1 hget
  exact ⟨g, hg, hchoice.symm⟩

theorem score_mem_scores_of_best? (h : selector.best? state view = some choice) :
    choice.score ∈ selector.scores state view := by
  rw [best?_eq_argmax] at h
  rw [scores_eq]
  exact List.mem_map_of_mem (List.argmax_mem h)

/-- No score is greater than that of the best choice. -/
theorem le_score_of_best? (h : selector.best? state view = some choice) :
    ∀ score ∈ selector.scores state view, score ≤ choice.score := by
  intro score hmem
  rw [best?_eq_argmax] at h
  rw [scores_eq] at hmem
  obtain ⟨other, hother, rfl⟩ := List.mem_map.1 hmem
  rw [le_iff_place_le (isNaN_score_of_mem_choices hother)
    (isNaN_score_of_mem_choices (List.argmax_mem h))]
  exact List.le_of_mem_argmax (f := fun choice : GoalChoice => place choice.score) hother h

/-- The best choice is that of the first goal with the greatest score. -/
theorem isLeast_of_best? (h : selector.best? state view = some choice) :
    IsLeast (greatest (selector.scores state view)) choice.index := by
  obtain ⟨hget, hbefore⟩ := getElem?_choices_of_best? h
  refine ⟨⟨choice.score, ?_, le_score_of_best? h⟩, ?_⟩
  · rw [scores_eq, List.getElem?_map, hget, Option.map_some]
  · rintro index ⟨score, hindex, hle⟩
    by_contra hlt
    rw [not_le] at hlt
    -- A goal before the chosen one has a smaller score, so it is not the greatest.
    rw [scores_eq, List.getElem?_map] at hindex
    obtain ⟨other, hother, rfl⟩ := Option.map_eq_some_iff.1 hindex
    have hchosen := hle choice.score (score_mem_scores_of_best? h)
    rw [le_iff_place_le (isNaN_score_of_mem_choices (List.mem_of_getElem? hget))
      (isNaN_score_of_mem_choices (List.mem_of_getElem? hother))] at hchosen
    exact (hbefore index hlt other hother).not_ge hchosen

theorem best?_eq_none_iff : selector.best? state view = none ↔ selector.table.options = [] := by
  rw [best?_eq_argmax, List.argmax_eq_none, choices, List.map_eq_nil_iff, List.zipIdx_eq_nil_iff]

theorem isNaN_of_mem_scores {score : Float32} (h : score ∈ selector.scores state view) :
    score.isNaN = false := by
  rw [scores_eq] at h
  obtain ⟨choice, hchoice, rfl⟩ := List.mem_map.1 h
  exact isNaN_score_of_mem_choices hchoice

/-- No goal is chosen if there is none, or if even the greatest score is below the threshold. -/
theorem select_eq_none_iff : selector.select state view = none ↔ selector.table.options = [] ∨
    ∃ score ∈ selector.scores state view,
      (∀ other ∈ selector.scores state view, other ≤ score) ∧ score < selector.threshold := by
  have hgoals : selector.best? state view = none ↔ selector.table.options = [] := best?_eq_none_iff
  rw [select, Option.filter_eq_none_iff, ← hgoals]
  cases hbest : selector.best? state view with
  | none => simp
  | some choice =>
    have hgreatest := le_score_of_best? hbest
    have hmem := score_mem_scores_of_best? hbest
    simp only [Option.some.injEq, forall_eq', Bool.not_eq_true, Bool.not_eq_false',
      decide_eq_true_eq, reduceCtorEq, false_or]
    constructor
    · intro hbelow
      exact ⟨choice.score, hmem, hgreatest, hbelow⟩
    · rintro ⟨score, hscore, hle, hbelow⟩
      -- Two greatest scores are less than or equal to each other.
      exact lt_of_le_lt (isNaN_of_mem_scores hmem) (isNaN_of_mem_scores hscore)
        (hle choice.score hmem) hbelow

/-- The first goal of the greatest score is chosen, unless that score is below the threshold. The
score of a goal is the product of its own factors in order, and counts as negative infinity if that
is a NaN. Such a goal is chosen only if no goal has a greater score. -/
theorem select_first_greatest (goals : List GoalOption) (threshold : Float32)
    (state : WorldState) (view : BlackboardView) :
    ((ofList goals threshold).scores state view = goals.map fun g =>
      if (g.product state view).isNaN then negativeInfinity else g.product state view) ∧
    ((ofList goals threshold).select state view = none ↔ goals = [] ∨
      ∃ score ∈ (ofList goals threshold).scores state view,
        (∀ other ∈ (ofList goals threshold).scores state view, other ≤ score) ∧
          score < threshold) ∧
    ∀ choice, (ofList goals threshold).select state view = some choice →
      IsLeast (greatest ((ofList goals threshold).scores state view)) choice.index ∧
      ∃ g, goals[choice.index]? = some g ∧
        choice = ⟨g.goal, g.strategy, if (g.product state view).isNaN then negativeInfinity
          else g.product state view, choice.index⟩ ∧
        ((g.product state view).isNaN →
          ∀ score ∈ (ofList goals threshold).scores state view, score = negativeInfinity) := by
  refine ⟨?scores, ?none, ?some⟩
  case scores =>
    rw [scores, options_ofList]
    exact List.map_congr_left fun g _ => g.score_eq state view
  case none =>
    have hnone : (ofList goals threshold).select state view = none ↔ _ := select_eq_none_iff
    rw [options_ofList] at hnone
    exact hnone
  case some =>
    intro choice hselect
    obtain ⟨hbest, -⟩ := Option.filter_eq_some_iff.1 hselect
    obtain ⟨g, hg, hchoice⟩ := eq_choiceOf_of_best? hbest
    rw [options_ofList] at hg
    rw [choiceOf, g.score_eq] at hchoice
    refine ⟨isLeast_of_best? hbest, g, hg, hchoice, fun hnan score hscore => ?_⟩
    -- All scores are less than or equal to that of the chosen goal, which is the least there is.
    have hlowest : choice.score = negativeInfinity := by
      rw [hchoice, if_pos hnan]
    exact eq_negativeInfinity_of_le (isNaN_of_mem_scores hscore)
      (hlowest ▸ le_score_of_best? hbest score hscore)

/-- Four goals: one whose base weight is a NaN, two that are equally good (one with two factors, one
with a single one), and one that is worse. -/
def errands : List GoalOption := [
  { goal := 7, strategy := .search, base := .ofBits 0x7fc00000 },
  { goal := 2, strategy := .decomposition, base := 1
    considerations := [.intRange 3 0 100 0.5 2, .atom (Fin.last _) 1 0.25] },
  { goal := 5, strategy := .search, base := 0.25, considerations := [.atom (Fin.last _) 3 2] },
  { goal := 6, strategy := .search, base := 0.125 }]

/-- Only a goal whose base weight is a NaN. -/
def lastResort : List GoalOption := [
  { goal := 7, strategy := .search, base := .ofBits 0x7fc00000 }]

/-- The integer of key 3 is 100. -/
def sated : BlackboardView := ⟨fun key => if key = 3 then some 100 else none, fun _ => none⟩

/-- Of the two equally good goals the first is chosen. A goal without a proper score is chosen only
where it is the only one, and only if no score is too low. -/
theorem select_errands :
    ((ofList errands 0.5).select .empty sated = some ⟨2, .decomposition, 0.5, 1⟩ ∧
      IsLeast (greatest ((ofList errands 0.5).scores .empty sated)) 1) ∧
    (ofList lastResort negativeInfinity).select .empty sated =
        some ⟨7, .search, negativeInfinity, 0⟩ ∧
      ∀ score ∈ (ofList lastResort negativeInfinity).scores .empty sated,
        score = negativeInfinity := by
  have herrand :
      (ofList errands 0.5).select .empty sated = some ⟨2, .decomposition, 0.5, 1⟩ := by
    decide +kernel
  have hlast : (ofList lastResort negativeInfinity).select .empty sated =
      some ⟨7, .search, negativeInfinity, 0⟩ := by
    decide +kernel
  obtain ⟨hfirst, -⟩ := (select_first_greatest errands 0.5 .empty sated).2.2 _ herrand
  obtain ⟨-, g, hg, -, hnan⟩ :=
    (select_first_greatest lastResort negativeInfinity .empty sated).2.2 _ hlast
  obtain rfl := Option.some.inj hg
  exact ⟨⟨herrand, hfirst⟩, hlast, hnan (by decide +kernel)⟩

end GoalSelector

end AgentPlanning
