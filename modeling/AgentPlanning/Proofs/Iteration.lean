import AgentPlanning.Iteration

/-!
# Runs of a Repeated Step

A run that repeats a step is reasoned about by what a single step does. Main statements:

* `exists_runWithin_of_measure`: if every step decreases a measure, the run ends within it;
* `exists_runWithin_of_leads`: a run ends with the answer that the steps lead to;
* `forall_mem_trail`: a property that every step keeps holds wherever a step begins;
* `motive_of_trail`: a property of a state and of those before it, kept by one more step, holds
  wherever a step begins;
* `motive_of_foldlM`: a property of the elements considered so far, kept by one more element,
  holds after all of them;
* `Overwrites.read_foldl`, `read_foldl_eq_getLast?`: after a pass of steps that overwrite a place,
  it holds what was written last;
* `SameUnless.foldlM`, `SameUnless.runWithin`: two steps that come to the same, unless the first
  gives an answer of a certain kind, make up passes and runs that do.
-/

namespace AgentPlanning

variable {σ ρ α : Type}

/-- A run ends within the measure of its first state, if every step decreases the measure. -/
theorem exists_runWithin_of_measure {step : σ → Except ρ σ} {P : σ → Prop} {measure : σ → Nat}
    (keep : ∀ s next, P s → step s = .ok next → P next)
    (decrease : ∀ s next, P s → step s = .ok next → measure next < measure s) {n : Nat} {s : σ}
    (hs : P s) (hn : measure s < n) : ∃ answer, runWithin step n s = some answer := by
  induction n generalizing s with
  | zero => exact absurd hn (Nat.not_lt_zero _)
  | succ n ih =>
    rw [runWithin]
    split
    next answer _ => exact ⟨answer, rfl⟩
    next next heq =>
      have hless := decrease s next hs heq
      exact ih (keep s next hs heq) (by omega)

/-- Repeating the step, any number of times, leads from one result of a step to another. -/
inductive Leads (step : σ → Except ρ σ) : Except ρ σ → Except ρ σ → Prop where
  /-- The step is not repeated. -/
  | refl (r : Except ρ σ) : Leads step r r
  /-- The step is repeated once, and then any number of times. -/
  | head {s : σ} {r : Except ρ σ} (rest : Leads step (step s) r) : Leads step (.ok s) r

theorem Leads.trans {step : σ → Except ρ σ} {a b c : Except ρ σ} (hab : Leads step a b)
    (hbc : Leads step b c) : Leads step a c := by
  induction hab with
  | refl => exact hbc
  | head _ ih => exact .head (ih hbc)

/-- A run ends with the answer that repeating the step leads to. -/
theorem exists_runWithin_of_leads {step : σ → Except ρ σ} {s : σ} {answer : ρ}
    (h : Leads step (.ok s) (.error answer)) : ∃ n, runWithin step n s = some answer := by
  generalize hr : Except.ok s = r at h
  generalize ha : Except.error answer = a at h
  induction h generalizing s with
  | refl => cases hr.trans ha.symm
  | @head t _ rest ih =>
    obtain rfl := Except.ok.inj hr
    cases hstep : step s with
    | error e =>
      rw [hstep] at rest
      obtain rfl : e = answer := by
        subst ha
        cases rest
        rfl
      exact ⟨1, by rw [runWithin, hstep]⟩
    | ok next =>
      obtain ⟨n, hn⟩ := ih hstep.symm ha
      exact ⟨n + 1, by rw [runWithin, hstep]; exact hn⟩

/-- Two runs from one state that both end give the same answer. -/
theorem runWithin_unique {step : σ → Except ρ σ} {m n : Nat} {s : σ} {a b : ρ}
    (ha : runWithin step m s = some a) (hb : runWithin step n s = some b) : a = b := by
  have ha' := runWithin_mono (Nat.le_max_left m n) ha
  have hb' := runWithin_mono (Nat.le_max_right m n) hb
  exact Option.some.inj (ha'.symm.trans hb')

/-- The states in which the steps of a run begin. -/
def trail (step : σ → Except ρ σ) : Nat → σ → List σ
  | 0, _ => []
  | steps + 1, s =>
    s :: match step s with
      | .error _ => []
      | .ok next => trail step steps next

/-- A property that every step keeps holds wherever a step begins. -/
theorem forall_mem_trail {step : σ → Except ρ σ} {P : σ → Prop}
    (keep : ∀ s next, P s → step s = .ok next → P next) (n : Nat) {s : σ} (hs : P s) :
    ∀ t ∈ trail step n s, P t := by
  induction n generalizing s with
  | zero => exact fun _ ht => absurd ht List.not_mem_nil
  | succ n ih =>
    rw [trail]
    refine List.forall_mem_cons.2 ⟨hs, ?_⟩
    cases hstep : step s with
    | error => exact fun _ ht => absurd ht List.not_mem_nil
    | ok next => exact ih (keep s next hs hstep)

/-- What holds of a state and of those before it, and is kept by one more step, holds wherever a
step begins. -/
theorem motive_of_trail {step : σ → Except ρ σ} {motive : List σ → σ → Prop}
    (keep : ∀ past s next, motive past s → step s = .ok next → motive (past ++ [s]) next)
    (past : List σ) {s : σ} (hs : motive past s) (n : Nat) {k : Nat} {t : σ}
    (h : (trail step n s)[k]? = some t) : motive (past ++ (trail step n s).take k) t := by
  induction n generalizing past s k with
  | zero => cases h
  | succ n ih =>
    rw [trail] at h ⊢
    cases k with
    | zero =>
      obtain rfl := Option.some.inj h
      rwa [List.take_zero, List.append_nil]
    | succ k =>
      rw [List.getElem?_cons_succ] at h
      cases hstep : step s with
      | error answer => rw [hstep] at h; cases h
      | ok next =>
        rw [hstep] at h
        rw [List.take_succ_cons, ← List.singleton_append, ← List.append_assoc]
        exact ih (past ++ [s]) (keep past s next hs hstep) h

/-- What holds of the elements considered so far, and is kept by considering one more, holds
of all of them in the end. -/
theorem motive_of_foldlM {f : σ → α → Except ρ σ} {motive : List α → σ → Prop}
    (keep : ∀ done a s t, motive done s → f s a = .ok t → motive (done ++ [a]) t)
    (done : List α) {l : List α} {s t : σ} (hs : motive done s) (h : l.foldlM f s = .ok t) :
    motive (done ++ l) t := by
  induction l generalizing done s with
  | nil =>
    obtain rfl : s = t := Except.ok.inj h
    rwa [List.append_nil]
  | cons a rest ih =>
    rw [List.foldlM_cons] at h
    cases hfirst : f s a with
    | error e => rw [hfirst] at h; cases h
    | ok next =>
      rw [hfirst] at h
      rw [← List.singleton_append, ← List.append_assoc]
      exact ih (done ++ [a]) (keep done a s next hs hfirst) h

/-- A pass over a list that ends early has gone through some of its elements before. -/
theorem exists_prefix_of_foldlM_error {f : σ → α → Except ρ σ} {l : List α} {s : σ} {answer : ρ}
    (h : l.foldlM f s = .error answer) :
    ∃ (done : List α) (a : α) (t : σ), done.foldlM f s = .ok t ∧ f t a = .error answer := by
  induction l generalizing s with
  | nil => cases h
  | cons a rest ih =>
    rw [List.foldlM_cons] at h
    cases hfirst : f s a with
    | error e =>
      rw [hfirst] at h
      obtain rfl : e = answer := Except.error.inj h
      exact ⟨[], a, s, rfl, hfirst⟩
    | ok next =>
      rw [hfirst] at h
      obtain ⟨done, b, t, hdone, hend⟩ := ih h
      exact ⟨a :: done, b, t, by rw [List.foldlM_cons, hfirst]; exact hdone, hend⟩

/-- Every step overwrites a place: what is read there afterwards is what the step writes, or what
was there before if the step writes nothing. -/
def Overwrites {β : Type} (read : σ → β) (write? : α → Option β) (step : σ → α → σ) : Prop :=
  ∀ s a, read (step s a) = (write? a).getD (read s)

/-- After a pass the place holds what was written last. -/
theorem Overwrites.read_foldl {β : Type} {read : σ → β} {write? : α → Option β} {step : σ → α → σ}
    (h : Overwrites read write? step) (l : List α) (s : σ) :
    read (l.foldl step s) = (l.filterMap write?).getLastD (read s) := by
  induction l generalizing s with
  | nil => rfl
  | cons a rest ih =>
    rw [List.foldl_cons, ih, h]
    cases hwrite : write? a with
    | none => rw [List.filterMap_cons_none hwrite, Option.getD_none]
    | some value => rw [List.filterMap_cons_some hwrite, List.getLastD_cons, Option.getD_some]

/-- If every element has a place of its own to which its step writes, a place holds after a pass
what the last element for it has written, or what was there before if there is none. -/
theorem read_foldl_eq_getLast? {β κ : Type} [DecidableEq κ] (read : σ → β) {step : σ → α → σ}
    {key : α → κ} {value : α → β} {place : κ}
    (h : ∀ s a, read (step s a) = if key a = place then value a else read s) (l : List α) (s : σ) :
    read (l.foldl step s) = ((l.filter (key · = place)).getLast?.map value).getD (read s) := by
  have hwrites : Overwrites read (fun a => (Option.guard (key · = place) a).map value) step := by
    intro s a
    rw [h]
    split
    next ha => simp [Option.guard, ha]
    next ha => simp [Option.guard, ha]
  rw [hwrites.read_foldl, List.getLastD_eq_getLast?, ← List.map_filterMap,
    List.filterMap_eq_filter, List.getLast?_map]

/-- Two results are the same, unless the first is an answer of a certain kind. -/
inductive SameUnless (given : ρ → Prop) : Except ρ σ → Except ρ σ → Prop where
  | same (r : Except ρ σ) : SameUnless given r r
  | answered {answer : ρ} (h : given answer) (r : Except ρ σ) : SameUnless given (.error answer) r

theorem SameUnless.foldlM {given : ρ → Prop} {f g : σ → α → Except ρ σ}
    (h : ∀ s a, SameUnless given (f s a) (g s a)) (l : List α) (s : σ) :
    SameUnless given (l.foldlM f s) (l.foldlM g s) := by
  induction l generalizing s with
  | nil => exact .same _
  | cons a rest ih =>
    rw [List.foldlM_cons, List.foldlM_cons]
    generalize f s a = first, g s a = second, h s a = hfirst
    cases hfirst with
    | same =>
      cases first with
      | error answer => exact .same _
      | ok next => exact ih next
    | answered hanswer => exact .answered hanswer _

/-- A run that ends with an answer of another kind stays the same. -/
theorem SameUnless.runWithin {given : ρ → Prop} {f g : σ → Except ρ σ}
    (h : ∀ s, SameUnless given (f s) (g s)) {n : Nat} {s : σ} {answer : ρ}
    (hrun : AgentPlanning.runWithin f n s = some answer) (hnot : ¬given answer) :
    AgentPlanning.runWithin g n s = some answer := by
  induction n generalizing s with
  | zero => exact hrun
  | succ n ih =>
    rw [AgentPlanning.runWithin] at hrun ⊢
    generalize f s = first, g s = second, h s = hfirst at hrun
    cases hfirst with
    | same =>
      cases first with
      | error _ => exact hrun
      | ok next => exact ih hrun
    | answered hanswer => exact absurd (Option.some.inj hrun ▸ hanswer) hnot

end AgentPlanning
