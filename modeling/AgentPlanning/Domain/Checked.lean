import AgentPlanning.Diagnostic

/-!
# Values with Diagnostics

Resolving a description goes on after a problem, in order to report all problems together. What
is built is therefore a value together with the problems found on the way, and the problems of a
compound are those of its parts in order.
-/

namespace AgentPlanning

/-- A value and the problems found while it was built. -/
structure Checked (α : Type) where
  /-- The value, which is meaningful if there are no problems. -/
  value : α
  /-- The problems, in the order in which they were found. -/
  problems : List Diagnostic

namespace Checked

variable {α β : Type}

instance : Monad Checked where
  pure x := ⟨x, []⟩
  bind x f := ⟨(f x.value).value, x.problems ++ (f x.value).problems⟩

/-- Reports problems. -/
def report (problems : List Diagnostic) : Checked Unit := ⟨(), problems⟩

/-- The value that was looked up; if there is none, this is reported. -/
def found (x : Option α) (problem : Diagnostic) : Checked (Option α) :=
  ⟨x, if x.isNone then [problem] else []⟩

/-- Builds a value for each element of a list. -/
def each (xs : List α) (f : α → Checked β) : Checked (List β) :=
  ⟨xs.map fun x => (f x).value, xs.flatMap fun x => (f x).problems⟩

/-- Builds values for elements of a list, some of which may have none. -/
def filterEach (xs : List α) (f : α → Checked (Option β)) : Checked (List β) :=
  ⟨xs.filterMap fun x => (f x).value, xs.flatMap fun x => (f x).problems⟩

/-- The value if there are no problems, and otherwise the problems. -/
def toExcept (x : Checked α) : Except Diagnostics α :=
  Diagnostics.guard ⟨x.problems⟩ x.value

@[simp] theorem value_pure (x : α) : (pure x : Checked α).value = x := rfl

@[simp] theorem problems_pure (x : α) : (pure x : Checked α).problems = [] := rfl

@[simp] theorem value_bind (x : Checked α) (f : α → Checked β) :
    (x >>= f).value = (f x.value).value := rfl

@[simp] theorem problems_bind (x : Checked α) (f : α → Checked β) :
    (x >>= f).problems = x.problems ++ (f x.value).problems := rfl

@[simp] theorem value_map (f : α → β) (x : Checked α) : (f <$> x).value = f x.value := rfl

@[simp] theorem problems_map (f : α → β) (x : Checked α) :
    (f <$> x).problems = x.problems := List.append_nil _

/-- Nothing is reported if neither step reports anything. -/
theorem problems_bind_eq_nil {x : Checked α} {f : α → Checked β} :
    (x >>= f).problems = [] ↔ x.problems = [] ∧ (f x.value).problems = [] :=
  List.append_eq_nil_iff

@[simp] theorem problems_bind_pure (x : Checked α) (f : α → β) :
    (x >>= fun a => pure (f a)).problems = x.problems := List.append_nil _

@[simp] theorem problems_report (problems : List Diagnostic) :
    (report problems).problems = problems := rfl

@[simp] theorem value_found (x : Option α) (problem : Diagnostic) :
    (found x problem).value = x := rfl

theorem problems_found {x : Option α} {problem : Diagnostic} :
    (found x problem).problems = [] ↔ x.isSome = true := by
  cases x <;> simp [found]

@[simp] theorem value_each (xs : List α) (f : α → Checked β) :
    (each xs f).value = xs.map fun x => (f x).value := rfl

/-- A list is built without problems if its elements are. -/
theorem problems_each {xs : List α} {f : α → Checked β} :
    (each xs f).problems = [] ↔ ∀ x ∈ xs, (f x).problems = [] :=
  List.flatMap_eq_nil_iff

theorem problems_filterEach {xs : List α} {f : α → Checked (Option β)} :
    (filterEach xs f).problems = [] ↔ ∀ x ∈ xs, (f x).problems = [] :=
  List.flatMap_eq_nil_iff

/-- Whether an element is without problems does not depend on its position. -/
theorem problems_filterEach_zipIdx {f : α → Nat → Checked (Option β)} {p : α → Prop}
    (h : ∀ x i, (f x i).problems = [] ↔ p x) (xs : List α) :
    (filterEach xs.zipIdx fun (x, i) => f x i).problems = [] ↔ ∀ x ∈ xs, p x := by
  rw [problems_filterEach]
  simp only [h]
  rw [← List.forall_mem_map, List.zipIdx_map_fst]

/-- Checked values with the same value and the same problems are equal. -/
theorem eq_of_value_of_problems {x y : Checked α} (hvalue : x.value = y.value)
    (hproblems : x.problems = y.problems) : x = y := by
  cases x; cases y; simp_all

instance : LawfulMonad Checked := LawfulMonad.mk' Checked
  (fun x => eq_of_value_of_problems rfl (problems_map id x))
  (fun _ _ => rfl)
  (fun x f g => eq_of_value_of_problems rfl (List.append_assoc ..))

/-- A value is handed out exactly if no problem was found. -/
theorem toExcept_eq_ok_iff {x : Checked α} {value : α} :
    x.toExcept = .ok value ↔ x.problems = [] ∧ x.value = value := by
  cases h : x.problems <;> simp [toExcept, Diagnostics.guard, Diagnostics.isEmpty, h]

end Checked

end AgentPlanning
