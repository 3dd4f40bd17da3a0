/-!
# Ranges of Flat Tables

Lists of different lengths share one flat table, in which each of them is a range of consecutive
rows. A table grows at its end only, so a range keeps its rows.
-/

namespace AgentPlanning

variable {α : Type}

/-- A run of consecutive rows of a table. -/
structure Span where
  /-- The first row. -/
  start : Nat
  /-- The number of rows. -/
  length : Nat
deriving DecidableEq, Repr

namespace Span

/-- The row after the last one. -/
def stop (span : Span) : Nat := span.start + span.length

/-- The rows of the run, in order. -/
def read (span : Span) (table : Array α) : List α :=
  (table.extract span.start span.stop).toList

/-- A run has no rows beyond those of the table. -/
theorem length_read_le (span : Span) (table : Array α) :
    (span.read table).length ≤ table.size := by
  rw [read, Array.length_toList, Array.size_extract]
  omega

/-- A run that ends inside a table is not affected by what comes after the table. -/
theorem read_append {span : Span} {table : Array α} (h : span.stop ≤ table.size)
    (more : Array α) : span.read (table ++ more) = span.read table := by
  rw [read, read, Array.extract_append, Nat.sub_eq_zero_of_le h]
  simp

/-- What comes after a table is the run that begins at its end. -/
theorem read_append_list (table : Array α) (rows : List α) :
    (⟨table.size, rows.length⟩ : Span).read (table ++ rows.toArray) = rows := by
  simp [read, stop, Array.extract_append]

end Span

end AgentPlanning
