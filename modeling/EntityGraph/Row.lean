import EntityGraph.Value

/-!
# Result rows

A row pairs the labels of a result with its cells, in select order. The labels are shared by all
rows of a result, so a row may be shorter or longer than its labels.

* `get?_eq_none_iff` — a label is missing from a row iff it is not one of its labels.
-/

namespace EntityGraph

/-- One row of a result. -/
structure Row where
  labels : List String
  cells : List Value
  deriving DecidableEq, Repr, Inhabited

namespace Row

/-- A row with as many cells as labels. -/
def ofPairs (pairs : List (String × Value)) : Row :=
  ⟨pairs.map (·.1), pairs.map (·.2)⟩

/-- The cells that have a label, with it. -/
def toPairs (r : Row) : List (String × Value) :=
  r.labels.zip r.cells

/-- The cell under the first occurrence of a label; a cell that is missing at the end reads as
null. -/
def get? (r : Row) (label : String) : Option Value :=
  (r.labels.idxOf? label).map fun i => r.cells.getD i .null

/-- The cell at a position. -/
def at? (r : Row) (i : Nat) : Option Value :=
  r.cells[i]?

/-- Only a label that the row does not have is missing. -/
theorem get?_eq_none_iff {r : Row} {label : String} : r.get? label = none ↔ label ∉ r.labels := by
  simp [get?, List.idxOf?_eq_none_iff]

end Row

end EntityGraph
