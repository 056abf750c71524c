import EntityGraph.Text.Blank
import EntityGraph.Text.Hex

/-!
# Spans of code points

Sets of characters are made of spans. Their tables are written as texts: words such as `41-5A`,
`AA` and `100-12E/2`, the last of which holds every other code point, as the alternating upper-case
and lower-case letters of many alphabets ask for.
-/

namespace EntityGraph.Text

/-- The code points from `first` to `last`. -/
structure Span where
  first : Nat
  last : Nat
  deriving DecidableEq, Repr, Inhabited

namespace Span

/-- Membership of a code point. -/
def contains (s : Span) (n : Nat) : Bool :=
  s.first ≤ n && n ≤ s.last

/-- A span holds what lies between its ends. -/
@[simp] theorem contains_iff {s : Span} {n : Nat} :
    s.contains n = true ↔ s.first ≤ n ∧ n ≤ s.last := by
  simp [contains]

/-- The span of one code point. -/
def single (n : Nat) : Span :=
  ⟨n, n⟩

/-- The code points of a span, each `step`-th from the first. -/
def every (s : Span) (step : Nat) : List Span :=
  if step ≤ 1 then [s]
  else (List.range ((s.last - s.first) / step + 1)).map fun i => single (s.first + i * step)

/-- A hexadecimal number; what is not one counts as zero. -/
def number (cs : List Char) : Nat :=
  (hexNumber? cs).getD 0

/-- Reads a word of a table: the span, and its step. -/
def ofWord (word : List Char) : Span × Nat :=
  let first := number (word.takeWhile (· != '-'))
  match word.dropWhile (· != '-') with
  | [] => (single first, 1)
  | _ :: rest =>
    let last := number (rest.takeWhile (· != '/'))
    match rest.dropWhile (· != '/') with
    | [] => (⟨first, last⟩, 1)
    | _ :: step => (⟨first, last⟩, number step)

/-- Reads the rows of a table. -/
def ofRows (rows : List String) : List Span :=
  rows.flatMap fun row => (words row.toList).flatMap fun word =>
    let (s, step) := ofWord word
    s.every step

end Span

end EntityGraph.Text
