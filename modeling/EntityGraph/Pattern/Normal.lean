import EntityGraph.Pattern.Basic

/-!
# Patterns in normal form

Patterns are put together by functions that keep them small: characters next to each other make one
literal, alternatives that are single characters or sets make one set, what all alternatives start
with is written once, and a repetition that reads nothing is not repeated. In the normal form the
first part of a sequence is no sequence, and the first of two alternatives has no alternatives.

* `parts_ofParts`, `branches_ofBranches` — a sequence has the parts that it was made from, and an
  alternation its branches;
* `run_ofParts` — a sequence reads its parts one after the other.
-/

namespace EntityGraph.Pattern

/-- The pattern that matches nothing. -/
def never : Pattern :=
  .one .empty true

/-- What a set of characters matches; the set of one character is that character. -/
def ofSet (s : CharSet) (asciiOnly : Bool) : Pattern :=
  if s.isEmpty then never
  else match s.only? with
  | some c => .literal [c]
  | none => .one s asciiOnly

/-- Whether a pattern can be matched, and then only without reading a character. -/
def isZeroWidth : Pattern → Bool
  | empty => true
  | literal _ => false
  | one _ _ => false
  | anchor _ => true
  | seq p q => p.isZeroWidth && q.isZeroWidth
  | alt p q => p.isZeroWidth && q.isZeroWidth
  | times p _ most _ => most.isSome && p.isZeroWidth
  | group _ p => p.isZeroWidth

/-- The least number of characters that a match reads; `none` if some part of the pattern matches
nothing. -/
def least? : Pattern → Option Nat
  | empty => some 0
  | literal cs => some cs.length
  | one s _ => if s.isEmpty then none else some 1
  | anchor _ => some 0
  | seq p q => do return (← p.least?) + (← q.least?)
  | alt p q => do return min (← p.least?) (← q.least?)
  | times p least _ _ => do return (← p.least?) * least
  | group _ p => p.least?

/-- A pattern repeated: at least `least` times, and at most `most` times if that is given. What reads
nothing is matched at most once. -/
def repeated (p : Pattern) (least : Nat) (most : Option Nat) (greedy : Bool) : Pattern :=
  let (least, most) :=
    if p.isZeroWidth then (min least 1, some (min (most.getD 1) 1)) else (least, most)
  if least = 0 ∧ most = some 0 then .empty
  else if least = 1 ∧ most = some 1 then p
  else .times p least most greedy

/-! ### Sequences -/

/-- The parts of a sequence. -/
def parts : Pattern → List Pattern
  | empty => []
  | seq p q => p :: q.parts
  | p => [p]

/-- Puts a part in front of others; literals that meet become one. -/
def prepend : Pattern → List Pattern → List Pattern
  | literal a, literal b :: ps => literal (a ++ b) :: ps
  | p, ps => p :: ps

/-- The sequence of some parts. -/
def ofParts : List Pattern → Pattern
  | [] => empty
  | [p] => p
  | p :: q :: ps => seq p (ofParts (q :: ps))

/-- Patterns one after the other. -/
def sequence (ps : List Pattern) : Pattern :=
  ofParts ((ps.flatMap parts).foldr prepend [])

/-! ### Alternatives -/

/-- The branches of an alternation. -/
def branches : Pattern → List Pattern
  | alt p q => p :: q.branches
  | p => [p]

/-- The alternation of some branches. -/
def ofBranches : List Pattern → Pattern
  | [] => never
  | [p] => p
  | p :: q :: ps => alt p (ofBranches (q :: ps))

/-- The character that is a whole pattern. -/
def onlyChar? : Pattern → Option Char
  | literal [c] => some c
  | _ => none

/-- The set that is a whole pattern. -/
def onlySet? : Pattern → Option CharSet
  | one s _ => some s
  | _ => none

/-- Branches that are all characters, or all sets, as one set. -/
def merged? (ps : List Pattern) : Option Pattern :=
  match ps.mapM onlyChar? with
  | some cs => some (ofSet (.ofSpans (cs.map fun c => .single c.toNat)) false)
  | none => (ps.mapM onlySet?).map fun sets =>
    ofSet (.ofSpans (sets.flatMap CharSet.spans)) false

/-- Patterns to choose from that do not all begin alike. -/
def choice (ps : List Pattern) : Pattern :=
  match ps.flatMap branches with
  | [p] => p
  | ps => (merged? ps).getD (ofBranches ps)

/-- What two lists begin with alike. -/
def common (ps qs : List Pattern) : List Pattern :=
  ((ps.zip qs).takeWhile fun pq => pq.1 == pq.2).map Prod.fst

/-- The parts of a sequence; nothing if the pattern is none. -/
def sequenceParts : Pattern → List Pattern
  | seq p q => p :: q.parts
  | _ => []

/-- The parts that all of some sequences begin with. -/
def commonParts : List Pattern → List Pattern
  | [] => []
  | p :: ps => ps.foldl (fun shared q => common shared q.sequenceParts) p.sequenceParts

/-- Patterns to choose from. -/
def alternatives (ps : List Pattern) : Pattern :=
  match ps.flatMap branches with
  | [p] => p
  | ps =>
    match merged? ps, commonParts ps with
    | some p, _ => p
    | none, [] => ofBranches ps
    | none, shared =>
      sequence (shared ++ [choice (ps.map fun p => sequence (p.parts.drop shared.length))])

/-! ### What the forms keep -/

/-- A sequence has the parts it was made from, if none of them is a sequence or empty. -/
theorem parts_ofParts {ps : List Pattern} (h : ∀ p ∈ ps, p.parts = [p]) :
    (ofParts ps).parts = ps := by
  induction ps with
  | nil => rfl
  | cons p ps ih =>
    cases ps with
    | nil => exact h p (by simp)
    | cons q ps => simp [ofParts, parts, ih fun r hr => h r (by simp [hr])]

/-- An alternation has the branches it was made from, if none of them has alternatives. -/
theorem branches_ofBranches {ps : List Pattern} (hne : ps ≠ [])
    (h : ∀ p ∈ ps, p.branches = [p]) : (ofBranches ps).branches = ps := by
  induction ps with
  | nil => exact absurd rfl hne
  | cons p ps ih =>
    cases ps with
    | nil => exact h p (by simp)
    | cons q ps => simp [ofBranches, branches, ih (by simp) fun r hr => h r (by simp [hr])]

/-- A sequence reads its parts one after the other. -/
theorem run_ofParts (t : Subject) (ps : List Pattern) (s : List Nat) :
    (ofParts ps).run t s = ps.foldl (fun s p => p.run t s) s := by
  induction ps generalizing s with
  | nil => rfl
  | cons p ps ih =>
    cases ps with
    | nil => rfl
    | cons q ps => simp [ofParts, run, ih]

end EntityGraph.Pattern
