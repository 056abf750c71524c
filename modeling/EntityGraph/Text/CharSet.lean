import EntityGraph.Text.Span

/-!
# Sets of characters

A set of characters is a list of spans in ascending order that neither overlap nor touch. The
operations keep this form. Surrogates are code points but no characters, so it does not matter to a
set whether a span runs over them.

* `contains_merge` — joining spans that overlap or touch keeps the members.
-/

namespace EntityGraph

open Text

/-- A set of characters. -/
structure CharSet where
  spans : List Span
  deriving DecidableEq, Repr, Inhabited

namespace CharSet

/-- The greatest code point. -/
def greatest : Nat := 0x10FFFF

/-- The last character before the surrogates. -/
def beforeSurrogates : Nat := 0xD7FF

/-- The first character after the surrogates. -/
def afterSurrogates : Nat := 0xE000

/-- Membership of a code point. -/
def contains (s : CharSet) (n : Nat) : Bool :=
  s.spans.any (·.contains n)

/-- The set without members. -/
def empty : CharSet := ⟨[]⟩

/-- The set of all characters. -/
def all : CharSet := ⟨[⟨0, greatest⟩]⟩

/-- Whether a set has no members. -/
def isEmpty (s : CharSet) : Bool :=
  s.spans.isEmpty

/-- Joins spans that overlap or touch, given in the order of their first code points. -/
def merge : List Span → List Span
  | [] => []
  | [s] => [s]
  | s :: t :: rest =>
    if t.first ≤ s.last + 1 then merge (⟨s.first, max s.last t.last⟩ :: rest)
    else s :: merge (t :: rest)
termination_by spans => spans.length

/-- The set of the members of some spans. -/
def ofSpans (spans : List Span) : CharSet :=
  ⟨merge (spans.mergeSort fun a b => a.first ≤ b.first)⟩

/-- The set that a table holds. -/
def ofRows (rows : List String) : CharSet :=
  ofSpans (Span.ofRows rows)

/-- The set of one character. -/
def single (c : Char) : CharSet :=
  ⟨[Span.single c.toNat]⟩

/-- The set of the characters from one to another. -/
def range (a b : Char) : CharSet :=
  ⟨[⟨a.toNat, b.toNat⟩]⟩

/-- The members of either set. -/
def union (a b : CharSet) : CharSet :=
  ofSpans (a.spans ++ b.spans)

/-- The parts of spans that lie in spans of another list, both in ascending order. -/
def overlaps : List Span → List Span → List Span
  | [], _ => []
  | _, [] => []
  | a :: as, b :: bs =>
    let first := max a.first b.first
    let last := min a.last b.last
    (if first ≤ last then [⟨first, last⟩] else []) ++
      if a.last < b.last then overlaps as (b :: bs) else overlaps (a :: as) bs
termination_by as bs => as.length + bs.length

/-- The members of both sets. -/
def inter (a b : CharSet) : CharSet :=
  ⟨overlaps a.spans b.spans⟩

/-- The code points from `n` on that are in none of some spans in ascending order. -/
def outside (n : Nat) : List Span → List Span
  | [] => if n ≤ greatest then [⟨n, greatest⟩] else []
  | s :: rest =>
    (if n < s.first then [⟨n, s.first - 1⟩] else []) ++ outside (s.last + 1) rest

/-- A span without surrogates at its ends; nothing if there is no more to it. -/
def trim? (s : Span) : Option Span :=
  let isSurrogate n := beforeSurrogates < n && n < afterSurrogates
  let first := if isSurrogate s.first then afterSurrogates else s.first
  let last := if isSurrogate s.last then beforeSurrogates else s.last
  if first ≤ last then some ⟨first, last⟩ else none

/-- The members of `a` that are not in `b`. -/
def diff (a b : CharSet) : CharSet :=
  ⟨(overlaps a.spans (outside 0 b.spans)).filterMap trim?⟩

/-- The members of just one of two sets. -/
def symmDiff (a b : CharSet) : CharSet :=
  (a.union b).diff (a.inter b)

/-- The gaps of a set. Between a span that ends before the surrogates and one that starts after them
there is no character; their gap is the pair of characters on its two sides. -/
def compl (s : CharSet) : CharSet :=
  ⟨(outside 0 s.spans).map fun gap => (trim? gap).getD ⟨beforeSurrogates, afterSurrogates⟩⟩

/-- The only member of a set that has just one. -/
def only? (s : CharSet) : Option Char :=
  match s.spans with
  | [span] => if span.first = span.last then some (Char.ofNat span.first) else none
  | _ => none

/-- The characters up to U+007F. -/
def ascii : CharSet := ⟨[⟨0, 0x7F⟩]⟩

/-- Whether all members are ASCII characters. -/
def isAscii (s : CharSet) : Bool :=
  s.spans.all (·.last ≤ 0x7F)

/-- A member of the spans lies in one of them. -/
theorem contains_mk {spans : List Span} {n : Nat} :
    (CharSet.mk spans).contains n = true ↔ ∃ s ∈ spans, s.first ≤ n ∧ n ≤ s.last := by
  simp [contains]

/-- Joining spans keeps the members. -/
theorem contains_merge {spans : List Span} {n : Nat}
    (h : spans.Pairwise fun a b => a.first ≤ b.first) :
    (CharSet.mk (merge spans)).contains n = (CharSet.mk spans).contains n := by
  fun_induction merge spans with
  | case1 => rfl
  | case2 => rfl
  | case3 s t rest hle ih =>
    obtain ⟨hs, ht⟩ := List.pairwise_cons.1 h
    have hst := hs t (by simp)
    have hrest : ((⟨s.first, max s.last t.last⟩ : Span) :: rest).Pairwise
        fun a b => a.first ≤ b.first :=
      List.pairwise_cons.2 ⟨fun u hu => hs u (by simp [hu]), (List.pairwise_cons.1 ht).2⟩
    rw [ih hrest]
    simp only [contains, List.any_cons, Span.contains]
    grind
  | case4 s t rest hlt ih =>
    have ih := ih (List.pairwise_cons.1 h).2
    simp only [contains, List.any_cons] at ih ⊢
    rw [ih]

end CharSet

end EntityGraph
