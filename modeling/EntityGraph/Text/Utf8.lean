import EntityGraph.Text.Span

/-!
# Spans of characters in UTF-8

A character is written in UTF-8 as one to four bytes. `Utf8.sequences` cuts a span of characters into
pieces whose encodings are sequences of byte ranges: every choice of a byte from each range is the
encoding of a member, and there are no others.

* `cut?_lt` — the last character before a cut lies in the span, and not at its end.
-/

namespace EntityGraph.Text.Utf8

/-- The bytes from `lo` to `hi`. -/
structure ByteRange where
  lo : UInt8
  hi : UInt8
  deriving DecidableEq, Repr, Inhabited

/-- The ranges of the bytes of a piece, in the order of the bytes. -/
abbrev Sequence := List ByteRange

/-- The bytes of a character. -/
def encode (n : Nat) : List UInt8 :=
  String.utf8EncodeChar (Char.ofNat n)

/-- Where the number of bytes of a character changes: the last characters of one, two and three. -/
def widest : List Nat := [0x7F, 0x7FF, 0xFFFF]

/-- Where to cut a span within blocks of `size` characters: it should cover whole blocks or lie in
one. -/
def blockCut? (s : Span) (size : Nat) : Option Nat :=
  if s.first / size = s.last / size then none
  else if s.first % size ≠ 0 then some (s.first / size * size + (size - 1))
  else if s.last % size ≠ size - 1 then some (s.last / size * size - 1)
  else none

/-- The last character before the place where a span has to be cut first. -/
def cut? (s : Span) : Option Nat :=
  let inside (n : Nat) : Bool := s.first ≤ n && n < s.last
  (widest.find? inside).or
    (if s.last ≤ 0x7F then none
    else ([0x40, 0x1000, 0x40000].findSome? (blockCut? s)).filter inside)

/-- The last character before a cut lies in the span, and not at its end. -/
theorem cut?_lt {s : Span} {n : Nat} (h : cut? s = some n) : s.first ≤ n ∧ n < s.last := by
  unfold cut? at h
  rcases Option.or_eq_some_iff.1 h with h | ⟨-, h⟩
  · simpa using List.find?_some h
  · split at h
    · cases h
    · simpa using (Option.filter_eq_some_iff.1 h).2

/-- The sequences of a span of characters without surrogates, in ascending order. -/
def sequencesOf (s : Span) : List Sequence :=
  match _h : cut? s with
  | some n => sequencesOf ⟨s.first, n⟩ ++ sequencesOf ⟨n + 1, s.last⟩
  | none => [(encode s.first).zipWith ByteRange.mk (encode s.last)]
termination_by s.last - s.first
decreasing_by
  · have := cut?_lt _h
    omega
  · have := cut?_lt _h
    omega

/-- The parts of a span before and after the surrogates. -/
def withoutSurrogates (s : Span) : List Span :=
  [⟨s.first, min s.last 0xD7FF⟩, ⟨max s.first 0xE000, s.last⟩].filter fun t => t.first ≤ t.last

/-- The sequences of some spans of characters. -/
def sequences (spans : List Span) : List Sequence :=
  spans.flatMap fun s => (withoutSurrogates s).flatMap sequencesOf

end EntityGraph.Text.Utf8
