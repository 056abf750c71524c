import EntityGraph.Pattern.Normal

/-!
# Needles

A pattern that stands for a few plain texts needs no automaton: its texts, the needles, are searched
for. `Pattern.needles` collects what matches begin with, as bytes of UTF-8, and `Needle.suffice` says
whether the needles that are worth searching for still tell a match by themselves.

A needle is exact if finding it is finding a match; otherwise a match goes on behind it. The needles of
a pattern are listed by preference. There are none to be had (`none`) if their number would pass the
limits below.

* `trim_exact` — a needle that is cut short is not exact;
* `join_of_ne` — needles that differ are kept apart.
-/

namespace EntityGraph.Pattern

/-- A text that matches begin with. -/
structure Needle where
  bytes : List UInt8
  exact : Bool
  deriving DecidableEq, Repr

/-- The needles of a pattern, if there are few enough. -/
abbrev Needles := Option (List Needle)

namespace Needle

/-- The most characters of a set that become needles. -/
def maxChars : Nat := 10

/-- The most rounds of a loop that needles are made of. -/
def maxRounds : Nat := 10

/-- The most bytes of a needle. -/
def maxLength : Nat := 100

/-- The most needles of a pattern. -/
def maxNeedles : Nat := 250

/-- Cuts a needle short. -/
def trim (most : Nat) (n : Needle) : Needle :=
  if n.bytes.length ≤ most then n else ⟨n.bytes.take most, false⟩

/-- A needle that is cut short is not exact. -/
theorem trim_exact {most : Nat} {n : Needle} (h : most < n.bytes.length) :
    (n.trim most).exact = false := by
  simp [trim, Nat.not_le.2 h]

/-- Puts a needle before others. If the next one has the same bytes there is one needle, and it is
exact if both were. -/
def join (n : Needle) : List Needle → List Needle
  | m :: ns => if n.bytes = m.bytes then ⟨n.bytes, n.exact && m.exact⟩ :: ns else n :: m :: ns
  | [] => [n]

/-- Needles that differ are kept apart. -/
theorem join_of_ne {n m : Needle} (h : n.bytes ≠ m.bytes) (ns : List Needle) :
    n.join (m :: ns) = n :: m :: ns := by
  simp [join, h]

/-- Needles with those that repeat the one before them joined to it. -/
def joinRepeats (ns : List Needle) : List Needle :=
  ns.foldr join []

/-- Leaves out the needles that begin with one listed before: where they are found, that one was. -/
def distinct (ns : List Needle) : List Needle :=
  (ns.foldl (fun kept n =>
    if kept.any (·.bytes.isPrefixOf n.bytes) then kept else n :: kept) []).reverse

end Needle

namespace Needles

open Needle

/-- The needle that is found everywhere. -/
def start : Needles := some [⟨[], true⟩]

/-- No needle is exact. -/
def loosen (ns : Needles) : Needles :=
  ns.map fun ns => ns.map fun n => { n with exact := false }

/-- Whether nothing can be added behind the needles. -/
def isOpen : Needles → Bool
  | none => true
  | some ns => ns.all (!·.exact)

/-- The needles of a pattern before those of a pattern that follows it. -/
def followedBy (ns ms : Needles) : Needles :=
  match ns, ms with
  | none, _ => none
  | some ns, none =>
    if ns.any (·.bytes.isEmpty) then none else loosen (some ns)
  | some ns, some ms =>
    let longer : List Needle := ns.flatMap fun n =>
      if n.exact then ms.map fun m => ⟨n.bytes ++ m.bytes, m.exact⟩ else [n]
    some (joinRepeats longer)

/-- The same within the limits. -/
def andThen (ns ms : Needles) : Needles :=
  let ms := match ns, ms with
    | some ns, some ms => if maxNeedles < ns.length * ms.length then none else some ms
    | _, ms => ms
  (ns.followedBy ms).map fun ns => ns.map (·.trim maxLength)

/-- The needles of either of two patterns. If they are too many, their first four bytes may be few
enough. -/
def orElse : Needles → Needles → Needles
  | some ns, some ms =>
    let both (ns ms : List Needle) : Needles :=
      if maxNeedles < ns.length + ms.length then none else some (joinRepeats (ns ++ ms))
    (both ns ms).or
      (both (joinRepeats (ns.map (·.trim 4))) (joinRepeats (ms.map (·.trim 4))))
  | _, _ => none

/-- The needles of a set of characters. -/
def ofSet (s : CharSet) : Needles :=
  if maxChars < (s.spans.map fun t => t.last + 1 - t.first).foldl (· + ·) 0 then none
  else some (s.spans.flatMap fun t =>
    (List.range (t.last + 1 - t.first)).map fun i =>
      ⟨String.utf8EncodeChar (Char.ofNat (t.first + i)), true⟩)

/-- The needles of a loop, given those of one round. -/
def rounds (ns : Needles) (least : Nat) (most : Option Nat) (greedy : Bool) : Needles :=
  if least = 0 then
    let ns := if most = some 1 then ns else ns.loosen
    if greedy then ns.orElse start else start.orElse ns
  else
    let all := (List.range (min least maxRounds)).foldl
      (fun (before : Needles) _ => if before.isOpen then before else before.andThen ns) start
    if most = some least ∧ least ≤ maxRounds then all else all.loosen

/-- How the needles of a pattern are added to those that are there: behind them or beside them. -/
inductive Place where
  | behind
  | beside

/-- Adds needles. Behind needles that are all open, and beside unlimited ones, nothing changes. -/
def Place.add : Place → Needles → Needles → Needles
  | behind, ns, ms => if ns.isOpen then ns else ns.andThen ms
  | beside, ns, ms => ns.orElse ms

end Needles

/-- Adds the needles of a pattern to those that are there. -/
def addNeedles : Pattern → Needles.Place → Needles → Needles
  | empty, place, ns => place.add ns .start
  | anchor _, place, ns => place.add ns .start
  | literal cs, place, ns =>
    place.add ns (some [Needle.trim Needle.maxLength ⟨cs.flatMap String.utf8EncodeChar, true⟩])
  | one s _, place, ns => place.add ns (.ofSet s)
  | group _ p, place, ns => place.add ns (p.addNeedles .behind .start)
  | times p least most greedy, place, ns =>
    place.add ns ((p.addNeedles .behind .start).rounds least most greedy)
  | seq p q, .behind, ns => q.addNeedles .behind (p.addNeedles .behind ns)
  | seq p q, .beside, ns =>
    Needles.Place.beside.add ns (q.addNeedles .behind (p.addNeedles .behind .start))
  | alt p q, .beside, ns => q.addNeedles .beside (p.addNeedles .beside ns)
  | alt p q, .behind, ns =>
    Needles.Place.behind.add ns (q.addNeedles .beside (p.addNeedles .beside (some [])))

/-- The needles of a pattern. -/
def needles (p : Pattern) : Needles :=
  (p.addNeedles .behind .start).map Needle.joinRepeats

namespace Needle

/-- The ASCII characters that are frequent in texts. -/
def frequent : List Char :=
  "\n\r (),-./0129:_abcdefghilmnoprstuvxy|".toList

/-- Whether a byte is rare. The first byte of a character beyond ASCII is not. -/
def isRare (b : UInt8) : Bool :=
  b < 0x80 && !frequent.contains (Char.ofNat b.toNat)

/-- What two lists of bytes begin with alike. -/
def sharedBytes (a b : List UInt8) : List UInt8 :=
  ((a.zip b).takeWhile fun ab => ab.1 == ab.2).map Prod.fst

/-- What all needles begin with. -/
def stem : List Needle → List UInt8
  | [] => []
  | n :: ns => ns.foldl (fun shared m => sharedBytes shared m.bytes) n.bytes

/-- Needles are cut down to what all of them begin with if that is long, or if there are too many of
them, or one that is not exact. -/
def cutToStem (ns : List Needle) : List Needle :=
  let length := (stem ns).length
  let fast := ns.all (·.exact) && ns.length ≤ 16
  if 4 < length ∨ (1 < length ∧ ¬fast) then joinRepeats (ns.map (·.trim length)) else ns

/-- How many bytes of the needles to keep as long as there are more than a number of them. -/
def cuts : List (Nat × Nat) :=
  [(5, 10), (4, 10), (3, 64), (2, 64), (1, 10)]

/-- Cuts needles shorter as long as there are too many. -/
def shorten : List (Nat × Nat) → List Needle → List Needle
  | [], ns => ns
  | (keep, limit) :: rest, ns =>
    if ns.length ≤ limit then ns else shorten rest (distinct (ns.map (·.trim keep)))

/-- Whether the needles that are searched for tell a match by themselves. Some of several needles with
a short stem that starts with a rare byte are searched for by that byte alone. Many exact needles are
cut shorter, but not if that leaves some of at most two bytes or more than 64. -/
def suffice (ns : List Needle) : Bool :=
  if ns.isEmpty || ns.any (·.bytes.isEmpty) then false
  else
    let kept := distinct ns
    match stem kept with
    | first :: others =>
      if 1 < ns.length ∧ others.length < 3 ∧ isRare first then
        (joinRepeats (kept.map (·.trim 1))).all (·.exact)
      else exactAfterCuts (cutToStem kept)
    | [] => exactAfterCuts kept
where
  exactAfterCuts (ns : List Needle) : Bool :=
    let short := shorten cuts ns
    ns.all (·.exact) &&
      (short.all (·.exact) || short.any (·.bytes.length ≤ 2) || 64 < short.length)

end Needle

/-- Whether a pattern has no groups that are numbered and asks for no places. -/
def isPlain : Pattern → Bool
  | anchor _ => false
  | group _ _ => false
  | seq p q => p.isPlain && q.isPlain
  | alt p q => p.isPlain && q.isPlain
  | times p _ _ _ => p.isPlain
  | _ => true

/-- The literals of an alternation that has no other branches. -/
def literals? : Pattern → Option (List (List Char))
  | literal cs => some [cs]
  | alt (literal cs) q => (cs :: ·) <$> q.literals?
  | _ => none

/-- The least number of literals to choose from that are searched for without an automaton. -/
def manyLiterals : Nat := 3000

/-- Whether a pattern is searched for by its needles. -/
def isSearch (p : Pattern) : Bool :=
  p.isPlain &&
    (p.needles.any Needle.suffice || p.literals?.any fun literals => manyLiterals ≤ literals.length)

end EntityGraph.Pattern
