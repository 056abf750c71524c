import EntityGraph.Pattern.Encoding
import EntityGraph.Pattern.Needle

/-!
# The size of a pattern

A pattern is allowed if it is searched for by needles, or if the automata that read UTF-8 for it, one
forward and one backward, keep within the limit that `Build` sets. `Pattern.build` builds the states for
a pattern, `Pattern.automaton` puts the states around them, and `Pattern.fits` tries both directions.

* `fits_of_isSearch` — a pattern that needs no automaton is allowed;
* `fits_empty` — the empty pattern is allowed.
-/

namespace EntityGraph.Pattern

namespace Build

/-- Makes a part a branch of an alternation. Branches count from one; what is no branch has the number
zero. The choice between the branches and the state behind them follow the second branch. -/
def branch (place : Nat) (part : Build Ending) : Build Ending := do
  let ending ← part
  if place = 0 then return ending
  else
    if place = 2 then
      let _ ← state 0
      let _ ← state 0
    link
    linkFrom ending
    return .plain

/-- A group, which an automaton that reads forward notes at its start and end. -/
def grouped (d : Direction) (part : Build Ending) : Build Ending :=
  match d with
  | .forward => do
    let _ ← state 0
    let ending ← part
    let _ ← state 0
    linkFrom ending
    return .plain
  | .backward => part

end Build

/-- Builds the part of an automaton for a pattern, given its place among the branches of an
alternation. -/
def build (d : Direction) : Pattern → Nat → Build Ending
  | empty, place => .branch place do
    let _ ← Build.state 0
    return .plain
  | literal cs, place => .branch place (Build.literal cs)
  | one s _, place => .branch place (Build.oneOf d s)
  | anchor _, place => .branch place do
    let _ ← Build.state 0
    return .plain
  | seq p q, place => .branch place do
    match d with
    | .forward =>
      let ending ← p.build d 0
      let last ← q.build d 0
      Build.linkFrom ending
      return last
    | .backward =>
      let ending ← q.build d 0
      let last ← p.build d 0
      Build.linkFrom ending
      return last
  | times p least none _, place =>
    .branch place (Build.atLeast (p.build d 0) (p.least?.getD 0 == 0) least)
  | times p least (some most) _, place =>
    .branch place (Build.between (p.build d 0) least most)
  | group _ p, place => .branch place (Build.grouped d (p.build d 0))
  | alt p q, place =>
    match if place = 0 then (alt p q).literals? else none with
    | some words => Build.anyOf d words
    | none => do
      let place := max place 1
      let _ ← p.build d place
      q.build d (place + 1)

/-- Whether a match can only start at the start of the text, or end at its end if it is read
backward. -/
def isAnchored (d : Direction) : Pattern → Bool
  | anchor a =>
    match d with
    | .forward => a == .textStart
    | .backward => a == .textEnd
  | seq p q =>
    match d with
    | .forward => p.isAnchored d || (p.isZeroWidth && q.isAnchored d)
    | .backward => q.isAnchored d || (q.isZeroWidth && p.isAnchored d)
  | alt p q => p.isAnchored d && q.isAnchored d
  | times p least _ _ => least != 0 && p.isAnchored d
  | group _ p => p.isAnchored d
  | _ => false

/-- Builds the automaton for a pattern. Unless the pattern is anchored, it starts with a loop over all
bytes. -/
def automaton (d : Direction) (p : Pattern) : Build Unit := do
  let _ ← Build.state 0
  let start : Ending := if p.isAnchored d then .plain else .choice
  if start = .choice then
    let _ ← Build.state 0
    let _ ← Build.state 8
    Build.link
  let ending ← (group 0 p).build d 0
  let _ ← Build.state 0
  Build.linkFrom ending
  Build.linkFrom start

/-- Whether the automata of a pattern are small enough, or it needs none. -/
def fits (p : Pattern) : Bool :=
  ((p.automaton .forward).run ⟨0, 0⟩).isSome && ((p.automaton .backward).run ⟨0, 0⟩).isSome ||
    p.isSearch

/-- A pattern that needs no automaton is allowed. -/
theorem fits_of_isSearch {p : Pattern} (h : p.isSearch = true) : p.fits = true := by
  simp [fits, h]

/-- The empty pattern is allowed. -/
theorem fits_empty : fits empty = true := by
  rfl

end EntityGraph.Pattern
