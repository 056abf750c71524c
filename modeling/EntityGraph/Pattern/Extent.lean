import EntityGraph.Pattern.Normal

/-!
# Building automata

The automaton of a pattern is not kept; what counts is how large it grows. A `Build` step adds states
and links to an `Extent`, and there is no result once the extent passes `maxBytes`: ten mebibytes. A
state takes 32 bytes, to which those of its table of links come, and a link out of a choice takes 4.

Counted loops are written out, so that five states are built for a letter that stands five times.

* `add_states`, `add_bytes` — a state is charged exactly its size;
* `add_le` — what is built is never larger than the limit;
* `follow_zero` — a part that does not come again changes nothing.
-/

namespace EntityGraph.Pattern

/-- The direction in which an automaton reads. -/
inductive Direction where
  | forward
  | backward
  deriving DecidableEq, Repr

/-- The size of an automaton as far as it is built. -/
structure Extent where
  states : Nat
  bytes : Nat
  deriving DecidableEq, Repr

/-- The greatest size of an automaton in bytes. -/
def maxBytes : Nat := 10485760

namespace Extent

/-- Adds a state with some bytes of its own. -/
def add (extra : Nat) (e : Extent) : Option Extent :=
  if e.bytes + 32 + extra ≤ maxBytes then some ⟨e.states + 1, e.bytes + 32 + extra⟩ else none

/-- A state is charged once. -/
theorem add_states {extra : Nat} {e e' : Extent} (h : e.add extra = some e') :
    e'.states = e.states + 1 := by
  unfold add at h
  split at h
  · cases h; rfl
  · cases h

/-- A state is charged exactly its size. -/
theorem add_bytes {extra : Nat} {e e' : Extent} (h : e.add extra = some e') :
    e'.bytes = e.bytes + 32 + extra := by
  unfold add at h
  split at h
  · cases h; rfl
  · cases h

/-- What is built is never larger than the limit. -/
theorem add_le {extra : Nat} {e e' : Extent} (h : e.add extra = some e') :
    e'.bytes ≤ maxBytes := by
  rw [add_bytes h]
  unfold add at h
  split at h
  · next hle => exact hle
  · cases h

/-- Adds a link out of a choice. -/
def link (e : Extent) : Option Extent :=
  if e.bytes + 4 ≤ maxBytes then some ⟨e.states, e.bytes + 4⟩ else none

end Extent

/-- A step in building an automaton; there is no result if it grows too large. -/
abbrev Build := StateT Extent Option

/-- How a part of an automaton ends: in a choice, out of which links are charged, or in another
state, which holds the one link out of it. -/
inductive Ending where
  | choice
  | plain
  deriving DecidableEq, Repr

namespace Build

/-- Adds a state and answers its number. -/
def state (extra : Nat) : Build Nat := fun e =>
  (e.add extra).map (e.states, ·)

/-- Adds a link out of a choice. -/
def link : Build Unit := fun e =>
  e.link.map ((), ·)

/-- Adds a link out of the end of a part. -/
def linkFrom : Ending → Build Unit
  | .choice => link
  | .plain => pure ()

/-! ### Repetition -/

/-- A part a number of times behind one that ends as given. -/
def follow (part : Build Ending) : Nat → Ending → Build Ending
  | 0, ending => pure ending
  | n + 1, ending => do
    let next ← part
    linkFrom ending
    follow part n next

/-- A part that does not come again changes nothing. -/
@[simp] theorem follow_zero (part : Build Ending) (ending : Ending) :
    follow part 0 ending = pure ending := rfl

/-- A part exactly a number of times. -/
def exactly (part : Build Ending) : Nat → Build Ending
  | 0 => do
    let _ ← state 0
    return .plain
  | n + 1 => do follow part n (← part)

/-- A part at least a number of times. To leave out a part that can be empty takes a choice of its
own. -/
def atLeast (part : Build Ending) (canBeEmpty : Bool) : Nat → Build Ending
  | 0 => do
    if canBeEmpty then
      let ending ← part
      let _ ← state 0
      linkFrom ending
      link
      let _ ← state 0
      let _ ← state 0
      link
      link
      link
      return .plain
    else
      let _ ← state 0
      let ending ← part
      link
      linkFrom ending
      return .choice
  | 1 => do
    let ending ← part
    let _ ← state 0
    linkFrom ending
    link
    return .choice
  | n + 2 => do
    let before ← exactly part (n + 1)
    let last ← part
    let _ ← state 0
    linkFrom before
    linkFrom last
    link
    return .choice

/-- A part that can be left out, a number of times behind one that ends as given. -/
def optional (part : Build Ending) : Nat → Ending → Build Unit
  | 0, ending => linkFrom ending
  | n + 1, ending => do
    let _ ← state 0
    let next ← part
    linkFrom ending
    link
    link
    optional part n next

/-- A part between two numbers of times. -/
def between (part : Build Ending) (least most : Nat) : Build Ending := do
  if least = 0 ∧ most = 1 then
    let _ ← state 0
    let ending ← part
    let _ ← state 0
    link
    link
    linkFrom ending
    return .plain
  else
    let ending ← exactly part least
    if most ≤ least then return ending
    else
      let _ ← state 0
      optional part (most - least) ending
      return .plain

end Build

end EntityGraph.Pattern
