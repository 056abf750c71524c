import EntityGraph.Text.NamedSet

/-!
# Patterns and their matches

A `Pattern` describes a set of texts. Matching is by position sets: `run t p s` holds the positions
of the text `t` that can be reached from a position of `s` by reading a match of `p`. A pattern is
found in a text when some position can be reached from some position (`Pattern.foundIn`).

* `run_nil` — nothing is reached from nowhere;
* `readWord_nil` — the word without characters is read everywhere.
-/

namespace EntityGraph

/-- Where a position stands with regard to the words of a text. -/
inductive WordEdge where
  | boundary
  | noBoundary
  | start
  | finish
  | startHalf
  | finishHalf
  deriving DecidableEq, Repr

/-- A place in a text that a pattern can ask for without reading a character. -/
inductive Anchor where
  | textStart
  | textEnd
  /-- With `anyBreak`, a carriage return ends a line too, and a line feed behind it ends no other. -/
  | lineStart (anyBreak : Bool)
  | lineEnd (anyBreak : Bool)
  /-- With `asciiWords`, only ASCII characters make words. -/
  | word (edge : WordEdge) (asciiWords : Bool)
  deriving DecidableEq, Repr

/-- The syntax of patterns. -/
inductive Pattern where
  | empty
  /-- Some characters, one after the other. -/
  | literal (cs : List Char)
  /-- A character of a set; with `asciiOnly`, one written where there is no Unicode. -/
  | one (set : CharSet) (asciiOnly : Bool)
  | anchor (a : Anchor)
  | seq (p q : Pattern)
  | alt (p q : Pattern)
  /-- At least `least` times, and at most `most` times if that is given. Of several matches a greedy
  loop prefers the longer ones; whether there is a match does not depend on that. -/
  | times (p : Pattern) (least : Nat) (most : Option Nat) (greedy : Bool)
  /-- A group, numbered by its opening parenthesis. -/
  | group (index : Nat) (p : Pattern)
  deriving DecidableEq, Repr

namespace Pattern

/-- A text as the characters that a match reads. -/
abbrev Subject := Array Char

/-- The ASCII characters of words. -/
def asciiWord (c : Char) : Bool :=
  c.isAlphanum || c == '_'

/-- Whether a character belongs to a word. -/
def isWordChar (asciiWords : Bool) (c : Char) : Bool :=
  if asciiWords || c.toNat < 0x80 then asciiWord c
  else Text.NamedSet.wordChars.contains c.toNat

/-- The character right before a position. -/
def before? (t : Subject) : Nat → Option Char
  | 0 => none
  | i + 1 => t[i]?

end Pattern

/-- Whether a position has its place, given whether word characters stand before and after it. -/
def WordEdge.holds (before after : Bool) : WordEdge → Bool
  | boundary => before != after
  | noBoundary => before == after
  | start => !before && after
  | finish => before && !after
  | startHalf => !before
  | finishHalf => !after

/-- Whether an anchor holds at a position. -/
def Anchor.holdsAt (t : Pattern.Subject) (i : Nat) : Anchor → Bool
  | textStart => i == 0
  | textEnd => i == t.size
  | lineStart anyBreak =>
    i == 0 || Pattern.before? t i == some '\n' ||
      (anyBreak && Pattern.before? t i == some '\r' && t[i]? != some '\n')
  | lineEnd anyBreak =>
    i == t.size ||
      (if anyBreak then
        t[i]? == some '\r' || (t[i]? == some '\n' && Pattern.before? t i != some '\r')
      else t[i]? == some '\n')
  | word edge asciiWords =>
    edge.holds ((Pattern.before? t i).any (Pattern.isWordChar asciiWords))
      ((t[i]?).any (Pattern.isWordChar asciiWords))

namespace Pattern

/-- The position behind some characters that stand at a position. -/
def readWord (t : Subject) : List Char → Nat → Option Nat
  | [], i => some i
  | c :: cs, i => if t[i]? = some c then readWord t cs (i + 1) else none

/-- The word without characters is read everywhere. -/
@[simp] theorem readWord_nil (t : Subject) (i : Nat) : readWord t [] i = some i := rfl

/-- The position behind a character of a set that stands at a position. -/
def readOne (t : Subject) (set : CharSet) (i : Nat) : Option Nat :=
  match t[i]? with
  | some c => if set.contains c.toNat then some (i + 1) else none
  | none => none

/-- The union of two position sets, given as lists without repetition. -/
def join (a b : List Nat) : List Nat :=
  a ++ b.filter (!a.contains ·)

/-- Applies a step a number of times. -/
def iterate (f : List Nat → List Nat) : Nat → List Nat → List Nat
  | 0, s => s
  | n + 1, s => if s.isEmpty then [] else iterate f n (f s)

/-- Everything that at most `n` steps reach: `seen` is reached already, and only the positions of
`frontier` have not been tried. -/
def reach (f : List Nat → List Nat) : Nat → List Nat → List Nat → List Nat
  | 0, seen, _ => seen
  | n + 1, seen, frontier =>
    let fresh := (f frontier).filter (!seen.contains ·)
    if fresh.isEmpty then seen else reach f n (seen ++ fresh) fresh

/-- The positions reached from a set of positions by reading a match. A loop without an upper
bound reaches everything it can after as many rounds as there are positions. -/
def run (t : Subject) : Pattern → List Nat → List Nat
  | empty, s => s
  | literal cs, s => s.filterMap (readWord t cs)
  | one set _, s => s.filterMap (readOne t set)
  | anchor a, s => s.filter (a.holdsAt t)
  | seq p q, s => q.run t (p.run t s)
  | alt p q, s => join (p.run t s) (q.run t s)
  | times p least most _, s =>
    let start := iterate (p.run t) least s
    match most with
    | some most => reach (p.run t) (most - least) start start
    | none => reach (p.run t) (t.size + 1) start start
  | group _ p, s => p.run t s

theorem iterate_nil (f : List Nat → List Nat) (n : Nat) : iterate f n [] = [] := by
  cases n <;> rfl

theorem reach_nil (f : List Nat → List Nat) (hf : f [] = []) (n : Nat) : reach f n [] [] = [] := by
  cases n <;> simp [reach, hf]

/-- Nothing is reached from nowhere. -/
theorem run_nil (t : Subject) (p : Pattern) : p.run t [] = [] := by
  induction p with
  | empty => rfl
  | literal cs => rfl
  | one set asciiOnly => rfl
  | anchor a => rfl
  | seq p q hp hq => simp [run, hp, hq]
  | alt p q hp hq => simp [run, join, hp, hq]
  | times p least most greedy ih =>
    cases most <;> simp [run, iterate_nil, reach_nil _ ih]
  | group index p ih => simpa [run] using ih

/-- Whether some part of a text matches. -/
def foundIn (p : Pattern) (s : String) : Bool :=
  let t : Subject := s.toList.toArray
  !(p.run t (List.range (t.size + 1))).isEmpty

end Pattern

end EntityGraph
