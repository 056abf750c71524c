import Std.Data.HashMap
import EntityGraph.Pattern.Extent
import EntityGraph.Text.Utf8

/-!
# States for characters

Automata read the bytes of UTF-8. This module builds their states for sets of characters and for
literals.

The states for a set are shared. They are looked up in a table of fixed size, in which a state takes the
place of another one with the same slot; so how much is shared depends on the numbers of the states.
Literals to choose from share the states for the bytes that they begin with.

* `flatten_splitEnds` — splitting a list of words at those without bytes leaves out nothing else.
-/

namespace EntityGraph.Pattern

open Text.Utf8

namespace Build

/-! ### Sets of characters -/

/-- A table of shared states: what a state is made of and its number, by slots. -/
structure Shared where
  slots : Nat
  entries : Std.HashMap Nat (List Nat × Nat) := {}

/-- The slot of what a state is made of: a hash that takes up one number after the other. -/
def Shared.slot (t : Shared) (key : List Nat) : Nat :=
  (key.foldl (fun (h : UInt64) n => (h ^^^ UInt64.ofNat n) * 1099511628211)
    14695981039346656037).toNat % t.slots

/-- Building with a table of shared states. -/
abbrev Sharing := StateT Shared Build

/-- The state that is made of `key`: the one in the table, or a new one. -/
def shared (key : List Nat) (extra : Nat) : Sharing Nat := do
  let t ← get
  let slot := t.slot key
  let found := (t.entries.get? slot).bind fun entry =>
    if entry.1 = key then some entry.2 else none
  match found with
  | some number => return number
  | none =>
    let number ← (state extra : Build Nat)
    set { t with entries := t.entries.insert slot (key, number) }
    return number

/-- The states for some sequences of byte ranges in ascending order. Sequences that begin alike share
their first link. The depth bounds the length of the sequences. -/
def sharedNode (target : Nat) : Nat → List Sequence → Sharing Nat
  | 0, _ => return target
  | depth + 1, sequences => do
    let groups := sequences.splitBy fun a b => a.head? == b.head?
    let links ← groups.mapM fun group => do
      let tails := (group.map (·.drop 1)).filter (!·.isEmpty)
      let next ← if tails.isEmpty then pure target else sharedNode target depth tails
      let range := (group.head?.bind (·.head?)).getD default
      return [range.lo.toNat, range.hi.toNat, next]
    shared links.flatten (8 * links.length)

/-- The states for a sequence of byte ranges that is read backward; each is made of its range and of
the state behind it. -/
def chain (number : Nat) : Sequence → Sharing Nat
  | [] => return number
  | range :: ranges => do
    chain (← shared [number, range.lo.toNat, range.hi.toNat] 0) ranges

/-- The states for a set of characters: one table of links for ASCII characters, else states that
read the bytes of a character one after the other. -/
def oneOf (d : Direction) (s : CharSet) : Build Ending := do
  if s.isAscii then
    let _ ← state 0
    let _ ← state (8 * s.spans.length)
  else match d with
  | .forward =>
    let target ← state 0
    let _ ← (sharedNode target 4 (sequences s.spans)).run ⟨10000, {}⟩
  | .backward =>
    let _ ← state 0
    let target ← state 0
    let _ ← (do
      for ranges in sequences s.spans do
        let _ ← chain target ranges
        (link : Build Unit) : Sharing Unit).run ⟨1000, {}⟩
  return .plain

/-! ### Literals -/

/-- The lists of the words between those without bytes. -/
def splitEnds : List (List UInt8) → List (List (List UInt8))
  | [] => [[]]
  | word :: words =>
    if word.isEmpty then [] :: splitEnds words
    else (word :: (splitEnds words).headD []) :: (splitEnds words).tail

/-- Splitting a list of words leaves out only those without bytes. -/
theorem flatten_splitEnds (words : List (List UInt8)) :
    (splitEnds words).flatten = words.filter (!·.isEmpty) := by
  induction words with
  | nil => rfl
  | cons word words ih =>
    unfold splitEnds
    cases h : word.isEmpty
    · simp only [Bool.false_eq_true, if_false, List.filter_cons, h, Bool.not_false, if_true, ← ih]
      cases splitEnds words <;> rfl
    · simp only [if_true, List.filter_cons, h, Bool.not_true, Bool.false_eq_true, if_false, ← ih]
      rfl

/-- The same, but words without bytes before all others count once. -/
def stretches (words : List (List UInt8)) : List (List (List UInt8)) :=
  let others := words.dropWhile (·.isEmpty)
  if others.length < words.length then [] :: splitEnds others else splitEnds others

/-- The states for words to choose from, which share what they begin with. A word that ends keeps the
words before it apart from those behind it, since an earlier word is preferred. The depth bounds the
length of the words. -/
def trie : Nat → List (List UInt8) → Build Unit
  | 0, _ => return ()
  | depth + 1, words => do
    if words.all (·.isEmpty) then return ()
    let lists := stretches words
    for list in lists do
      let firsts := (list.filterMap (·.head?)).eraseDups
      for first in firsts do
        trie depth ((list.filter (·.head? == some first)).map (·.drop 1))
      match firsts with
      | [] => pure ()
      | [_] => do
        let _ ← state 0
        link
      | _ => do
        let _ ← state (8 * firsts.length)
        link
    let _ ← state 0
    for _ in lists.drop 1 do
      link

/-- The bytes of some characters in the order in which they are read. -/
def bytesOf (d : Direction) (cs : List Char) : List UInt8 :=
  let bytes := cs.flatMap String.utf8EncodeChar
  match d with
  | .forward => bytes
  | .backward => bytes.reverse

/-- The states for one of some literals. -/
def anyOf (d : Direction) (literals : List (List Char)) : Build Ending := do
  let words := literals.map (bytesOf d)
  let _ ← state 0
  trie (words.foldl (fun n word => max n word.length) 0 + 1) words
  return .plain

/-- The states for a literal: one for each byte. -/
def literal (cs : List Char) : Build Ending :=
  exactly (do let _ ← state 0; return .plain) ((cs.map Char.utf8Size).foldl (· + ·) 0)

end Build

end EntityGraph.Pattern
