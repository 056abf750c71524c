import EntityGraph.Binary64.Decimal
import EntityGraph.Pattern.Bracket
import EntityGraph.Pattern.Size
import EntityGraph.Text.NameChar

/-!
# Reading patterns

`Pattern.parse?` reads the written form of a pattern: alternatives, repetition, groups (plain,
named and with flags), anchors, escapes, and bracketed sets. Look-around is not part of the language.
A pattern that breaks the grammar, is nested too deep or needs too large an automaton is refused.

Every recursive reader carries a bound that starts at the length of the text; each call reads at
least one character, so the bound is never what ends a reading.
-/

namespace EntityGraph.Pattern

/-! ### Repetition -/

/-- A count, with blanks allowed around it. -/
def count? (f : Flags) (cs : List Char) : Option (Nat × List Char) :=
  let (digits, rest) := f.read Char.isDigit (cs.dropWhile Text.isBlank)
  let n := Decimal.readDigits digits
  if digits.isEmpty ∨ 0xFFFFFFFF < n then none
  else some (n, rest.dropWhile Text.isBlank)

/-- The bounds of a counted repetition, read behind its opening brace. Only the upper bound can be
left out. -/
def bounds? (f : Flags) (cs : List Char) : Option ((Nat × Option Nat) × List Char) := do
  let (least, rest) ← count? f (f.skip cs)
  match rest with
  | '\x7d' :: rest => return ((least, some least), rest)
  | ',' :: rest =>
    match f.skip rest with
    | '\x7d' :: rest => return ((least, none), rest)
    | rest =>
      match ← count? f rest with
      | (most, '\x7d' :: rest) => if least ≤ most then return ((least, some most), rest) else none
      | _ => none
  | _ => none

/-- Whether a loop is greedy, read behind it: a question mark makes it lazy. -/
def greed (f : Flags) : List Char → Bool × List Char
  | '?' :: cs => (f.swapGreed, cs)
  | cs => (!f.swapGreed, cs)

/-! ### Items -/

/-- A pattern with the depth of its text. -/
structure Item where
  pattern : Pattern
  depth : Nat := 0
  /-- Flags take the place of an item, but cannot be repeated. -/
  repeatable : Bool := true

namespace Item

/-- The greatest depth of some items. -/
def deepest (items : List Item) : Nat :=
  items.foldl (fun d i => max d i.depth) 0

/-- Items one after the other, given in reverse. -/
def sequence (items : List Item) : Item where
  pattern := Pattern.sequence (items.reverse.map (·.pattern))
  depth := nest items.length (deepest items)

/-- Items to choose from, given in reverse. -/
def alternatives (items : List Item) : Item where
  pattern := Pattern.alternatives (items.reverse.map (·.pattern))
  depth := nest items.length (deepest items)

/-- Repeats the last of some items given in reverse. -/
def repeatLast? (items : List Item) (least : Nat) (most : Option Nat) (greedy : Bool) :
    Option (List Item) :=
  match items with
  | ⟨p, depth, true⟩ :: items => some (⟨p.repeated least most greedy, depth + 1, true⟩ :: items)
  | _ => none

end Item

/-! ### Groups -/

/-- How far a pattern has been read: the text that is left, the flags in force, the number of groups
met so far and their names. -/
structure Cursor where
  rest : List Char
  flags : Flags := {}
  groups : Nat := 0
  names : List (List Char) := []

/-- A name of a group: a letter or underscore, then letters, digits, underscores, points and
brackets. -/
def isGroupName : List Char → Bool
  | [] => false
  | c :: cs =>
    (c == '_' || Text.NameChar.letters.contains c.toNat) &&
      cs.all fun c => c == '_' || c == '.' || c == '[' || c == ']' ||
        Text.NameChar.isAlphanumeric c

/-- The beginning of a group. -/
inductive GroupStart where
  /-- A group that is numbered, and may have a name. -/
  | numbered (name : Option (List Char)) (rest : List Char)
  /-- A group with flags of its own. -/
  | flagged (flags : Flags) (rest : List Char)
  /-- No group, but flags for the rest of the group around it. -/
  | switch (flags : Flags) (rest : List Char)

/-- Reads the name of a group up to the closing angle bracket. -/
def named? (c : Cursor) (cs : List Char) : Option GroupStart :=
  let name := cs.takeWhile (· != '>')
  if isGroupName name ∧ ¬c.names.contains name then
    match cs.dropWhile (· != '>') with
    | _ :: rest => some (.numbered (some name) rest)
    | [] => none
  else none

/-- Reads the beginning of a group behind its opening parenthesis. -/
def groupStart? (c : Cursor) : Option GroupStart :=
  match c.flags.skip c.rest with
  | '?' :: 'P' :: '<' :: cs => named? c cs
  | '?' :: '<' :: cs => named? c cs
  | '?' :: cs =>
    match c.flags.change? true [] cs with
    | some (f, ')' :: rest) => if cs.head? = some ')' then none else some (.switch f rest)
    | some (f, _ :: rest) => some (.flagged f rest)
    | _ => none
  | cs => some (.numbered none cs)

/-! ### Whole patterns -/

/-- Reads alternatives up to the end of the text or of the group, given the alternatives and the
items of the last of them that were read already, both in reverse. -/
def read? : Nat → List Item → List Item → Cursor → Option (Item × Cursor)
  | 0, _, _, _ => none
  | bound + 1, branches, items, c => do
    let f := c.flags
    let push (p : Pattern) (depth : Nat) (rest : List Char) : Option (Item × Cursor) :=
      read? bound branches ({ pattern := p, depth } :: items) { c with rest }
    let loop (least : Nat) (most : Option Nat) (rest : List Char) : Option (Item × Cursor) := do
      let (greedy, rest) := greed f rest
      read? bound branches (← Item.repeatLast? items least most greedy) { c with rest }
    match f.skip c.rest with
    | [] => return (Item.alternatives (Item.sequence items :: branches), { c with rest := [] })
    | ')' :: rest =>
      return (Item.alternatives (Item.sequence items :: branches), { c with rest := ')' :: rest })
    | '|' :: rest => read? bound (Item.sequence items :: branches) [] { c with rest }
    | '(' :: rest =>
      match ← groupStart? { c with rest } with
      | .switch flags rest =>
        read? bound branches ({ pattern := .empty, repeatable := false } :: items)
          { c with rest, flags }
      | .flagged flags rest =>
        let (inner, after) ← read? bound [] [] { c with rest, flags }
        match after.rest with
        | ')' :: rest =>
          read? bound branches ({ pattern := inner.pattern, depth := inner.depth + 1 } :: items)
            { after with rest, flags := f }
        | _ => none
      | .numbered name rest =>
        let index := c.groups + 1
        let (inner, after) ← read? bound [] []
          { rest, flags := f, groups := index, names := name.toList ++ c.names }
        match after.rest with
        | ')' :: rest =>
          read? bound branches
            ({ pattern := .group index inner.pattern, depth := inner.depth + 1 } :: items)
            { after with rest, flags := f }
        | _ => none
    | '*' :: rest => loop 0 none rest
    | '+' :: rest => loop 1 none rest
    | '?' :: rest => loop 0 (some 1) rest
    | '\x7b' :: rest =>
      let ((least, most), rest) ← bounds? f rest
      loop least most (f.skip rest)
    | '[' :: rest =>
      let ((s, depth), rest) ← bracket? f (rest.length + 1) rest
      push (f.oneOf s) depth rest
    | '.' :: rest => push (f.oneOf (← f.dot?)) 0 rest
    | '^' :: rest => push (.anchor f.caret) 0 rest
    | '$' :: rest => push (.anchor f.dollar) 0 rest
    | '\\' :: rest =>
      let (piece, rest) ← escape? f rest
      push (← piece.toPattern? f) 0 rest
    | ch :: rest => push (← (Piece.char ch false).toPattern? f) 0 rest

/-- How deep the text of a pattern may be nested. -/
def deepest : Nat := 250

/-- Reads a pattern; `none` if it is not well formed, nested too deep or too large. -/
def parse? (s : String) : Option Pattern := do
  let (item, c) ← read? (s.length + 1) [] [] { rest := s.toList }
  if c.rest.isEmpty ∧ item.depth ≤ deepest ∧ item.pattern.fits then some item.pattern else none

/-- Whether a text contains a match of a written pattern; nothing matches a pattern that cannot be
read. -/
def matchesText (pattern text : String) : Bool :=
  (parse? pattern).any (·.foundIn text)

end EntityGraph.Pattern
