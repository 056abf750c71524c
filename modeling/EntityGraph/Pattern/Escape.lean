import EntityGraph.Pattern.Flags

/-!
# Escapes in patterns

What a backslash and the characters after it stand for: a character, a set of characters or a place.
Back references are not part of the language.

* `escape?_ascii` — a backslash before a sign makes it stand for itself.
-/

namespace EntityGraph.Pattern

/-- What an escape or a plain character stands for. -/
inductive Piece where
  /-- With `isByte`, the character was given by just two hexadecimal digits. -/
  | char (c : Char) (isByte : Bool)
  | set (s : CharSet)
  | place (a : Anchor)
  deriving Repr

namespace Piece

/-- The character of a piece. Without Unicode two digits give a byte, and a byte that is no ASCII
character is only a part of one. -/
def char? (f : Flags) : Piece → Option Char
  | .char c isByte => if ¬f.unicode ∧ isByte ∧ 0x7F < c.toNat then none else some c
  | _ => none

/-- The character of a piece in a bracketed set, which without Unicode has only ASCII members. -/
def member? (f : Flags) : Piece → Option Char
  | .char c _ => if ¬f.unicode ∧ 0x7F < c.toNat then none else some c
  | _ => none

/-- A piece as a member of a bracketed set. -/
def toSet? (f : Flags) : Piece → Option CharSet
  | .set s => some s
  | p => (p.member? f).map CharSet.single

/-- A piece as a pattern. -/
def toPattern? (f : Flags) : Piece → Option Pattern
  | .set s => some (f.oneOf s)
  | .place a => some (.anchor a)
  | p => (p.char? f).map fun c => f.oneOf (f.fold (.single c))

end Piece

/-- A code point that is a character. -/
def charOfCode? (n : Nat) : Option Char :=
  if n < 0x110000 ∧ ¬(0xD800 ≤ n ∧ n ≤ 0xDFFF) then some (Char.ofNat n) else none

/-- The character that hexadecimal digits stand for. -/
def charOfDigits? (digits : List Char) : Option Char :=
  (Text.hexNumber? digits).bind charOfCode?

/-- A character given by hexadecimal digits: in braces, or as many as `width`. -/
def hexEscape? (f : Flags) (width : Nat) (cs : List Char) : Option (Piece × List Char) := do
  match f.skip cs with
  | '\x7b' :: cs =>
    let (digits, rest) ← f.braced? cs
    return (.char (← charOfDigits? digits) false, rest)
  | cs =>
    let (digits, rest) ← f.take? width cs
    return (.char (← charOfDigits? digits) (width == 2), rest)

/-- Splits a text at the first place where a sign stands. -/
def splitAt? (sign : List Char) : List Char → Option (List Char × List Char)
  | [] => none
  | c :: cs =>
    if sign.isPrefixOf (c :: cs) then some ([], (c :: cs).drop sign.length)
    else (splitAt? sign cs).map fun (left, right) => (c :: left, right)

/-- The set that a property stands for, given by a name or by a name and a value, and whether a value
is the one that the property must not have. -/
def property? (text : List Char) : Option (CharSet × Bool) :=
  match splitAt? ['!', '='] text with
  | some (name, value) => (Text.NamedSet.ofValue? name value).map (·, true)
  | none =>
    match (splitAt? [':'] text).or (splitAt? ['='] text) with
    | some (name, value) => (Text.NamedSet.ofValue? name value).map (·, false)
    | none => (Text.NamedSet.ofName? text).map (·, false)

/-- A set given by a property: one letter, or a text in braces. -/
def propertyEscape? (f : Flags) (negated : Bool) (cs : List Char) :
    Option (Piece × List Char) := do
  guard f.unicode
  let (text, rest) ← match f.skip cs with
    | '\x7b' :: cs => f.braced? cs
    | '\\' :: _ => none
    | c :: rest => some ([c], rest)
    | [] => none
  let (s, flip) ← property? text
  return (.set (← f.negate? (negated != flip) (f.fold s)), rest)

/-- The places at words that have a name. -/
def edge? : String → Option WordEdge
  | "start" => some .start
  | "end" => some .finish
  | "start-half" => some .startHalf
  | "end-half" => some .finishHalf
  | _ => none

/-- What follows `\b`: a name in braces, unless the braces do not start with a letter or hyphen; they
are a repetition then. -/
def boundary? (f : Flags) (cs : List Char) : Option (Piece × List Char) := do
  let plain := (Piece.place (f.wordEdge .boundary), cs)
  match cs with
  | '\x7b' :: inner =>
    let first ← (f.skip inner).head?
    if first.isAlpha ∨ first = '-' then
      let (name, rest) ← f.braced? inner
      return (.place (f.wordEdge (← edge? (String.ofList name))), rest)
    else return plain
  | _ => return plain

/-- One of the three sets that have a letter of their own. The capital letter stands for the
complement. -/
def letterSet? (f : Flags) (c : Char) : Option CharSet :=
  let named (s ascii : CharSet) := f.negate? c.isUpper (if f.unicode then s else ascii)
  match c.toLower with
  | 'd' => named Text.NamedSet.digits (.ofRows ["30-39"])
  | 's' => named Text.NamedSet.blanks (.ofRows ["9-D 20"])
  | 'w' => named Text.NamedSet.wordChars (.ofRows ["30-39 41-5A 5F 61-7A"])
  | _ => none

/-- Whether a backslash makes a character stand for itself. -/
def isSign (c : Char) : Bool :=
  c.toNat < 0x80 && !c.isAlphanum && c != '<' && c != '>'

/-- What follows a backslash. Letters and digits have fixed meanings, if any; every other ASCII
character stands for itself, but for the angle brackets. -/
def escape? (f : Flags) : List Char → Option (Piece × List Char)
  | [] => none
  | c :: cs =>
    if isSign c then some (.char c false, cs)
    else match c with
    | 'a' => some (.char '\x07' false, cs)
    | 'f' => some (.char '\x0c' false, cs)
    | 't' => some (.char '\t' false, cs)
    | 'n' => some (.char '\n' false, cs)
    | 'r' => some (.char '\r' false, cs)
    | 'v' => some (.char '\x0b' false, cs)
    | 'A' => some (.place .textStart, cs)
    | 'z' => some (.place .textEnd, cs)
    | 'b' => boundary? f cs
    | 'B' => some (.place (f.wordEdge .noBoundary), cs)
    | '<' => some (.place (f.wordEdge .start), cs)
    | '>' => some (.place (f.wordEdge .finish), cs)
    | 'p' => propertyEscape? f false cs
    | 'P' => propertyEscape? f true cs
    | 'x' => hexEscape? f 2 cs
    | 'u' => hexEscape? f 4 cs
    | 'U' => hexEscape? f 8 cs
    | c => (letterSet? f c).map (Piece.set ·, cs)

/-- A backslash before a sign makes it stand for itself. -/
theorem escape?_ascii {f : Flags} {c : Char} (h : isSign c = true) (cs : List Char) :
    escape? f (c :: cs) = some (.char c false, cs) := by
  simp [escape?, h]

end EntityGraph.Pattern
