import EntityGraph.Pattern.Escape

/-!
# Bracketed sets

A bracketed set lists characters, ranges of characters, named sets and other bracketed sets, and
combines such lists by intersection, difference and symmetric difference, from left to right. A caret
at the start takes the complement.

Along with a set its readers answer how deep its text is nested, since a pattern that is nested too
deep is refused. A list adds a level if it has more than one member.

* `nest_single` — a list with one member adds no level.
-/

namespace EntityGraph.Pattern

/-- The depth of some parts that stand next to each other, given their number and greatest depth. -/
def nest (count depth : Nat) : Nat :=
  if count ≤ 1 then depth else depth + 1

/-- A list with one member adds no level. -/
@[simp] theorem nest_single (depth : Nat) : nest 1 depth = depth := rfl

/-- A set as read, with the depth of its text. -/
structure Members where
  set : CharSet := .empty
  count : Nat := 0
  depth : Nat := 0

namespace Members

/-- Adds a member. -/
def add (m : Members) (s : CharSet) (depth : Nat) : Members :=
  ⟨m.set.union s, m.count + 1, max m.depth depth⟩

/-- The members as one. -/
def close (m : Members) : Members :=
  ⟨m.set, 1, nest m.count m.depth⟩

end Members

/-- The operations on sets. -/
inductive SetOp where
  | inter
  | diff
  | symmDiff

/-- The result of an operation. -/
def SetOp.apply : SetOp → CharSet → CharSet → CharSet
  | inter, a, b => a.inter b
  | diff, a, b => a.diff b
  | symmDiff, a, b => a.symmDiff b

/-- The left side of an operation in a bracketed set, as long as the right side is read. -/
structure Pending where
  op : SetOp
  left : Members

/-- Carries out the operation that waits, if any, with the members read since on the right. Case is
ignored before the operation. -/
def finish (f : Flags) (pending : Option Pending) (m : Members) : Members :=
  match pending with
  | some ⟨op, left⟩ =>
    ⟨op.apply (f.fold left.set) (f.fold m.set), 1, max left.depth m.close.depth + 1⟩
  | none => m.close

/-- A named ASCII set such as `[:alpha:]`, read behind its opening bracket. -/
def asciiSet? (f : Flags) : List Char → Option (Option CharSet × List Char)
  | ':' :: cs =>
    let (negated, cs) := match cs with
      | '^' :: cs => (true, cs)
      | cs => (false, cs)
    match Text.NamedSet.ascii? (String.ofList (cs.takeWhile (· != ':'))),
        cs.dropWhile (· != ':') with
    | some s, ':' :: ']' :: rest => some (f.negate? negated (f.fold s), rest)
    | _, _ => none
  | _ => none

/-- A member of a bracketed set before it is known to be one end of a range. -/
def setPiece? (f : Flags) : List Char → Option (Piece × List Char)
  | '\\' :: cs => escape? f cs
  | c :: cs => some (.char c false, cs)
  | [] => none

/-- One member of a bracketed set: a character, a set, or a range of characters. A hyphen before a
closing bracket or another hyphen makes no range. -/
def setItem? (f : Flags) (cs : List Char) : Option (CharSet × List Char) := do
  let (first, rest) ← setPiece? f cs
  match f.skip rest with
  | '-' :: behind =>
    let next := f.peek? behind
    if next = some ']' ∨ next = some '-' then return (← first.toSet? f, '-' :: behind)
    else
      let (last, rest) ← setPiece? f (f.skip behind)
      let a ← first.member? f
      let b ← last.member? f
      if a ≤ b then return (.range a b, rest) else none
  | rest => return (← first.toSet? f, rest)

/-- Hyphens at the start of a bracketed set stand for themselves, and so does a closing bracket at the
very start. -/
def setStart (f : Flags) (cs : List Char) : Members × List Char :=
  match f.read (· == '-') cs with
  | ([], ']' :: rest) => (Members.add {} (.single ']') 0, f.skip rest)
  | (hyphens, rest) => (hyphens.foldl (fun m c => m.add (.single c) 0) {}, rest)

mutual

/-- A bracketed set, read behind its opening bracket. The bound starts at the length of the text. -/
def bracket? (f : Flags) : Nat → List Char → Option ((CharSet × Nat) × List Char)
  | 0, _ => none
  | bound + 1, cs => do
    let (negated, cs) := match f.skip cs with
      | '^' :: cs => (true, cs)
      | cs => (false, cs)
    let (m, cs) := setStart f cs
    let (m, rest) ← setItems? f bound none m cs
    return ((← f.negate? negated (f.fold m.set), m.depth + 1), rest)

/-- The members of a bracketed set up to its closing bracket. -/
def setItems? (f : Flags) :
    Nat → Option Pending → Members → List Char → Option (Members × List Char)
  | 0, _, _, _ => none
  | bound + 1, pending, m, cs =>
    let combine (op : SetOp) (rest : List Char) : Option (Members × List Char) :=
      setItems? f bound (some ⟨op, finish f pending m⟩) {} rest
    match f.skip cs with
    | [] => none
    | ']' :: rest => some (finish f pending m, rest)
    | '[' :: rest =>
      match asciiSet? f rest with
      | some (named, rest) => do setItems? f bound pending (m.add (← named) 0) rest
      | none => do
        let ((inner, depth), rest) ← bracket? f bound rest
        setItems? f bound pending (m.add inner depth) rest
    | '&' :: '&' :: rest => combine .inter rest
    | '-' :: '-' :: rest => combine .diff rest
    | '~' :: '~' :: rest => combine .symmDiff rest
    | cs => do
      let (item, rest) ← setItem? f cs
      setItems? f bound pending (m.add item 0) rest

end

end EntityGraph.Pattern
