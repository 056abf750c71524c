import EntityGraph.Pattern.Normal
import EntityGraph.Text.Folding

/-!
# Flags of patterns

Flags change how the text of a pattern is read and what it means from where they are set to the end of
the group. Under the verbose flag blanks do not count, nor do comments, which run from a number sign
to the end of the line.

* `read_noSkip` — without the verbose flag, reading a run of characters leaves nothing out.
-/

namespace EntityGraph.Pattern

/-- The flags in force at a place of a pattern. -/
structure Flags where
  ignoreCase : Bool := false
  multiLine : Bool := false
  dotAll : Bool := false
  verbose : Bool := false
  anyBreak : Bool := false
  unicode : Bool := true
  /-- Loops are greedy if they are marked as lazy, and lazy if they are not. -/
  swapGreed : Bool := false
  deriving DecidableEq, Repr

namespace Flags

/-! ### Reading under the verbose flag -/

/-- Whether a character that starts no comment is left out. -/
def skipsBlank (f : Flags) (c : Char) : Bool :=
  f.verbose && Text.isBlank c

/-- The longest run of characters with a property, and what is left behind it. Blanks and comments in
the run and around it do not count under the verbose flag. -/
def takeRun (f : Flags) (ok : Char → Bool) (inComment : Bool) :
    List Char → List Char × List Char
  | [] => ([], [])
  | c :: cs =>
    if inComment then f.takeRun ok (c != '\n') cs
    else if f.verbose && c == '#' then f.takeRun ok true cs
    else if f.skipsBlank c then f.takeRun ok false cs
    else if ok c then
      let (run, rest) := f.takeRun ok false cs
      (c :: run, rest)
    else ([], c :: cs)

/-- Reads a run of characters. -/
def read (f : Flags) (ok : Char → Bool) (cs : List Char) : List Char × List Char :=
  f.takeRun ok false cs

/-- Leaves out what does not count. -/
def skip (f : Flags) (cs : List Char) : List Char :=
  (f.read (fun _ => false) cs).2

/-- The text up to a closing brace, and what is left behind the brace. -/
def braced? (f : Flags) (cs : List Char) : Option (List Char × List Char) :=
  match f.read (· != '\x7d') cs with
  | (inner, '\x7d' :: rest) => some (inner, rest)
  | _ => none

/-- A given number of characters. -/
def take? (f : Flags) : Nat → List Char → Option (List Char × List Char)
  | 0, cs => some ([], cs)
  | n + 1, cs =>
    match f.skip cs with
    | [] => none
    | c :: rest => do
      let (taken, rest) ← f.take? n rest
      return (c :: taken, rest)

/-- The character that comes next, without reading it. Of a comment only the number sign is looked
over; if nothing but blanks comes, the first of them does count. -/
def peek? (f : Flags) (cs : List Char) : Option Char :=
  if f.verbose then
    let next := match cs.dropWhile Text.isBlank with
      | '#' :: cs => (cs.dropWhile Text.isBlank).head?
      | cs => cs.head?
    next.or cs.head?
  else cs.head?

/-- Without the verbose flag, reading a run of characters leaves nothing out. -/
theorem read_noSkip {f : Flags} (h : f.verbose = false) (ok : Char → Bool) (cs : List Char) :
    f.read ok cs = (cs.takeWhile ok, cs.dropWhile ok) := by
  unfold read
  induction cs with
  | nil => rfl
  | cons c cs ih =>
    simp only [takeRun, skipsBlank, h, Bool.false_and, Bool.false_eq_true, if_false, ih]
    cases hok : ok c <;> simp [hok]

/-! ### What flags mean -/

/-- Sets one flag. -/
def set? (f : Flags) (c : Char) (on : Bool) : Option Flags :=
  match c with
  | 'i' => some { f with ignoreCase := on }
  | 'm' => some { f with multiLine := on }
  | 's' => some { f with dotAll := on }
  | 'x' => some { f with verbose := on }
  | 'R' => some { f with anyBreak := on }
  | 'u' => some { f with unicode := on }
  | 'U' => some { f with swapGreed := on }
  | _ => none

/-- Reads flags: letters that are switched on, then letters after a hyphen that are switched off,
none twice. They end before a colon or a closing parenthesis; the hyphen cannot be last. -/
def change? (f : Flags) (on : Bool) (seen : List Char) : List Char → Option (Flags × List Char)
  | [] => none
  | c :: cs =>
    if c = ':' ∨ c = ')' then
      if seen.head? = some '-' then none else some (f, c :: cs)
    else if seen.contains c then none
    else if c = '-' then f.change? false (c :: seen) cs
    else do (← f.set? c on).change? on (c :: seen) cs

/-- A set, with what differs from its members only in case if case is ignored. -/
def fold (f : Flags) (s : CharSet) : CharSet :=
  if ¬f.ignoreCase then s
  else if f.unicode then Text.Folding.close s
  else Text.Folding.closeAscii s

/-- A set or its complement. Without Unicode a set holds only ASCII characters, so that it has no
complement. -/
def negate? (f : Flags) (negated : Bool) (s : CharSet) : Option CharSet :=
  if negated then if f.unicode then some s.compl else none
  else some s

/-- What a dot stands for: any character but the end of a line. Without Unicode it would stand for
parts of characters, which is refused. -/
def dot? (f : Flags) : Option CharSet :=
  if ¬f.unicode then none
  else if f.dotAll then some .all
  else if f.anyBreak then some ((CharSet.single '\n').union (CharSet.single '\r')).compl
  else some (CharSet.single '\n').compl

/-- A character of a set. -/
def oneOf (f : Flags) (s : CharSet) : Pattern :=
  ofSet s (!f.unicode)

/-- What a caret stands for. -/
def caret (f : Flags) : Anchor :=
  if f.multiLine then .lineStart f.anyBreak else .textStart

/-- What a dollar sign stands for. -/
def dollar (f : Flags) : Anchor :=
  if f.multiLine then .lineEnd f.anyBreak else .textEnd

/-- A place at words. -/
def wordEdge (f : Flags) (edge : WordEdge) : Anchor :=
  .word edge (!f.unicode)

end Flags

end EntityGraph.Pattern
