import EntityGraph.Error
import EntityGraph.Pattern.Parser

/-!
# Atomic properties

An atomic property is stored in one column of one table. It declares its kind, whether it is the
primary key and who makes that key, and the constraints that its values keep.

`Atomic.check` finds the first constraint that a value breaks, in the order null, greatest length,
exact length, pattern. Lengths count the characters of the value's text form.
-/

namespace EntityGraph

/-- The rules that the values of an atomic property keep. -/
structure Constraints where
  notNull : Bool := false
  unique : Bool := false
  maxLength : Option Nat := none
  length : Option Nat := none
  pattern : Option String := none
  deriving DecidableEq, Repr, Inhabited

/-- An atomic property. Without a table of its own it is stored in the primary table. -/
structure Atomic where
  name : String
  column : String
  kind : AtomicKind
  table : Option String := none
  primaryKey : Bool := false
  /-- The database makes the value on insert. -/
  generated : Bool := false
  constraints : Constraints := {}
  deriving DecidableEq, Repr, Inhabited

/-- A pattern without the two slashes that may enclose it. -/
def Constraints.barePattern (pattern : String) : String :=
  match pattern.toList with
  | '/' :: cs => if cs.getLast? = some '/' then String.ofList cs.dropLast else pattern
  | _ => pattern

/-- Whether a text contains a match of a pattern, given with or without enclosing slashes. -/
def Constraints.accepts (pattern text : String) : Bool :=
  Pattern.matchesText (barePattern pattern) text

/-- Which of some texts contain a match of a pattern, which is read once. -/
def Constraints.acceptsEach (pattern : String) (texts : List String) : List Bool :=
  let read := Pattern.parse? (barePattern pattern)
  texts.map fun text => read.any (·.foundIn text)

/-- Each text is decided on its own. -/
theorem Constraints.acceptsEach_eq_map (pattern : String) (texts : List String) :
    acceptsEach pattern texts = texts.map (accepts pattern) := rfl

/-- The first constraint that a value breaks. -/
def Constraints.violation? (c : Constraints) (v : Value) : Option Violation :=
  if v.isNull then
    if c.notNull then some .isNull else none
  else
    let length := v.toText.length
    let tooLong := c.maxLength.bind fun most =>
      if most < length then some (.tooLong most length) else none
    let wrongLength := c.length.bind fun exact =>
      if length ≠ exact then some (.wrongLength exact length) else none
    let noMatch := c.pattern.bind fun pattern =>
      if accepts pattern v.toText then none else some (.noMatch pattern)
    tooLong <|> wrongLength <|> noMatch

/-- Null breaks at most the rule against null. -/
theorem Constraints.violation?_null (c : Constraints) :
    c.violation? .null = if c.notNull then some .isNull else none := rfl

namespace Atomic

/-- The table that stores the property, given the primary table. -/
def tableOr (a : Atomic) (primary : String) : String :=
  a.table.getD primary

/-- Checks a value of the property of an entity type against its constraints. -/
def check (entity : String) (a : Atomic) (v : Value) : Except Error Unit :=
  match a.constraints.violation? v with
  | some fault => .error (.violation entity a.name fault)
  | none => .ok ()

/-- A check passes iff no constraint is broken. -/
theorem check_eq_ok_iff {entity : String} {a : Atomic} {v : Value} :
    a.check entity v = .ok () ↔ a.constraints.violation? v = none := by
  unfold check
  cases a.constraints.violation? v <;> simp

/-- A value as a value of the property's kind. -/
def coerce (entity : String) (a : Atomic) (v : Value) : Except Error Value :=
  match a.kind.coerce? v with
  | some w => .ok w
  | none => .error (.notConvertible entity a.name a.kind v)

end Atomic

end EntityGraph
