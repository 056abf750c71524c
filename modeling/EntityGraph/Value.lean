import EntityGraph.Text.Blank
import EntityGraph.Binary64.Decimal

/-!
# Scalar values

A `Value` is what an atomic property, a statement parameter or a cell of a result row holds.
Numbers are words: whole numbers have 64 bits, floating-point numbers are told apart by their bit
pattern, so equality of values is decidable and reflexive also for NaN.

`Value.text` is the one text form of a value; it is what gets quoted in a statement, counted
against a length limit and matched against a pattern.
-/

namespace EntityGraph

/-- A scalar value. -/
inductive Value where
  | null
  | bool (b : Bool)
  | int (n : Int64)
  | float (x : Binary64)
  | text (s : String)
  deriving DecidableEq, Repr, Inhabited

namespace Value

/-- Only `null` is null. -/
def isNull : Value → Bool
  | null => true
  | _ => false

/-- Only null is null. -/
@[simp] theorem isNull_iff {v : Value} : v.isNull = true ↔ v = null := by
  cases v <;> simp [isNull]

/-- What is not null is another value. -/
theorem isNull_eq_false_iff {v : Value} : v.isNull = false ↔ v ≠ null := by
  cases v <;> simp [isNull]

/-- A whole number as a 64-bit word, if it fits. -/
def word? (n : Int) : Option Int64 :=
  if Int64.minValue.toInt ≤ n ∧ n ≤ Int64.maxValue.toInt then some (Int64.ofInt n) else none

/-- A word that `word?` gives denotes the number it was made of. -/
theorem toInt_of_word? {n : Int} {w : Int64} (h : word? n = some w) : w.toInt = n := by
  unfold word? at h
  split at h
  · next hn =>
    obtain rfl := Option.some.inj h
    exact Int64.toInt_ofInt_of_le hn.1 (Int.lt_add_one_of_le hn.2)
  · cases h

/-- The decimal text of a whole number. -/
def intText (n : Int) : String :=
  String.ofList ((if n < 0 then ['-'] else []) ++ Decimal.digitChars n.natAbs)

/-- The text form of a value. -/
def toText : Value → String
  | null => "NULL"
  | bool b => if b then "1" else "0"
  | int n => intText n.toInt
  | float x => x.text
  | text s => s

/-- Reads a whole number that fits 64 bits: an optional sign and at least one digit. -/
def parseInt? (s : String) : Option Int64 :=
  let (negative, ds) := Binary64.takeSign s.toList
  if ds.isEmpty ∨ ¬ds.all Char.isDigit then none
  else
    let n : Int := Decimal.readDigits ds
    word? (if negative then -n else n)

/-- A value read as a whole number. -/
def asInt? : Value → Option Int64
  | int n => some n
  | bool b => some (if b then 1 else 0)
  | text s => parseInt? (Text.trim s)
  | _ => none

/-- The text that a value holds. -/
def asText? : Value → Option String
  | text s => some s
  | _ => none

/-- A value read as a truth value: every number but zero is true. -/
def asBool? : Value → Option Bool
  | bool b => some b
  | int n => some (n != 0)
  | _ => none

end Value

end EntityGraph
