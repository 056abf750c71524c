import EntityGraph.Binary64

/-!
# Decimal texts of doubles

A finite positive double has a shortest decimal: the fewest significant digits that round back to
it, and among those the nearest to it. `shortest` finds it on the decimal grids of 1, 2, … 17
digits by exact comparison of the two grid points around the number with the interval of reals
that round to it. The same digits are written in two formats:

* `Binary64.text` — positional, never an exponent, no fraction when there is none;
* `Binary64.jsonText?` — at least one decimal, and an exponent outside `1e-5 ≤ |x| < 1e16`.

Reading goes the other way: `ofDecimal` rounds `n * 10 ^ e` correctly, and `parse?` accepts the
usual spellings of numbers, infinities and NaN.
-/

namespace EntityGraph

/-- A decimal `digits * 10 ^ power`. -/
structure Decimal where
  digits : Nat
  power : Int
  deriving DecidableEq, Repr

namespace Decimal

/-- The decimal digits of a whole number, most significant first. -/
def digitChars (n : Nat) : List Char :=
  Nat.toDigits 10 n

/-- The whole number that a list of decimal digits spells. -/
def readDigits (cs : List Char) : Nat :=
  cs.foldl (fun n c => n * 10 + (c.toNat - '0'.toNat)) 0

/-- Moves the trailing zeros of the digits into the power; the first argument bounds how many. -/
def normalize : Nat → Decimal → Decimal
  | 0, d => d
  | fuel + 1, d =>
    if d.digits ≠ 0 ∧ d.digits % 10 = 0 then normalize fuel ⟨d.digits / 10, d.power + 1⟩ else d

/-- The exponent of the leading digit when the decimal is written as `d.ddd * 10 ^ e`. -/
def leadingPower (d : Decimal) : Int :=
  (digitChars d.digits).length - 1 + d.power

/-- Digits around a decimal point, without exponent: no point when there is no fraction. -/
def positional (d : Decimal) : List Char :=
  let ds := digitChars d.digits
  if 0 ≤ d.power then ds ++ List.replicate d.power.toNat '0'
  else
    let places := (-d.power).toNat
    if places < ds.length then
      ds.take (ds.length - places) ++ '.' :: ds.drop (ds.length - places)
    else '0' :: '.' :: List.replicate (places - ds.length) '0' ++ ds

/-- One digit, the others after a point, and the exponent with its sign. -/
def scientific (d : Decimal) : List Char :=
  let e := d.leadingPower
  let mantissa := match digitChars d.digits with
    | [] => []
    | [c] => [c]
    | c :: cs => c :: '.' :: cs
  mantissa ++ 'e' :: (if e < 0 then '-' else '+') :: digitChars e.natAbs

end Decimal

namespace Binary64

/-- The interval of reals that round to a positive finite double, in quarters of the least
double, with the double itself; the ends belong to it iff the significand is even. -/
structure RoundingInterval where
  low : Nat
  value : Nat
  high : Nat
  closed : Bool

/-- Half the gap to the next double lies on either side, except below a power of two, where the
gap is half as wide. -/
def roundingInterval (x : Binary64) : RoundingInterval :=
  let gap := Nat.pow 2 (x.exponent - 1)
  let below := if 1 < x.exponent ∧ x.fraction = 0 then gap else 2 * gap
  ⟨4 * x.units - below, 4 * x.units, 4 * x.units + 2 * gap, x.fraction % 2 = 0⟩

/-- Membership of the point `n / d` (in quarters of the least double). -/
def RoundingInterval.contains (i : RoundingInterval) (n d : Nat) : Bool :=
  if i.closed then i.low * d ≤ n && n ≤ i.high * d else i.low * d < n && n < i.high * d

/-- How a tie between the two neighbours on a decimal grid is settled. -/
inductive Tie where
  | up
  | even
  deriving DecidableEq, Repr

/-- The power of ten above a positive number of units: `10 ^ (p - 1) ≤ x < 10 ^ p`. -/
def decimalMagnitude (units : Nat) : Int :=
  let whole := units / unitsInOne
  if whole = 0 then
    match (List.range 330).find? (fun j => unitsInOne ≤ units * Nat.pow 10 (j + 1)) with
    | some j => -(j : Int)
    | none => -330
  else (Decimal.digitChars whole).length

/-- The point of the decimal grid `10 ^ power` that `shortest` chooses, if one of the two points
around the number rounds back to it. -/
def gridPoint? (tie : Tie) (i : RoundingInterval) (power : Int) : Option Decimal :=
  let unit := 4 * unitsInOne
  let scale := if 0 ≤ power then unit * Nat.pow 10 power.toNat else unit
  let d := if 0 ≤ power then 1 else Nat.pow 10 (-power).toNat
  let value := i.value * d
  let g := value / scale
  let lower := i.contains (g * scale) d
  let upper := i.contains ((g + 1) * scale) d
  match lower, upper with
  | false, false => none
  | true, false => some ⟨g, power⟩
  | false, true => some ⟨g + 1, power⟩
  | true, true =>
    let down := value - g * scale
    let up := (g + 1) * scale - value
    if down < up then some ⟨g, power⟩
    else if up < down then some ⟨g + 1, power⟩
    else match tie with
      | .up => some ⟨g + 1, power⟩
      | .even => some ⟨g + g % 2, power⟩

/-- The shortest decimal that rounds back to a positive finite double, the nearest of them. -/
def shortest (tie : Tie) (x : Binary64) : Decimal :=
  let i := x.roundingInterval
  let top := decimalMagnitude x.units
  let d := ((List.range 17).findSome? fun k => gridPoint? tie i (top - (k + 1 : Nat))).getD
    ⟨x.units, 0⟩
  d.normalize 20

/-- The text of a number: positional, with the fewest digits that read back, half way up. -/
def text (x : Binary64) : String :=
  if x.isNaN then "NaN"
  else
    let sign := if x.negative then ['-'] else []
    let body :=
      if x.isInfinite then ['i', 'n', 'f']
      else if x.units = 0 then ['0']
      else (shortest .up x).positional
    String.ofList (sign ++ body)

/-- The text of a finite number in a JSON document: the fewest digits that read back, half way to
even, at least one decimal, and an exponent outside `1e-5 ≤ |x| < 1e16`. -/
def jsonText? (x : Binary64) : Option String :=
  if x.isFinite then
    let sign := if x.negative then ['-'] else []
    let body :=
      if x.units = 0 then ['0', '.', '0']
      else
        let d := shortest .even x
        let e := d.leadingPower
        if e < -5 ∨ 16 ≤ e then d.scientific
        else if 0 ≤ d.power then d.positional ++ ['.', '0']
        else d.positional
    some (String.ofList (sign ++ body))
  else none

/-! ### Reading decimals -/

/-- The double nearest to `digits * 10 ^ power`. Decimals far outside the range of doubles are
settled by their magnitude alone. -/
def ofDecimal (negative : Bool) (d : Decimal) : Binary64 :=
  if d.digits = 0 then zero negative
  else
    let e := d.leadingPower
    if 310 < e then infinity negative
    else if e < -330 then zero negative
    else if 0 ≤ d.power then ofRatio negative (d.digits * Nat.pow 10 d.power.toNat) 1
    else ofRatio negative d.digits (Nat.pow 10 (-d.power).toNat)

/-- A sign, if there is one, and what follows it. -/
def takeSign : List Char → Bool × List Char
  | '-' :: cs => (true, cs)
  | '+' :: cs => (false, cs)
  | cs => (false, cs)

/-- The exponent that ends a number: nothing, or `e` with a sign and at least one digit. -/
def parseExponent? : List Char → Option Int
  | [] => some 0
  | c :: cs =>
    if c = 'e' ∨ c = 'E' then
      let (negative, ds) := takeSign cs
      if ds.isEmpty ∨ ¬ds.all Char.isDigit then none
      else
        let n : Int := Decimal.readDigits ds
        some (if negative then -n else n)
    else none

/-- Digits with an optional point among them, at least one digit, and an optional exponent. -/
def parseDecimal? (cs : List Char) : Option Decimal :=
  let whole := cs.takeWhile Char.isDigit
  let rest := cs.dropWhile Char.isDigit
  let (fraction, rest) := match rest with
    | '.' :: rest => (rest.takeWhile Char.isDigit, rest.dropWhile Char.isDigit)
    | _ => ([], rest)
  if whole.isEmpty ∧ fraction.isEmpty then none
  else (parseExponent? rest).map fun e =>
    ⟨Decimal.readDigits (whole ++ fraction), e - fraction.length⟩

/-- A number as text: an optional sign, then a decimal, `inf`, `infinity` or `nan` in any case. -/
def parse? (s : String) : Option Binary64 :=
  let (negative, cs) := takeSign s.toList
  match String.ofList (cs.map Char.toLower) with
  | "inf" | "infinity" => some (infinity negative)
  | "nan" => some (if negative then ⟨nan.bits ||| 0x8000000000000000⟩ else nan)
  | _ => (parseDecimal? cs).map (ofDecimal negative)

end Binary64

end EntityGraph
