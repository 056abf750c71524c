import EntityGraph.Text.Hex
import EntityGraph.Value

/-!
# Scalar values in JSON

The JSON text of a scalar value, and the values that JSON texts denote. Only scalars are values:
`parse?` refuses lists and objects together with every text that is not JSON.

A number without fraction and exponent that fits a 64-bit word is a whole number. Any other
number is a double: its leading digits, as many as fit an unsigned 64-bit word, are converted
first and then scaled by a power of ten, with one rounding for each of the two steps. The result
can differ from the nearest double in its last bit.
-/

namespace EntityGraph.Json

/-! ### Writing -/

/-- A hexadecimal digit, in lower case. -/
def hexDigit (n : Nat) : Char :=
  if n < 10 then Char.ofNat (48 + n) else Char.ofNat (87 + n)

/-- A character inside a JSON string. -/
def escapeChar (c : Char) : List Char :=
  match c.toNat with
  | 0x22 => ['\\', '"']
  | 0x5C => ['\\', '\\']
  | 0x08 => ['\\', 'b']
  | 0x0C => ['\\', 'f']
  | 0x0A => ['\\', 'n']
  | 0x0D => ['\\', 'r']
  | 0x09 => ['\\', 't']
  | n => if n < 0x20 then ['\\', 'u', '0', '0', hexDigit (n / 16), hexDigit (n % 16)] else [c]

/-- A text as a JSON string. -/
def quote (s : String) : String :=
  String.ofList ('"' :: s.toList.flatMap escapeChar ++ ['"'])

/-- The JSON text of a value; numbers that are not finite are written `null`. -/
def text : Value → String
  | .null => "null"
  | .bool b => if b then "true" else "false"
  | .int n => Value.intText n.toInt
  | .float x => x.jsonText?.getD "null"
  | .text s => quote s

/-! ### Reading strings -/

/-- The four blanks that JSON allows between tokens. -/
def isBlank (c : Char) : Bool :=
  c == ' ' || c == '\n' || c == '\t' || c == '\r'

/-- Four hexadecimal digits. -/
def hex4? (a b c d : Char) : Option Nat :=
  Text.hexNumber? [a, b, c, d]

/-- The character that a one-letter escape stands for. -/
def simpleEscape? : Char → Option Char
  | '"' => some '"'
  | '\\' => some '\\'
  | '/' => some '/'
  | 'b' => some '\x08'
  | 'f' => some '\x0c'
  | 'n' => some '\n'
  | 'r' => some '\r'
  | 't' => some '\t'
  | _ => none

/-- One character of a string, plain or escaped, and the text after it. A code unit of a
surrogate pair counts only together with its partner. -/
def stringChar? : List Char → Option (Char × List Char)
  | '\\' :: 'u' :: a :: b :: c :: d :: rest => do
    let n ← hex4? a b c d
    if 0xD800 ≤ n ∧ n ≤ 0xDFFF then
      match rest with
      | '\\' :: 'u' :: e :: f :: g :: h :: rest =>
        let m ← hex4? e f g h
        if n ≤ 0xDBFF ∧ 0xDC00 ≤ m ∧ m ≤ 0xDFFF then
          some (Char.ofNat (0x10000 + (n - 0xD800) * 0x400 + (m - 0xDC00)), rest)
        else none
      | _ => none
    else some (Char.ofNat n, rest)
  | '\\' :: c :: rest => (simpleEscape? c).map (·, rest)
  | c :: rest => if c.toNat < 0x20 ∨ c = '\\' then none else some (c, rest)
  | [] => none

/-- The characters of a string up to its closing quote, and the text after it. The first argument
bounds the number of characters. -/
def stringBody? : Nat → List Char → Option (List Char × List Char)
  | 0, _ => none
  | fuel + 1, cs =>
    match cs with
    | '"' :: rest => some ([], rest)
    | cs => do
      let (c, rest) ← stringChar? cs
      let (body, rest) ← stringBody? fuel rest
      return (c :: body, rest)

/-! ### Reading numbers -/

/-- The digits of a number: a first part that fits an unsigned 64-bit word, and how many digits
follow it. -/
def leadingWord : List Char → Nat → Nat × Nat
  | [], n => (n, 0)
  | c :: cs, n =>
    let m := n * 10 + (c.toNat - 48)
    if m < Nat.pow 2 64 then leadingWord cs m else (n, cs.length + 1)

/-- Scales a double by `10 ^ power`: one rounded multiplication for a power up to `308`, rounded
divisions by at most `10 ^ 308` for a negative one. `none` if the result leaves the range. -/
def scale? (negative : Bool) : Nat → Binary64 → Int → Option Binary64
  | 0, x, _ => some (Binary64.ofSignedBits negative x.bits.toNat)
  | fuel + 1, x, power =>
    if power.natAbs ≤ 308 then
      let p := Binary64.ofRatio false (Nat.pow 10 power.natAbs) 1
      let y := if 0 ≤ power then Binary64.mulMagnitudes negative x p
        else Binary64.divMagnitudes negative x p
      if y.isFinite then some y else none
    else if x.units = 0 then some (Binary64.zero negative)
    else if 0 ≤ power then none
    else
      scale? negative fuel
        (Binary64.divMagnitudes false x (Binary64.ofRatio false (Nat.pow 10 308) 1)) (power + 308)

/-- The double `significand * 10 ^ power` by the two steps of the module text. -/
def scaled? (negative : Bool) (significand : Nat) (power : Int) : Option Binary64 :=
  scale? negative 8 (Binary64.ofRatio false significand 1) power

/-- The exponent of a number, capped to 32 bits when it is added to the digits' own power. An
exponent that is too long for 32 bits makes zero, or leaves the range. -/
def withExponent? (negative : Bool) (significand : Nat) (power : Int) (cs : List Char) :
    Option Binary64 :=
  let (down, ds) := Binary64.takeSign cs
  if ds.isEmpty ∨ ¬ds.all Char.isDigit then none
  else
    let e := Decimal.readDigits ds
    if Nat.pow 2 31 ≤ e then
      if significand ≠ 0 ∧ ¬down then none else some (Binary64.zero negative)
    else scaled? negative significand
      (max (-2147483648) (min 2147483647 (if down then power - e else power + e)))

/-- A number without its sign: no needless leading zero, and digits on both sides of a point. -/
def number? (negative : Bool) (cs : List Char) : Option Value :=
  let whole := cs.takeWhile Char.isDigit
  let rest := cs.dropWhile Char.isDigit
  let (n, dropped) := leadingWord whole 0
  let withTail (significand : Nat) (power : Int) : List Char → Option Value
    | [] => (scaled? negative significand power).map .float
    | c :: cs =>
      if c = 'e' ∨ c = 'E' then (withExponent? negative significand power cs).map .float
      else none
  if whole.isEmpty ∨ (whole.head? = some '0' ∧ 1 < whole.length) then none
  else match rest with
    | [] =>
      if dropped = 0 then
        let i : Int := if negative then -n else n
        if negative ∧ n = 0 then some (.float (Binary64.zero true))
        else match Value.word? i with
          | some w => some (.int w)
          | none => some (.float (Binary64.ofInt i))
      else withTail n dropped []
    | '.' :: rest =>
      let fraction := rest.takeWhile Char.isDigit
      let (m, ignored) := leadingWord fraction n
      if fraction.isEmpty then none
      else withTail m (dropped - (fraction.length - ignored : Nat)) (rest.dropWhile Char.isDigit)
    | rest => withTail n dropped rest

/-- The value that a JSON text denotes, blanks around it allowed. -/
def parse? (s : String) : Option Value :=
  let cs := s.toList.dropWhile isBlank
  match cs with
  | '"' :: cs =>
    match stringBody? (cs.length + 1) cs with
    | some (body, rest) => if rest.all isBlank then some (.text (String.ofList body)) else none
    | none => none
  | _ =>
    let word := (cs.reverse.dropWhile isBlank).reverse
    match String.ofList word with
    | "null" => some .null
    | "true" => some (.bool true)
    | "false" => some (.bool false)
    | _ => match word with
      | '-' :: ds => number? true ds
      | ds => number? false ds

end EntityGraph.Json
