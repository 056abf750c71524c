/-!
# Double-precision numbers as bit patterns

A `Binary64` is the 64-bit pattern of an IEEE 754 double, so equality tells `0` from `-0` and one
NaN from another. Every finite number is a whole multiple of the least positive double `2 ^ -1074`;
`units` is that multiple, and every operation here is exact arithmetic on it, followed by one
rounding to the nearest double with ties to the even significand (`ofUnits`).

* `roundEven_mul` — a whole number of units is its own rounding;
* `toInt?_eq_some_iff` — the whole numbers among the doubles are read exactly.
-/

namespace EntityGraph

/-- A double-precision number, told apart by its bits. -/
structure Binary64 where
  bits : UInt64
  deriving DecidableEq, Repr, Inhabited

namespace Binary64

/-- The sign bit. -/
def negative (x : Binary64) : Bool :=
  Nat.pow 2 63 ≤ x.bits.toNat

/-- The biased exponent, `0` for subnormal numbers and `2047` for infinities and NaN. -/
def exponent (x : Binary64) : Nat :=
  x.bits.toNat / Nat.pow 2 52 % Nat.pow 2 11

/-- The stored bits of the significand. -/
def fraction (x : Binary64) : Nat :=
  x.bits.toNat % Nat.pow 2 52

/-- Neither infinite nor NaN. -/
def isFinite (x : Binary64) : Bool :=
  x.exponent != 2047

/-- The greatest exponent with a fraction marks NaN. -/
def isNaN (x : Binary64) : Bool :=
  x.exponent == 2047 && x.fraction != 0

/-- The greatest exponent without a fraction marks an infinity. -/
def isInfinite (x : Binary64) : Bool :=
  x.exponent == 2047 && x.fraction == 0

/-- The least positive double is `2 ^ -unitPlaces`. -/
def unitPlaces : Nat := 1074

/-- The number of least doubles in one. -/
def unitsInOne : Nat := Nat.pow 2 unitPlaces

/-- One is a positive number of units. -/
theorem unitsInOne_pos : 0 < unitsInOne := by
  unfold unitsInOne
  generalize unitPlaces = k
  exact Nat.two_pow_pos k

/-- The magnitude of a finite number, counted in multiples of the least positive double. -/
def units (x : Binary64) : Nat :=
  if x.exponent = 0 then x.fraction else (Nat.pow 2 52 + x.fraction) * Nat.pow 2 (x.exponent - 1)

/-- The quotient `n / d` rounded to the nearest whole number, ties to even. -/
def roundEven (n d : Nat) : Nat :=
  let q := n / d
  let r := n % d
  if 2 * r < d then q else if d < 2 * r then q + 1 else q + q % 2

/-- A multiple of the divisor is its own rounding. -/
theorem roundEven_mul (q d : Nat) (h : 0 < d) : roundEven (q * d) d = q := by
  simp [roundEven, Nat.mul_div_cancel _ h, h]

/-- The double with a given sign bit and the given other 63 bits. -/
def ofSignedBits (negative : Bool) (magnitude : Nat) : Binary64 :=
  ⟨UInt64.ofNat (magnitude + if negative then Nat.pow 2 63 else 0)⟩

/-- Infinity with a given sign. -/
def infinity (negative : Bool) : Binary64 :=
  ofSignedBits negative (2047 * Nat.pow 2 52)

/-- Zero with a given sign. -/
def zero (negative : Bool) : Binary64 :=
  ofSignedBits negative 0

/-- The quiet NaN. -/
def nan : Binary64 :=
  ofSignedBits false (2047 * Nat.pow 2 52 + Nat.pow 2 51)

/-- How many low bits a magnitude of `n` units loses when its significand is cut to 53 bits. -/
def excessBits (n : Nat) : Nat :=
  (n.log2 + 1) - 53

/-- The double nearest to `n / d` units, ties to the even significand; beyond the largest finite
number the result is infinite. The bits of a magnitude of `m * 2 ^ s` units with a 53-bit `m` are
`s * 2 ^ 52 + m`, also where `m` has just been rounded up to the next power of two and where the
number is subnormal. -/
def ofUnits (negative : Bool) (n d : Nat) : Binary64 :=
  let s := excessBits (n / d)
  let magnitude := s * Nat.pow 2 52 + roundEven n (d * Nat.pow 2 s)
  ofSignedBits negative (min magnitude (2047 * Nat.pow 2 52))

/-- The double nearest to the quotient `n / d`. -/
def ofRatio (negative : Bool) (n d : Nat) : Binary64 :=
  ofUnits negative (n * unitsInOne) d

/-- The double nearest to a whole number. -/
def ofInt (n : Int) : Binary64 :=
  ofRatio (n < 0) n.natAbs 1

/-- The rounded product of two finite magnitudes, with a given sign. -/
def mulMagnitudes (negative : Bool) (x y : Binary64) : Binary64 :=
  ofUnits negative (x.units * y.units) unitsInOne

/-- The rounded quotient of two finite magnitudes, with a given sign. -/
def divMagnitudes (negative : Bool) (x y : Binary64) : Binary64 :=
  ofUnits negative (x.units * unitsInOne) y.units

/-- The whole number that a finite double denotes, if it denotes one. -/
def toInt? (x : Binary64) : Option Int :=
  if x.isFinite ∧ x.units % unitsInOne = 0 then
    let n : Int := (x.units / unitsInOne : Nat)
    some (if x.negative then -n else n)
  else none

/-- `toInt?` answers on the finite whole numbers, and exactly: `n` has as many units as `x`. -/
theorem toInt?_eq_some_iff {x : Binary64} {n : Int} :
    x.toInt? = some n ↔
      x.isFinite = true ∧ x.units = n.natAbs * unitsInOne ∧
        n = (if x.negative then -(n.natAbs : Int) else n.natAbs) := by
  unfold toInt?
  constructor
  · intro h
    split at h
    · next hx =>
      obtain ⟨hfin, hmod⟩ := hx
      have hn := Option.some.inj h
      have habs : n.natAbs = x.units / unitsInOne := by
        rw [← hn]; split <;> simp only [Int.natAbs_neg, Int.natAbs_natCast]
      refine ⟨hfin, ?_, ?_⟩
      · rw [habs, Nat.div_mul_cancel (Nat.dvd_of_mod_eq_zero hmod)]
      · rw [habs, ← hn]
    · cases h
  · rintro ⟨hfin, hunits, hsign⟩
    rw [if_pos ⟨hfin, by rw [hunits, Nat.mul_mod_left]⟩, hunits, Nat.mul_div_cancel _ unitsInOne_pos]
    exact congrArg some hsign.symm

end Binary64

end EntityGraph
