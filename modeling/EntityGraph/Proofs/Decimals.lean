import EntityGraph.Proofs.Rounding
import Mathlib.Algebra.Order.Field.Power
import Mathlib.Data.List.TakeWhile
import Mathlib.Data.Rat.Cast.Order
import Mathlib.Tactic.FieldSimp
import Mathlib.Tactic.Linarith
import Mathlib.Tactic.NormNum
import Mathlib.Tactic.Positivity
import Mathlib.Tactic.Ring

/-!
# The text of a double reads back

The shortest decimal of a double is in the interval of numbers that are rounded to it: with seventeen digits
the points of the decimal grid are closer to each other than the ends of the interval, so that one of the
two points around the double is inside. The positional text of a decimal is read as a decimal of the same
value, and a decimal in the interval is rounded to the double.

* `Decimal.toRat` — the value of a decimal;
* `RoundingInterval.Has` — the interval around a double, on the rationals;
* `Decimal.parse_positional` — the positional text of a decimal has its value;
* `shortest_has` — the shortest decimal is in the interval;
* `ofDecimal_eq` — a decimal in the interval is rounded to the double.

## Main result

* `Binary64.parse?_text`: the text of a finite double is read as the double.
-/

namespace EntityGraph

namespace Decimal

variable {d : Decimal}

/-! ### Digits -/

/-- Reading digits is what the standard library does with them. -/
theorem readDigits_eq (cs : List Char) : readDigits cs = Nat.ofDigitChars 10 cs 0 := by
  unfold readDigits Nat.ofDigitChars
  congr 1
  funext n c
  rw [Nat.mul_comm]

/-- The digits of a number are read as the number. -/
theorem readDigits_digitChars (n : Nat) : readDigits (digitChars n) = n := by
  rw [readDigits_eq]
  exact Nat.ofDigitChars_toDigits (by decide) (by decide)

/-- Zeros after digits are powers of ten. -/
theorem readDigits_append_zeros (cs : List Char) (k : Nat) :
    readDigits (cs ++ List.replicate k '0') = readDigits cs * 10 ^ k := by
  rw [readDigits_eq, readDigits_eq, Nat.ofDigitChars_append, Nat.ofDigitChars_replicate_zero, Nat.mul_comm]

/-- Zeros before digits are nothing. -/
theorem readDigits_zeros_append (cs : List Char) (k : Nat) :
    readDigits (List.replicate k '0' ++ cs) = readDigits cs := by
  rw [readDigits_eq, readDigits_eq, Nat.ofDigitChars_append, Nat.ofDigitChars_replicate_zero, Nat.mul_zero]

/-- The digits of a number are digits. -/
theorem isDigit_of_mem_digitChars {n : Nat} {c : Char} (h : c ∈ digitChars n) : c.isDigit = true :=
  Nat.isDigit_of_mem_toDigits (by decide) (by decide) h

/-- So are zeros. -/
theorem isDigit_of_mem_zeros {k : Nat} {c : Char} (h : c ∈ List.replicate k '0') : c.isDigit = true := by
  rw [List.eq_of_mem_replicate h]
  rfl

/-- A number has as many digits as it has powers of ten. -/
theorem pow_length_le {n : Nat} (hn : n ≠ 0) :
    10 ^ ((digitChars n).length - 1) ≤ n ∧ n < 10 ^ (digitChars n).length := by
  have hpos : 0 < (digitChars n).length := Nat.length_toDigits_pos
  refine ⟨?_, (Nat.length_toDigits_le_iff (by decide) hpos).1 le_rfl⟩
  rcases Nat.eq_zero_or_pos ((digitChars n).length - 1) with h | h
  · rw [h]
    exact Nat.one_le_iff_ne_zero.2 hn
  · refine not_lt.1 fun hlt => ?_
    have := (Nat.length_toDigits_le_iff (b := 10) (by decide) h).2 hlt
    unfold digitChars at hpos this
    omega

/-! ### The value of a decimal -/

/-- The value of a decimal. -/
def toRat (d : Decimal) : ℚ :=
  d.digits * 10 ^ d.power

/-- A power of ten, as a fraction of whole numbers. -/
theorem zpow_ten (p : Int) : (10 : ℚ) ^ p = ((10 ^ p.toNat : Nat) : ℚ) / ((10 ^ (-p).toNat : Nat) : ℚ) := by
  push_cast
  rcases le_total 0 p with h | h
  · obtain ⟨n, rfl⟩ := Int.eq_ofNat_of_zero_le h
    simp
  · obtain ⟨n, hn⟩ := Int.eq_ofNat_of_zero_le (Int.neg_nonneg_of_nonpos h)
    obtain rfl : p = -n := by omega
    simp

/-- Moving trailing zeros into the power keeps the value. -/
theorem toRat_normalize (fuel : Nat) (d : Decimal) : (d.normalize fuel).toRat = d.toRat := by
  induction fuel generalizing d with
  | zero => rfl
  | succ fuel ih =>
    unfold normalize
    split
    · next h =>
      rw [ih]
      obtain ⟨k, hk⟩ := Nat.dvd_of_mod_eq_zero h.2
      unfold toRat
      simp only
      rw [hk, Nat.mul_div_cancel_left _ (by decide), zpow_add_one₀ (by norm_num)]
      push_cast
      ring
    · rfl

/-- A decimal is between the power of ten of its first digit and the next one. -/
theorem zpow_leadingPower_le (hd : d.digits ≠ 0) :
    (10 : ℚ) ^ d.leadingPower ≤ d.toRat ∧ d.toRat < 10 ^ (d.leadingPower + 1) := by
  obtain ⟨hle, hlt⟩ := pow_length_le hd
  have hpos : 0 < (digitChars d.digits).length := Nat.length_toDigits_pos
  have hpower : (0 : ℚ) < 10 ^ d.power := by positivity
  obtain ⟨k, hk⟩ := Nat.exists_eq_add_one_of_ne_zero hpos.ne'
  unfold leadingPower toRat
  rw [hk] at hle hlt ⊢
  rw [Nat.add_sub_cancel] at hle
  constructor
  · rw [show ((k + 1 : Nat) : Int) - 1 + d.power = k + d.power by omega, zpow_add₀ (by norm_num), zpow_natCast]
    exact mul_le_mul_of_nonneg_right (by exact_mod_cast hle) hpower.le
  · rw [show ((k + 1 : Nat) : Int) - 1 + d.power + 1 = (k + 1 : Nat) + d.power by omega,
      zpow_add₀ (by norm_num), zpow_natCast]
    exact mul_lt_mul_of_pos_right (by exact_mod_cast hlt) hpower

end Decimal

namespace Binary64

variable {x : Binary64} {i : RoundingInterval} {tie : Tie} {d : Decimal} {n k : Nat} {q r : ℚ}

/-! ### The interval around a double -/

/-- Membership of a number, in quarters of the least double. -/
def RoundingInterval.Has (i : RoundingInterval) (q : ℚ) : Prop :=
  if i.closed then (i.low : ℚ) ≤ q ∧ q ≤ i.high else (i.low : ℚ) < q ∧ q < i.high

/-- A quotient is tested by what it is a quotient of. -/
theorem RoundingInterval.contains_iff (hk : 0 < k) : i.contains n k = true ↔ i.Has ((n : ℚ) / k) := by
  have hpos : (0 : ℚ) < k := by exact_mod_cast hk
  unfold contains Has
  split
  · rw [Bool.and_eq_true, decide_eq_true_eq, decide_eq_true_eq, le_div_iff₀ hpos, div_le_iff₀ hpos]
    exact_mod_cast Iff.rfl
  · rw [Bool.and_eq_true, decide_eq_true_eq, decide_eq_true_eq, lt_div_iff₀ hpos, div_lt_iff₀ hpos]
    exact_mod_cast Iff.rfl

/-- What is in an interval is between its ends. -/
theorem RoundingInterval.Has.bounds (h : i.Has q) : (i.low : ℚ) ≤ q ∧ q ≤ i.high := by
  unfold Has at h
  split at h
  · exact h
  · exact ⟨h.1.le, h.2.le⟩

/-- A decimal as a number of quarters of the least double. -/
def quarters (d : Decimal) : ℚ :=
  4 * unitsInOne * d.toRat

/-- A decimal is tested as a quotient of whole numbers. -/
theorem has_quarters_iff (d : Decimal) : i.Has (quarters d) ↔
    i.contains (4 * (d.digits * 10 ^ d.power.toNat * unitsInOne)) (10 ^ (-d.power).toNat) = true := by
  rw [RoundingInterval.contains_iff (Nat.pow_pos (by decide))]
  refine iff_of_eq (congrArg _ ?_)
  unfold quarters Decimal.toRat
  rw [Decimal.zpow_ten]
  push_cast
  ring

/-! ### Points of a grid -/

/-- The points of a grid are whole multiples of its power of ten, in quarters over this many. -/
def gridScale (power : Int) : Nat × Nat :=
  (4 * unitsInOne * 10 ^ power.toNat, 10 ^ (-power).toNat)

theorem gridScale_pos (power : Int) : 0 < (gridScale power).2 :=
  Nat.pow_pos (by decide)

/-- The points of a grid are as far from each other as its power of ten says. -/
theorem gridScale_eq (power : Int) : ((gridScale power).1 : ℚ) =
    4 * (unitsInOne * (10 : ℚ) ^ power) * (gridScale power).2 := by
  unfold gridScale
  rw [Decimal.zpow_ten]
  push_cast
  generalize (unitsInOne : ℚ) = u
  field_simp

/-- A chosen point is one of the two around the number that is in the interval, and there is one if one of
both is. -/
theorem gridPoint?_cases {power : Int} (g : Nat)
    (hg : g = i.value * (gridScale power).2 / (gridScale power).1) :
    (∀ d, gridPoint? tie i power = some d → d.power = power ∧
      i.contains (d.digits * (gridScale power).1) (gridScale power).2 = true) ∧
    (gridPoint? tie i power = none →
      i.contains (g * (gridScale power).1) (gridScale power).2 = false ∧
        i.contains ((g + 1) * (gridScale power).1) (gridScale power).2 = false) := by
  have hscale : (if 0 ≤ power then 4 * unitsInOne * Nat.pow 10 power.toNat else 4 * unitsInOne) =
      (gridScale power).1 := by
    unfold gridScale
    split
    · rw [Nat.pow_eq]
    · rw [show power.toNat = 0 by omega, Nat.pow_zero, Nat.mul_one]
  have hdivisor : (if 0 ≤ power then 1 else Nat.pow 10 (-power).toNat) = (gridScale power).2 := by
    unfold gridScale
    split
    · rw [show (-power).toNat = 0 by omega, Nat.pow_zero]
    · rw [Nat.pow_eq]
  unfold gridPoint?
  simp only
  rw [hscale, hdivisor, ← hg]
  cases hlower : i.contains (g * (gridScale power).1) (gridScale power).2 <;>
    cases hupper : i.contains ((g + 1) * (gridScale power).1) (gridScale power).2
  · simp
  · simp [hupper]
  · simp [hlower]
  · refine ⟨fun d hd => ?_, fun hnone => ?_⟩
    · have hpoints : d = ⟨g, power⟩ ∨ d = ⟨g + 1, power⟩ := by
        simp only at hd
        split at hd
        · exact .inl (Option.some.inj hd).symm
        · split at hd
          · exact .inr (Option.some.inj hd).symm
          · cases tie with
            | up => exact .inr (Option.some.inj hd).symm
            | even =>
              rcases Nat.mod_two_eq_zero_or_one g with h | h <;>
                simp only [h, Option.some.injEq] at hd <;> simp [← hd]
      rcases hpoints with rfl | rfl
      · exact ⟨rfl, hlower⟩
      · exact ⟨rfl, hupper⟩
    · simp only at hnone
      split at hnone
      · cases hnone
      · split at hnone
        · cases hnone
        · cases tie <;> cases hnone

/-- A chosen point of a grid is in the interval. -/
theorem has_of_gridPoint? {power : Int} (h : gridPoint? tie i power = some d) : i.Has (quarters d) := by
  obtain ⟨rfl, hd⟩ := (gridPoint?_cases _ rfl).1 d h
  have hpoint : d.digits * (gridScale d.power).1 = 4 * (d.digits * 10 ^ d.power.toNat * unitsInOne) := by
    unfold gridScale
    generalize unitsInOne = u
    ring
  rw [has_quarters_iff, ← hpoint]
  exact hd

/-- A grid whose points are closer to each other than the ends of an interval has a point in it. -/
theorem gridPoint?_ne_none {power : Int} (hlow : i.low < i.value) (hhigh : i.value < i.high)
    (hwidth : i.low * (gridScale power).2 + (gridScale power).1 < i.high * (gridScale power).2) :
    gridPoint? tie i power ≠ none := by
  intro hnone
  obtain ⟨hlower, hupper⟩ := (gridPoint?_cases _ rfl).2 hnone
  have hunit : 0 < (gridScale power).1 :=
    Nat.mul_pos (Nat.mul_pos (by decide) unitsInOne_pos) (Nat.pow_pos (by decide))
  have hdiv := Nat.div_add_mod' (i.value * (gridScale power).2) (gridScale power).1
  have hmod := Nat.mod_lt (i.value * (gridScale power).2) hunit
  have hlow := Nat.mul_lt_mul_of_pos_right hlow (gridScale_pos power)
  have hhigh := Nat.mul_lt_mul_of_pos_right hhigh (gridScale_pos power)
  generalize i.value * (gridScale power).2 / (gridScale power).1 = g at *
  have hsucc : (g + 1) * (gridScale power).1 = g * (gridScale power).1 + (gridScale power).1 :=
    Nat.succ_mul _ _
  unfold RoundingInterval.contains at hlower hupper
  generalize gridScale power = scale at *
  cases hclosed : i.closed <;> simp [hclosed] at hlower hupper <;> omega

/-! ### Seventeen digits -/

/-- A positive number of units is at least the power of ten below its magnitude. -/
theorem zpow_decimalMagnitude_le {u : Nat} (hu : u ≠ 0) :
    unitsInOne * (10 : ℚ) ^ (decimalMagnitude u - 1) ≤ u := by
  have hone : 1 ≤ u := Nat.one_le_iff_ne_zero.2 hu
  have hsmall : unitsInOne ≤ 10 ^ 331 := by decide +kernel
  unfold decimalMagnitude
  simp only
  generalize unitsInOne = w at *
  split
  · split
    · next j hj =>
      have hle : w ≤ u * 10 ^ (j + 1) := by
        have := List.find?_some hj
        rwa [decide_eq_true_eq, Nat.pow_eq] at this
      rw [show -(j : Int) - 1 = -((j + 1 : Nat) : Int) by omega, zpow_neg, zpow_natCast,
        ← div_eq_mul_inv, div_le_iff₀ (by positivity)]
      exact_mod_cast hle
    · rw [show (-330 - 1 : Int) = -((331 : Nat) : Int) by rfl, zpow_neg, zpow_natCast,
        ← div_eq_mul_inv, div_le_iff₀ (by positivity)]
      calc (w : ℚ) ≤ ((10 ^ 331 : Nat) : ℚ) := by exact_mod_cast hsmall
        _ = 1 * 10 ^ 331 := by rw [Nat.cast_pow, Nat.cast_ofNat, one_mul]
        _ ≤ u * 10 ^ 331 := mul_le_mul_of_nonneg_right (by exact_mod_cast hone) (by positivity)
  · next hwhole =>
    obtain ⟨hle, -⟩ := Decimal.pow_length_le hwhole
    have hpos : 0 < (Decimal.digitChars (u / w)).length := Nat.length_toDigits_pos
    rw [show ((Decimal.digitChars (u / w)).length : Int) - 1 =
      (((Decimal.digitChars (u / w)).length - 1 : Nat) : Int) by omega, zpow_natCast]
    exact_mod_cast (Nat.mul_le_mul_left w hle).trans (Nat.mul_div_le u w)

/-- A positive number is not less than the gap after it. -/
theorem gap_le_units (hx : x.units ≠ 0) : 2 ^ x.scale ≤ x.units := by
  rw [units_eq] at hx ⊢
  exact Nat.le_mul_of_pos_left _ (Nat.pos_of_ne_zero fun h => hx (by rw [h, Nat.zero_mul]))

/-- The interval around a positive number: its ends are half a gap away, or a quarter below a power of
two. -/
theorem roundingInterval_eq (hx : x.units ≠ 0) : ∃ below : Nat,
    x.roundingInterval.low + below * 2 ^ x.scale = 4 * x.units ∧ x.roundingInterval.value = 4 * x.units ∧
      x.roundingInterval.high = 4 * x.units + 2 * 2 ^ x.scale ∧
        (below = 2 ∨ below = 1 ∧ x.significand = 2 ^ 52) := by
  have hle := gap_le_units hx
  unfold roundingInterval
  simp only [Nat.pow_eq]
  change ∃ below, 4 * x.units - _ + below * 2 ^ x.scale = _ ∧ _ ∧ 4 * x.units + 2 * 2 ^ x.scale = _ ∧ _
  by_cases h : 1 < x.exponent ∧ x.fraction = 0
  · rw [if_pos h]
    refine ⟨1, ?_, trivial, rfl, .inr ⟨rfl, ?_⟩⟩
    · change 4 * x.units - 2 ^ x.scale + _ = _
      omega
    · unfold significand
      rw [if_neg (by omega), h.2, Nat.pow_eq, Nat.add_zero]
  · rw [if_neg h]
    refine ⟨2, ?_, trivial, rfl, .inl rfl⟩
    change 4 * x.units - 2 * 2 ^ x.scale + _ = _
    omega

/-- The points of a grid of seventeen digits are closer to each other than the ends of the interval. -/
theorem width_lt (hx : x.units ≠ 0) :
    x.roundingInterval.low * (gridScale (decimalMagnitude x.units - 17)).2 +
        (gridScale (decimalMagnitude x.units - 17)).1 <
      x.roundingInterval.high * (gridScale (decimalMagnitude x.units - 17)).2 := by
  obtain ⟨below, hlow, -, hhigh, hbelow⟩ := roundingInterval_eq hx
  have hmagnitude := zpow_decimalMagnitude_le hx
  have hm : (x.significand : ℚ) < 2 ^ 53 := by exact_mod_cast x.significand_lt
  have hgap : (0 : ℚ) < 2 ^ x.scale := by positivity
  have hunits : (x.units : ℚ) = x.significand * 2 ^ x.scale := by
    rw [units_eq]
    push_cast
    rfl
  have hlowq : (x.roundingInterval.low : ℚ) + below * 2 ^ x.scale = 4 * x.units := by exact_mod_cast hlow
  have hhighq : (x.roundingInterval.high : ℚ) = 4 * x.units + 2 * 2 ^ x.scale := by exact_mod_cast hhigh
  have hpower : unitsInOne * (10 : ℚ) ^ (decimalMagnitude x.units - 17) ≤ x.units / 10 ^ 16 := by
    rw [le_div_iff₀ (by positivity), mul_assoc, ← zpow_natCast, ← zpow_add₀ (by norm_num)]
    exact le_of_eq_of_le (by congr 2; omega) hmagnitude
  have hwidth : 4 * (unitsInOne * (10 : ℚ) ^ (decimalMagnitude x.units - 17)) <
      (below + 2) * 2 ^ x.scale := by
    refine lt_of_le_of_lt (mul_le_mul_of_nonneg_left hpower (by norm_num)) ?_
    rw [hunits, ← mul_div_assoc, div_lt_iff₀ (by positivity), mul_right_comm, ← mul_assoc]
    refine mul_lt_mul_of_pos_right ?_ hgap
    rcases hbelow with rfl | ⟨rfl, hedge⟩
    · have hdigits : (2 : ℚ) ^ 53 < 10 ^ 16 := by norm_num
      push_cast
      linarith
    · rw [hedge]
      norm_num
  have hfinal : (x.roundingInterval.low : ℚ) * (gridScale (decimalMagnitude x.units - 17)).2 +
        (gridScale (decimalMagnitude x.units - 17)).1 <
      x.roundingInterval.high * (gridScale (decimalMagnitude x.units - 17)).2 := by
    rw [gridScale_eq, ← add_mul]
    refine mul_lt_mul_of_pos_right ?_ (by exact_mod_cast gridScale_pos _)
    linarith
  exact_mod_cast hfinal

/-- **The shortest decimal is in the interval.** -/
theorem has_shortest (hx : x.units ≠ 0) : x.roundingInterval.Has (quarters (shortest tie x)) := by
  obtain ⟨below, hlow, hvalue, hhigh, hbelow⟩ := roundingInterval_eq hx
  have hgap := Nat.two_pow_pos x.scale
  have hbelow : 0 < below * 2 ^ x.scale :=
    Nat.mul_pos (by rcases hbelow with rfl | ⟨rfl, -⟩ <;> decide) hgap
  have hsome : ∃ d, (List.range 17).findSome? (fun k => gridPoint? tie x.roundingInterval
      (decimalMagnitude x.units - (k + 1 : Nat))) = some d := by
    refine Option.ne_none_iff_exists'.1 fun hnone => ?_
    exact gridPoint?_ne_none (by omega) (by omega) (width_lt hx)
      (List.findSome?_eq_none_iff.1 hnone 16 (by decide))
  obtain ⟨d, hd⟩ := hsome
  obtain ⟨k, -, hpoint⟩ := List.exists_of_findSome?_eq_some hd
  unfold shortest quarters
  simp only
  rw [hd, Option.getD_some, Decimal.toRat_normalize]
  exact has_of_gridPoint? hpoint

/-! ### Reading a decimal -/

/-- The end of the interval around a finite positive double is in the range of decimals that are read digit
by digit. -/
theorem high_le (hfinite : x.isFinite = true) (hx : x.units ≠ 0) :
    x.roundingInterval.high ≤ 4 * unitsInOne * 2 ^ 1025 := by
  obtain ⟨-, -, -, hhigh, -⟩ := roundingInterval_eq hx
  have hscale : x.scale ≤ unitPlaces + 971 := by
    have hbits := scale_add_significand_lt hfinite
    have hnormal := x.scale_eq_zero_or
    have hplaces : unitPlaces + 971 = 2045 := rfl
    omega
  have hgap : 2 ^ x.scale ≤ unitsInOne * 2 ^ 971 := by
    rw [unitsInOne_eq, ← Nat.pow_add]
    exact Nat.pow_le_pow_right (by decide) hscale
  have hunits := Nat.mul_le_mul_right (2 ^ x.scale) x.significand_lt.le
  rw [← units_eq] at hunits
  have hpow : unitsInOne * 2 ^ 1025 = 2 ^ 54 * (unitsInOne * 2 ^ 971) := by
    rw [Nat.mul_left_comm, ← Nat.pow_add]
  rw [hhigh, Nat.mul_assoc, hpow]
  omega

/-- What is in the interval around a finite positive double is in the range of decimals that are read digit
by digit. -/
theorem leadingPower_bounds (hfinite : x.isFinite = true) (hx : x.units ≠ 0)
    (h : x.roundingInterval.Has (quarters d)) :
    d.digits ≠ 0 ∧ ¬ 310 < d.leadingPower ∧ ¬ d.leadingPower < -330 := by
  obtain ⟨hle, hge⟩ := h.bounds
  have hone := gap_le_units hx
  have hlow : (2 : ℚ) ≤ x.roundingInterval.low := by
    obtain ⟨below, hlow, -, -, hbelow⟩ := roundingInterval_eq hx
    have hgap := Nat.two_pow_pos x.scale
    have : 2 ≤ x.roundingInterval.low := by rcases hbelow with rfl | ⟨rfl, -⟩ <;> omega
    exact_mod_cast this
  have hhigh : (x.roundingInterval.high : ℚ) ≤ 4 * unitsInOne * 2 ^ 1025 := by
    exact_mod_cast high_le hfinite hx
  have hlargest : ((2 ^ 1025 : Nat) : ℚ) < ((10 ^ 311 : Nat) : ℚ) := by
    exact_mod_cast (show 2 ^ 1025 < 10 ^ 311 by decide +kernel)
  have hleast : ((2 * unitsInOne : Nat) : ℚ) ≤ ((10 ^ 330 : Nat) : ℚ) := by
    exact_mod_cast (show 2 * unitsInOne ≤ 10 ^ 330 by decide +kernel)
  have hw : (0 : ℚ) < unitsInOne := by exact_mod_cast unitsInOne_pos
  unfold quarters at hle hge
  rw [Nat.cast_pow, Nat.cast_pow, Nat.cast_ofNat, Nat.cast_ofNat] at hlargest
  rw [Nat.cast_mul, Nat.cast_pow, Nat.cast_ofNat, Nat.cast_ofNat] at hleast
  generalize unitsInOne = w at *
  have hdigits : d.digits ≠ 0 := fun h0 => by
    rw [Decimal.toRat, h0, Nat.cast_zero, zero_mul, mul_zero] at hle
    linarith
  obtain ⟨hfirst, hnext⟩ := Decimal.zpow_leadingPower_le hdigits
  refine ⟨hdigits, fun hlarge => ?_, fun hsmall => ?_⟩
  · have hpow : (10 : ℚ) ^ 311 ≤ 10 ^ d.leadingPower := by
      rw [← zpow_natCast]
      exact zpow_le_zpow_right₀ (by norm_num) hlarge
    have hvalue : d.toRat ≤ 2 ^ 1025 := le_of_mul_le_mul_left (hge.trans hhigh) (by positivity)
    exact absurd (hlargest.trans_le (hpow.trans hfirst)) (not_lt.2 hvalue)
  · have hpow : (10 : ℚ) ^ (d.leadingPower + 1) ≤ (10 ^ 330)⁻¹ := by
      rw [← zpow_natCast, ← zpow_neg]
      exact zpow_le_zpow_right₀ (by norm_num) hsmall
    have hvalue : d.toRat * 10 ^ 330 < 1 := by
      rw [← lt_div_iff₀ (by positivity), one_div]
      exact hnext.trans_le hpow
    have hpositive : 0 ≤ d.toRat := by
      unfold Decimal.toRat
      positivity
    have hproduct : d.toRat * (2 * w) ≤ d.toRat * 10 ^ 330 := mul_le_mul_of_nonneg_left hleast hpositive
    generalize (10 : ℚ) ^ 330 = ten at hvalue hproduct
    linarith

/-- **Rounding a decimal.** A decimal in the interval around a finite positive double is read as the
double. -/
theorem ofDecimal_eq (hfinite : x.isFinite = true) (hx : x.units ≠ 0)
    (h : x.roundingInterval.Has (quarters d)) : ofDecimal x.negative d = x := by
  obtain ⟨hdigits, hlarge, hsmall⟩ := leadingPower_bounds hfinite hx h
  have heq := ofUnits_eq hfinite (Nat.pow_pos (by decide)) ((has_quarters_iff d).1 h)
  unfold ofDecimal
  simp only
  rw [if_neg hdigits, if_neg hlarge, if_neg hsmall]
  unfold ofRatio
  split
  · next hpower =>
    rw [show (-d.power).toNat = 0 by omega, Nat.pow_zero] at heq
    rw [Nat.pow_eq]
    exact heq
  · next hpower =>
    rw [show d.power.toNat = 0 by omega, Nat.pow_zero, Nat.mul_one] at heq
    rw [Nat.pow_eq]
    exact heq

/-! ### Reading a text -/

/-- Digits alone are a whole number. -/
theorem parseDecimal?_digits {cs : List Char} (hne : cs ≠ []) (hcs : ∀ c ∈ cs, c.isDigit = true) :
    parseDecimal? cs = some ⟨Decimal.readDigits cs, 0⟩ := by
  unfold parseDecimal?
  simp only
  rw [List.takeWhile_eq_self_iff.2 hcs, List.dropWhile_eq_nil_iff.2 hcs]
  simp [hne, parseExponent?]

/-- Digits around a point are a number with as many decimals as there are digits after it. -/
theorem parseDecimal?_point {as bs : List Char} (hne : as ≠ []) (has : ∀ c ∈ as, c.isDigit = true)
    (hbs : ∀ c ∈ bs, c.isDigit = true) :
    parseDecimal? (as ++ '.' :: bs) = some ⟨Decimal.readDigits (as ++ bs), -(bs.length : Int)⟩ := by
  have hpoint : ∀ cs : List Char, ('.' :: cs).takeWhile Char.isDigit = [] ∧
      ('.' :: cs).dropWhile Char.isDigit = '.' :: cs := fun cs => ⟨rfl, rfl⟩
  unfold parseDecimal?
  simp only
  rw [List.takeWhile_append_of_pos has, List.dropWhile_append_of_pos has, (hpoint bs).1, (hpoint bs).2,
    List.append_nil]
  simp only
  rw [List.takeWhile_eq_self_iff.2 hbs, List.dropWhile_eq_nil_iff.2 hbs]
  simp [hne, parseExponent?]

/-- The positional text of a decimal begins with a digit, is made of digits and points, and has the value
of the decimal. -/
theorem parseDecimal?_positional (d : Decimal) :
    (∃ c cs, d.positional = c :: cs ∧ c.isDigit = true) ∧
      (∀ c ∈ d.positional, c.isDigit = true ∨ c = '.') ∧
        ∃ d', parseDecimal? d.positional = some d' ∧ d'.toRat = d.toRat := by
  have hdigits : ∀ c ∈ Decimal.digitChars d.digits, c.isDigit = true := fun c =>
    Decimal.isDigit_of_mem_digitChars
  have hne : Decimal.digitChars d.digits ≠ [] := Nat.toDigits_ne_nil
  have hread := Decimal.readDigits_digitChars d.digits
  unfold Decimal.positional
  simp only
  generalize Decimal.digitChars d.digits = ds at *
  have hhead : ∀ cs : List Char, ∃ c cs', ds ++ cs = c :: cs' ∧ c.isDigit = true := fun cs => by
    obtain ⟨c, ds', rfl⟩ := List.exists_cons_of_ne_nil hne
    exact ⟨c, ds' ++ cs, rfl, hdigits c List.mem_cons_self⟩
  split
  · next hpower =>
    have hall : ∀ c ∈ ds ++ List.replicate d.power.toNat '0', c.isDigit = true := fun c hc =>
      (List.mem_append.1 hc).elim (hdigits c) Decimal.isDigit_of_mem_zeros
    refine ⟨hhead _, fun c hc => .inl (hall c hc), _, parseDecimal?_digits (by simp [hne]) hall, ?_⟩
    rw [Decimal.readDigits_append_zeros, hread]
    obtain ⟨n, hn⟩ := Int.eq_ofNat_of_zero_le hpower
    simp [Decimal.toRat, hn]
  · next hpower =>
    have hplaces : ∀ n : Nat, n = (-d.power).toNat → -(n : Int) = d.power := fun n h => by omega
    split
    · next hlt =>
      have htake : ∀ c ∈ ds.take (ds.length - (-d.power).toNat), c.isDigit = true := fun c hc =>
        hdigits c (List.mem_of_mem_take hc)
      have hdrop : ∀ c ∈ ds.drop (ds.length - (-d.power).toNat), c.isDigit = true := fun c hc =>
        hdigits c (List.mem_of_mem_drop hc)
      have hnetake : ds.take (ds.length - (-d.power).toNat) ≠ [] := by
        rw [ne_eq, List.take_eq_nil_iff, not_or]
        exact ⟨by omega, hne⟩
      refine ⟨?_, fun c hc => ?_, _, parseDecimal?_point hnetake htake hdrop, ?_⟩
      · obtain ⟨c, cs, hcs⟩ := List.exists_cons_of_ne_nil hnetake
        refine ⟨c, cs ++ '.' :: ds.drop (ds.length - (-d.power).toNat), by rw [hcs]; rfl, htake c ?_⟩
        rw [hcs]
        exact List.mem_cons_self
      · rcases List.mem_append.1 hc with hc | hc
        · exact .inl (htake c hc)
        · exact (List.mem_cons.1 hc).symm.imp_left (hdrop c)
      · rw [List.take_append_drop, hread, hplaces _ (by rw [List.length_drop]; omega)]
    · next hle =>
      have hafter : ∀ c ∈ List.replicate ((-d.power).toNat - ds.length) '0' ++ ds, c.isDigit = true :=
        fun c hc => (List.mem_append.1 hc).elim Decimal.isDigit_of_mem_zeros (hdigits c)
      have hzero : ∀ c ∈ ['0'], c.isDigit = true := fun c => Decimal.isDigit_of_mem_zeros (k := 1)
      have hparse := parseDecimal?_point (List.cons_ne_nil '0' []) hzero hafter
      refine ⟨⟨'0', _, rfl, rfl⟩, fun c hc => ?_, _, hparse, ?_⟩
      · rcases List.mem_cons.1 hc with rfl | hc
        · exact .inl rfl
        · exact (List.mem_cons.1 hc).symm.imp_left (hafter c)
      · rw [show ['0'] = List.replicate 1 '0' from rfl, Decimal.readDigits_zeros_append,
          Decimal.readDigits_zeros_append, hread,
          hplaces _ (by rw [List.length_append, List.length_replicate]; omega)]

/-- Lower case leaves digits as they are. -/
theorem toLower_of_isDigit {c : Char} (h : c.isDigit = true) : c.toLower = c := by
  have hnine : c.val ≤ '9'.val := of_decide_eq_true (Bool.and_eq_true_iff.1 h).2
  unfold Char.toLower
  exact dif_neg fun hupper => absurd (UInt32.le_trans hupper.1 hnine) (by decide)

/-- A sign is taken from what begins with a digit. -/
theorem takeSign_signed (negative : Bool) {c : Char} (hc : c.isDigit = true) (cs : List Char) :
    takeSign ((if negative then ['-'] else []) ++ c :: cs) = (negative, c :: cs) := by
  cases negative with
  | true => rfl
  | false =>
    show takeSign (c :: cs) = _
    unfold takeSign
    split
    · next heq => obtain ⟨rfl, -⟩ := List.cons.inj heq; cases hc
    · next heq => obtain ⟨rfl, -⟩ := List.cons.inj heq; cases hc
    · rfl

/-- A sign, and a number that begins with a digit, are read one after the other. -/
theorem parse?_signed {body : List Char} (negative : Bool)
    (hbody : ∃ c cs, body = c :: cs ∧ c.isDigit = true) :
    parse? (String.ofList ((if negative then ['-'] else []) ++ body)) =
      (parseDecimal? body).map (ofDecimal negative) := by
  obtain ⟨c, cs, rfl, hc⟩ := hbody
  have hword : ∀ w : String, w.toList.head?.all (fun d => !d.isDigit) = true →
      String.ofList ((c :: cs).map Char.toLower) ≠ w := by
    rintro w hw rfl
    rw [String.toList_ofList, List.map_cons, toLower_of_isDigit hc] at hw
    simp [hc] at hw
  unfold parse?
  rw [String.toList_ofList, takeSign_signed negative hc]
  simp only
  split
  · next heq => exact absurd heq (hword "inf" (by decide))
  · next heq => exact absurd heq (hword "infinity" (by decide))
  · next heq => exact absurd heq (hword "nan" (by decide))
  · rfl

/-- A number without units is a zero. -/
theorem zero_of_units (h : x.units = 0) : zero x.negative = x := by
  have hm : x.significand = 0 := by
    rw [units_eq] at h
    exact (Nat.mul_eq_zero.1 h).resolve_right (Nat.two_pow_pos _).ne'
  have hs : x.scale = 0 := x.scale_eq_zero_or.resolve_right (by omega)
  have hbits := ofSignedBits_scale x
  rwa [hm, hs] at hbits

/-- The text of a finite number is its sign and the positional text of its shortest decimal, which begins
with a digit, is made of digits and points, and is read as the number. -/
theorem text_of_isFinite (hx : x.isFinite = true) : ∃ body : List Char,
    x.text = String.ofList ((if x.negative then ['-'] else []) ++ body) ∧
      (∃ c cs, body = c :: cs ∧ c.isDigit = true) ∧ (∀ c ∈ body, c.isDigit = true ∨ c = '.') ∧
        (parseDecimal? body).map (ofDecimal x.negative) = some x := by
  have hexponent : x.exponent ≠ 2047 := by simpa [isFinite] using hx
  have hnan : x.isNaN = false := by simp [isNaN, hexponent]
  have hinfinite : x.isInfinite = false := by simp [isInfinite, hexponent]
  unfold text
  simp only [hnan, hinfinite, Bool.false_eq_true, if_false]
  by_cases hunits : x.units = 0
  · rw [if_pos hunits]
    have hzero : ∀ c ∈ ['0'], c.isDigit = true := fun c => Decimal.isDigit_of_mem_zeros (k := 1)
    refine ⟨['0'], rfl, ⟨'0', [], rfl, rfl⟩, fun c hc => .inl (hzero c hc), ?_⟩
    rw [parseDecimal?_digits (List.cons_ne_nil '0' []) hzero]
    exact congrArg some (zero_of_units hunits)
  · rw [if_neg hunits]
    obtain ⟨hhead, hchars, d, hparse, hvalue⟩ := parseDecimal?_positional (shortest .up x)
    refine ⟨_, rfl, hhead, hchars, ?_⟩
    have hhas : x.roundingInterval.Has (quarters d) := by
      unfold quarters
      rw [hvalue]
      exact has_shortest hunits
    rw [hparse, Option.map_some, ofDecimal_eq hx hunits hhas]

/-- **The text of a finite double is read as the double.** -/
theorem parse?_text (hx : x.isFinite = true) : parse? x.text = some x := by
  obtain ⟨body, htext, hhead, -, hparse⟩ := text_of_isFinite hx
  rw [htext, parse?_signed _ hhead, hparse]

/-- The text of a finite double has digits, points and dashes only. -/
theorem mem_text (hx : x.isFinite = true) :
    ∀ c ∈ x.text.toList, c.isDigit = true ∨ c = '.' ∨ c = '-' := by
  obtain ⟨body, htext, -, hchars, -⟩ := text_of_isFinite hx
  intro c hc
  rw [htext, String.toList_ofList] at hc
  rcases List.mem_append.1 hc with hc | hc
  · split at hc
    · exact .inr (.inr (List.mem_singleton.1 hc))
    · cases hc
  · exact (hchars c hc).imp_right .inl

end Binary64

end EntityGraph
