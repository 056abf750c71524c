import EntityGraph.Binary64.Decimal
import Mathlib.Data.Nat.Dist

/-!
# Rounding to a double

A finite double has a significand below `2 ^ 53` and a scale, a power of two that the significand is
multiplied by; only at the least scale is the significand below `2 ^ 52`. Rounding a quotient finds the
scale at which the quotient has 53 bits, and there the nearest whole significand. So no finite double is
nearer to the quotient than the one that it is rounded to.

* `units_ofSignedBits` — the bits of a significand and a scale are those of their product;
* `excessBits_eq` — the scale of a number;
* `dist_roundEven_le` — no whole multiple is nearer than the rounded one;
* `ofUnits_nearest` — no finite double is nearer than the rounded one.
-/

namespace EntityGraph

namespace Binary64

variable {x : Binary64} {negative : Bool} {n d m s : Nat}

/-! ### Significands and scales -/

/-- The power of two that the significand of a finite number is multiplied by. -/
def scale (x : Binary64) : Nat :=
  x.exponent - 1

/-- The significand of a finite number, as a whole number. -/
def significand (x : Binary64) : Nat :=
  if x.exponent = 0 then x.fraction else Nat.pow 2 52 + x.fraction

/-- Fractions have 52 bits. -/
theorem fraction_lt (x : Binary64) : x.fraction < 2 ^ 52 :=
  Nat.mod_lt _ (by decide)

/-- Exponents have eleven bits. -/
theorem exponent_lt (x : Binary64) : x.exponent < 2 ^ 11 :=
  Nat.mod_lt _ (by decide)

/-- A finite number is its significand at its scale. -/
theorem units_eq (x : Binary64) : x.units = x.significand * 2 ^ x.scale := by
  unfold units significand scale
  by_cases h : x.exponent = 0 <;> simp [h, Nat.pow_eq]

/-- Significands have 53 bits. -/
theorem significand_lt (x : Binary64) : x.significand < 2 ^ 53 := by
  have := x.fraction_lt
  unfold significand
  rw [Nat.pow_eq]
  split <;> omega

/-- Only at the least scale are significands shorter. -/
theorem scale_eq_zero_or (x : Binary64) : x.scale = 0 ∨ 2 ^ 52 ≤ x.significand := by
  unfold scale significand
  rw [Nat.pow_eq]
  split <;> omega

section ofSignedBits

variable (hm : m < 2 ^ 63)
include hm

/-- A sign bit and 63 others are a number of 64 bits. -/
theorem toNat_ofSignedBits : (ofSignedBits negative m).bits.toNat =
    m + if negative then 2 ^ 63 else 0 := by
  unfold ofSignedBits
  rw [UInt64.toNat_ofNat', Nat.pow_eq]
  apply Nat.mod_eq_of_lt
  split <;> omega

/-- The sign bit is the first one. -/
theorem negative_ofSignedBits : (ofSignedBits negative m).negative = negative := by
  unfold Binary64.negative
  rw [toNat_ofSignedBits hm, Nat.pow_eq]
  cases negative
  · exact decide_eq_false (by simpa using hm)
  · exact decide_eq_true (by simp)

/-- The exponent stands before the last 52 bits. -/
theorem exponent_ofSignedBits : (ofSignedBits negative m).exponent = m / 2 ^ 52 := by
  unfold exponent
  rw [toNat_ofSignedBits hm, Nat.pow_eq, Nat.pow_eq]
  split <;> omega

/-- The fraction is the last 52 bits. -/
theorem fraction_ofSignedBits : (ofSignedBits negative m).fraction = m % 2 ^ 52 := by
  unfold fraction
  rw [toNat_ofSignedBits hm, Nat.pow_eq]
  split <;> omega

end ofSignedBits

/-- A number has the bits of its sign, its exponent and its fraction. -/
theorem ofSignedBits_self (x : Binary64) :
    ofSignedBits x.negative (x.exponent * 2 ^ 52 + x.fraction) = x := by
  have hlt := x.bits.toNat_lt
  unfold ofSignedBits exponent fraction Binary64.negative
  simp only [Nat.pow_eq, decide_eq_true_eq]
  rw [show x.bits.toNat / 2 ^ 52 % 2 ^ 11 * 2 ^ 52 + x.bits.toNat % 2 ^ 52 +
    (if 2 ^ 63 ≤ x.bits.toNat then 2 ^ 63 else 0) = x.bits.toNat by split <;> omega]
  exact congrArg mk (UInt64.ofNat_toNat)

/-- The bits of a significand and a scale, added, are those of a number, also where the significand is
that of the next power of two. -/
theorem units_ofSignedBits (hle : m ≤ 2 ^ 53) (hnormal : s = 0 ∨ 2 ^ 52 ≤ m)
    (hlt : s * 2 ^ 52 + m < 2 ^ 63) :
    (ofSignedBits negative (s * 2 ^ 52 + m)).units = m * 2 ^ s := by
  unfold units
  rw [exponent_ofSignedBits hlt, fraction_ofSignedBits hlt]
  simp only [Nat.pow_eq]
  by_cases hsmall : m < 2 ^ 52
  · obtain rfl := hnormal.resolve_right (by omega)
    rw [if_pos (by omega)]
    omega
  · by_cases hnext : m < 2 ^ 53
    · have hexponent : (s * 2 ^ 52 + m) / 2 ^ 52 = s + 1 := by omega
      rw [hexponent, if_neg (by omega), Nat.add_sub_cancel]
      exact congrArg (· * 2 ^ s) (by omega)
    · obtain rfl : m = 2 ^ 53 := by omega
      have hexponent : (s * 2 ^ 52 + 2 ^ 53) / 2 ^ 52 = s + 1 + 1 := by omega
      have hfraction : (s * 2 ^ 52 + 2 ^ 53) % 2 ^ 52 = 0 := by omega
      rw [hexponent, hfraction, if_neg (by omega), Nat.add_sub_cancel, Nat.add_zero, ← Nat.pow_add,
        ← Nat.pow_add]
      exact congrArg (2 ^ ·) (by omega)

/-- Bits below those of infinity are those of a finite number. -/
theorem isFinite_ofSignedBits (hlt : m < 2047 * 2 ^ 52) : (ofSignedBits negative m).isFinite = true := by
  unfold isFinite
  rw [exponent_ofSignedBits (by omega), bne_iff_ne]
  omega

/-! ### The scale of a number -/

/-- One is a power of two of the least double. -/
theorem unitsInOne_eq : unitsInOne = 2 ^ unitPlaces := by
  unfold unitsInOne
  generalize unitPlaces = k
  rfl

/-- Without its excess bits a number has 53 bits, or fewer if there is no excess. -/
theorem excessBits_spec (n : Nat) : n < 2 ^ (excessBits n + 53) ∧
    (excessBits n = 0 ∨ 2 ^ (excessBits n + 52) ≤ n) := by
  unfold excessBits
  refine ⟨Nat.lt_of_lt_of_le Nat.lt_log2_self (Nat.pow_le_pow_right (by decide) (by omega)), ?_⟩
  refine or_iff_not_imp_left.2 fun h => ?_
  have hne : n ≠ 0 := fun h0 => h (by rw [h0]; decide)
  exact Nat.le_trans (Nat.pow_le_pow_right (by decide) (by omega)) (Nat.log2_self_le hne)

/-- A number below a power of two has no more excess bits than that. -/
theorem excessBits_le (h : n < 2 ^ (s + 53)) : excessBits n ≤ s := by
  rcases (excessBits_spec n).2 with h0 | hle
  · omega
  · have := (Nat.pow_lt_pow_iff_right (by decide)).1 (Nat.lt_of_le_of_lt hle h)
    omega

/-- The excess bits of a number are those without which it has 53 bits. -/
theorem excessBits_eq (hlt : n < 2 ^ (s + 53)) (hnormal : s = 0 ∨ 2 ^ (s + 52) ≤ n) :
    excessBits n = s := by
  refine Nat.le_antisymm (excessBits_le hlt) ?_
  rcases hnormal with h0 | hle
  · omega
  · have := (Nat.pow_lt_pow_iff_right (by decide)).1
      (Nat.lt_of_le_of_lt hle (excessBits_spec n).1)
    omega

/-! ### The nearest whole number -/

/-- A quotient is rounded down or up, to the side on which the remainder is no more than half. -/
theorem roundEven_cases (n d : Nat) :
    (roundEven n d = n / d ∧ 2 * (n % d) ≤ d ∧ (2 * (n % d) = d → n / d % 2 = 0)) ∨
      (roundEven n d = n / d + 1 ∧ d ≤ 2 * (n % d) ∧ (2 * (n % d) = d → n / d % 2 = 1)) := by
  unfold roundEven
  simp only
  split
  · exact .inl ⟨rfl, by omega⟩
  · split
    · exact .inr ⟨rfl, by omega⟩
    · rcases Nat.mod_two_eq_zero_or_one (n / d) with h | h <;> rw [h]
      · exact .inl ⟨rfl, by omega⟩
      · exact .inr ⟨rfl, by omega⟩

/-- A multiple of a number is not above one below, or not below the next one. -/
theorem mul_le_or_le (k q d : Nat) : k * d ≤ q * d ∨ q * d + d ≤ k * d := by
  rcases Nat.lt_or_ge q k with h | h
  · exact .inr (Nat.succ_mul q d ▸ Nat.mul_le_mul_right d h)
  · exact .inl (Nat.mul_le_mul_right d h)

/-- No multiple of the divisor is nearer to a number than the rounded one. -/
theorem dist_roundEven_le (hd : 0 < d) (n k : Nat) :
    Nat.dist (roundEven n d * d) n ≤ Nat.dist (k * d) n := by
  have hdiv := Nat.div_add_mod' n d
  have hmod := Nat.mod_lt n hd
  have hside := mul_le_or_le k (n / d) d
  unfold Nat.dist
  rcases roundEven_cases n d with ⟨hq, hr, -⟩ | ⟨hq, hr, -⟩ <;> rw [hq]
  · omega
  · rw [Nat.succ_mul]
    omega

/-- A quotient is rounded to a number that it is within half of, an even one if it is just half away. -/
theorem roundEven_eq {q : Nat} (hd : 0 < d) (hlow : 2 * (q * d) ≤ 2 * n + d)
    (hhigh : 2 * n ≤ 2 * (q * d) + d)
    (htie : 2 * (q * d) = 2 * n + d ∨ 2 * n = 2 * (q * d) + d → q % 2 = 0) : roundEven n d = q := by
  have hdiv := Nat.div_add_mod' n d
  unfold roundEven
  rcases Nat.lt_or_ge n (q * d) with h | h
  · obtain ⟨p, rfl⟩ : ∃ p, q = p + 1 := Nat.exists_eq_add_one_of_ne_zero (by rintro rfl; omega)
    have hsucc : (p + 1) * d = p * d + d := Nat.succ_mul p d
    have hquotient : n / d = p := Nat.div_eq_of_lt_le (by omega) h
    rw [hquotient] at hdiv ⊢
    simp only
    split
    · omega
    · split <;> omega
  · have hsucc : (q + 1) * d = q * d + d := Nat.succ_mul q d
    have hlt : n < (q + 1) * d := by omega
    have hquotient : n / d = q := Nat.div_eq_of_lt_le h hlt
    rw [hquotient] at hdiv ⊢
    simp only
    split
    · rfl
    · split <;> omega

/-- A quotient of 53 bits or fewer is rounded to such a number, or to the next power of two. -/
theorem roundEven_bounds (hd : 0 < d) (hlt : n < 2 ^ 53 * d) (hle : s = 0 ∨ 2 ^ 52 * d ≤ n) :
    roundEven n d ≤ 2 ^ 53 ∧ (s = 0 ∨ 2 ^ 52 ≤ roundEven n d) := by
  have hupper : n / d < 2 ^ 53 := (Nat.div_lt_iff_lt_mul hd).2 hlt
  have hlower : s = 0 ∨ 2 ^ 52 ≤ n / d := hle.imp_right (Nat.le_div_iff_mul_le hd).2
  rcases roundEven_cases n d with ⟨hq, -⟩ | ⟨hq, -⟩ <;> rw [hq] <;> omega

/-! ### The nearest double -/

/-- A quotient that has 53 bits at a scale is rounded to a significand there. -/
theorem ofUnits_eq_of_scale (hd : 0 < d) (hlt : n < 2 ^ 53 * (d * 2 ^ s))
    (hnormal : s = 0 ∨ 2 ^ 52 * (d * 2 ^ s) ≤ n) (hm : roundEven n (d * 2 ^ s) = m)
    (hfinite : s * 2 ^ 52 + m < 2047 * 2 ^ 52) :
    ofUnits negative n d = ofSignedBits negative (s * 2 ^ 52 + m) := by
  have hmul : ∀ k, 2 ^ k * (d * 2 ^ s) = 2 ^ (s + k) * d := fun k => by
    rw [Nat.pow_add]
    ac_rfl
  rw [hmul] at hlt hnormal
  have hscale : excessBits (n / d) = s := excessBits_eq ((Nat.div_lt_iff_lt_mul hd).2 hlt)
    (hnormal.imp_right (Nat.le_div_iff_mul_le hd).2)
  unfold ofUnits
  simp only [Nat.pow_eq]
  rw [hscale, hm, Nat.min_eq_left (by omega)]

/-- At the scale of a quotient, it has 53 bits. -/
theorem quotient_scaled (hd : 0 < d) (n : Nat) :
    n < 2 ^ 53 * (d * 2 ^ excessBits (n / d)) ∧
      (excessBits (n / d) = 0 ∨ 2 ^ 52 * (d * 2 ^ excessBits (n / d)) ≤ n) := by
  obtain ⟨hlt, hnormal⟩ := excessBits_spec (n / d)
  have hmul : ∀ k, 2 ^ k * (d * 2 ^ excessBits (n / d)) = 2 ^ (excessBits (n / d) + k) * d := fun k => by
    rw [Nat.pow_add]
    ac_rfl
  rw [hmul, hmul]
  exact ⟨(Nat.div_lt_iff_lt_mul hd).1 hlt, hnormal.imp_right (Nat.le_div_iff_mul_le hd).1⟩

/-- Rounding keeps the sign. -/
theorem negative_ofUnits : (ofUnits negative n d).negative = negative :=
  negative_ofSignedBits (Nat.lt_of_le_of_lt (Nat.min_le_right _ _) (by decide))

/-- A quotient that is not too large is not rounded to infinity. -/
theorem isFinite_ofUnits (hd : 0 < d) (hs : s < 2045) (hlt : n / d < 2 ^ (s + 53)) :
    (ofUnits negative n d).isFinite = true := by
  have hscale := excessBits_le hlt
  obtain ⟨hbelow, hnormal⟩ := quotient_scaled hd n
  obtain ⟨hle, -⟩ := roundEven_bounds (Nat.mul_pos hd (Nat.two_pow_pos _)) hbelow hnormal
  unfold ofUnits
  simp only [Nat.pow_eq]
  refine isFinite_ofSignedBits (Nat.lt_of_le_of_lt (Nat.min_le_left _ _) ?_)
  omega

/-- The magnitude that a quotient is rounded to, if it is not infinite. -/
theorem units_ofUnits (hd : 0 < d) (hfinite : (ofUnits negative n d).isFinite = true) :
    (ofUnits negative n d).units =
      roundEven n (d * 2 ^ excessBits (n / d)) * 2 ^ excessBits (n / d) := by
  have hD : 0 < d * 2 ^ excessBits (n / d) := Nat.mul_pos hd (Nat.two_pow_pos _)
  obtain ⟨hlt, hnormal⟩ := quotient_scaled hd n
  obtain ⟨hle, hnormal⟩ := roundEven_bounds hD hlt hnormal
  unfold ofUnits at hfinite ⊢
  simp only [Nat.pow_eq] at hfinite ⊢
  generalize roundEven n (d * 2 ^ excessBits (n / d)) = m at *
  generalize excessBits (n / d) = s at *
  have hsmall : s * 2 ^ 52 + m < 2047 * 2 ^ 52 := by
    by_contra hge
    rw [Nat.min_eq_right (by omega)] at hfinite
    unfold isFinite at hfinite
    rw [exponent_ofSignedBits (by decide)] at hfinite
    simp at hfinite
  rw [Nat.min_eq_left (by omega)]
  exact units_ofSignedBits hle hnormal (by omega)

/-- A finite double is a multiple of a power of two, or below the doubles of that scale. -/
theorem units_grid (y : Binary64) (s : Nat) :
    (∃ k, y.units = k * 2 ^ s) ∨ (s ≠ 0 ∧ y.units < 2 ^ 52 * 2 ^ s) := by
  rw [units_eq]
  rcases Nat.lt_or_ge y.scale s with h | h
  · refine .inr ⟨by omega, Nat.lt_of_lt_of_le
      (Nat.mul_lt_mul_of_pos_right y.significand_lt (Nat.two_pow_pos _)) ?_⟩
    rw [← Nat.pow_add, ← Nat.pow_add]
    exact Nat.pow_le_pow_right (by decide) (by omega)
  · refine .inl ⟨y.significand * 2 ^ (y.scale - s), ?_⟩
    rw [Nat.mul_assoc, ← Nat.pow_add, Nat.sub_add_cancel h]

/-- **The nearest double.** No finite double is nearer to a quotient than the one that it is rounded to. -/
theorem ofUnits_nearest (hd : 0 < d) (hfinite : (ofUnits negative n d).isFinite = true) (y : Binary64) :
    Nat.dist ((ofUnits negative n d).units * d) n ≤ Nat.dist (y.units * d) n := by
  have hD : 0 < d * 2 ^ excessBits (n / d) := Nat.mul_pos hd (Nat.two_pow_pos _)
  obtain ⟨-, hnormal⟩ := quotient_scaled hd n
  have hmul : ∀ k, k * 2 ^ excessBits (n / d) * d = k * (d * 2 ^ excessBits (n / d)) := fun k => by
    ac_rfl
  rw [units_ofUnits hd hfinite, hmul]
  rcases units_grid y (excessBits (n / d)) with ⟨k, hk⟩ | ⟨hs, hlt⟩
  · rw [hk, hmul]
    exact dist_roundEven_le hD n k
  -- A double of a smaller scale is below the least one of this scale, which the quotient is not.
  · have hle := hnormal.resolve_left hs
    have hbelow := Nat.mul_lt_mul_of_pos_right hlt hd
    rw [hmul] at hbelow
    have hnear := dist_roundEven_le hD n (2 ^ 52)
    unfold Nat.dist at hnear ⊢
    omega

/-! ### The interval around a double -/

/-- The bits of a number are those of its scale and its significand. -/
theorem ofSignedBits_scale (x : Binary64) :
    ofSignedBits x.negative (x.scale * 2 ^ 52 + x.significand) = x := by
  refine Eq.trans (congrArg (ofSignedBits x.negative) ?_) (ofSignedBits_self x)
  unfold scale significand
  rw [Nat.pow_eq]
  split <;> omega

/-- The bits of a finite number are below those of infinity. -/
theorem scale_add_significand_lt (h : x.isFinite = true) :
    x.scale * 2 ^ 52 + x.significand < 2047 * 2 ^ 52 := by
  have hfraction := x.fraction_lt
  have hexponent := x.exponent_lt
  unfold isFinite at h
  rw [bne_iff_ne] at h
  unfold scale significand
  rw [Nat.pow_eq]
  split <;> omega

/-- A number within half of the significand of a finite double, at its scale, is rounded to the double. -/
theorem ofUnits_eq_of_near (hx : x.isFinite = true) (hd : 0 < d)
    (hlow : 2 * (x.significand * (d * 2 ^ x.scale)) ≤ 2 * n + d * 2 ^ x.scale)
    (hhigh : 2 * n ≤ 2 * (x.significand * (d * 2 ^ x.scale)) + d * 2 ^ x.scale)
    (htie : 2 * (x.significand * (d * 2 ^ x.scale)) = 2 * n + d * 2 ^ x.scale ∨
      2 * n = 2 * (x.significand * (d * 2 ^ x.scale)) + d * 2 ^ x.scale → x.significand % 2 = 0)
    (hnormal : x.scale = 0 ∨ 2 ^ 52 * (d * 2 ^ x.scale) ≤ n) : ofUnits x.negative n d = x := by
  have hD : 0 < d * 2 ^ x.scale := Nat.mul_pos hd (Nat.two_pow_pos _)
  have hnext := Nat.mul_le_mul_right (d * 2 ^ x.scale) x.significand_lt
  rw [Nat.succ_mul] at hnext
  exact (ofUnits_eq_of_scale hd (by omega) hnormal (roundEven_eq hD hlow hhigh htie)
    (scale_add_significand_lt hx)).trans (ofSignedBits_scale x)

/-- Below a power of two, where the scale is the one before, a number within a quarter of the significand is
rounded to the power. -/
theorem ofUnits_eq_of_below (hx : x.isFinite = true) (hd : 0 < d) (hm : x.significand = 2 ^ 52)
    (hscale : x.scale ≠ 0) (hlow : 4 * (2 ^ 52 * (d * 2 ^ x.scale)) - d * 2 ^ x.scale ≤ 4 * n)
    (hside : n < 2 ^ 52 * (d * 2 ^ x.scale)) : ofUnits x.negative n d = x := by
  have hcarry : ∀ s, s * 2 ^ 52 + 2 ^ 53 = (s + 1) * 2 ^ 52 + 2 ^ 52 := fun s => by omega
  obtain ⟨s, hs⟩ := Nat.exists_eq_add_one_of_ne_zero hscale
  have hdouble : d * 2 ^ x.scale = 2 * (d * 2 ^ s) := by
    rw [hs, Nat.pow_succ]
    ac_rfl
  have hD : 0 < d * 2 ^ s := Nat.mul_pos hd (Nat.two_pow_pos _)
  have hbits := scale_add_significand_lt hx
  rw [hm, hs] at hbits
  rw [hdouble] at hlow hside
  have hbelow : n < 2 ^ 53 * (d * 2 ^ s) := by omega
  have hnormal : 2 ^ 52 * (d * 2 ^ s) ≤ n := by omega
  have hround : roundEven n (d * 2 ^ s) = 2 ^ 53 :=
    roundEven_eq hD (by omega) (by omega) fun _ => by decide
  have hfinite : s * 2 ^ 52 + 2 ^ 53 < 2047 * 2 ^ 52 := lt_of_eq_of_lt (hcarry s) hbits
  rw [ofUnits_eq_of_scale hd hbelow (.inr hnormal) hround hfinite, hcarry]
  have heq := ofSignedBits_scale x
  rwa [hm, hs] at heq

/-- What is in an interval is between its ends, and at an end only if the interval has its ends. -/
theorem RoundingInterval.of_contains {i : RoundingInterval} (h : i.contains n d = true) :
    i.low * d ≤ n ∧ n ≤ i.high * d ∧ (i.low * d = n ∨ n = i.high * d → i.closed = true) := by
  unfold contains at h
  cases hclosed : i.closed with
  | true =>
    simp only [hclosed, if_true, Bool.and_eq_true, decide_eq_true_eq] at h
    exact ⟨h.1, h.2, fun _ => rfl⟩
  | false =>
    simp only [hclosed, Bool.false_eq_true, if_false, Bool.and_eq_true, decide_eq_true_eq] at h
    exact ⟨h.1.le, h.2.le, fun heq => by omega⟩

/-- **Rounding into a double.** What is in the interval around a finite double is rounded to it. -/
theorem ofUnits_eq (hx : x.isFinite = true) (hd : 0 < d)
    (h : x.roundingInterval.contains (4 * n) d = true) : ofUnits x.negative n d = x := by
  obtain ⟨hlow, hhigh, hends⟩ := RoundingInterval.of_contains h
  have hunits : ∀ k, k * x.units * d = k * (x.significand * (d * 2 ^ x.scale)) := fun k => by
    rw [units_eq]
    ac_rfl
  have hgap : ∀ k, k * 2 ^ x.scale * d = k * (d * 2 ^ x.scale) := fun k => by ac_rfl
  have hone : 2 ^ x.scale * d = d * 2 ^ x.scale := Nat.mul_comm _ _
  have heven : x.fraction % 2 = 0 → x.significand % 2 = 0 := fun h => by
    unfold significand
    rw [Nat.pow_eq]
    split <;> omega
  unfold roundingInterval at hlow hhigh hends
  simp only [Nat.pow_eq, decide_eq_true_eq] at hlow hhigh hends
  change _ ≤ (4 * x.units + 2 * 2 ^ x.scale) * d at hhigh
  change _ ∨ _ = (4 * x.units + 2 * 2 ^ x.scale) * d → _ at hends
  rw [Nat.add_mul, hunits, hgap] at hhigh hends
  by_cases hedge : 1 < x.exponent ∧ x.fraction = 0
  · rw [if_pos hedge] at hlow hends
    change (4 * x.units - 2 ^ x.scale) * d ≤ _ at hlow
    rw [Nat.sub_mul, hunits, hone] at hlow
    have hm : x.significand = 2 ^ 52 := by
      unfold significand
      rw [if_neg (by omega), hedge.2, Nat.pow_eq, Nat.add_zero]
    rw [hm] at hlow hhigh
    by_cases hside : 2 ^ 52 * (d * 2 ^ x.scale) ≤ n
    · refine ofUnits_eq_of_near hx hd ?_ ?_ ?_ (.inr hside) <;> rw [hm] <;> omega
    · exact ofUnits_eq_of_below hx hd hm (by unfold scale; omega) hlow (Nat.not_le.1 hside)
  · rw [if_neg hedge] at hlow hends
    change (4 * x.units - 2 * 2 ^ x.scale) * d ≤ _ at hlow
    change (4 * x.units - 2 * 2 ^ x.scale) * d = _ ∨ _ → _ at hends
    rw [Nat.sub_mul, hunits, hgap] at hlow hends
    refine ofUnits_eq_of_near hx hd (by omega) (by omega) (fun h => heven (hends (by omega))) ?_
    refine or_iff_not_imp_left.2 fun hs => ?_
    have hm : 2 ^ 52 + 1 ≤ x.significand := by
      unfold scale at hs
      unfold significand
      rw [if_neg (by omega), Nat.pow_eq]
      omega
    have hmul := Nat.mul_le_mul_right (d * 2 ^ x.scale) hm
    rw [Nat.succ_mul] at hmul
    omega

end Binary64

end EntityGraph
