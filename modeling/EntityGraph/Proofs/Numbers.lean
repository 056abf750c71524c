import EntityGraph.Proofs.Results
import EntityGraph.Proofs.Rounding
import Mathlib.Data.ENat.Basic

/-!
# The number that a value denotes

Truth values count as one and zero, and every double but NaN is a number or an infinity. Where a numeric
kind has the number that a value denotes, the value is coerced to that number, so two rows whose keys are
different numbers of their kind show different entities. A number that the kind does not have is not always
refused: a whole double beyond the 64-bit words becomes the last word on its side, and a word that is
between two doubles becomes the nearer one. Coercion gives the nearest number of the kind then, and rows
whose keys have the same nearest number show one entity.

* `Quantity`, `Value.quantity?` — the number that a value denotes;
* `AtomicKind.Represents` — a kind has a value for a number;
* `AtomicKind.Nearest` — a number of a kind is the nearest to another one;
* `AtomicKind.coerce?_nearest` — coercion gives the nearest number of the kind;
* `AtomicKind.coerce?_eq_none_iff` — the numbers that coercion refuses.

## Main results

* `numbers_kept`: the nearest number is kept, which is the same one where the kind has it, and rows with
  different numbers for keys are told apart where the kind has both;
* `numbers_merged`: other rows are not.
-/

namespace EntityGraph

open Binary64

/-! ### Numbers -/

/-- A number as a multiple of the least positive double, or an infinity. -/
inductive Quantity where
  | finite (units : Int)
  | infinite (negative : Bool)
  deriving DecidableEq, Repr

namespace Quantity

variable {q r : Quantity}

/-- How far two numbers are apart. -/
def distance : Quantity → Quantity → ℕ∞
  | finite a, finite b => (a - b).natAbs
  | infinite a, infinite b => if a = b then 0 else ⊤
  | _, _ => ⊤

/-- Only equal numbers are not apart. -/
theorem distance_eq_zero_iff : q.distance r = 0 ↔ q = r := by
  cases q <;> cases r <;> simp [distance, sub_eq_zero]

end Quantity

namespace Binary64

/-- The units of a finite number with its sign. -/
def signedUnits (x : Binary64) : Int :=
  if x.negative then -x.units else x.units

/-- The number that a double denotes: there is none for NaN. -/
def quantity? (x : Binary64) : Option Quantity :=
  if x.isFinite then some (.finite x.signedUnits)
  else if x.isNaN then none
  else some (.infinite x.negative)

/-- A finite double denotes a finite number. -/
theorem quantity?_of_isFinite {x : Binary64} (h : x.isFinite = true) :
    x.quantity? = some (.finite x.signedUnits) :=
  if_pos h

/-- Only a finite double does. -/
theorem quantity?_eq_finite_iff {x : Binary64} {a : Int} :
    x.quantity? = some (.finite a) ↔ x.isFinite = true ∧ x.signedUnits = a := by
  unfold quantity?
  split <;> rename_i hfinite
  · simp [hfinite]
  · split <;> simp [hfinite]

end Binary64

/-- The number that a word denotes. -/
def Quantity.ofInt (n : Int) : Quantity :=
  .finite (n * unitsInOne)

/-- The number that a value denotes, if it is numeric. -/
def Value.quantity? : Value → Option Quantity
  | .bool b => some (.ofInt (if b then 1 else 0))
  | .int n => some (.ofInt n.toInt)
  | .float x => x.quantity?
  | .text _ | .null => none

namespace AtomicKind

variable {k : AtomicKind} {v w : Value} {q r : Quantity}

/-- The kinds of numbers. -/
def IsNumeric (k : AtomicKind) : Prop :=
  k = int ∨ k = float

/-- A kind has a value for a number. -/
def Represents (k : AtomicKind) (q : Quantity) : Prop :=
  ∃ u, k.Holds u ∧ u.quantity? = some q

/-- No number of a kind is nearer to a number than this one of the kind. -/
def Nearest (k : AtomicKind) (q r : Quantity) : Prop :=
  k.Represents r ∧ ∀ p, k.Represents p → q.distance r ≤ q.distance p

/-- The nearest number of a kind that has the number is that number. -/
theorem Nearest.eq (h : k.Nearest q r) (hq : k.Represents q) : r = q := by
  have hle := h.2 q hq
  rw [Quantity.distance_eq_zero_iff.2 rfl, nonpos_iff_eq_zero, Quantity.distance_eq_zero_iff] at hle
  exact hle.symm

/-- A number of a kind is the nearest to itself. -/
theorem Represents.nearest (h : k.Represents q) : k.Nearest q q := by
  refine ⟨h, fun p _ => ?_⟩
  rw [Quantity.distance_eq_zero_iff.2 rfl]
  exact zero_le

/-- What is coerced is of the kind. -/
theorem represents_of_coerce? (h : k.coerce? v = some w) (hr : w.quantity? = some r) :
    k.Represents r :=
  ⟨w, coerce?_holds h, hr⟩

/-! ### The nearest word -/

/-- The numbers of the kind of whole numbers are those of the 64-bit words. -/
theorem represents_int_iff : int.Represents q ↔ ∃ m : Int64, q = .ofInt m.toInt := by
  constructor
  · rintro ⟨u, hu, hq⟩
    cases u with
    | int m => exact ⟨m, (Option.some.inj hq).symm⟩
    | bool b => cases hu
    | float x => cases hu
    | text s => cases hq
    | null => cases hq
  · rintro ⟨m, rfl⟩
    exact ⟨.int m, rfl, rfl⟩

/-- A whole number that is brought into the range of words is moved to the nearest one. -/
theorem natAbs_clampWord_le (n : Int) (m : Int64) :
    (n - (clampWord n).toInt).natAbs ≤ (n - m.toInt).natAbs := by
  have hlow := m.le_toInt
  have hhigh := m.toInt_lt
  have hmin := Int64.toInt_minValue
  have hmax : Int64.maxValue.toInt = 2 ^ 63 - 1 := by decide
  unfold clampWord Int64.ofIntClamp
  split
  · split
    · rw [Int64.toInt_ofIntLE]
      omega
    · omega
  · omega

/-- A whole double becomes the nearest word. -/
theorem nearest_clampWord (n : Int) : int.Nearest (.ofInt n) (.ofInt (clampWord n).toInt) := by
  refine ⟨represents_int_iff.2 ⟨_, rfl⟩, fun p hp => ?_⟩
  obtain ⟨m, rfl⟩ := represents_int_iff.1 hp
  simp only [Quantity.ofInt, Quantity.distance, ← Int.sub_mul, Int.natAbs_mul, Nat.cast_le]
  exact Nat.mul_le_mul_right _ (natAbs_clampWord_le n m)

/-- A double is read as a whole number if it denotes one. -/
theorem toInt?_eq_some_iff_quantity? {x : Binary64} {n : Int} :
    x.toInt? = some n ↔ x.quantity? = some (.ofInt n) := by
  rw [Binary64.toInt?_eq_some_iff, Quantity.ofInt, quantity?_eq_finite_iff]
  refine and_congr_right fun _ => ?_
  unfold signedUnits
  have hpos := unitsInOne_pos
  constructor
  · rintro ⟨hunits, hsign⟩
    rw [hunits, hsign, Int.natCast_mul]
    split
    · rw [Int.natAbs_neg, Int.natAbs_natCast, Int.neg_mul]
    · rw [Int.natAbs_natCast]
  · intro h
    have habs : x.units = n.natAbs * unitsInOne := by
      have := congrArg Int.natAbs h
      rw [Int.natAbs_mul, Int.natAbs_natCast] at this
      split at this <;> simpa using this
    refine ⟨habs, Int.eq_of_mul_eq_mul_right (by exact_mod_cast hpos.ne') (h.symm.trans ?_)⟩
    rw [habs, Int.natCast_mul]
    split
    · rw [Int.neg_mul]
    · rfl

/-! ### The nearest double -/

/-- A number of the kind of doubles is an infinity, or that of a finite double. -/
theorem represents_float {a : Int} (h : float.Represents (.finite a)) :
    ∃ y : Binary64, y.isFinite = true ∧ y.signedUnits = a := by
  obtain ⟨u, hu, hq⟩ := h
  cases u with
  | float y => exact ⟨y, quantity?_eq_finite_iff.1 hq⟩
  | int m => cases hu
  | bool b => cases hu
  | text s => cases hq
  | null => cases hq

/-- A whole number times a positive one has its sign, and its magnitude times that one. -/
theorem mul_eq_signed (n : Int) (u : Nat) :
    n * u = if decide (n < 0) then -((n.natAbs * u : Nat) : Int) else (n.natAbs * u : Nat) := by
  rw [Int.natCast_mul]
  by_cases h : n < 0
  · rw [if_pos (decide_eq_true h), ← Int.neg_mul, Int.ofNat_natAbs_of_nonpos h.le, Int.neg_neg]
  · rw [if_neg (by simpa using h), Int.natAbs_of_nonneg (not_lt.1 h)]

/-- Of magnitudes with signs, one of the same sign that is no farther than another magnitude, and no farther
than zero, is no farther than the other magnitude with either sign. -/
theorem natAbs_sub_le {negative negative' : Bool} {a u y : Nat} (hy : Nat.dist u a ≤ Nat.dist y a)
    (hzero : Nat.dist u a ≤ Nat.dist 0 a) :
    ((if negative then -(a : Int) else a) - (if negative then -(u : Int) else u)).natAbs ≤
      ((if negative then -(a : Int) else a) - (if negative' then -(y : Int) else y)).natAbs := by
  unfold Nat.dist at hy hzero
  split <;> split <;> omega

/-- The double of a word is finite. -/
theorem isFinite_ofInt (n : Int64) : (Binary64.ofInt n.toInt).isFinite = true := by
  have hle : n.toInt.natAbs ≤ 2 ^ 63 := by
    have := n.le_toInt
    have := n.toInt_lt
    omega
  refine isFinite_ofUnits (s := 1085) Nat.one_pos (by decide) ?_
  rw [Nat.div_one]
  refine Nat.lt_of_le_of_lt (Nat.mul_le_mul_right _ hle) ?_
  rw [unitsInOne_eq, ← Nat.pow_add, Nat.pow_lt_pow_iff_right Nat.one_lt_two]
  decide

/-- No double is nearer to a word than the one that it becomes: one of the same sign is not, and one of the
other sign is as far as zero at least. -/
theorem natAbs_ofInt_le (n : Int64) (y : Binary64) :
    (n.toInt * unitsInOne - (Binary64.ofInt n.toInt).signedUnits).natAbs ≤
      (n.toInt * unitsInOne - y.signedUnits).natAbs := by
  have hnear := ofUnits_nearest Nat.one_pos (isFinite_ofInt n)
  have hy := hnear y
  have hzero := hnear (zero false)
  rw [show (zero false).units = 0 by decide] at hzero
  simp only [Nat.mul_one] at hy hzero
  unfold signedUnits
  rw [mul_eq_signed, show (Binary64.ofInt n.toInt).negative = decide (n.toInt < 0) from negative_ofUnits]
  exact natAbs_sub_le hy hzero

/-- A word becomes the nearest double. -/
theorem nearest_ofInt (n : Int64) :
    float.Nearest (.ofInt n.toInt) (.finite (Binary64.ofInt n.toInt).signedUnits) := by
  refine ⟨⟨.float (Binary64.ofInt n.toInt), rfl, quantity?_of_isFinite (isFinite_ofInt n)⟩,
    fun p hp => ?_⟩
  cases p with
  | infinite => exact le_top
  | finite a =>
    obtain ⟨y, -, rfl⟩ := represents_float hp
    exact Nat.cast_le.2 (natAbs_ofInt_le n y)

/-! ### Coercion -/

/-- **The nearest number.** A value that is coerced to a numeric kind becomes a number of the kind than which
none is nearer to the one that the value denotes. -/
theorem coerce?_nearest (hk : k.IsNumeric) (hq : v.quantity? = some q) (h : k.coerce? v = some w) :
    ∃ r, w.quantity? = some r ∧ k.Nearest q r := by
  rcases hk with rfl | rfl
  · cases v with
    | int n =>
      obtain rfl := Option.some.inj h
      exact ⟨q, hq, (represents_of_coerce? h hq).nearest⟩
    | bool b =>
      obtain rfl := Option.some.inj h
      have hr : (Value.int (if b then 1 else 0)).quantity? = some q := by rw [← hq]; cases b <;> rfl
      exact ⟨q, hr, (represents_of_coerce? h hr).nearest⟩
    | float x =>
      obtain ⟨m, hm, rfl⟩ := Option.map_eq_some_iff.1 h
      obtain ⟨n, hn, rfl⟩ := Option.map_eq_some_iff.1 hm
      obtain rfl := Option.some.inj (hq.symm.trans (toInt?_eq_some_iff_quantity?.1 hn))
      exact ⟨_, rfl, nearest_clampWord n⟩
    | text s => cases hq
    | null => cases hq
  · cases v with
    | int n =>
      obtain rfl := Option.some.inj h
      obtain rfl := Option.some.inj hq
      exact ⟨_, quantity?_of_isFinite (isFinite_ofInt n), nearest_ofInt n⟩
    | float x =>
      obtain rfl := Option.some.inj h
      exact ⟨q, hq, (represents_of_coerce? h hq).nearest⟩
    | bool b => cases h
    | text s => cases hq
    | null => cases hq

/-- A numeric value is refused as a whole number if it is not one, and as a double if it is a truth value. -/
theorem coerce?_eq_none_iff (hk : k.IsNumeric) (hq : v.quantity? = some q) :
    k.coerce? v = none ↔ k = int ∧ (∀ n, q ≠ .ofInt n) ∨ k = float ∧ ∃ b, v = .bool b := by
  rcases hk with rfl | rfl
  · simp only [true_and, reduceCtorEq, false_and, or_false]
    cases v with
    | int n => exact iff_of_false (nofun) fun h => h _ (Option.some.inj hq).symm
    | bool b => exact iff_of_false (nofun) fun h => h _ (Option.some.inj hq).symm
    | float x =>
      have hnone : int.coerce? (.float x) = none ↔ x.toInt? = none :=
        Option.map_eq_none_iff.trans Option.map_eq_none_iff
      rw [hnone, Option.eq_none_iff_forall_ne_some]
      refine forall_congr' fun n => not_congr ?_
      rw [toInt?_eq_some_iff_quantity?, show x.quantity? = some q from hq, Option.some_inj]
    | text s => cases hq
    | null => cases hq
  · simp only [true_and, reduceCtorEq, false_and, false_or]
    cases v with
    | int n => exact iff_of_false (nofun) (nofun)
    | float x => exact iff_of_false (nofun) (nofun)
    | bool b => exact iff_of_true rfl ⟨b, rfl⟩
    | text s => cases hq
    | null => cases hq

end AtomicKind

/-! ### Rows -/

/-- The entity that a row shows at a node, the kind of its key, and the number that the row has for it. -/
def Plan.numberAt (p : Plan) (row : Row) (i : Nat) : Option (Identity × AtomicKind × Quantity) := do
  let node ← p.nodes[i]?
  let who ← p.identityAt row i
  let key ← node.schema.primaryKey
  let q ← ((row.get? (node.label [] key.name)).getD .null).quantity?
  return (who, key.kind, q)

section numberAt

variable {p : Plan} {row : Row} {i : Nat} {who : Identity} {k : AtomicKind} {q : Quantity}

/-- The entity of a number is the one that is shown, and has the key that the number is coerced to. -/
theorem Plan.coerce?_of_numberAt (h : p.numberAt row i = some (who, k, q)) :
    p.identityAt row i = some who ∧ ∃ v, v.quantity? = some q ∧ k.coerce? v = some who.2 := by
  obtain ⟨node, hi, h⟩ := Option.bind_eq_some_iff.1 h
  obtain ⟨who', hwho, h⟩ := Option.bind_eq_some_iff.1 h
  obtain ⟨key, hkey, h⟩ := Option.bind_eq_some_iff.1 h
  obtain ⟨q', hq, h⟩ := Option.bind_eq_some_iff.1 h
  obtain ⟨rfl, rfl, rfl⟩ : who' = who ∧ key.kind = k ∧ q' = q := by simpa using h
  refine ⟨hwho, _, hq, ?_⟩
  obtain ⟨node', hi', -, hidentity⟩ := Plan.identity?_of_identityAt hwho
  obtain rfl := Option.some.inj (hi.symm.trans hi')
  obtain ⟨-, key', hkey', hread, -⟩ := PlanNode.identity?_eq_some_iff.1 hidentity
  obtain rfl := Option.some.inj (hkey.symm.trans hkey')
  exact hread

/-- An entity that a row shows is in the graph that pictures the rows. -/
theorem Plan.Pictures.exists_of_identityAt {c : Catalog} {rows : List Row} {n : Nat}
    {known : Assoc Identity EntityId} {g : Graph} (hp : p.Sound c) (h : p.Pictures rows n known g)
    (hrow : row ∈ rows) (hwho : p.identityAt row i = some who) : ∃ e, known.get? who = some e := by
  obtain ⟨node, hi, -⟩ := Plan.identity?_of_identityAt hwho
  exact Option.isSome_iff_exists.1 ((h.shown who).2 ⟨row, hrow, i, node, hi,
    (Plan.identityAt_eq_some_iff hi fun j comp hj => (hp.parent i node hi j comp hj).1).1 hwho⟩)

end numberAt

/-- **Numbers are kept where their kind has them.** A numeric value that is coerced to a numeric kind becomes
the nearest number of the kind, so the same number if the kind has it; what is refused is what is not whole,
as a whole number, and a truth value, as a double. When rows have been read, an entity that they show by the
number and one that they show by another number, each of which the kind of its key has, are different
entities. -/
theorem numbers_kept {k : AtomicKind} {v : Value} {q : Quantity} (hk : k.IsNumeric)
    (hq : v.quantity? = some q) :
    (∀ w, k.coerce? v = some w →
      ∃ r, w.quantity? = some r ∧ k.Nearest q r ∧ (k.Represents q → r = q)) ∧
    (k.coerce? v = none ↔ k = .int ∧ (∀ n, q ≠ .ofInt n) ∨ k = .float ∧ ∃ b, v = .bool b) ∧
    ∀ (c : Catalog) (query : Query) (cache cache' : PathCache) (compiled : CompiledQuery)
      (rows : List Row) (g : Graph) (tuples : List Tuple) (m : Mapping),
      query.compile c cache = (.ok compiled, cache') →
      Mapper.mapRows c rows ⟨compiled.mapper, g⟩ = .ok tuples m →
      ∀ row ∈ rows, ∀ row' ∈ rows, ∀ (i i' : Nat) (who who' : Identity) (k' : AtomicKind)
        (q' : Quantity), compiled.plan.numberAt row i = some (who, k, q) →
        compiled.plan.numberAt row' i' = some (who', k', q') → k'.IsNumeric →
        k.Represents q → k'.Represents q' → q ≠ q' →
          ∃ e e', m.mapper.identity.get? who = some e ∧ m.mapper.identity.get? who' = some e' ∧
            e ≠ e' := by
  refine ⟨fun w h => ?_, AtomicKind.coerce?_eq_none_iff hk hq, ?_⟩
  · obtain ⟨r, hr, hnearest⟩ := AtomicKind.coerce?_nearest hk hq h
    exact ⟨r, hr, hnearest, hnearest.eq⟩
  intro c query cache cache' compiled rows g tuples m hcompile hrows row hrow row' hrow' i i' who who'
    k' q' hnumber hnumber' hk' hhas hhas' hne
  have hpictures := Query.pictures_of_mapRows hcompile hrows
  have hp := Query.sound_of_compile hcompile
  obtain ⟨hwho, u, hu, hcoerce⟩ := Plan.coerce?_of_numberAt hnumber
  obtain ⟨hwho', u', hu', hcoerce'⟩ := Plan.coerce?_of_numberAt hnumber'
  obtain ⟨e, he⟩ := hpictures.exists_of_identityAt hp hrow hwho
  obtain ⟨e', he'⟩ := hpictures.exists_of_identityAt hp hrow' hwho'
  refine ⟨e, e', he, he', fun heq => hne ?_⟩
  -- One entity has one key, which denotes both numbers.
  obtain rfl := hpictures.distinct who who' e he (heq ▸ he')
  obtain ⟨r, hr, hnearest⟩ := AtomicKind.coerce?_nearest hk hu hcoerce
  obtain ⟨r', hr', hnearest'⟩ := AtomicKind.coerce?_nearest hk' hu' hcoerce'
  rw [← hnearest.eq hhas, ← hnearest'.eq hhas']
  exact Option.some.inj (hr.symm.trans hr')

namespace Gauge

/-- Readings, which have doubles for keys. -/
def catalog : Catalog where
  definitions := [
    { name := "Reading"
      steps := [.atomic { name := "value", column := "value", kind := .float, primaryKey := true }] }]

/-- All readings. -/
def query : Query where
  root := some "Reading"

/-- A row for a reading of a whole number. -/
def row (n : Int64) : Row :=
  .ofPairs [("Reading_0_value", .int n)]

/-- The double of a whole number. -/
def key (n : Int) : Value :=
  .float (Binary64.ofInt n)

end Gauge

/-- The number one becomes the double one, and the readings one and two are different entities. -/
theorem numbers_kept_readings : (∃ r, (Gauge.key 1).quantity? = some r ∧ r = .ofInt 1) ∧
    ∃ compiled cache' tuples m e e',
    Gauge.query.compile Gauge.catalog {} = (.ok compiled, cache') ∧
      Mapper.mapRows Gauge.catalog [Gauge.row 1, Gauge.row 2] ⟨compiled.mapper, {}⟩ = .ok tuples m ∧
        m.mapper.identity.get? ("Reading", Gauge.key 1) = some e ∧
          m.mapper.identity.get? ("Reading", Gauge.key 2) = some e' ∧ e ≠ e' := by
  have hhas : ∀ n : Int, (Gauge.key n).quantity? = some (.ofInt n) →
      AtomicKind.float.Represents (.ofInt n) := fun n h => ⟨Gauge.key n, rfl, h⟩
  have hone := hhas 1 (by decide +kernel)
  have hnumber : (Value.int 1).quantity? = some (.ofInt 1) := by decide +kernel
  obtain ⟨hkept, -, hapart⟩ := numbers_kept (k := .float) (.inr rfl) hnumber
  obtain ⟨r, hr, -, hsame⟩ := hkept (Gauge.key 1) (by decide +kernel)
  refine ⟨⟨r, hr, hsame hone⟩, ?_⟩
  have hanswers : (Gauge.query.compile Gauge.catalog {}).1.toOption.any (fun compiled =>
      (Mapper.mapRows Gauge.catalog [Gauge.row 1, Gauge.row 2]).succeeds ⟨compiled.mapper, {}⟩ &&
        decide (compiled.plan.numberAt (Gauge.row 1) 0 =
            some (("Reading", Gauge.key 1), .float, .ofInt 1) ∧
          compiled.plan.numberAt (Gauge.row 2) 0 =
            some (("Reading", Gauge.key 2), .float, .ofInt 2))) = true := by
    decide +kernel
  obtain ⟨compiled, cache', hcompile, hanswer⟩ := Query.exists_compiled hanswers
  obtain ⟨hsucceeds, hnumbers⟩ := Bool.and_eq_true_iff.1 hanswer
  obtain ⟨tuples, m, hrows⟩ := Act.exists_of_succeeds hsucceeds
  obtain ⟨hfirst, hsecond⟩ := of_decide_eq_true hnumbers
  obtain ⟨e, e', he, he', hne⟩ := hapart _ _ _ _ _ _ _ _ _ hcompile hrows (Gauge.row 1) (by simp)
    (Gauge.row 2) (by simp) 0 0 _ _ _ _ hfirst hsecond (.inr rfl) hone (hhas 2 (by decide +kernel))
    (by decide +kernel)
  exact ⟨compiled, cache', tuples, m, e, e', hcompile, hrows, he, he', hne⟩

/-- **Numbers that a kind does not have are merged.** The double `2 ^ 63`, which is beyond the words, becomes
the last word, as `2 ^ 64` does, and the word `2 ^ 53 + 1`, which is between two doubles, becomes `2 ^ 53`, so
that rows with the keys `2 ^ 53` and `2 ^ 53 + 1` show one entity. -/
theorem numbers_merged :
    (Value.float (Binary64.ofInt (2 ^ 63))).quantity? = some (.ofInt (2 ^ 63)) ∧
      AtomicKind.int.coerce? (.float (Binary64.ofInt (2 ^ 63))) = some (.int 9223372036854775807) ∧
      AtomicKind.int.coerce? (.float (Binary64.ofInt (2 ^ 64))) = some (.int 9223372036854775807) ∧
      AtomicKind.float.coerce? (.int 9007199254740993) = some (Gauge.key 9007199254740992) ∧
      (Gauge.key 9007199254740992).quantity? = some (.ofInt 9007199254740992) ∧
      ∃ compiled cache' tuples m, Gauge.query.compile Gauge.catalog {} = (.ok compiled, cache') ∧
        Mapper.mapRows Gauge.catalog [Gauge.row 9007199254740992, Gauge.row 9007199254740993]
          ⟨compiled.mapper, {}⟩ = .ok tuples m ∧
          m.mapper.identity = [(("Reading", Gauge.key 9007199254740992), ⟨0⟩)] := by
  refine ⟨by decide +kernel, by decide +kernel, by decide +kernel, by decide +kernel, by decide +kernel, ?_⟩
  have hanswers : (Gauge.query.compile Gauge.catalog {}).1.toOption.any (fun compiled =>
      let mapped := Mapper.mapRows Gauge.catalog [Gauge.row 9007199254740992, Gauge.row 9007199254740993]
      mapped.succeeds ⟨compiled.mapper, {}⟩ &&
        decide ((mapped.final ⟨compiled.mapper, {}⟩).mapper.identity =
          [(("Reading", Gauge.key 9007199254740992), ⟨0⟩)])) = true := by
    decide +kernel
  obtain ⟨compiled, cache', hcompile, hanswer⟩ := Query.exists_compiled hanswers
  obtain ⟨hsucceeds, hmerged⟩ := Bool.and_eq_true_iff.1 hanswer
  obtain ⟨tuples, m, hrows⟩ := Act.exists_of_succeeds hsucceeds
  refine ⟨compiled, cache', tuples, m, hcompile, hrows, ?_⟩
  rw [← Act.final_of_ok hrows]
  exact of_decide_eq_true hmerged

end EntityGraph
