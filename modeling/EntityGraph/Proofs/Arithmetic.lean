import EntityGraph.Proofs.Phrases
import Mathlib.Algebra.Field.Rat
import Mathlib.Data.Option.NAry
import Mathlib.Tactic.NormNum

/-!
# Arithmetic and its grouping

Sums, products, signs and comparisons are written without parentheses, whatever their operands are. Where
each operand binds as tightly as its operator, and the right one of a difference, a quotient or a comparison
binds more tightly, the text is read as an expression of the same value, whatever its operands are worth and
whatever comparisons come to; the right operand of a sum or a product may be read in another grouping there,
of the same value. Where an operand binds less tightly it is lost to its operator: a product of a sum is
written as the sum of a product is.

* `Phrase.value`, `Expr.value` — the value of what is read, and of an expression;
* `Expr.keepsGrouping` — no operator stands before or after an operand that binds less tightly;
* `Expr.value_phrase` — the phrase of an expression has its value, where it keeps its grouping;
* `Expr.text_keeps_value` — so has what its text is read as;
* `Expr.text_regrouped`, `Expr.text_sign` — the text does not tell how operators in a row are grouped;
* `Expr.product_of_sum_misread` — a sum in a product is read as a product in a sum.
-/

namespace EntityGraph

open Token

/-! ### Values -/

/-- A number, or null. -/
abbrev Number : Type := Option ℚ

/-- What comparisons and other tests come to. -/
abbrev Tests : Type := BinaryOp → Number → Number → Number

/-- The value of two numbers that an operator combines: null if one of both is, or if zero divides. -/
def BinaryOp.compute (test : Tests) : BinaryOp → Number → Number → Number
  | .add, a, b => Option.map₂ (· + ·) a b
  | .sub, a, b => Option.map₂ (· - ·) a b
  | .mul, a, b => Option.map₂ (· * ·) a b
  | .div, a, b => a.bind fun x => b.bind fun y => if y = 0 then none else some (x / y)
  | op, a, b => test op a b

/-- The number of the other sign. -/
def Number.negated : Number → Number :=
  Option.map Neg.neg

/-- The value of a phrase whose operands are worth this; signs are the only unary operators on numbers. -/
def Phrase.value {α : Type} (test : Tests) (v : α → Number) : Phrase α → Number
  | leaf a => v a
  | binary l op r => op.compute test (l.value test v) (r.value test v)
  | unary .neg x => Number.negated (x.value test v)
  | unary _ _ => none
  | group x => x.value test v

mutual

/-- The value of an operand. -/
def Operand.value (test : Tests) (v : List Token → Number) : Operand → Number
  | .expr e => e.value test v
  | o => v o.tokens

/-- The value of an expression whose operands are worth this, as they are written. -/
def Expr.value (test : Tests) (v : List Token → Number) : Expr → Number
  | .binary left op right => op.compute test (left.value test v) (right.value test v)
  | .unary .neg operand => Number.negated (operand.value test v)
  | .unary _ _ => none
  | e => v e.tokens

end

variable {test : Tests} {v : List Token → Number}

/-! ### Operators of one level -/

theorem BinaryOp.compute_mul_some (x y : ℚ) :
    BinaryOp.mul.compute test (some x) (some y) = some (x * y) := rfl

theorem BinaryOp.compute_div_zero (x : ℚ) : BinaryOp.div.compute test (some x) (some 0) = none := by
  show (if (0 : ℚ) = 0 then none else some (x / 0)) = none
  rw [if_pos rfl]

theorem BinaryOp.compute_div_some (x : ℚ) {y : ℚ} (hy : y ≠ 0) :
    BinaryOp.div.compute test (some x) (some y) = some (x / y) :=
  if_neg hy

theorem Number.negated_some (x : ℚ) : Number.negated (some x) = some (-x) := rfl

/-- Sums and differences bind alike. -/
theorem BinaryOp.add_or_sub {op : BinaryOp} (h : op.level = BinaryOp.add.level) : op = .add ∨ op = .sub := by
  cases op <;> revert h <;> decide

/-- So do products and quotients. -/
theorem BinaryOp.mul_or_div {op : BinaryOp} (h : op.level = BinaryOp.mul.level) : op = .mul ∨ op = .div := by
  cases op <;> revert h <;> decide

/-- A number may be added before or after another is added or subtracted. -/
theorem BinaryOp.compute_add {op : BinaryOp} (h : op.level = BinaryOp.add.level) (a b c : Number) :
    op.compute test (BinaryOp.add.compute test a b) c =
      BinaryOp.add.compute test a (op.compute test b c) := by
  rcases BinaryOp.add_or_sub h with rfl | rfl
  · exact Option.map₂_assoc add_assoc
  · exact Option.map₂_assoc add_sub_assoc

/-- A number may be multiplied before or after it is multiplied or divided by another. -/
theorem BinaryOp.compute_mul {op : BinaryOp} (h : op.level = BinaryOp.mul.level) (a b c : Number) :
    op.compute test (BinaryOp.mul.compute test a b) c =
      BinaryOp.mul.compute test a (op.compute test b c) := by
  rcases BinaryOp.mul_or_div h with rfl | rfl
  · exact Option.map₂_assoc mul_assoc
  · rcases a with _ | x <;> rcases b with _ | y <;> rcases c with _ | z <;> try rfl
    by_cases hz : z = 0
    · rw [hz, BinaryOp.compute_mul_some, BinaryOp.compute_div_zero, BinaryOp.compute_div_zero]
      rfl
    · rw [BinaryOp.compute_mul_some, BinaryOp.compute_div_some _ hz, BinaryOp.compute_div_some _ hz,
        BinaryOp.compute_mul_some, mul_div_assoc]

/-- A sign may be changed before or after a number is multiplied or divided. -/
theorem BinaryOp.compute_negated {op : BinaryOp} (h : op.level = BinaryOp.mul.level) (a b : Number) :
    op.compute test (Number.negated a) b = Number.negated (op.compute test a b) := by
  rcases BinaryOp.mul_or_div h with rfl | rfl
  · rcases a with _ | x <;> rcases b with _ | y <;> try rfl
    rw [Number.negated_some, BinaryOp.compute_mul_some, BinaryOp.compute_mul_some, Number.negated_some,
      neg_mul]
  · rcases a with _ | x <;> rcases b with _ | y <;> try rfl
    by_cases hy : y = 0
    · rw [hy, Number.negated_some, BinaryOp.compute_div_zero, BinaryOp.compute_div_zero]
      rfl
    · rw [Number.negated_some, BinaryOp.compute_div_some _ hy, BinaryOp.compute_div_some _ hy,
        Number.negated_some, neg_div]

/-! ### Grouping -/

mutual

/-- Whether an operand is arithmetic, or a single one. -/
def Operand.isArithmetic : Operand → Bool
  | .expr e => e.isArithmetic
  | _ => true

/-- Whether an expression is made of sums, differences, products, quotients, signs and comparisons, in any
way, over single operands. -/
def Expr.isArithmetic : Expr → Bool
  | .binary left op right => !op.isLogical && left.isArithmetic && right.isArithmetic
  | .unary op operand => op == .neg && operand.isArithmetic
  | .verbatim _ => false
  | _ => true

end

mutual

/-- How tightly an operand binds. -/
def Operand.level : Operand → Nat
  | .expr e => e.level
  | _ => 9

/-- How tightly an expression binds: as its operator does; a sign belongs to the first factor of a product. -/
def Expr.level : Expr → Nat
  | .binary _ op _ => op.level
  | .unary .neg operand => min UnaryOp.neg.level operand.level
  | .unary op _ => op.level
  | _ => 9

end

mutual

/-- Whether an operand keeps its grouping. -/
def Operand.keepsGrouping : Operand → Bool
  | .expr e => e.keepsGrouping
  | _ => true

/-- Whether an expression keeps its grouping without parentheses: no operand binds less tightly than its
operator, and the right one binds more tightly where the operator does not associate. -/
def Expr.keepsGrouping : Expr → Bool
  | .binary left op right =>
    left.keepsGrouping && right.keepsGrouping && op.level ≤ left.level &&
      (op.level < right.level || (op == .add || op == .mul) && op.level == right.level)
  | .unary _ operand => operand.keepsGrouping && BinaryOp.mul.level ≤ operand.level
  | _ => true

end

/-- Arithmetic is made of arithmetic. -/
theorem Expr.isArithmetic_binary {left right : Operand} {op : BinaryOp} :
    (Expr.binary left op right).isArithmetic = true ↔
      op.isLogical = false ∧ left.isArithmetic = true ∧ right.isArithmetic = true := by
  show (!op.isLogical && left.isArithmetic && right.isArithmetic) = true ↔ _
  simp [and_assoc]

/-- Its unary operators are signs. -/
theorem Expr.isArithmetic_unary {operand : Operand} {op : UnaryOp} :
    (Expr.unary op operand).isArithmetic = true ↔ op = .neg ∧ operand.isArithmetic = true := by
  show (op == .neg && operand.isArithmetic) = true ↔ _
  simp

/-- Where an operator keeps its operands. -/
theorem Expr.keepsGrouping_binary {left right : Operand} {op : BinaryOp} :
    (Expr.binary left op right).keepsGrouping = true ↔
      left.keepsGrouping = true ∧ right.keepsGrouping = true ∧ op.level ≤ left.level ∧
        (op.level < right.level ∨ (op = .add ∨ op = .mul) ∧ op.level = right.level) := by
  show (left.keepsGrouping && right.keepsGrouping && op.level ≤ left.level &&
    (op.level < right.level || (op == .add || op == .mul) && op.level == right.level)) = true ↔ _
  simp [and_assoc]

/-- Where a sign keeps its operand, or the first factor of it. -/
theorem Expr.keepsGrouping_unary {operand : Operand} {op : UnaryOp} :
    (Expr.unary op operand).keepsGrouping = true ↔
      operand.keepsGrouping = true ∧ BinaryOp.mul.level ≤ operand.level := by
  show (operand.keepsGrouping && BinaryOp.mul.level ≤ operand.level) = true ↔ _
  simp

/-! ### The values of phrases -/

/-- What a phrase over other operands is worth. -/
theorem Phrase.value_map {α β : Type} (f : α → β) (w : β → Number) (x : Phrase α) :
    (x.map f).value test w = x.value test (w ∘ f) := by
  induction x with
  | leaf a => rfl
  | binary l op r ihl ihr => simp only [Phrase.map, Phrase.value, ihl, ihr]
  | unary op x ih => cases op <;> simp only [Phrase.map, Phrase.value, ih]
  | group x ih => exact ih

/-- An operator before a phrase that binds more tightly is read where it stands. -/
theorem Phrase.under_of_lt {α : Type} {f : Phrase α → Phrase α} {m : Nat} {x : Phrase α}
    (h : m < x.level) : x.under f m = f x := by
  cases x with
  | binary l op r => exact if_neg (Nat.ne_of_gt h)
  | _ => rfl

/-- The level of a sign before a phrase. -/
theorem Phrase.level_under_neg {α : Type} (x : Phrase α) (h : BinaryOp.mul.level ≤ x.level) :
    (x.under (.unary .neg) BinaryOp.mul.level).level = min UnaryOp.neg.level x.level := by
  rcases Nat.eq_or_lt_of_le h with heq | hlt
  · cases x with
    | binary l op r =>
      have hop : op.level = BinaryOp.mul.level := heq.symm
      rw [Phrase.under, if_pos hop, ← heq]
      exact hop
    | unary op x => cases op <;> cases heq
    | _ => cases heq
  · rw [Phrase.under_of_lt hlt]
    exact (Nat.min_eq_left hlt).symm

mutual

/-- An operand that keeps its grouping binds as its phrase does. -/
theorem Operand.level_arithmetic : ∀ o : Operand, o.isArithmetic = true → o.keepsGrouping = true →
    o.phrase.level = o.level ∧ o.binds
  | .name _, _, _ => ⟨rfl, trivial⟩
  | .query _, _, _ => ⟨rfl, trivial⟩
  | .expr e, h, hgroup => by
    have hlogical : e.isLogical = false := by
      cases e with
      | binary left op right => simp_all [Operand.isArithmetic, Expr.isArithmetic, Expr.isLogical]
      | _ => rfl
    rw [Operand.phrase, hlogical]
    exact e.level_arithmetic h hgroup

/-- An expression that keeps its grouping binds as its phrase does, and its operators keep their operands. -/
theorem Expr.level_arithmetic : ∀ e : Expr, e.isArithmetic = true → e.keepsGrouping = true →
    e.phrase.level = e.level ∧ e.binds
  | .binary left op right, h, hgroup => by
    obtain ⟨-, hlarith, hrarith⟩ := Expr.isArithmetic_binary.1 h
    obtain ⟨hleft, hright, hl, hr⟩ := Expr.keepsGrouping_binary.1 hgroup
    obtain ⟨hllevel, hlbinds⟩ := left.level_arithmetic hlarith hleft
    obtain ⟨hrlevel, hrbinds⟩ := right.level_arithmetic hrarith hright
    have hr : op.level ≤ right.level := by
      rcases hr with hr | ⟨-, hr⟩
      · exact Nat.le_of_lt hr
      · exact Nat.le_of_eq hr
    exact ⟨Expr.level_phrase left op right, hlbinds, hrbinds, hllevel ▸ hl, hrlevel ▸ hr⟩
  | .unary op operand, h, hgroup => by
    obtain ⟨rfl, h⟩ := Expr.isArithmetic_unary.1 h
    obtain ⟨hgroup, hle⟩ := Expr.keepsGrouping_unary.1 hgroup
    obtain ⟨hlevel, hbinds⟩ := operand.level_arithmetic h hgroup
    rw [← hlevel] at hle
    refine ⟨?_, hbinds, hle⟩
    rw [Expr.phrase, Phrase.level_under_neg _ hle, hlevel, Expr.level]
  | .param _, _, _ => ⟨rfl, trivial⟩
  | .values _, _, _ => ⟨rfl, trivial⟩

end

mutual

/-- The phrase of an operand has its value. -/
theorem Operand.value_phrase : ∀ o : Operand, o.isArithmetic = true → o.keepsGrouping = true →
    o.phrase.value test (v ∘ Operand.nestedTokens) = o.value test v
  | .name _, _, _ => rfl
  | .query _, _, _ => rfl
  | .expr e, h, hgroup => by
    have he := e.value_phrase h hgroup
    rw [Operand.phrase]
    split
    · exact he
    · exact he

/-- **The phrase of an expression has its value**, where it keeps its grouping. -/
theorem Expr.value_phrase : ∀ e : Expr, e.isArithmetic = true → e.keepsGrouping = true →
    e.phrase.value test (v ∘ Operand.nestedTokens) = e.value test v
  | .binary left op right, h, hgroup => by
    obtain ⟨-, hlarith, hrarith⟩ := Expr.isArithmetic_binary.1 h
    obtain ⟨hleft, hright, hl, hr⟩ := Expr.keepsGrouping_binary.1 hgroup
    have hlvalue := left.value_phrase hlarith hleft
    have hrvalue := right.value_phrase hrarith hright
    have hrlevel := (right.level_arithmetic hrarith hright).1
    rw [Expr.phrase, Expr.value, ← hlvalue, ← hrvalue]
    rcases hr with hr | ⟨hop, -⟩
    · rw [Phrase.under_of_lt (hrlevel ▸ hr)]
      rfl
    · -- the operator may be read before the left operand of the right one
      refine Phrase.eval_under (Phrase.value test (v ∘ Operand.nestedTokens)) (BinaryOp.compute test)
        (op.compute test (left.phrase.value test (v ∘ Operand.nestedTokens)))
        (fun _ _ _ _ => rfl) (fun _ => rfl) (fun op' a b hlevel => ?_) right.phrase
      rcases hop with rfl | rfl
      · exact BinaryOp.compute_add hlevel _ a b
      · exact BinaryOp.compute_mul hlevel _ a b
  | .unary op operand, h, hgroup => by
    obtain ⟨rfl, h⟩ := Expr.isArithmetic_unary.1 h
    have hvalue := operand.value_phrase h (Expr.keepsGrouping_unary.1 hgroup).1
    rw [Expr.phrase, Expr.value, ← hvalue]
    exact Phrase.eval_under (Phrase.value test (v ∘ Operand.nestedTokens)) (BinaryOp.compute test)
      Number.negated (fun _ _ _ _ => rfl) (fun _ => rfl)
      (fun _ a b hlevel => BinaryOp.compute_negated hlevel a b) operand.phrase
  | .param _, _, _ => rfl
  | .values _, _, _ => rfl

end

/-! ### The values of texts -/

/-- What a text is read as, by the precedence of operators. -/
def Phrase.ofText (s : String) : Option (Phrase (List Token)) :=
  (lex s.toList).bind Phrase.read

/-- The text of arithmetic that keeps its grouping is read as a phrase of the same value. -/
theorem Expr.ofText_text (e : Expr) (hfree : e.verbatimFree) (h : e.isArithmetic = true)
    (hgroup : e.keepsGrouping = true) : ∃ p, Phrase.ofText (e.text .mysql) = some p ∧
      ∀ test v, p.value test v = e.value test v := by
  refine ⟨e.phrase.map Operand.nestedTokens, ?_, fun test v => ?_⟩
  · have hlex : lex (e.text .mysql).toList = some e.tokens := (e.readAs hfree).lex_eq
    have hread := Phrase.read_tokens (e.grouped (e.level_arithmetic h hgroup).2)
    rw [e.tokens_phrase] at hread
    rw [Phrase.ofText, hlex]
    exact hread
  · rw [Phrase.value_map]
    exact e.value_phrase h hgroup

/-- **Arithmetic that keeps its grouping is worth what its text is.** Whatever its operands are worth and
whatever comparisons come to, the text is read as a phrase of the same value; so expressions of different
values are written differently. -/
theorem Expr.text_keeps_value (e : Expr) (hfree : e.verbatimFree) (h : e.isArithmetic = true)
    (hgroup : e.keepsGrouping = true) :
    ∃ p, Phrase.ofText (e.text .mysql) = some p ∧ (∀ test v, p.value test v = e.value test v) ∧
      ∀ e' : Expr, e'.verbatimFree → e'.isArithmetic = true → e'.keepsGrouping = true →
        e'.text .mysql = e.text .mysql → ∀ test v, e'.value test v = e.value test v := by
  obtain ⟨p, hp, hvalue⟩ := e.ofText_text hfree h hgroup
  refine ⟨p, hp, hvalue, fun e' hfree' h' hgroup' htext test v => ?_⟩
  obtain ⟨p', hp', hvalue'⟩ := e'.ofText_text hfree' h' hgroup'
  rw [htext, hp] at hp'
  obtain rfl := Option.some.inj hp'
  rw [← hvalue, ← hvalue']

/-- A difference, a quotient under a sign in a product, a sum on the right of a sum, and a comparison of it
all. -/
theorem Expr.text_keeps_value_balance :
    let quotient : Expr := .unary .neg (.expr (.binary (.name "c") .div (.name "d")))
    let product : Expr := .binary (.name "b") .mul (.expr quotient)
    let sum : Expr := .binary (.name "e") .add (.name "f")
    let balance : Expr := .binary (.expr (.binary (.expr (.binary (.name "a") .sub (.expr product))) .add
      (.expr sum))) .le (.expr (.param (.int 10)))
    balance.text .mysql = "`a` - `b` * -`c` / `d` + `e` + `f` <= '10'" ∧
      balance.verbatimFree ∧ balance.isArithmetic = true ∧ balance.keepsGrouping = true ∧
      ∃ p, Phrase.ofText (balance.text .mysql) = some p ∧
        ∀ test v, p.value test v = balance.value test v := by
  intro quotient product sum balance
  have hfree : balance.verbatimFree := by decide
  have harithmetic : balance.isArithmetic = true := by decide
  have hgroup : balance.keepsGrouping = true := by decide
  obtain ⟨p, hp, hvalue, -⟩ := balance.text_keeps_value hfree harithmetic hgroup
  exact ⟨by decide, hfree, harithmetic, hgroup, p, hp, hvalue⟩

/-! ### Grouping that is lost -/

/-- Of two operators in a row none of which is logical, the text does not tell which one is inside the
other. -/
theorem Expr.text_regrouped (d : Dialect) (a b c : Operand) {op op' : BinaryOp}
    (hop : op.isLogical = false) (hop' : op'.isLogical = false) :
    (Expr.binary (.expr (.binary a op b)) op' c).text d =
      (Expr.binary a op (.expr (.binary b op' c))).text d := by
  simp [Expr.text, Expr.lexemes, Operand.nested, Lexeme.parensIf, Expr.isLogical, hop, hop']

/-- Nor does it tell whether a sign is of what an operator comes to, or of its left operand. -/
theorem Expr.text_sign (d : Dialect) (a b : Operand) {op : BinaryOp} (hop : op.isLogical = false) :
    (Expr.unary .neg (.expr (.binary a op b))).text d =
      (Expr.binary (.expr (.unary .neg a)) op b).text d := by
  simp [Expr.text, Expr.lexemes, Operand.nested, Lexeme.parensIf, Expr.isLogical, hop]

/-- A product of a sum is written as a sum of a product, and read as this. -/
theorem Expr.product_of_sum_misread :
    let product : Expr := .binary (.expr (.binary (.name "a") .add (.name "b"))) .mul (.name "c")
    let sum : Expr := .binary (.name "a") .add (.expr (.binary (.name "b") .mul (.name "c")))
    product.verbatimFree ∧ product.isArithmetic = true ∧ product.text .mysql = sum.text .mysql ∧
      ∃ v : List Token → Number, ∀ test, product.value test v = some 4 ∧ sum.value test v = some 3 ∧
        (Phrase.ofText (product.text .mysql)).map (Phrase.value test v) = some (some 3) := by
  intro product sum
  have htext : product.text .mysql = sum.text .mysql := Expr.text_regrouped _ _ _ _ rfl rfl
  refine ⟨by decide, by decide, htext, fun ts => if ts = [.name "c"] then some 2 else some 1,
    fun test => ?_⟩
  have hproduct : product.value test (fun ts => if ts = [.name "c"] then some 2 else some 1) =
      some ((1 + 1) * 2) := rfl
  have hsum : sum.value test (fun ts => if ts = [.name "c"] then some 2 else some 1) =
      some (1 + 1 * 2) := rfl
  obtain ⟨p, hp, hvalue⟩ := sum.ofText_text (by decide) (by decide) (by decide)
  refine ⟨?_, ?_, ?_⟩
  · rw [hproduct]
    norm_num
  · rw [hsum]
    norm_num
  · rw [htext, hp, Option.map_some, hvalue, hsum]
    norm_num

end EntityGraph
