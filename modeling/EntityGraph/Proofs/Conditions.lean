import EntityGraph.Proofs.Phrases

/-!
# Conditions keep their grouping

Conditions are made of comparisons and tests for rows by `AND`, `OR` and `NOT`, and those of one clause are
joined by `AND`. Parentheses are written around operands that are `AND` or `OR` themselves, and around an
`OR` among the conditions of a clause; that is enough for the text of a clause to be read, by the
precedence of operators, as a condition of the same truth value, whatever the truth values of its
comparisons and tests are. As comparisons with null have none, truth values are those of three-valued
logic.

* `Expr.truth` — the truth value of a condition;
* `Expr.truth_phrase` — the phrase of a condition has its truth value;
* `Expr.saidBy_conjunction` — so has what the tokens of a clause are read as;
* `Statement.reads_conditions` — the clauses of a statement are found in its text, and are read so.
-/

namespace EntityGraph

open Token

/-! ### Truth values -/

/-- A truth value; comparisons with null have none. -/
abbrev Truth : Type := Option Bool

namespace Truth

/-- The negation. -/
def not : Truth → Truth :=
  Option.map Bool.not

/-- The conjunction, which is false if one of both is. -/
def and : Truth → Truth → Truth
  | some false, _ | _, some false => some false
  | some true, some true => some true
  | _, _ => none

/-- The disjunction, which is true if one of both is. -/
def or : Truth → Truth → Truth
  | some true, _ | _, some true => some true
  | some false, some false => some false
  | _, _ => none

theorem and_assoc (a b c : Truth) : (a.and b).and c = a.and (b.and c) := by
  rcases a with _ | _ | _ <;> rcases b with _ | _ | _ <;> rcases c with _ | _ | _ <;> rfl

theorem or_assoc (a b c : Truth) : (a.or b).or c = a.or (b.or c) := by
  rcases a with _ | _ | _ <;> rcases b with _ | _ | _ <;> rcases c with _ | _ | _ <;> rfl

theorem and_true (a : Truth) : a.and (some true) = a := by
  rcases a with _ | _ | _ <;> rfl

/-- The truth value of two that a logical operator combines. -/
def apply : BinaryOp → Truth → Truth → Truth
  | .or, a, b => a.or b
  | _, a, b => a.and b

end Truth

mutual

/-- The truth value of an operand. -/
def Operand.truth (v : Expr → Truth) : Operand → Truth
  | .expr e => e.truth v
  | _ => none

/-- The truth value of a condition, by those of its comparisons and of its tests for rows. -/
def Expr.truth (v : Expr → Truth) : Expr → Truth
  | .binary left .and right => (left.truth v).and (right.truth v)
  | .binary left .or right => (left.truth v).or (right.truth v)
  | .unary .not operand => (operand.truth v).not
  | .unary .hasNoRow operand => (v (.unary .hasRow operand)).not
  | e => v e

end

/-- The truth value of the conditions of a clause, which all have to hold. -/
def Expr.allTruth (v : Expr → Truth) (conditions : List Expr) : Truth :=
  conditions.foldr (fun e t => (e.truth v).and t) (some true)

/-! ### Conditions -/

/-- Whether an operator compares its operands. -/
def BinaryOp.isComparison : BinaryOp → Bool
  | .and | .or | .add | .sub | .mul | .div => false
  | _ => true

mutual

/-- Whether an operand is a condition. -/
def Operand.isCondition : Operand → Bool
  | .expr e => e.isCondition
  | _ => false

/-- Whether an expression is a condition: comparisons of single operands and tests for rows, put together
by `AND`, `OR` and `NOT`. -/
def Expr.isCondition : Expr → Bool
  | .binary left op right =>
    if op.isLogical then left.isCondition && right.isCondition
    else op.isComparison && left.isSingle && right.isSingle
  | .unary .not operand => operand.isCondition
  | .unary .neg _ => false
  | .unary _ operand => operand.isSingle
  | _ => false

end

/-- A condition with a binary operator joins conditions, or compares single operands. -/
theorem Expr.isCondition_binary {left right : Operand} {op : BinaryOp}
    (h : (Expr.binary left op right).isCondition = true) :
    (op.isLogical = true ∧ left.isCondition = true ∧ right.isCondition = true) ∨
      (op.isLogical = false ∧ op.isComparison = true ∧ left.isSingle = true ∧ right.isSingle = true) := by
  rw [Expr.isCondition] at h
  split at h
  · next hop => exact .inl ⟨hop, Bool.and_eq_true_iff.1 h⟩
  · next hop =>
    rw [Bool.and_eq_true, Bool.and_eq_true] at h
    exact .inr ⟨Bool.eq_false_iff.2 hop, h.1.1, h.1.2, h.2⟩

/-- What a phrase means: parentheses are of no further use. -/
def Phrase.operand : Phrase Operand → Operand
  | leaf o => o
  | binary l op r => .expr (.binary l.operand op r.operand)
  | unary op x => .expr (.unary op x.operand)
  | group x => x.operand

variable {v : Expr → Truth}

/-- Operators of the level of a logical operator are that operator. -/
theorem BinaryOp.eq_of_level {op op' : BinaryOp} (hop : op.isLogical = true) (h : op'.level = op.level) :
    op' = op := by
  cases op <;> simp_all [BinaryOp.isLogical] <;> cases op' <;> simp_all [BinaryOp.level]

/-- A logical operator combines truth values. -/
theorem Expr.truth_binary {op : BinaryOp} (hop : op.isLogical = true) (left right : Operand) :
    (Expr.binary left op right).truth v = Truth.apply op (left.truth v) (right.truth v) := by
  cases op <;> simp [BinaryOp.isLogical] at hop <;> rfl

/-- A logical operator before a phrase combines its truth value, wherever it is read. -/
theorem Phrase.truth_under {op : BinaryOp} (hop : op.isLogical = true) (l x : Phrase Operand) :
    (x.under (.binary l op) op.level).operand.truth v =
      Truth.apply op (l.operand.truth v) (x.operand.truth v) := by
  have hassoc : ∀ a b c : Truth, Truth.apply op (Truth.apply op a b) c =
      Truth.apply op a (Truth.apply op b c) := by
    cases op with
    | and => exact Truth.and_assoc
    | or => exact Truth.or_assoc
    | _ => cases hop
  refine Phrase.eval_under (fun y => y.operand.truth v) Truth.apply
    (Truth.apply op (l.operand.truth v)) (fun l' op' r' hlevel => ?_) (fun y => ?_)
    (fun op' a b hlevel => ?_) x
  · obtain rfl := BinaryOp.eq_of_level hop hlevel
    exact Expr.truth_binary hop _ _
  · exact Expr.truth_binary hop _ _
  · obtain rfl := BinaryOp.eq_of_level hop hlevel
    exact hassoc _ _ _

mutual

/-- The phrase of an operand has its truth value. -/
theorem Operand.truth_phrase : ∀ o : Operand, o.isCondition = true →
    o.phrase.operand.truth v = o.truth v
  | .expr e, h => by
    have he := e.truth_phrase h
    rw [Operand.phrase, Operand.truth]
    split
    · exact he
    · exact he

/-- **The phrase of a condition has its truth value.** -/
theorem Expr.truth_phrase : ∀ e : Expr, e.isCondition = true → e.phrase.operand.truth v = e.truth v
  | .binary left op right, h => by
    rcases Expr.isCondition_binary h with ⟨hop, hleft, hright⟩ | ⟨-, -, hleft, hright⟩
    · rw [Expr.phrase, Phrase.truth_under hop, left.truth_phrase hleft, right.truth_phrase hright,
        Expr.truth_binary hop]
    · rw [Expr.phrase, left.phrase_of_isSingle hleft, right.phrase_of_isSingle hright]
      rfl
  | .unary op operand, h => by
    cases op with
    | not =>
      have ho := operand.truth_phrase h
      show (operand.phrase.operand.truth v).not = (operand.truth v).not
      rw [ho]
    | neg => cases h
    | hasRow =>
      show (Phrase.unary .hasRow operand.phrase).operand.truth v = _
      rw [operand.phrase_of_isSingle h]
      rfl
    | hasNoRow =>
      rw [Expr.phrase, operand.phrase_of_isSingle h]
      rfl

end

/-- A single operand binds more tightly than all operators. -/
theorem Operand.binds_of_isSingle : ∀ o : Operand, o.isSingle = true → o.binds ∧ o.phrase.level = 9
  | .name _, _ => ⟨trivial, rfl⟩
  | .query _, _ => ⟨trivial, rfl⟩
  | .expr (.param _), _ => ⟨trivial, rfl⟩
  | .expr (.values _), _ => ⟨trivial, rfl⟩

mutual

/-- A condition inside another one keeps its parts together, and binds at least as tightly as `NOT`. -/
theorem Operand.binds_of_isCondition : ∀ o : Operand, o.isCondition = true →
    o.binds ∧ UnaryOp.not.level ≤ o.phrase.level
  | .expr e, h => by
    obtain ⟨he, hlevel⟩ := e.binds_of_isCondition h
    refine ⟨he, ?_⟩
    rw [Operand.phrase]
    split
    · exact Nat.le_add_left 3 6
    · next hlogical => exact hlevel (Bool.eq_false_iff.2 hlogical)

/-- In a condition operators keep their operands; one that is no `AND` or `OR` binds at least as tightly as
`NOT`. -/
theorem Expr.binds_of_isCondition : ∀ e : Expr, e.isCondition = true →
    e.binds ∧ (e.isLogical = false → UnaryOp.not.level ≤ e.phrase.level)
  | .binary left op right, h => by
    rcases Expr.isCondition_binary h with ⟨hop, hleft, hright⟩ | ⟨-, hop, hleft, hright⟩
    · obtain ⟨hl, hllevel⟩ := left.binds_of_isCondition hleft
      obtain ⟨hr, hrlevel⟩ := right.binds_of_isCondition hright
      have hlevel : op.level ≤ UnaryOp.not.level := by
        cases op <;> simp_all [BinaryOp.isLogical, BinaryOp.level, UnaryOp.level]
      refine ⟨⟨hl, hr, Nat.le_trans hlevel hllevel, Nat.le_trans hlevel hrlevel⟩, fun hno => ?_⟩
      rw [Expr.isLogical, hop] at hno
      cases hno
    · obtain ⟨hl, hllevel⟩ := left.binds_of_isSingle hleft
      obtain ⟨hr, hrlevel⟩ := right.binds_of_isSingle hright
      have hlevel : UnaryOp.not.level ≤ op.level := by
        cases op <;> simp_all [BinaryOp.isComparison, BinaryOp.level, UnaryOp.level]
      have hle := Nat.le_of_lt (Phrase.lt_level op (k := 9) (by decide))
      exact ⟨⟨hl, hr, hllevel ▸ hle, hrlevel ▸ hle⟩, fun _ =>
        (Expr.level_phrase left op right).symm ▸ hlevel⟩
  | .unary op operand, h => by
    cases op with
    | not => exact ⟨operand.binds_of_isCondition h, fun _ => Nat.le_refl _⟩
    | neg => cases h
    | hasRow => exact ⟨h, fun _ => Nat.le_add_left 3 5⟩
    | hasNoRow => exact ⟨h, fun _ => Nat.le_refl _⟩

end

/-! ### The conditions of a clause -/

namespace Expr

/-- The phrase of a condition among others: an `OR` stands in parentheses. -/
def member (e : Expr) : Phrase Operand :=
  if e.isOr then .group e.phrase else e.phrase

/-- The phrase of conditions with `AND` between them. -/
def conjunctionPhrase : Expr → List Expr → Phrase Operand
  | e, [] => e.member
  | e, e' :: es => (conjunctionPhrase e' es).under (.binary e.member .and) BinaryOp.and.level

/-- The phrase of a condition among others has its tokens. -/
theorem tokens_member (e : Expr) :
    e.member.tokens Operand.nestedTokens = Token.parensIf e.isOr e.tokens := by
  rw [member]
  cases e.isOr with
  | true => exact congrArg Token.parens e.tokens_phrase
  | false => exact e.tokens_phrase

/-- Parentheses do not change its truth value. -/
theorem truth_member {e : Expr} (h : e.isCondition = true) : e.member.operand.truth v = e.truth v := by
  rw [member]
  split
  · exact e.truth_phrase h
  · exact e.truth_phrase h

theorem isLogical_of_isOr {e : Expr} (h : e.isOr = true) : e.isLogical = true := by
  cases e with
  | binary left op right => cases op <;> first | rfl | cases h
  | _ => cases h

/-- It is grouped as it is read, and binds at least as tightly as `AND`. -/
theorem grouped_member {e : Expr} (h : e.isCondition = true) :
    e.member.Grouped Operand.nestedTokens ∧ BinaryOp.and.level ≤ e.member.level := by
  obtain ⟨hbinds, hlevel⟩ := e.binds_of_isCondition h
  have he := e.grouped hbinds
  rw [member]
  split
  · next hor =>
    exact ⟨Expr.group_phrase he (isLogical_of_isOr hor), Nat.le_add_left 2 7⟩
  · next hor =>
    refine ⟨he, ?_⟩
    by_cases hlogical : e.isLogical = true
    · -- what is logical and no `OR` is an `AND`
      cases e with
      | binary left op right =>
        have hop : BinaryOp.and.level ≤ op.level := by
          cases op <;> first | decide | exact absurd rfl hor
        exact (Expr.level_phrase left op right).symm ▸ hop
      | _ => cases hlogical
    · exact Nat.le_of_lt (hlevel (Bool.eq_false_iff.2 hlogical))

/-- The phrase of some conditions has their tokens. -/
theorem tokens_conjunctionPhrase (e : Expr) (es : List Expr) :
    (conjunctionPhrase e es).tokens Operand.nestedTokens =
      Token.conjunction (conditionTokens (e :: es)) := by
  induction es generalizing e with
  | nil =>
    rw [conjunctionPhrase, tokens_member]
    exact (List.append_nil _).symm
  | cons e' es ih =>
    have hjoin : Token.conjunction (conditionTokens (e :: e' :: es)) =
        parensIf e.isOr e.tokens ++ [word "AND"] ++ Token.conjunction (conditionTokens (e' :: es)) :=
      List.intercalate_cons_cons
    rw [conjunctionPhrase, Phrase.tokens_under (fun y => rfl), ih, tokens_member, hjoin]
    rfl

/-- It is grouped as it is read, and binds at least as tightly as `AND`. -/
theorem grouped_conjunctionPhrase {e : Expr} {es : List Expr} (h : ∀ c ∈ e :: es, c.isCondition = true) :
    (conjunctionPhrase e es).Grouped Operand.nestedTokens ∧
      BinaryOp.and.level ≤ (conjunctionPhrase e es).level := by
  induction es generalizing e with
  | nil => exact grouped_member (h e List.mem_cons_self)
  | cons e' es ih =>
    obtain ⟨he, hlevel⟩ := grouped_member (h e List.mem_cons_self)
    obtain ⟨hes, heslevel⟩ := ih fun c hc => h c (List.mem_cons_of_mem _ hc)
    exact ⟨hes.under heslevel (fun y hy hylevel => .binary he hy hlevel hylevel) fun _ => Nat.le_refl _,
      Nat.le_of_eq (Phrase.level_under_binary _ _ _).symm⟩

/-- Its truth value is that of all of them. -/
theorem truth_conjunctionPhrase {e : Expr} {es : List Expr} (h : ∀ c ∈ e :: es, c.isCondition = true) :
    (conjunctionPhrase e es).operand.truth v = allTruth v (e :: es) := by
  induction es generalizing e with
  | nil =>
    have he := truth_member (v := v) (h e List.mem_cons_self)
    exact he.trans (Truth.and_true _).symm
  | cons e' es ih =>
    rw [conjunctionPhrase, Phrase.truth_under rfl, truth_member (h e List.mem_cons_self),
      ih fun c hc => h c (List.mem_cons_of_mem _ hc)]
    rfl

/-- Tokens that are read as a condition that has the truth value of all `conditions` together, whatever the
truth values of their comparisons and tests for rows are. -/
def SaidBy (conditions : List Expr) (ts : List Token) : Prop :=
  ∃ x : Phrase Operand, Phrase.read ts = some (x.map Operand.nestedTokens) ∧
    ∀ v, x.operand.truth v = allTruth v conditions

/-- The tokens of conditions with `AND` between them are read as all of them. -/
theorem saidBy_conjunction {conditions : List Expr} (hne : conditions ≠ [])
    (h : ∀ c ∈ conditions, c.isCondition = true) :
    SaidBy conditions (Token.conjunction (conditionTokens conditions)) := by
  obtain ⟨e, es, rfl⟩ := List.exists_cons_of_ne_nil hne
  refine ⟨conjunctionPhrase e es, ?_, fun v => truth_conjunctionPhrase h⟩
  rw [← tokens_conjunctionPhrase]
  exact Phrase.read_tokens (grouped_conjunctionPhrase h).1

end Expr

/-- Clauses without conditions are not written. -/
theorem Expr.ne_nil_of_mem_listed {w : String} {es : List Expr} {c : String × List Expr}
    (h : c ∈ Expr.listed w es) : c.2 ≠ [] := by
  rw [Expr.listed] at h
  split at h
  · exact absurd h List.not_mem_nil
  · next hes =>
    rw [List.mem_singleton.1 h]
    exact fun hnil => hes (List.isEmpty_iff.2 hnil)

/-- So all clauses have some. -/
theorem Statement.ne_nil_of_mem_conditionLists {st : Statement} {c : String × List Expr}
    (h : c ∈ st.conditionLists) : c.2 ≠ [] := by
  cases st with
  | select s =>
    rcases List.mem_append.1 h with h | h
    · rcases List.mem_append.1 h with h | h
      · obtain ⟨j, -, hj⟩ := List.mem_flatMap.1 h
        exact Expr.ne_nil_of_mem_listed hj
      · exact Expr.ne_nil_of_mem_listed h
    · exact Expr.ne_nil_of_mem_listed h
  | insert i => exact absurd h List.not_mem_nil
  | update u =>
    rw [Statement.conditionLists] at h
    split at h
    · exact absurd h List.not_mem_nil
    · exact Expr.ne_nil_of_mem_listed h
  | delete d => exact Expr.ne_nil_of_mem_listed h

/-- **The conditions of a statement are read as they are grouped.** Where the conditions of each clause with
`ON`, `WHERE` or `HAVING` are made of comparisons and tests for rows, its text is read, by the precedence of
operators alone, as a condition that has the truth value of all of them together, whatever the truth values of
the comparisons and tests are; and the text of a statement without verbatim parts has just these clauses. The
queries in it are statements of their own; nothing in them is verbatim, which could close their parentheses. -/
theorem Statement.reads_conditions (st : Statement) (h : ∀ c ∈ st.conditionLists,
    Expr.verbatimFreeAll c.2 = true ∧ ∀ e ∈ c.2, e.isCondition = true) :
    ∃ clauses : List (String × List Token),
      List.Forall₂ (fun c clause => clause.1 = c.1 ∧
        lex (Dialect.mysql.text (Expr.conjunctionLexemes c.2)).toList = some clause.2 ∧
        Expr.SaidBy c.2 clause.2) st.conditionLists clauses ∧
      (st.verbatimFree → (lex (st.text .mysql).toList).map conditionClauses = some clauses) := by
  refine ⟨st.conditionLists.map Token.ofConditions, ?_, fun hfree => ?_⟩
  · rw [List.forall₂_map_right_iff, List.forall₂_same]
    intro c hc
    obtain ⟨hfree, hconditions⟩ := h c hc
    have hread := Lexeme.ReadAs.conjunction (Expr.conditions_readAs c.2 hfree)
    exact ⟨rfl, hread.lex_eq,
      Expr.saidBy_conjunction (Statement.ne_nil_of_mem_conditionLists hc) hconditions⟩
  · have hlex : lex (st.text .mysql).toList = some st.tokens := (st.readAs hfree).lex_eq
    rw [hlex, Option.map_some, st.conditionClauses_tokens]

/-- Posts that are public, or their reader's and not closed, with the answers that are neither drafts nor spam
to old posts: each clause has an `OR`, and the query in one has conditions of its own. -/
theorem Statement.reads_conditions_readable :
    let is (name value : String) : Expr := .binary (.name name) .eq (.expr (.param (.text value)))
    let barred : Select := {
      tables := [{ name := "Barred" }]
      conditions := [is "kind" "author", .binary (.expr (is "id" "1")) .or (.expr (is "id" "2"))] }
    let st : Statement := .select {
      tables := [{ name := "Post" }]
      joins := [{ kind := .left, table := { name := "Answer" }, conditions :=
        [.binary (.name "Answer.post") .eq (.name "Post.id"),
          .unary .not (.expr (.binary (.expr (is "Answer.kind" "draft")) .or
            (.expr (.binary (.expr (is "Answer.kind" "spam")) .and (.expr (is "Post.kind" "old"))))))] }]
      conditions := [.binary (.expr (is "public" "1")) .or
        (.expr (.binary (.expr (is "reader" "7")) .and (.expr (.unary .not (.expr (is "closed" "1")))))),
        .unary .hasNoRow (.query barred)]
      groupBy := ["Post.id"]
      having := [.binary (.name "answers") .isIn (.expr (.values [.int 1, .int 2])),
        .binary (.expr (is "a" "1")) .or (.expr (is "b" "2"))] }
    st.conditionLists.map Prod.fst = ["ON", "WHERE", "HAVING"] ∧ st.verbatimFree = true ∧
    (∀ c ∈ st.conditionLists, Expr.verbatimFreeAll c.2 = true ∧ ∀ e ∈ c.2, e.isCondition = true) ∧
      ∃ clauses : List (String × List Token),
        List.Forall₂ (fun c clause => clause.1 = c.1 ∧
          lex (Dialect.mysql.text (Expr.conjunctionLexemes c.2)).toList = some clause.2 ∧
          Expr.SaidBy c.2 clause.2) st.conditionLists clauses ∧
        (lex (st.text .mysql).toList).map conditionClauses = some clauses := by
  intro is barred st
  have hfree : st.verbatimFree = true := by decide
  have hconditions : ∀ c ∈ st.conditionLists,
      Expr.verbatimFreeAll c.2 = true ∧ ∀ e ∈ c.2, e.isCondition = true := by decide
  obtain ⟨clauses, hclauses, hstatement⟩ := st.reads_conditions hconditions
  exact ⟨by decide, hfree, hconditions, clauses, hclauses, hstatement hfree⟩

end EntityGraph
