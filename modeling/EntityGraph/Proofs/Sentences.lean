import EntityGraph.Proofs.Accepted
import EntityGraph.Proofs.Grammar
import EntityGraph.Proofs.Planning
import EntityGraph.Proofs.Routes

/-!
# Statements that are sentences

The parts of a statement as phrases of the grammar: names and columns, tables and joins, and comparisons of
a column with what a filter compares it with. Which operator is followed by what decides whether a
comparison is an expression: in a sentence `IN` stands before a list, `IS` before null, and no list is empty,
since every token has been put there by a production.

## Main results

* `BinaryOp.derives_of_takes`, `BinaryOp.takes_of_derives`: a comparison is an expression iff the operator
  takes what it compares with;
* `Query.Writes.sentence_iff`: when the tokens of a statement that says what a query says are a sentence.
-/

namespace EntityGraph

namespace Grammar

open Token

variable {s column : String} {ts : List Token}

/-! ### Names and values -/

/-- A text that is written as one name. -/
def IsName (s : String) : Prop :=
  '.' ∉ s.toList ∧ s ≠ "*"

/-- A text that is written as a column: some names, at most three, with dots between them. -/
def IsColumn (s : String) : Prop :=
  (Text.splitDots s).length ≤ 3 ∧ "*" ∉ Text.splitDots s

theorem IsName.tokens (h : IsName s) : ofName s = [.name s] := by
  rw [ofName, Text.splitDots_of_not_mem h.1, List.map_singleton, List.intercalate_singleton, ofSegment,
    if_neg h.2]

/-- A column of a table, of which the table takes one of the names. -/
theorem IsName.qualify (h : IsName s) (hlength : (Text.splitDots column).length ≤ 2)
    (hstar : "*" ∉ Text.splitDots column) : IsColumn (s ++ "." ++ column) := by
  rw [IsColumn, Text.splitDots_append_dot, Text.splitDots_of_not_mem h.1]
  rw [List.singleton_append, List.length_cons, List.mem_cons, not_or]
  exact ⟨by omega, Ne.symm h.2, hstar⟩

theorem IsColumn.derives (h : IsColumn s) : Derives .column (ofName s) := by
  obtain ⟨hlength, hstar⟩ := h
  have hne : Text.splitDots s ≠ [] := by simp [Text.splitDots, Text.segments_ne_nil]
  have hsegment : ∀ x ∈ Text.splitDots s, ofSegment x = .name x := fun x hx => by
    rw [ofSegment, if_neg fun h : x = "*" => hstar (h ▸ hx)]
  rw [ofName]
  generalize Text.splitDots s = l at hlength hne hsegment
  rcases l with _ | ⟨a, _ | ⟨b, _ | ⟨c, _ | ⟨d, l⟩⟩⟩⟩
  · exact absurd rfl hne
  · refine ⟨[.name], by decide, ?_⟩
    simpa [hsegment a] using Yields.token rfl .nil
  · refine ⟨[.name, .mark ".", .name], by decide, ?_⟩
    simpa [hsegment a, hsegment b, List.intercalate_cons_cons] using
      Yields.token (t := .name a) rfl (.mark "." (.token (t := .name b) rfl .nil))
  · refine ⟨[.name, .mark ".", .name, .mark ".", .name], by decide, ?_⟩
    simpa [hsegment a, hsegment b, hsegment c, List.intercalate_cons_cons] using
      Yields.token (t := .name a) rfl (.mark "." (.token (t := .name b) rfl
        (.mark "." (.token (t := .name c) rfl .nil))))
  · simp only [List.length_cons] at hlength
    omega

/-- A column is simple. -/
theorem IsColumn.simple (h : IsColumn s) : Derives .simple (ofName s) :=
  h.derives.of_single (by decide)

/-- So is a value. -/
theorem derives_value (v : Value) : Derives .simple [ofValue v] := by
  cases v with
  | null =>
    exact ⟨[.words ["NULL", "TRUE", "FALSE"]], by decide, .token (by decide) .nil⟩
  | _ => exact ⟨[.text], by decide, .token rfl .nil⟩

end Grammar

open Grammar Token

/-! ### Tables and joins -/

/-- A table with another name. -/
def TableRef.IsNamed (t : TableRef) : Prop :=
  IsName t.name ∧ ∃ s, t.asName = some s ∧ IsName s

/-- A table with another name is a factor. -/
theorem TableRef.IsNamed.derives {t : TableRef} (h : t.IsNamed) : Derives .factor t.tokens := by
  obtain ⟨name, asName⟩ := t
  obtain ⟨hname, s, rfl, hs⟩ := h
  have htable : Derives .table [.name name] := ⟨[.name], by decide, .token rfl .nil⟩
  have hlabel : Derives .label [.word "AS", .name s] :=
    ⟨[.word "AS", .name], by decide, .word "AS" (.token rfl .nil)⟩
  rw [TableRef.tokens]
  simp only [hname.tokens, hs.tokens]
  exact ⟨[.phrase .table, .maybe .label], by decide, .cons htable (.single hlabel.optional)⟩

/-- A join of a product, or one that compares two columns. -/
def JoinClause.IsNamed (j : JoinClause) : Prop :=
  j.table.IsNamed ∧ (j.kind = .cross ∧ j.conditions = [] ∨
    ∃ left right, IsColumn left ∧ IsColumn right ∧ j.kind = .left ∧
      j.conditions = [.binary (.name left) .eq (.name right)])

/-- Comparing two columns is a condition. -/
theorem Grammar.derives_columns {left right : String} (hleft : IsColumn left) (hright : IsColumn right) :
    Derives .expr (Expr.tokens (.binary (.name left) .eq (.name right))) := by
  refine Derives.expr ⟨[.phrase .primary, .comparison, .phrase .predicate], by decide, ?_⟩
  rw [Expr.tokens, Operand.nestedTokens, Operand.nestedTokens, List.append_assoc]
  exact .cons hleft.simple.bits.predicate.primary (.token (by decide) (.single hright.simple.bits.predicate))

/-- What is joined to tables are tables. -/
theorem JoinClause.IsNamed.derives {j : JoinClause} (h : j.IsNamed) {ts : List Token}
    (hts : Derives .reference ts) : Derives .reference (ts ++ j.tokens) := by
  obtain ⟨kind, table, conditions⟩ := j
  obtain ⟨htable, ⟨rfl, rfl⟩ | ⟨left, right, hleft, hright, rfl, rfl⟩⟩ := h
  · have hside : Derives .side [.word "CROSS"] :=
      ⟨[.words ["INNER", "CROSS"]], by decide, .token (by decide) .nil⟩
    refine ⟨[.phrase .reference, .maybe .side, .word "JOIN", .phrase .factor, .maybe .matching],
      by decide, ?_⟩
    simpa [JoinClause.tokens, JoinKind.spelling, keywords, Token.clauseOf] using
      Yields.cons hts (.cons hside.optional (.word "JOIN" (.cons htable.derives
        (.cons (p := .optional .matching) .absent .nil))))
  · have hfactor : Derives .reference table.tokens := htable.derives.of_single (by decide)
    have hmatching : Derives .matching
        (.word "ON" :: Expr.tokens (.binary (.name left) .eq (.name right))) :=
      ⟨[.word "ON", .phrase .expr], by decide,
        .word "ON" (.single (derives_columns hleft hright))⟩
    refine ⟨[.phrase .reference, .words ["LEFT", "RIGHT"], .maybe .outer, .word "JOIN",
      .phrase .reference, .phrase .matching], by decide, ?_⟩
    have hyields := Yields.cons hts (.token (a := .words ["LEFT", "RIGHT"]) (t := .word "LEFT") (by decide)
      (.cons (p := .optional .outer) .absent (.word "JOIN" (.cons hfactor (.single hmatching)))))
    simpa [JoinClause.tokens, JoinKind.spelling, keywords, Token.clauseOf, Token.conjunction,
      Expr.conditionTokens, Token.parensIf, Expr.isOr] using hyields

/-- Tables are joined one after the other. -/
theorem JoinClause.derives_all {js : List JoinClause} (h : ∀ j ∈ js, j.IsNamed) {ts : List Token}
    (hts : Derives .reference ts) : Derives .reference (ts ++ JoinClause.tokensAll js) := by
  induction js generalizing ts with
  | nil => simpa [JoinClause.tokensAll] using hts
  | cons j js ih =>
    rw [JoinClause.tokensAll, ← List.append_assoc]
    exact ih (fun j' hj' => h j' (List.mem_cons_of_mem _ hj')) ((h j List.mem_cons_self).derives hts)

/-! ### Conditions -/

namespace Grammar

variable {ts us : List Token}

/-- A negation that is there, or is left out. -/
theorem derives_negation (b : Bool) :
    Derives (.optional .negation) (if b then keywords ["NOT"] else []) := by
  cases b with
  | false => exact .absent
  | true => exact Derives.optional ⟨[.word "NOT"], by decide, .word "NOT" .nil⟩

/-- Membership in a list that is not empty. -/
theorem derives_in (b : Bool) (hleft : Derives .simple ts) (hright : Derives (.list .expr) us) :
    Derives .expr (ts ++ ((if b then keywords ["NOT"] else []) ++ .word "IN" :: parens us)) := by
  refine (Derives.primary ⟨[.phrase .bits, .maybe .negation, .word "IN", .mark "(", .listOf .expr,
    .mark ")"], by decide, ?_⟩).expr
  exact .cons hleft.bits (.cons (derives_negation b) (.word "IN" (.mark "(" (.cons hright
    (.mark ")" .nil)))))

/-- Being null. -/
theorem derives_isNull (b : Bool) (hleft : Derives .simple ts) :
    Derives .expr (ts ++ .word "IS" :: ((if b then keywords ["NOT"] else []) ++ [.word "NULL"])) := by
  refine Derives.expr ⟨[.phrase .primary, .word "IS", .maybe .negation, .word "NULL"],
    by decide, ?_⟩
  exact .cons hleft.bits.predicate.primary (.word "IS" (.cons (derives_negation b) (.word "NULL" .nil)))

/-- Being like a pattern. -/
theorem derives_like (b : Bool) (hleft : Derives .simple ts) (hright : Derives .simple us) :
    Derives .expr (ts ++ ((if b then keywords ["NOT"] else []) ++ .word "LIKE" :: us)) := by
  refine (Derives.primary ⟨[.phrase .bits, .maybe .negation, .word "LIKE", .phrase .simple,
    .maybe .escape], by decide, ?_⟩).expr
  simpa using Yields.cons hleft.bits (.cons (derives_negation b) (.word "LIKE" (.cons hright
    (.cons (p := .optional .escape) .absent .nil))))

/-- The other operators stand between any operands that are simple. -/
theorem derives_binary {op : BinaryOp} (hop : op ∉ [.isIn, .notIn, .is, .isNot])
    (hleft : Derives .simple ts) (hright : Derives .simple us) :
    Derives .expr (ts ++ (op.tokens ++ us)) := by
  cases op with
  | eq | ne | lt | le | gt | ge =>
    exact Derives.expr ⟨[.phrase .primary, .comparison, .phrase .predicate], by decide,
      .cons hleft.bits.predicate.primary (.token (by decide) (.single hright.bits.predicate))⟩
  | like => exact derives_like false hleft hright
  | notLike => exact derives_like true hleft hright
  | and | or =>
    exact ⟨[.phrase .expr, .connective, .phrase .expr], by decide,
      .cons hleft.bits.predicate.primary.expr (.token (by decide)
        (.single hright.bits.predicate.primary.expr))⟩
  | add | sub | mul | div =>
    exact (Derives.predicate ⟨[.phrase .bits, .arithmetic, .phrase .bits], by decide,
      .cons hleft.bits (.token (by decide) (.single hright.bits))⟩).primary.expr
  | isIn | notIn | is | isNot => exact absurd (by decide) hop

end Grammar

/-- Whether an operator takes what a filter compares with: `IN` takes lists, `IS` takes null, and no
operator takes an empty list. -/
def BinaryOp.takes (op : BinaryOp) : FilterValue → Bool
  | .one v => !(op ∈ [.isIn, .notIn]) && (!(op ∈ [.is, .isNot]) || v.isNull)
  | .many vs => !(op ∈ [.is, .isNot]) && !vs.isEmpty

/-- The tokens of what a filter compares with. -/
def FilterValue.tokens : FilterValue → List Token
  | .one v => [ofValue v]
  | .many vs => Token.values vs

namespace BinaryOp

variable {op : BinaryOp} {value : FilterValue} {ts xs ys : List Token} {p : Grammar.Phrase}

/-- An operator between something simple and what it takes. -/
theorem derives_of_takes (h : op.takes value = true) (hleft : Derives .simple ts) :
    Derives .expr (ts ++ (op.tokens ++ value.tokens)) := by
  cases value with
  | one v =>
    cases op with
    | isIn | notIn => cases h
    | is | isNot =>
      obtain rfl : v = .null := by cases v <;> first | rfl | cases h
      first | exact derives_isNull false hleft | exact derives_isNull true hleft
    | _ => exact derives_binary (by decide) hleft (derives_value v)
  | many vs =>
    have hne : vs ≠ [] := by
      rintro rfl
      rw [takes, List.isEmpty_nil, Bool.not_true, Bool.and_false] at h
      cases h
    have hvalues : Derives (.list .expr) (list (vs.map fun v => [ofValue v])) :=
      .list_map hne fun v _ => (derives_value v).bits.predicate.primary.expr
    cases op with
    | is | isNot => cases h
    | isIn => exact derives_in false hleft hvalues
    | notIn => exact derives_in true hleft hvalues
    | _ => exact derives_binary (by decide) hleft hvalues.parens

/-- What it means that an operator takes something. -/
theorem takes_iff : op.takes value = true ↔ (op ∈ [.isIn, .notIn] → ∃ vs, value = .many vs) ∧
    (op ∈ [.is, .isNot] → value = .one .null) ∧ value ≠ .many [] := by
  cases value with
  | one v =>
    cases op <;> cases v <;> simp [takes, Value.isNull]
  | many vs => cases op <;> simp [takes]

/-- No operator ends with a name. -/
theorem not_suffix_tokens (op : BinaryOp) (xs : List Token) (s : String) :
    ¬[.name s] <:+ xs ++ op.tokens := by
  rintro ⟨zs, h⟩
  have hlast := congrArg List.getLast? h
  cases op <;> simp [BinaryOp.tokens, keywords] at hlast

/-- What begins with a parenthesis is a list. -/
theorem eq_many_of_prefix (h : [.symbol "("] <+: value.tokens ++ ys) : ∃ vs, value = .many vs := by
  cases value with
  | many vs => exact ⟨vs, rfl⟩
  | one v =>
    have hv := (List.cons_prefix_cons.1 h).1
    cases v <;> cases hv

/-- What begins with a keyword is null. -/
theorem eq_null_of_prefix {w : String} (h : [.word w] <+: value.tokens ++ ys) : value = .one .null := by
  cases value with
  | many vs =>
    cases (List.cons_prefix_cons.1 h).1
  | one v =>
    have hv := (List.cons_prefix_cons.1 h).1
    cases v with
    | null => rfl
    | _ => cases hv

/-- In a phrase an operator stands before something that it takes. -/
theorem takes_of_derives (h : Derives p (xs ++ (op.tokens ++ (value.tokens ++ ys)))) :
    op.takes value = true := by
  refine takes_iff.2 ⟨fun hin => ?_, fun his => ?_, ?_⟩
  · obtain ⟨ts, hts⟩ : ∃ ts, op.tokens = ts ++ [.word "IN"] := by
      simp only [List.mem_cons, List.not_mem_nil, or_false] at hin
      rcases hin with rfl | rfl
      · exact ⟨[], rfl⟩
      · exact ⟨keywords ["NOT"], rfl⟩
    rw [hts, List.append_assoc, ← List.append_assoc xs] at h
    exact eq_many_of_prefix h.placed.open_after
  · simp only [List.mem_cons, List.not_mem_nil, or_false] at his
    rcases his with rfl | rfl
    · obtain ⟨w, hw, hvs | hvs⟩ := Derives.placed h |>.truth_after
      · exact eq_null_of_prefix hvs
      · have hnot : [Token.word "NOT"] <+: [.word "NOT", .word w] := ⟨[.word w], rfl⟩
        exact eq_null_of_prefix (hnot.trans hvs)
    · obtain ⟨w, hw, hvs | hvs⟩ := Derives.placed h |>.truth_after
      · obtain rfl := Token.word.inj (List.cons_prefix_cons.1 hvs).1
        exact absurd hw (by decide)
      · exact eq_null_of_prefix (List.cons_prefix_cons.1 hvs).2
  · rintro rfl
    rw [← List.append_assoc] at h
    obtain ⟨s, hs⟩ | ⟨t, ht, hvs⟩ := Derives.placed h |>.member_after
    · exact not_suffix_tokens op xs s hs
    · exact ht (List.cons_prefix_cons.1 hvs).1

end BinaryOp

/-! ### Sentences -/

/-- Counts, of which the second one is there only with the first one. -/
theorem Grammar.derives_counts {limit offset : Option Nat} (h : offset.isSome → limit.isSome) :
    Derives (.optional .limit) (count "LIMIT" limit ++ count "OFFSET" offset) := by
  cases limit with
  | none =>
    cases offset with
    | none => exact .absent
    | some n => cases h rfl
  | some n =>
    refine Derives.optional ?_
    cases offset with
    | none =>
      exact ⟨[.word "LIMIT", .number], by decide, .word "LIMIT" (.token rfl .nil)⟩
    | some k =>
      exact ⟨[.word "LIMIT", .number, .word "OFFSET", .number], by decide,
        .word "LIMIT" (.token rfl (.word "OFFSET" (.token rfl .nil)))⟩

/-- Columns to order by, with their directions. -/
theorem Grammar.derives_order {os : List (String × Direction)} (hne : os ≠ [])
    (h : ∀ o ∈ os, IsColumn o.1) :
    Derives (.list .ordering) (list (os.map fun (c, d) => ofName c ++ [.word d.spelling])) := by
  refine .list_map hne fun o ho => ?_
  have hdirection : Derives .direction [.word o.2.spelling] :=
    ⟨[.words ["ASC", "DESC"]], by decide, .token (by cases o.2 <;> decide) .nil⟩
  exact ⟨[.phrase .expr, .maybe .direction], by decide,
    .cons (h o ho).simple.bits.predicate.primary.expr (.single hdirection.optional)⟩

/-- Members are parts of a list with separators. -/
theorem Token.infix_intercalate {sep ts : List Token} {tss : List (List Token)} (h : ts ∈ tss) :
    ts <:+: sep.intercalate tss := by
  induction tss with
  | nil => cases h
  | cons us tss ih =>
    cases tss with
    | nil =>
      obtain rfl := List.mem_singleton.1 h
      simp
    | cons vs tss =>
      rw [List.intercalate_cons_cons]
      rcases List.mem_cons.1 h with rfl | h
      · rw [List.append_assoc]
        exact (List.prefix_append ts _).isInfix
      · exact (ih h).trans (List.suffix_append _ _).isInfix

/-- Tokens are a part of themselves in parentheses. -/
theorem Token.infix_parensIf (b : Bool) (ts : List Token) : ts <:+: parensIf b ts := by
  cases b with
  | false => exact List.infix_rfl
  | true => exact ⟨[.symbol "("], [.symbol ")"], rfl⟩

/-- The tokens of conditions, one by one. -/
theorem Expr.conditionTokens_eq_map (es : List Expr) :
    Expr.conditionTokens es = es.map fun e => parensIf e.isOr e.tokens := by
  induction es with
  | nil => rfl
  | cons e es ih => rw [Expr.conditionTokens, ih, List.map_cons]

/-- The tokens of selected columns, one by one. -/
theorem Operand.columnTokens_eq_map (columns : List (Operand × Option String)) :
    Operand.columnTokens columns = columns.map fun (operand, asName) =>
      operand.tokens ++ match asName with
        | some s => .word "AS" :: ofName s
        | none => [] := by
  induction columns with
  | nil => rfl
  | cons column columns ih =>
    obtain ⟨operand, asName⟩ := column
    rw [List.map_cons, ← ih]
    cases asName <;> rfl

/-- Columns of which none is written verbatim. -/
theorem Operand.verbatimFreeAll_of_forall {columns : List (Operand × Option String)}
    (h : ∀ column ∈ columns, column.1.verbatimFree = true) : Operand.verbatimFreeAll columns = true := by
  induction columns with
  | nil => rfl
  | cons column columns ih =>
    rw [Operand.verbatimFreeAll, Bool.and_eq_true]
    exact (List.forall_mem_cons.1 h).imp_right ih

/-- Conditions of which none is written verbatim. -/
theorem Expr.verbatimFreeAll_of_forall {es : List Expr} (h : ∀ e ∈ es, e.verbatimFree = true) :
    Expr.verbatimFreeAll es = true := by
  induction es with
  | nil => rfl
  | cons e es ih =>
    rw [Expr.verbatimFreeAll, Bool.and_eq_true]
    exact (List.forall_mem_cons.1 h).imp_right ih

/-- Joins of which none is written verbatim. -/
theorem JoinClause.verbatimFreeAll_of_forall {js : List JoinClause}
    (h : ∀ j ∈ js, j.verbatimFree = true) : JoinClause.verbatimFreeAll js = true := by
  induction js with
  | nil => rfl
  | cons j js ih =>
    rw [JoinClause.verbatimFreeAll, Bool.and_eq_true]
    exact (List.forall_mem_cons.1 h).imp_right ih

/-- The tokens of the condition of a filter. -/
theorem Filter.tokens_condition (column : String) (op : BinaryOp) (value : FilterValue) :
    Expr.tokens (.binary (.name column) op (.expr value.toExpr)) =
      ofName column ++ (op.tokens ++ value.tokens) := by
  cases value <;> exact List.append_assoc _ _ _

/-- The conditions of a query are parts of it. -/
theorem Select.infix_tokens {s : Select} {e : Expr} (he : e ∈ s.conditions) :
    parensIf e.isOr e.tokens <:+: s.tokens := by
  have hconjunction : parensIf e.isOr e.tokens <:+: conjunction (Expr.conditionTokens s.conditions) := by
    rw [Expr.conditionTokens_eq_map]
    exact infix_intercalate (List.mem_map_of_mem he)
  obtain ⟨columns, tables, joins, conditions, groupBy, having, orderBy, limit, offset⟩ := s
  have hne : conditions.isEmpty = false := by
    cases conditions with
    | nil => cases he
    | cons => rfl
  have hclause : parensIf e.isOr e.tokens <:+: Token.clauseOf conditions ["WHERE"]
      (conjunction (Expr.conditionTokens conditions)) := by
    rw [Token.clauseOf, hne]
    exact List.infix_append_of_infix_right hconjunction
  rw [Select.tokens]
  iterate 5 refine List.infix_append_of_infix_left ?_
  exact List.infix_append_of_infix_right hclause

/-! ### Tokens without numbers -/

namespace Token

/-- Tokens among which there is no number. -/
def Unnumbered (ts : List Token) : Prop :=
  ∀ digits, Token.number digits ∉ ts

variable {ts us sep : List Token} {tss : List (List Token)}

theorem Unnumbered.append (hts : Unnumbered ts) (hus : Unnumbered us) : Unnumbered (ts ++ us) :=
  fun digits h => (List.mem_append.1 h).elim (hts digits) (hus digits)

theorem Unnumbered.cons {t : Token} (ht : ∀ digits, t ≠ .number digits) (hts : Unnumbered ts) :
    Unnumbered (t :: ts) := fun digits h =>
  (List.mem_cons.1 h).elim (fun heq => ht digits heq.symm) (hts digits)

theorem Unnumbered.nil : Unnumbered [] := fun _ h => nomatch h

theorem Unnumbered.intercalate (hsep : Unnumbered sep) (h : ∀ ts ∈ tss, Unnumbered ts) :
    Unnumbered (sep.intercalate tss) := by
  induction tss with
  | nil => exact .nil
  | cons ts tss ih =>
    have hts := h ts List.mem_cons_self
    have htss := ih fun us hus => h us (List.mem_cons_of_mem _ hus)
    cases tss with
    | nil => simpa using hts
    | cons us tss =>
      rw [List.intercalate_cons_cons]
      exact (hts.append hsep).append htss

theorem unnumbered_keywords (ws : List String) : Unnumbered (keywords ws) := fun digits h => by
  obtain ⟨w, -, hw⟩ := List.mem_map.1 h
  cases hw

theorem unnumbered_ofName (s : String) : Unnumbered (ofName s) := by
  refine .intercalate (.cons (by simp) .nil) fun ts hts => ?_
  obtain ⟨segment, -, rfl⟩ := List.mem_map.1 hts
  refine .cons (fun digits => ?_) .nil
  rw [ofSegment]
  split <;> simp

theorem unnumbered_list (h : ∀ ts ∈ tss, Unnumbered ts) : Unnumbered (list tss) :=
  .intercalate (.cons (by simp) .nil) h

theorem unnumbered_order (os : List (String × Direction)) :
    Unnumbered (list (os.map fun (c, d) => ofName c ++ [.word d.spelling])) := by
  refine unnumbered_list fun ts hts => ?_
  obtain ⟨o, -, rfl⟩ := List.mem_map.1 hts
  exact (unnumbered_ofName o.1).append (.cons (by simp) .nil)

theorem Unnumbered.parens (h : Unnumbered ts) : Unnumbered (parens ts) :=
  .cons (by simp) (h.append (.cons (by simp) .nil))

theorem Unnumbered.clauseOf {α : Type} (xs : List α) (ws : List String) (h : Unnumbered ts) :
    Unnumbered (clauseOf xs ws ts) := by
  rw [Token.clauseOf]
  split
  · exact .nil
  · exact (unnumbered_keywords ws).append h

end Token

/-- Filters compare with no bare number. -/
theorem FilterValue.unnumbered_tokens (value : FilterValue) : Unnumbered value.tokens := by
  have hvalue : ∀ v : Value, Unnumbered [ofValue v] := fun v =>
    .cons (fun digits => by cases v <;> simp [ofValue]) .nil
  cases value with
  | one v => exact hvalue v
  | many vs =>
    refine (unnumbered_list fun ts hts => ?_).parens
    obtain ⟨v, -, rfl⟩ := List.mem_map.1 hts
    exact hvalue v

theorem BinaryOp.unnumbered_tokens (op : BinaryOp) : Unnumbered op.tokens := by
  cases op <;> exact fun digits h => by simp [BinaryOp.tokens, keywords] at h

theorem TableRef.unnumbered_tokens (t : TableRef) : Unnumbered t.tokens := by
  obtain ⟨name, asName⟩ := t
  rw [TableRef.tokens]
  refine (unnumbered_ofName name).append ?_
  cases asName with
  | none => exact .nil
  | some s => exact .cons (by simp) (unnumbered_ofName s)

/-- Joins that compare columns have no numbers. -/
theorem JoinClause.unnumbered_tokensAll {js : List JoinClause} (h : ∀ j ∈ js, j.IsNamed) :
    Unnumbered (JoinClause.tokensAll js) := by
  induction js with
  | nil => exact .nil
  | cons j js ih =>
    obtain ⟨hj, hjs⟩ := List.forall_mem_cons.1 h
    obtain ⟨kind, table, conditions⟩ := j
    have hhead := (unnumbered_keywords [kind.spelling, "JOIN"]).append table.unnumbered_tokens
    have hconditions : Unnumbered (conjunction (Expr.conditionTokens conditions)) := by
      obtain ⟨-, ⟨-, rfl⟩ | ⟨left, right, -, -, -, rfl⟩⟩ := hj
      · exact .nil
      · have hcomparison := ((unnumbered_ofName left).append (BinaryOp.unnumbered_tokens .eq)).append
          (unnumbered_ofName right)
        simpa [conjunction, Expr.conditionTokens, Expr.isOr, Token.parensIf, Expr.tokens,
          Operand.nestedTokens] using hcomparison
    exact (hhead.append (hconditions.clauseOf conditions ["ON"])).append (ih hjs)

/-- A query without its counts. -/
def Select.uncounted (s : Select) : Select :=
  { s with limit := none, offset := none }

/-- The counts come last. -/
theorem Select.tokens_eq (s : Select) :
    s.tokens = s.uncounted.tokens ++ (count "LIMIT" s.limit ++ count "OFFSET" s.offset) := by
  cases s
  simp [Select.uncounted, Select.tokens, count]

namespace Query

/-- What a query is compiled to, as far as its grammar depends on it. -/
structure Writes (q : Query) (s : Select) : Prop where
  columns : ∀ column ∈ s.columns, ∃ reference label, column = (.name reference, some label) ∧
    IsColumn reference ∧ IsName label
  tables : ∃ t, s.tables = [t] ∧ t.IsNamed
  joins : ∀ j ∈ s.joins, j.IsNamed
  conditions : List.Forall₂ (fun (f : Filter) e => ∃ column, IsColumn column ∧
    e = .binary (.name column) f.op (.expr f.value.toExpr)) q.filters s.conditions
  groupBy : s.groupBy = []
  having : s.having = []
  orderBy : ∀ o ∈ s.orderBy, IsColumn o.1
  limit : s.limit = q.limit
  offset : s.offset = q.offset

namespace Writes

variable {q : Query} {s : Select}

/-- Nothing is written verbatim. -/
theorem verbatimFree (h : q.Writes s) : s.verbatimFree = true := by
  have hcolumns : Operand.verbatimFreeAll s.columns = true := by
    refine Operand.verbatimFreeAll_of_forall fun column hcolumn => ?_
    obtain ⟨reference, label, rfl, -⟩ := h.columns column hcolumn
    rfl
  have hjoins : JoinClause.verbatimFreeAll s.joins = true := by
    refine JoinClause.verbatimFreeAll_of_forall fun j hj => ?_
    obtain ⟨kind, table, conditions⟩ := j
    obtain ⟨-, ⟨-, rfl⟩ | ⟨left, right, -, -, -, rfl⟩⟩ := h.joins _ hj <;> rfl
  have hconditions : Expr.verbatimFreeAll s.conditions = true := by
    refine Expr.verbatimFreeAll_of_forall fun e he => ?_
    obtain ⟨f, -, column, -, rfl⟩ := exists_of_forall₂ h.conditions.flip he
    cases f.value <;> rfl
  have hhaving := h.having
  obtain ⟨columns, tables, joins, conditions, groupBy, having, orderBy, limit, offset⟩ := s
  obtain rfl : having = [] := hhaving
  rw [Select.verbatimFree, hcolumns, hjoins, hconditions]
  rfl

/-- The text of the query is read as its tokens. -/
theorem lex_text (h : q.Writes s) : lex (s.text .mysql).toList = some s.tokens :=
  (s.readAs h.verbatimFree).lex_eq

/-- The columns are selected. -/
theorem derives_selected (h : q.Writes s) : Derives .selected
    (if s.columns.isEmpty then [.symbol "*"] else list (Operand.columnTokens s.columns)) := by
  split
  · exact ⟨[.mark "*"], by decide, .mark "*" .nil⟩
  · next hne =>
    refine Derives.of_single (p := .list .item) (by decide) (.list ?_ fun ts hts => ?_)
    · simpa [Operand.columnTokens_eq_map] using hne
    · rw [Operand.columnTokens_eq_map] at hts
      obtain ⟨column, hcolumn, rfl⟩ := List.mem_map.1 hts
      obtain ⟨reference, label, rfl, hreference, hlabel⟩ := h.columns column hcolumn
      have hexpr : Derives .expr (ofName reference) := hreference.simple.bits.predicate.primary.expr
      have halias : Derives .label [.word "AS", .name label] :=
        ⟨[.word "AS", .name], by decide, .word "AS" (.token rfl .nil)⟩
      simp only [Operand.tokens, hlabel.tokens]
      exact ⟨[.phrase .expr, .maybe .label], by decide, .cons hexpr (.single halias.optional)⟩

/-- A query whose filters fit their operators, and that has no offset without a limit, is written as a
sentence. -/
theorem sentence (h : q.Writes s) (hfilters : ∀ f ∈ q.filters, f.op.takes f.value = true)
    (hoffset : q.offset.isSome → q.limit.isSome) : Sentence s.tokens := by
  have hselected := h.derives_selected
  have hconditions : s.conditions ≠ [] →
      Derives .expr (conjunction (Expr.conditionTokens s.conditions)) := by
    intro hne
    refine .conjunction (by simpa [Expr.conditionTokens_eq_map] using hne) fun ts hts => ?_
    rw [Expr.conditionTokens_eq_map] at hts
    obtain ⟨e, he, rfl⟩ := List.mem_map.1 hts
    obtain ⟨f, hf, column, hcolumn, rfl⟩ := exists_of_forall₂ h.conditions.flip he
    have hexpr := BinaryOp.derives_of_takes (hfilters f hf) hcolumn.simple
    rw [← Filter.tokens_condition] at hexpr
    rw [Token.parensIf]
    split
    · exact hexpr.one.parens.bits.predicate.primary.expr
    · exact hexpr
  have hlimit : Derives (.optional .limit) (count "LIMIT" s.limit ++ count "OFFSET" s.offset) :=
    derives_counts (by rwa [h.offset, h.limit])
  obtain ⟨t, ht, htable⟩ := h.tables
  have hreference : Derives .reference t.tokens := htable.derives.of_single (by decide)
  have htables := (Derives.clause (c := .tables)
    (JoinClause.derives_all h.joins hreference).one).optional
  have hgroups : Derives (.optional (.clause .groups)) [] := .absent
  have hhaving : Derives (.optional (.clause .having)) [] := .absent
  have hdistinction : Derives (.optional .distinction) [] := .absent
  have hyields := Yields.word "SELECT" (.cons hdistinction (.cons hselected (.cons htables
    (.cons (Derives.clauseOf .conditions hconditions) (.cons hgroups (.cons hhaving
      (.cons (Derives.clauseOf .order fun hne => derives_order hne h.orderBy) (.single hlimit))))))))
  obtain ⟨columns, tables, joins, conditions, groupBy, having, orderBy, limit, offset⟩ := s
  obtain ⟨rfl, rfl, rfl⟩ : tables = [t] ∧ groupBy = [] ∧ having = [] := ⟨ht, h.groupBy, h.having⟩
  refine ⟨_, List.mem_singleton_self _, ?_⟩
  simpa [Select.tokens, Token.clauseOf, Clause.words, Token.list, List.append_assoc] using hyields

/-- In a sentence every filter fits its operator. -/
theorem takes_of_sentence (h : q.Writes s) (hs : Sentence s.tokens) :
    ∀ f ∈ q.filters, f.op.takes f.value = true := by
  intro f hf
  obtain ⟨e, he, column, -, rfl⟩ := exists_of_forall₂ h.conditions hf
  have hinfix := (infix_parensIf _ _).trans (Select.infix_tokens he)
  obtain ⟨xs, ys, heq⟩ := hinfix
  have hderives : Derives .query (xs ++ ofName column ++ (f.op.tokens ++ (f.value.tokens ++ ys))) := by
    rw [← heq, Filter.tokens_condition] at hs
    simpa [Sentence, List.append_assoc] using hs
  exact BinaryOp.takes_of_derives hderives

/-- Without its counts the query is written without numbers. -/
theorem unnumbered (h : q.Writes s) : Unnumbered s.uncounted.tokens := by
  have hselected : Unnumbered
      (if s.columns.isEmpty then [.symbol "*"] else list (Operand.columnTokens s.columns)) := by
    split
    · exact .cons (by simp) .nil
    · rw [Operand.columnTokens_eq_map]
      refine unnumbered_list fun ts hts => ?_
      obtain ⟨column, hcolumn, rfl⟩ := List.mem_map.1 hts
      obtain ⟨reference, label, rfl, -⟩ := h.columns column hcolumn
      exact (unnumbered_ofName reference).append (.cons (by simp) (unnumbered_ofName label))
  have htables : Unnumbered (list (s.tables.map TableRef.tokens)) := by
    refine unnumbered_list fun ts hts => ?_
    obtain ⟨t, -, rfl⟩ := List.mem_map.1 hts
    exact t.unnumbered_tokens
  have hjoins : Unnumbered (JoinClause.tokensAll s.joins) := JoinClause.unnumbered_tokensAll h.joins
  have hconditions : Unnumbered (conjunction (Expr.conditionTokens s.conditions)) := by
    rw [Expr.conditionTokens_eq_map]
    refine .intercalate (.cons (by simp) .nil) fun ts hts => ?_
    obtain ⟨e, he, rfl⟩ := List.mem_map.1 hts
    obtain ⟨f, -, column, -, rfl⟩ := exists_of_forall₂ h.conditions.flip he
    have hexpr := (unnumbered_ofName column).append
      (f.op.unnumbered_tokens.append f.value.unnumbered_tokens)
    rw [← Filter.tokens_condition] at hexpr
    rw [Token.parensIf]
    split
    · exact hexpr.parens
    · exact hexpr
  have hgroupBy := h.groupBy
  have hhaving := h.having
  obtain ⟨columns, tables, joins, conditions, groupBy, having, orderBy, limit, offset⟩ := s
  obtain ⟨rfl, rfl⟩ : groupBy = [] ∧ having = [] := ⟨hgroupBy, hhaving⟩
  rw [Select.uncounted, Select.tokens]
  exact (((((((Unnumbered.cons (by simp) hselected).append (htables.clauseOf _ _)).append hjoins).append
    (hconditions.clauseOf _ _)).append .nil).append .nil).append ((unnumbered_order orderBy).clauseOf _ _)).append .nil
      |>.append .nil

/-- In a sentence there is no offset without a limit. -/
theorem limit_of_sentence (h : q.Writes s) (hs : Sentence s.tokens) :
    q.offset.isSome → q.limit.isSome := by
  rw [← h.offset, ← h.limit]
  intro hoffset
  obtain ⟨k, hk⟩ := Option.isSome_iff_exists.1 hoffset
  by_contra hlimit
  rw [Option.not_isSome_iff_eq_none] at hlimit
  rw [Select.tokens_eq, hk, hlimit] at hs
  obtain ⟨digits, hsuffix⟩ := (Derives.placed hs).limit_before
  exact h.unnumbered digits (hsuffix.subset (by simp))

/-- A query is written as a sentence iff its filters fit their operators and it has no offset without a
limit. -/
theorem sentence_iff (h : q.Writes s) : Sentence s.tokens ↔
    (∀ f ∈ q.filters, f.op.takes f.value = true) ∧ (q.offset.isSome → q.limit.isSome) :=
  ⟨fun hs => ⟨h.takes_of_sentence hs, h.limit_of_sentence hs⟩, fun hfits => h.sentence hfits.1 hfits.2⟩

end Writes

end Query

end EntityGraph
