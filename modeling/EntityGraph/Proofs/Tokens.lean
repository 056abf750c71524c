import EntityGraph.Proofs.Lexing
import Mathlib.Data.List.Forall2

/-!
# The tokens of statements

The tokens that a statement is meant to have are read off its tree: its keywords, operators and
punctuation, a name for every segment of a name, a text for every value but null. Whatever names
and values a statement holds, the text of the `mysql` dialect is read as exactly these tokens, as
long as no part of it is written verbatim: a value cannot end its quotes, a name cannot end its
backticks, and no comment begins between two operators.

* `Lexeme.ReadAs` — what lexemes are read as, with a lemma for each way to put lexemes together;
* `Expr.readAs`, `Select.readAs` — the mutual induction over expressions and queries;
* `lex_text_of_verbatimFree` — every statement is read as its tokens.
-/

namespace EntityGraph

/-! ### The tokens that are meant -/

namespace Token

/-- Keywords in a row. -/
def keywords (ws : List String) : List Token :=
  ws.map word

/-- Tokens in parentheses. -/
def parens (ts : List Token) : List Token :=
  symbol "(" :: ts ++ [symbol ")"]

/-- Parentheses where they are needed. -/
def parensIf (b : Bool) (ts : List Token) : List Token :=
  if b then parens ts else ts

/-- Members with commas between them. -/
def list (tss : List (List Token)) : List Token :=
  [symbol ","].intercalate tss

/-- Conditions that all have to hold. -/
def conjunction (tss : List (List Token)) : List Token :=
  [word "AND"].intercalate tss

/-- A clause that is there only if it has members. -/
def clauseOf {α : Type} (xs : List α) (ws : List String) (body : List Token) : List Token :=
  if xs.isEmpty then [] else keywords ws ++ body

/-- A clause with a count. -/
def count (w : String) : Option Nat → List Token
  | some n => [word w, number (String.ofList (Decimal.digitChars n))]
  | none => []

/-- The values of a set or of a row. -/
def values (vs : List Value) : List Token :=
  parens (list (vs.map fun v => [ofValue v]))

end Token

open Token

/-- The tokens of a binary operator. -/
def BinaryOp.tokens : BinaryOp → List Token
  | .like => keywords ["LIKE"]
  | .notLike => keywords ["NOT", "LIKE"]
  | .isIn => keywords ["IN"]
  | .notIn => keywords ["NOT", "IN"]
  | .is => keywords ["IS"]
  | .isNot => keywords ["IS", "NOT"]
  | .and => keywords ["AND"]
  | .or => keywords ["OR"]
  | op => [symbol op.spelling]

/-- The tokens of a unary operator. -/
def UnaryOp.tokens : UnaryOp → List Token
  | .not => keywords ["NOT"]
  | .hasRow => keywords ["EXISTS"]
  | .hasNoRow => keywords ["NOT", "EXISTS"]
  | .neg => [symbol "-"]

/-- A table and its other name. -/
def TableRef.tokens (t : TableRef) : List Token :=
  ofName t.name ++ match t.asName with
    | some s => word "AS" :: ofName s
    | none => []

mutual

/-- The tokens of an operand on its own. -/
def Operand.tokens : Operand → List Token
  | .name s => ofName s
  | .expr e => e.tokens
  | .query s => parens s.tokens

/-- The tokens of an operand inside an expression. -/
def Operand.nestedTokens : Operand → List Token
  | .name s => ofName s
  | .expr e => parensIf e.isLogical e.tokens
  | .query s => parens s.tokens

/-- The tokens of an expression; what is written verbatim has none of its own. -/
def Expr.tokens : Expr → List Token
  | .binary left op right => left.nestedTokens ++ op.tokens ++ right.nestedTokens
  | .unary op operand => op.tokens ++ operand.nestedTokens
  | .param v => [ofValue v]
  | .values vs => Token.values vs
  | .verbatim _ => []

/-- The tokens of conditions, each on its own. -/
def Expr.conditionTokens : List Expr → List (List Token)
  | [] => []
  | e :: es => parensIf e.isOr e.tokens :: Expr.conditionTokens es

/-- The tokens of a join. -/
def JoinClause.tokens : JoinClause → List Token
  | ⟨kind, table, conditions⟩ =>
    keywords [kind.spelling, "JOIN"] ++ table.tokens ++
      clauseOf conditions ["ON"] (conjunction (Expr.conditionTokens conditions))

/-- The tokens of all joins. -/
def JoinClause.tokensAll : List JoinClause → List Token
  | [] => []
  | j :: js => j.tokens ++ JoinClause.tokensAll js

/-- The tokens of selected columns, each on its own. -/
def Operand.columnTokens : List (Operand × Option String) → List (List Token)
  | [] => []
  | (operand, asName) :: rest =>
    (operand.tokens ++ match asName with
      | some s => word "AS" :: ofName s
      | none => []) :: Operand.columnTokens rest

/-- The tokens of a query. -/
def Select.tokens : Select → List Token
  | ⟨columns, tables, joins, conditions, groupBy, having, orderBy, limit, offset⟩ =>
    word "SELECT" ::
      (if columns.isEmpty then [symbol "*"] else list (Operand.columnTokens columns)) ++
      clauseOf tables ["FROM"] (list (tables.map TableRef.tokens)) ++
      JoinClause.tokensAll joins ++
      clauseOf conditions ["WHERE"] (conjunction (Expr.conditionTokens conditions)) ++
      clauseOf groupBy ["GROUP", "BY"] (list (groupBy.map ofName)) ++
      clauseOf having ["HAVING"] (conjunction (Expr.conditionTokens having)) ++
      clauseOf orderBy ["ORDER", "BY"]
        (list (orderBy.map fun (c, d) => ofName c ++ [word d.spelling])) ++
      count "LIMIT" limit ++ count "OFFSET" offset

end

/-- The tokens of an insertion. -/
def Insert.tokens (i : Insert) : List Token :=
  keywords ["INSERT", "INTO"] ++ ofName i.table ++ parens (list (i.columns.map ofName)) ++
    keywords ["VALUES"] ++ list (i.rows.map Token.values)

/-- The tokens of conditions and a limit at the end of a statement. -/
def Token.scope (conditions : List Expr) (limit : Option Nat) : List Token :=
  clauseOf conditions ["WHERE"] (conjunction (Expr.conditionTokens conditions)) ++
    count "LIMIT" limit

/-- The tokens of an update; without columns there is nothing to do. -/
def Update.tokens (u : Update) : List Token :=
  if u.columns.isEmpty then []
  else
    keywords ["UPDATE"] ++ ofName u.table ++ keywords ["SET"] ++
      list (u.columns.map fun (c, v) => ofName c ++ [symbol "=", ofValue v]) ++
      Token.scope u.conditions u.limit

/-- The tokens of a deletion. -/
def Delete.tokens (d : Delete) : List Token :=
  keywords ["DELETE", "FROM"] ++ ofName d.table ++ Token.scope d.conditions d.limit

/-- The tokens of a statement. -/
def Statement.tokens : Statement → List Token
  | .select s => s.tokens
  | .insert i => i.tokens
  | .update u => u.tokens
  | .delete d => d.tokens

/-! ### Statements without verbatim parts -/

mutual

/-- Whether nothing in an operand is written verbatim. -/
def Operand.verbatimFree : Operand → Bool
  | .name _ => true
  | .expr e => e.verbatimFree
  | .query s => s.verbatimFree

/-- Whether nothing in an expression is written verbatim. -/
def Expr.verbatimFree : Expr → Bool
  | .binary left _ right => left.verbatimFree && right.verbatimFree
  | .unary _ operand => operand.verbatimFree
  | .param _ | .values _ => true
  | .verbatim _ => false

/-- Whether nothing in conditions is written verbatim. -/
def Expr.verbatimFreeAll : List Expr → Bool
  | [] => true
  | e :: es => e.verbatimFree && Expr.verbatimFreeAll es

/-- Whether nothing in a join is written verbatim. -/
def JoinClause.verbatimFree : JoinClause → Bool
  | ⟨_, _, conditions⟩ => Expr.verbatimFreeAll conditions

/-- Whether nothing in joins is written verbatim. -/
def JoinClause.verbatimFreeAll : List JoinClause → Bool
  | [] => true
  | j :: js => j.verbatimFree && JoinClause.verbatimFreeAll js

/-- Whether nothing in selected columns is written verbatim. -/
def Operand.verbatimFreeAll : List (Operand × Option String) → Bool
  | [] => true
  | (operand, _) :: rest => operand.verbatimFree && Operand.verbatimFreeAll rest

/-- Whether nothing in a query is written verbatim. -/
def Select.verbatimFree : Select → Bool
  | ⟨columns, _, joins, conditions, _, having, _, _, _⟩ =>
    Operand.verbatimFreeAll columns && JoinClause.verbatimFreeAll joins &&
      Expr.verbatimFreeAll conditions && Expr.verbatimFreeAll having

end

/-- Whether nothing in a statement is written verbatim. -/
def Statement.verbatimFree : Statement → Bool
  | .select s => s.verbatimFree
  | .insert _ => true
  | .update u => Expr.verbatimFreeAll u.conditions
  | .delete d => Expr.verbatimFreeAll d.conditions

/-! ### Lexemes that are read as tokens -/

/-- The characters of lexemes between backticks and quotes. -/
def Lexeme.chars (ls : List Lexeme) : List Char :=
  (Dialect.mysql.text ls).toList

namespace Lexeme

@[simp] theorem chars_nil : chars [] = [] := rfl

@[simp] theorem chars_cons (l : Lexeme) (ls : List Lexeme) :
    chars (l :: ls) = (Dialect.mysql.spell l).toList ++ chars ls := by
  simp [chars, Dialect.text]

@[simp] theorem chars_append (ls ms : List Lexeme) : chars (ls ++ ms) = chars ls ++ chars ms := by
  simp [chars, Dialect.text]

/-- What begins with a space begins with a separator. -/
theorem stops_space (ls : List Lexeme) : Stops (chars (.space :: ls)) := by
  rw [chars_cons]
  exact .cons (.inl rfl) (chars ls)

/-- What parentheses begin with. -/
theorem opens_parens (ls : List Lexeme) : Opens (chars (parens ls)) := by
  rw [parens, List.cons_append, chars_cons]
  exact .mark (by decide) _

/-- Lexemes that are read as the tokens `ts`. -/
def ReadAs (ls : List Lexeme) (ts : List Token) : Prop :=
  Reads (chars ls) ts

variable {ls ms : List Lexeme} {ts us : List Token}

namespace ReadAs

/-- Lexemes after which others go on with a separator. -/
theorem append (hl : ReadAs ls ts) (hm : ReadAs ms us) (hs : Stops (chars ms)) :
    ReadAs (ls ++ ms) (ts ++ us) := by
  rw [ReadAs, chars_append]
  exact Reads.append hl hm hs

/-- A space changes nothing. -/
theorem space (h : ReadAs ls ts) : ReadAs (.space :: ls) ts := by
  rw [ReadAs, chars_cons]
  exact Reads.space h

/-- Lexemes on both sides of a space. -/
theorem append_space (hl : ReadAs ls ts) (hm : ReadAs ms us) :
    ReadAs (ls ++ .space :: ms) (ts ++ us) :=
  hl.append hm.space (stops_space ms)

/-- Lexemes on both sides of a comma. -/
theorem append_comma (hl : ReadAs ls ts) (hm : ReadAs ms us) :
    ReadAs (ls ++ comma ++ ms) (ts ++ [.symbol ","] ++ us) := by
  have hchars : chars (ls ++ comma ++ ms) = chars ls ++ ',' :: ' ' :: chars ms := by
    simp [comma, Dialect.spell]
  rw [ReadAs, hchars, List.append_assoc]
  exact Reads.comma hl hm

/-- Parentheses around lexemes are parentheses around their tokens. -/
theorem parens (h : ReadAs ls ts) : ReadAs (parens ls) (Token.parens ts) := by
  have hchars : chars (Lexeme.parens ls) = '(' :: chars ls ++ [')'] := by
    simp [Lexeme.parens, Dialect.spell]
  rw [ReadAs, hchars]
  exact Reads.parens h

/-- Parentheses where they are needed are read where they are needed. -/
theorem parensIf (b : Bool) (h : ReadAs ls ts) :
    ReadAs (parensIf b ls) (Token.parensIf b ts) := by
  cases b with
  | false => exact h
  | true => exact h.parens

/-- A single lexeme is read as its spelling is. -/
theorem single {l : Lexeme} (h : Reads (Dialect.mysql.spell l).toList ts) : ReadAs [l] ts := by
  rwa [ReadAs, chars_cons, chars_nil, List.append_nil]

/-- A name. -/
theorem name (s : String) : ReadAs [.name s] (ofName s) :=
  single (reads_name s)

/-- A value. -/
theorem value (v : Value) : ReadAs [.value v] [ofValue v] :=
  single (reads_value v)

/-- A keyword. -/
theorem word {s : String} (h : isKeyword s) : ReadAs [.word s] [.word s] :=
  single (reads_keyword h)

/-- A minus sign before what it may stand before. -/
theorem negated (h : ReadAs ls ts) (hls : Opens (chars ls)) :
    ReadAs (.symbol "-" :: ls) (.symbol "-" :: ts) := by
  rw [ReadAs, chars_cons]
  exact Reads.negated h hls

/-- A star alone. -/
theorem star : ReadAs [.symbol "*"] [.symbol "*"] :=
  single (.of_read (by simp) rfl fun _ _ => rfl)

/-- Keywords in a row. -/
theorem words (ws : List String) (h : ∀ w ∈ ws, isKeyword w) :
    ReadAs (words ws) (keywords ws) := by
  induction ws with
  | nil => exact Reads.nil
  | cons w ws ih =>
    have hw : ReadAs [.word w] [.word w] := word (h w List.mem_cons_self)
    have ih := ih fun w' hw' => h w' (List.mem_cons_of_mem _ hw')
    cases ws with
    | nil => exact hw
    | cons w' ws =>
      rw [Lexeme.words, List.map_cons, List.map_cons, List.intercalate_cons_cons, spaced,
        List.append_assoc]
      exact hw.append_space ih

/-- A clause is read as its keywords and its body. -/
theorem clause (ws : List String) (h : ∀ w ∈ ws, isKeyword w) (hl : ReadAs ls ts) :
    ReadAs (clause ws ls) (keywords ws ++ ts) :=
  (words ws h).space.append_space hl

/-- Members of a list. -/
theorem list {lss : List (List Lexeme)} {tss : List (List Token)}
    (h : List.Forall₂ ReadAs lss tss) : ReadAs (comma.intercalate lss) (Token.list tss) := by
  induction h with
  | nil => exact Reads.nil
  | @cons ls ts lss tss hl h ih =>
    cases h with
    | nil => simpa [Token.list] using hl
    | cons hl' h =>
      rw [Token.list, List.intercalate_cons_cons, List.intercalate_cons_cons]
      exact hl.append_comma ih

/-- Members of a list that are given by a function. -/
theorem list_map {α : Type} {f : α → List Lexeme} {g : α → List Token}
    (h : ∀ x, ReadAs (f x) (g x)) (xs : List α) :
    ReadAs (comma.intercalate (xs.map f)) (Token.list (xs.map g)) :=
  list (by
    rw [List.forall₂_map_left_iff, List.forall₂_map_right_iff, List.forall₂_same]
    exact fun x _ => h x)

/-- Conditions that all have to hold. -/
theorem conjunction {lss : List (List Lexeme)} {tss : List (List Token)}
    (h : List.Forall₂ ReadAs lss tss) :
    ReadAs (conjunction.intercalate lss) (Token.conjunction tss) := by
  induction h with
  | nil => exact Reads.nil
  | @cons ls ts lss tss hl h ih =>
    cases h with
    | nil => simpa [Token.conjunction] using hl
    | cons hl' h =>
      rw [Token.conjunction, List.intercalate_cons_cons, List.intercalate_cons_cons,
        Lexeme.conjunction, List.append_assoc, List.append_assoc]
      exact hl.append_space ((word (by decide)).append_space ih)

/-- The values of a set or of a row. -/
theorem values (vs : List Value) : ReadAs (valueList vs) (Token.values vs) :=
  (list_map value vs).parens

end ReadAs

/-- Lexemes that go on with a separator, and what they are read as. -/
structure Continues (ls : List Lexeme) (ts : List Token) : Prop where
  stops : Stops (chars ls)
  read : ReadAs ls ts

namespace Continues

/-- Nothing more. -/
theorem nil : Continues [] [] :=
  ⟨fun _ h => (nomatch h), Reads.nil⟩

/-- One after the other. -/
theorem append (hl : Continues ls ts) (hm : Continues ms us) : Continues (ls ++ ms) (ts ++ us) :=
  ⟨by rw [chars_append]; exact hl.stops.append hm.stops, hl.read.append hm.read hm.stops⟩

/-- What was read before may go on so. -/
theorem after (hl : ReadAs ls ts) (hm : Continues ms us) : ReadAs (ls ++ ms) (ts ++ us) :=
  hl.append hm.read hm.stops

/-- A clause. -/
theorem clause (ws : List String) (h : ∀ w ∈ ws, isKeyword w) (hl : ReadAs ls ts) :
    Continues (clause ws ls) (keywords ws ++ ts) :=
  ⟨stops_space _, hl.clause ws h⟩

/-- A clause that is there only if it has members. -/
theorem clauseOf {α : Type} (xs : List α) (ws : List String) (h : ∀ w ∈ ws, isKeyword w)
    (hl : ReadAs ls ts) :
    Continues (if xs.isEmpty then [] else Lexeme.clause ws ls) (Token.clauseOf xs ws ts) := by
  rw [Token.clauseOf]
  split
  · exact nil
  · exact clause ws h hl

/-- A count. -/
theorem count (w : String) (h : isKeyword w) (n : Option Nat) :
    Continues (Lexeme.count w n) (Token.count w n) := by
  cases n with
  | none => exact nil
  | some n =>
    refine clause [w] (by simpa using h) (.single ?_)
    simpa [Dialect.spell] using reads_digits n

/-- Another name after `AS`. -/
theorem asName (s : String) :
    Continues (Lexeme.clause ["AS"] [.name s]) (Token.word "AS" :: ofName s) :=
  clause ["AS"] (by decide) (.name s)

end Continues

end Lexeme

open Lexeme

/-- A binary operator is read as its tokens. -/
theorem BinaryOp.readAs (op : BinaryOp) : ReadAs op.lexemes op.tokens := by
  have symbol {c : Char} {cs : List Char} (hc : isBlank c = false)
      (h : ∀ rest, Stops rest →
        Token.read c (cs ++ rest) = some (.symbol (String.ofList (c :: cs)), rest)) :
      ReadAs [.symbol (String.ofList (c :: cs))] [.symbol (String.ofList (c :: cs))] :=
    .single (by simpa [Dialect.spell] using Reads.of_read (by simp) hc h)
  cases op with
  | like | notLike | isIn | notIn | is | isNot | and | or => exact .words _ (by decide)
  | _ =>
    refine symbol rfl fun rest hrest => ?_
    rcases hrest.cases with rfl | ⟨rest, rfl | rfl | rfl⟩ <;> rfl

mutual

/-- What an operand inside an expression begins with. -/
theorem Operand.nested_opens : ∀ o : Operand, o.verbatimFree → Opens (chars o.nested)
  | .name s, _ => by
    rw [Operand.nested, chars_cons]
    exact (opens_name s).append _
  | .expr e, h => by
    rw [Operand.nested, Lexeme.parensIf]
    split
    · exact opens_parens e.lexemes
    · exact e.opens h
  | .query s, _ => by
    rw [Operand.nested]
    exact opens_parens s.lexemes

/-- What an expression begins with: dashes only before what they may stand before. -/
theorem Expr.opens : ∀ e : Expr, e.verbatimFree → Opens (chars e.lexemes)
  | .binary left op right, h => by
    rw [Expr.verbatimFree, Bool.and_eq_true] at h
    rw [Expr.lexemes, List.append_assoc, chars_append]
    exact (left.nested_opens h.1).append _
  | .unary op operand, h => by
    rw [Expr.verbatimFree] at h
    rw [Expr.lexemes, chars_append]
    cases op with
    | not | hasRow | hasNoRow => exact .mark (by decide) _
    | neg => exact .sign (operand.nested_opens h)
  | .param v, _ => by
    rw [Expr.lexemes, chars_cons]
    exact (opens_value v).append _
  | .values vs, _ => opens_parens _

end

/-- A table is read as its tokens. -/
theorem TableRef.readAs (t : TableRef) : ReadAs t.lexemes t.tokens := by
  obtain ⟨name, asName⟩ := t
  rw [TableRef.lexemes, TableRef.tokens, ← List.singleton_append]
  cases asName with
  | none => exact Continues.nil.after (.name name)
  | some s => exact (Continues.asName s).after (.name name)

mutual

/-- An operand that is not verbatim is read as its tokens. -/
theorem Operand.readAs : ∀ o : Operand, o.verbatimFree → ReadAs o.lexemes o.tokens
  | .name s, _ => .name s
  | .expr e, h => e.readAs h
  | .query s, h => (s.readAs h).parens

/-- So is an operand inside an expression. -/
theorem Operand.nested_readAs : ∀ o : Operand, o.verbatimFree → ReadAs o.nested o.nestedTokens
  | .name s, _ => .name s
  | .expr e, h => (e.readAs h).parensIf e.isLogical
  | .query s, h => (s.readAs h).parens

/-- An expression without verbatim parts is read as its tokens. -/
theorem Expr.readAs : ∀ e : Expr, e.verbatimFree → ReadAs e.lexemes e.tokens
  | .binary left op right, h => by
    rw [Expr.verbatimFree, Bool.and_eq_true] at h
    rw [Expr.lexemes, Expr.tokens, List.append_assoc, List.append_assoc]
    have hright := op.readAs.append_space (right.nested_readAs h.2)
    exact (left.nested_readAs h.1).append_space hright
  | .unary op operand, h => by
    rw [Expr.verbatimFree] at h
    have hoperand := operand.nested_readAs h
    cases op with
    | not => exact (ReadAs.words ["NOT"] (by decide)).append_space hoperand
    | hasRow => exact (ReadAs.words ["EXISTS"] (by decide)).append_space hoperand
    | hasNoRow => exact (ReadAs.words ["NOT", "EXISTS"] (by decide)).append_space hoperand
    | neg => exact hoperand.negated (operand.nested_opens h)
  | .param v, _ => .value v
  | .values vs, _ => .values vs

/-- Conditions are read one by one. -/
theorem Expr.conditions_readAs : ∀ es : List Expr, Expr.verbatimFreeAll es →
    List.Forall₂ ReadAs (Expr.conditionLexemes es) (Expr.conditionTokens es)
  | [], _ => .nil
  | e :: es, h => by
    rw [Expr.verbatimFreeAll, Bool.and_eq_true] at h
    exact .cons ((e.readAs h.1).parensIf e.isOr) (Expr.conditions_readAs es h.2)

/-- A join is read as its tokens. -/
theorem JoinClause.continues : ∀ j : JoinClause, j.verbatimFree → Continues j.lexemes j.tokens
  | ⟨kind, table, conditions⟩, h => by
    rw [JoinClause.verbatimFree] at h
    have hwords : ∀ w ∈ [kind.spelling, "JOIN"], isKeyword w := by
      cases kind <;> decide
    have hconditions := ReadAs.conjunction (Expr.conditions_readAs conditions h)
    exact (Continues.clause _ hwords table.readAs).append
      (.clauseOf conditions _ (by decide) hconditions)

/-- Joins are read one by one. -/
theorem JoinClause.all_continue : ∀ js : List JoinClause, JoinClause.verbatimFreeAll js →
    Continues (JoinClause.lexemesAll js) (JoinClause.tokensAll js)
  | [], _ => .nil
  | j :: js, h => by
    rw [JoinClause.verbatimFreeAll, Bool.and_eq_true] at h
    exact (j.continues h.1).append (JoinClause.all_continue js h.2)

/-- Selected columns are read one by one. -/
theorem Operand.columns_readAs : ∀ cs : List (Operand × Option String),
    Operand.verbatimFreeAll cs →
      List.Forall₂ ReadAs (Operand.columnLexemes cs) (Operand.columnTokens cs)
  | [], _ => .nil
  | (operand, asName) :: rest, h => by
    rw [Operand.verbatimFreeAll, Bool.and_eq_true] at h
    have hoperand := operand.readAs h.1
    refine .cons ?_ (Operand.columns_readAs rest h.2)
    cases asName with
    | none => simpa using hoperand
    | some s => exact (Continues.asName s).after hoperand

/-- A query is read as its tokens. -/
theorem Select.readAs : ∀ s : Select, s.verbatimFree → ReadAs s.lexemes s.tokens
  | ⟨columns, tables, joins, conditions, groupBy, having, orderBy, limit, offset⟩, h => by
    rw [Select.verbatimFree, Bool.and_eq_true, Bool.and_eq_true, Bool.and_eq_true] at h
    obtain ⟨⟨⟨hcolumns, hjoins⟩, hconditions⟩, hhaving⟩ := h
    have selected : ReadAs
        (if columns.isEmpty then [.symbol "*"]
          else comma.intercalate (Operand.columnLexemes columns))
        (if columns.isEmpty then [symbol "*"] else list (Operand.columnTokens columns)) := by
      split
      · exact .star
      · exact .list (Operand.columns_readAs columns hcolumns)
    have directed : ReadAs
        (comma.intercalate (orderBy.map fun (c, d) => [.name c, .space, .word d.spelling]))
        (list (orderBy.map fun (c, d) => ofName c ++ [Token.word d.spelling])) := by
      refine .list_map (fun (c, d) => ?_) orderBy
      have hword : isKeyword d.spelling := by cases d <;> decide
      exact (ReadAs.name c).append_space (.word hword)
    have head : ReadAs [.word "SELECT"] [.word "SELECT"] := .word (by decide)
    have tablesRead := ReadAs.list_map TableRef.readAs tables
    have conditionsRead := ReadAs.conjunction (Expr.conditions_readAs conditions hconditions)
    have groupsRead := ReadAs.list_map ReadAs.name groupBy
    have havingRead := ReadAs.conjunction (Expr.conditions_readAs having hhaving)
    have fromClause := Continues.clauseOf tables ["FROM"] (by decide) tablesRead
    have joinClauses := JoinClause.all_continue joins hjoins
    have whereClause := Continues.clauseOf conditions ["WHERE"] (by decide) conditionsRead
    have groupClause := Continues.clauseOf groupBy ["GROUP", "BY"] (by decide) groupsRead
    have havingClause := Continues.clauseOf having ["HAVING"] (by decide) havingRead
    have orderClause := Continues.clauseOf orderBy ["ORDER", "BY"] (by decide) directed
    have limitClause := Continues.count "LIMIT" (by decide) limit
    have offsetClause := Continues.count "OFFSET" (by decide) offset
    rw [Select.lexemes, Select.tokens]
    exact offsetClause.after (limitClause.after (orderClause.after (havingClause.after
      (groupClause.after (whereClause.after (joinClauses.after (fromClause.after
        (head.append_space selected))))))))

end

/-- Conditions and a limit at the end of a statement. -/
theorem continues_scope {conditions : List Expr} (h : Expr.verbatimFreeAll conditions)
    (limit : Option Nat) :
    Continues (Lexeme.scope conditions limit) (Token.scope conditions limit) :=
  (Continues.clauseOf conditions _ (by decide)
    (.conjunction (Expr.conditions_readAs conditions h))).append (.count _ (by decide) limit)

/-- An insertion is read as its tokens. -/
theorem Insert.readAs (i : Insert) : ReadAs i.lexemes i.tokens := by
  have columns := ReadAs.parens (.list_map ReadAs.name i.columns)
  have rows := Continues.clause ["VALUES"] (by decide) (.list_map ReadAs.values i.rows)
  have table := (ReadAs.name i.table).append_space columns
  have head := (ReadAs.words ["INSERT", "INTO"] (by decide)).append_space table
  have all := rows.after head
  rw [Insert.lexemes, Insert.tokens]
  simpa only [List.append_assoc, List.cons_append, List.nil_append] using all

/-- An update is read as its tokens. -/
theorem Update.readAs (u : Update) (h : Expr.verbatimFreeAll u.conditions) :
    ReadAs u.lexemes u.tokens := by
  have cell (p : String × Value) :
      ReadAs [.name p.1, .space, .symbol "=", .space, .value p.2]
        (ofName p.1 ++ [.symbol "=", ofValue p.2]) :=
    (ReadAs.name p.1).append_space ((BinaryOp.readAs .eq).append_space (.value p.2))
  have cells := Continues.clause ["SET"] (by decide) (.list_map cell u.columns)
  have update : ReadAs [.word "UPDATE"] (keywords ["UPDATE"]) := .word (by decide)
  have head := update.append_space (.name u.table)
  have all := (continues_scope h u.limit).after (cells.after head)
  rw [Update.lexemes, Update.tokens]
  split
  · exact Continues.nil.read
  · simpa only [List.append_assoc, List.cons_append, List.nil_append] using all

/-- A deletion is read as its tokens. -/
theorem Delete.readAs (d : Delete) (h : Expr.verbatimFreeAll d.conditions) :
    ReadAs d.lexemes d.tokens := by
  have head := (ReadAs.words ["DELETE", "FROM"] (by decide)).append_space (.name d.table)
  have all := (continues_scope h d.limit).after head
  rw [Delete.lexemes, Delete.tokens]
  simpa only [List.append_assoc, List.cons_append, List.nil_append] using all

/-- A statement without verbatim parts is read as its tokens. -/
theorem Statement.readAs (s : Statement) (h : s.verbatimFree) : ReadAs s.lexemes s.tokens := by
  cases s with
  | select s => exact s.readAs h
  | insert i => exact i.readAs
  | update u => exact u.readAs h
  | delete d => exact d.readAs h

/-- **Names and values cannot change the structure of a statement.** Whatever they are, the text of
a statement without verbatim parts is read as exactly the tokens of its tree, and no comment is
among them. -/
theorem lex_text_of_verbatimFree (s : Statement) (h : s.verbatimFree) :
    lex (s.text .mysql).toList = some s.tokens ∧ .comment ∉ s.tokens :=
  ⟨(s.readAs h).lex_eq, (s.readAs h).no_comment⟩

/-- A name with a backtick, a minus sign before a minus sign before a name that looks like a
comment, and a text that looks like the end of the statement. -/
theorem lex_text_of_lookalikes :
    let lookalikes : Statement := .delete {
      table := "a`.*"
      conditions := [.binary (.expr (.unary .neg (.expr (.unary .neg (.name "-- "))))) .ne
        (.expr (.values [.text "\\' OR 1 -- ", .null]))]
      limit := some 1 }
    lookalikes.verbatimFree ∧
      lex (lookalikes.text .mysql).toList = some [.word "DELETE", .word "FROM", .name "a`",
        .symbol ".", .symbol "*", .word "WHERE", .symbol "-", .symbol "-", .name "-- ",
        .symbol "!=", .symbol "(", .text "\\' OR 1 -- ", .symbol ",", .word "NULL", .symbol ")",
        .word "LIMIT", .number "1"] := by
  intro lookalikes
  have h : lookalikes.verbatimFree := by decide
  exact ⟨h, (lex_text_of_verbatimFree lookalikes h).1⟩

end EntityGraph
