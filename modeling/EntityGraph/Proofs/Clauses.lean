import EntityGraph.Proofs.Tokens

/-!
# Clauses

Where the clauses of a statement begin and end, found in its tokens alone: at keywords outside of all
parentheses. What stands in parentheses, such as a query with clauses of its own, belongs to the clause in
which it stands.

* `Token.Nested` — tokens between parentheses that match;
* `Token.conditionClauses` — the clauses with conditions of some tokens;
* `Expr.nested_tokens`, `Select.balanced_tokens` — the mutual induction over expressions and queries;
* `Statement.conditionClauses_tokens` — the clauses of a statement are found in its tokens.
-/

namespace EntityGraph

namespace Token

/-! ### Parentheses that match -/

/-- An opening parenthesis. -/
def opening : Token := symbol "("

/-- A closing parenthesis. -/
def closing : Token := symbol ")"

/-- Tokens in which parentheses match, with `P` of those outside of all parentheses. -/
inductive Nested : (Token → Prop) → List Token → Prop
  | nil {P : Token → Prop} : Nested P []
  | cons {P : Token → Prop} {t : Token} {ts : List Token} (hopening : t ≠ opening)
      (hclosing : t ≠ closing) (ht : P t) (hts : Nested P ts) : Nested P (t :: ts)
  | parens {P : Token → Prop} {inner ts : List Token} (hinner : Nested (fun _ => True) inner)
      (hts : Nested P ts) : Nested P (opening :: inner ++ closing :: ts)

/-- Tokens in which parentheses match. -/
abbrev Balanced (ts : List Token) : Prop :=
  Nested (fun _ => True) ts

variable {P Q : Token → Prop} {ts us : List Token} {t : Token}

namespace Nested

theorem append (ht : Nested P ts) (hu : Nested P us) : Nested P (ts ++ us) := by
  induction ht with
  | nil => exact hu
  | cons hopening hclosing ht _ ih => exact .cons hopening hclosing ht (ih hu)
  | @parens P inner ts hinner _ _ ih =>
    rw [List.append_assoc, List.cons_append]
    exact .parens hinner (ih hu)

theorem mono (h : Nested P ts) (hPQ : ∀ t, P t → Q t) : Nested Q ts := by
  induction h with
  | nil => exact .nil
  | cons hopening hclosing ht _ ih => exact .cons hopening hclosing (hPQ _ ht) (ih hPQ)
  | parens hinner _ _ ih => exact .parens hinner (ih hPQ)

theorem balanced (h : Nested P ts) : Balanced ts :=
  h.mono fun _ _ => trivial

/-- A token that is no parenthesis. -/
theorem single (hopening : t ≠ opening) (hclosing : t ≠ closing) (ht : P t) : Nested P [t] :=
  .cons hopening hclosing ht .nil

/-- Nothing is known of what stands in parentheses. -/
theorem enclose (h : Balanced ts) : Nested P (Token.parens ts) :=
  .parens h .nil

/-- Members with separators between them. -/
theorem intercalate {sep : List Token} {tss : List (List Token)} (hsep : Nested P sep)
    (h : ∀ ts ∈ tss, Nested P ts) : Nested P (sep.intercalate tss) := by
  induction tss with
  | nil => exact .nil
  | cons ts tss ih =>
    have hts := h ts List.mem_cons_self
    have htss := ih fun us hus => h us (List.mem_cons_of_mem _ hus)
    cases tss with
    | nil => simpa using hts
    | cons us tss =>
      rw [List.intercalate_cons_cons]
      exact (hts.append hsep).append htss

end Nested

/-- Tokens without parentheses. -/
theorem Nested.of_forall (h : ∀ t ∈ ts, t ≠ opening ∧ t ≠ closing ∧ P t) : Nested P ts := by
  induction ts with
  | nil => exact .nil
  | cons t ts ih =>
    obtain ⟨hopening, hclosing, ht⟩ := h t List.mem_cons_self
    exact .cons hopening hclosing ht (ih fun u hu => h u (List.mem_cons_of_mem _ hu))

/-- A name has no parentheses. -/
theorem nested_ofName (hname : ∀ s, P (name s)) (hstar : P (symbol "*")) (hdot : P (symbol "."))
    (s : String) : Nested P (ofName s) := by
  rw [ofName]
  refine .intercalate (.single (by decide) (by decide) hdot) fun ts hts => ?_
  obtain ⟨segment, -, rfl⟩ := List.mem_map.1 hts
  rw [ofSegment]
  split
  · exact .single (by decide) (by decide) hstar
  · exact .single (by simp [opening]) (by simp [closing]) (hname segment)

/-- Neither has a value. -/
theorem nested_ofValue (htext : ∀ s, P (text s)) (hnull : P (word "NULL")) (v : Value) :
    Nested P [ofValue v] := by
  cases v with
  | null => exact .single (by decide) (by decide) hnull
  | _ => exact .single (by simp [ofValue, opening]) (by simp [ofValue, closing]) (htext _)

/-! ### Clauses -/

/-- The keywords that clauses begin with, and the second ones of those that have two. -/
def clauseWords : List String :=
  ["SELECT", "FROM", "INNER", "LEFT", "CROSS", "JOIN", "ON", "WHERE", "GROUP", "BY", "HAVING", "ORDER",
    "LIMIT", "OFFSET", "INSERT", "INTO", "VALUES", "UPDATE", "SET", "DELETE"]

/-- The keyword that begins a clause. -/
def clause? : Token → Option String
  | word s => if clauseWords.contains s then some s else none
  | _ => none

/-- How many parentheses are open behind a token. -/
def depthAfter (n : Nat) (t : Token) : Nat :=
  if t = opening then n + 1 else if t = closing then n - 1 else n

/-- The tokens before the first clause, and the clauses, each with its keyword; `n` parentheses are open. -/
def clauses : Nat → List Token → List Token × List (String × List Token)
  | _, [] => ([], [])
  | n, t :: ts =>
    match if n = 0 then t.clause? else none with
    | some w => ([], (w, (clauses 0 ts).1) :: (clauses 0 ts).2)
    | none => (t :: (clauses (depthAfter n t) ts).1, (clauses (depthAfter n t) ts).2)

/-- The clauses of some tokens that hold conditions, in order. -/
def conditionClauses (ts : List Token) : List (String × List Token) :=
  (clauses 0 ts).2.filter fun c => ["ON", "WHERE", "HAVING"].contains c.1

/-- Outside of parentheses no clause begins. -/
abbrev Plain (t : Token) : Prop :=
  t.clause? = none

/-- Tokens in which no clause begins go on the clause before them. -/
theorem clauses_append {n : Nat} (h : Nested P ts) (hP : n = 0 → ∀ t, P t → Plain t) (us : List Token) :
    clauses n (ts ++ us) = (ts ++ (clauses n us).1, (clauses n us).2) := by
  induction h generalizing n us with
  | nil => rfl
  | @cons P t ts hopening hclosing ht _ ih =>
    have hnone : (if n = 0 then t.clause? else none) = none := by
      split
      · next hn => exact hP hn t ht
      · rfl
    rw [List.cons_append, clauses, hnone]
    simp only [depthAfter, if_neg hopening, if_neg hclosing, ih hP us, List.cons_append]
  | @parens P inner ts hinner _ ihinner ih =>
    have hne : closing ≠ opening := by decide
    have hopening : (if n = 0 then clause? opening else none) = none := ite_self none
    have hclosing : (if n + 1 = 0 then clause? closing else none) = none := ite_self none
    have hinner := ihinner (n := n + 1) (fun h => absurd h (Nat.succ_ne_zero n)) (closing :: (ts ++ us))
    rw [List.append_assoc, List.cons_append, List.cons_append, clauses, hopening]
    simp only [depthAfter, if_pos, hinner]
    rw [clauses, hclosing]
    simp only [depthAfter, if_neg hne, if_pos, Nat.add_sub_cancel, ih hP us, List.cons_append,
      List.append_assoc]

/-- Tokens that are made of clauses, of which `cs` hold conditions. -/
structure Sections (ts : List Token) (cs : List (String × List Token)) : Prop where
  append : ∀ us, (clauses 0 us).1 = [] → (clauses 0 (ts ++ us)).1 = [] ∧
    conditionClauses (ts ++ us) = cs ++ conditionClauses us

namespace Sections

variable {cs ds : List (String × List Token)} {body : List Token} {w : String}

theorem nil : Sections [] [] :=
  ⟨fun _ hus => ⟨hus, rfl⟩⟩

theorem trans (ht : Sections ts cs) (hu : Sections us ds) : Sections (ts ++ us) (cs ++ ds) where
  append vs hvs := by
    obtain ⟨hnil, hclauses⟩ := hu.append vs hvs
    obtain ⟨hnil', hclauses'⟩ := ht.append (us ++ vs) hnil
    rw [List.append_assoc]
    exact ⟨hnil', by rw [hclauses', hclauses, List.append_assoc]⟩

/-- The clauses that hold conditions. -/
theorem conditionClauses_eq (h : Sections ts cs) : conditionClauses ts = cs := by
  have hts := (h.append [] rfl).2
  rw [List.append_nil] at hts
  rw [hts]
  exact List.append_nil cs

/-- A clause: its keyword, and tokens in which no other begins. -/
theorem clause (hw : clauseWords.contains w = true) (hbody : Nested Plain body) :
    Sections (word w :: body)
      (if ["ON", "WHERE", "HAVING"].contains w then [(w, body)] else []) where
  append us hus := by
    have hword : (if 0 = 0 then clause? (word w) else none) = some w := by
      rw [if_pos rfl, clause?, if_pos hw]
    have hclauses : clauses 0 (word w :: body ++ us) = ([], (w, body) :: (clauses 0 us).2) := by
      rw [List.cons_append, clauses, hword]
      simp only [clauses_append hbody (fun _ _ => id) us, hus, List.append_nil]
    refine ⟨by rw [hclauses], ?_⟩
    rw [conditionClauses, hclauses, List.filter_cons]
    split <;> rfl

/-- A clause of one keyword that is there only if it has members. -/
theorem clauseOf {α : Type} (xs : List α) (hw : clauseWords.contains w = true)
    (hbody : Nested Plain body) : Sections (Token.clauseOf xs [w] body)
      (if xs.isEmpty then [] else if ["ON", "WHERE", "HAVING"].contains w then [(w, body)] else []) := by
  rw [Token.clauseOf]
  split
  · exact nil
  · exact clause hw hbody

end Sections

end Token

open Token

/-! ### Tokens without clauses -/

/-- Operators are no keywords of clauses. -/
theorem BinaryOp.nested_tokens (op : BinaryOp) : Nested Plain op.tokens := by
  cases op <;> exact .of_forall (by decide)

theorem UnaryOp.nested_tokens (op : UnaryOp) : Nested Plain op.tokens := by
  cases op <;> exact .of_forall (by decide)

/-- Nor is anything in a name, a value or a list of values. -/
theorem Token.plain_ofName (s : String) : Nested Plain (ofName s) :=
  nested_ofName (P := Plain) (fun _ => rfl) rfl rfl s

theorem Token.plain_ofValue (v : Value) : Nested Plain [ofValue v] :=
  nested_ofValue (P := Plain) (fun _ => rfl) (by decide) v

/-- Members with commas between them. -/
theorem Token.plain_list {tss : List (List Token)} (h : ∀ ts ∈ tss, Nested Plain ts) :
    Nested Plain (list tss) :=
  .intercalate (.single (by decide) (by decide) rfl) h

/-- Members that are given by a function. -/
theorem Token.plain_list_map {α : Type} {f : α → List Token} (h : ∀ x, Nested Plain (f x))
    (xs : List α) : Nested Plain (list (xs.map f)) :=
  plain_list fun ts hts => by
    obtain ⟨x, -, rfl⟩ := List.mem_map.1 hts
    exact h x

theorem Token.plain_values (vs : List Value) : Nested Plain (Token.values vs) :=
  .enclose (plain_list_map plain_ofValue vs).balanced

/-- Conditions with `AND` between them. -/
theorem Token.plain_conjunction {tss : List (List Token)} (h : ∀ ts ∈ tss, Nested Plain ts) :
    Nested Plain (conjunction tss) :=
  .intercalate (.single (by decide) (by decide) (by decide)) h

/-- Parentheses where they are needed. -/
theorem Token.plain_parensIf {ts : List Token} (b : Bool) (h : Nested Plain ts) :
    Nested Plain (parensIf b ts) := by
  cases b with
  | false => exact h
  | true => exact .enclose h.balanced

/-- Another name after `AS`. -/
theorem Token.plain_as (s : String) : Nested Plain (word "AS" :: ofName s) :=
  .cons (by decide) (by decide) (by decide) (plain_ofName s)

theorem TableRef.nested_tokens (t : TableRef) : Nested Plain t.tokens := by
  obtain ⟨name, asName⟩ := t
  rw [TableRef.tokens]
  refine (plain_ofName name).append ?_
  cases asName with
  | none => exact .nil
  | some s => exact plain_as s

/-- Keywords have no parentheses. -/
theorem Token.balanced_keywords (ws : List String) : Balanced (keywords ws) :=
  .of_forall fun t ht => by
    obtain ⟨w, -, rfl⟩ := List.mem_map.1 ht
    exact ⟨by simp [opening], by simp [closing], trivial⟩

/-- Parentheses match in a clause if they do in its body. -/
theorem Token.balanced_clauseOf {α : Type} {body : List Token} (xs : List α) (ws : List String)
    (h : Balanced body) : Balanced (clauseOf xs ws body) := by
  rw [clauseOf]
  split
  · exact .nil
  · exact (balanced_keywords ws).append h

theorem Token.balanced_count (w : String) (n : Option Nat) : Balanced (count w n) := by
  cases n with
  | none => exact .nil
  | some n => exact (balanced_keywords [w]).append (.single (by simp [opening]) (by simp [closing]) trivial)

/-- A column of an ordering, and its direction. -/
theorem Token.plain_order (o : String × Direction) :
    Nested Plain (ofName o.1 ++ [word o.2.spelling]) := by
  refine (plain_ofName o.1).append ?_
  cases o.2 <;> exact .single (by decide) (by decide) (by decide)

mutual

/-- No clause begins in an operand. -/
theorem Operand.nested_tokens : ∀ o : Operand, Nested Plain o.tokens
  | .name s => plain_ofName s
  | .expr e => e.nested_tokens
  | .query s => .enclose s.balanced_tokens

/-- Nor in one that is put in parentheses where they are needed. -/
theorem Operand.nested_nestedTokens : ∀ o : Operand, Nested Plain o.nestedTokens
  | .name s => plain_ofName s
  | .expr e => plain_parensIf e.isLogical e.nested_tokens
  | .query s => .enclose s.balanced_tokens

/-- No clause begins in an expression. -/
theorem Expr.nested_tokens : ∀ e : Expr, Nested Plain e.tokens
  | .binary left op right =>
    (left.nested_nestedTokens.append op.nested_tokens).append right.nested_nestedTokens
  | .unary op operand => op.nested_tokens.append operand.nested_nestedTokens
  | .param v => plain_ofValue v
  | .values vs => plain_values vs
  | .verbatim _ => .nil

/-- Nor in any of some conditions. -/
theorem Expr.nested_conditionTokens : ∀ es : List Expr, ∀ ts ∈ Expr.conditionTokens es, Nested Plain ts
  | [], _, h => absurd h List.not_mem_nil
  | e :: es, ts, h => by
    rw [Expr.conditionTokens, List.mem_cons] at h
    rcases h with rfl | h
    · exact plain_parensIf e.isOr e.nested_tokens
    · exact Expr.nested_conditionTokens es ts h

/-- Parentheses match in a join. -/
theorem JoinClause.balanced_tokens : ∀ j : JoinClause, Balanced j.tokens
  | ⟨kind, table, conditions⟩ => by
    have hconditions := (plain_conjunction (Expr.nested_conditionTokens conditions)).balanced
    exact ((balanced_keywords _).append table.nested_tokens.balanced).append
      (balanced_clauseOf conditions _ hconditions)

theorem JoinClause.balanced_tokensAll : ∀ js : List JoinClause, Balanced (JoinClause.tokensAll js)
  | [] => .nil
  | j :: js => j.balanced_tokens.append (JoinClause.balanced_tokensAll js)

/-- No clause begins in a selected column. -/
theorem Operand.nested_columnTokens : ∀ cs : List (Operand × Option String),
    ∀ ts ∈ Operand.columnTokens cs, Nested Plain ts
  | [], _, h => absurd h List.not_mem_nil
  | (operand, asName) :: rest, ts, h => by
    rcases List.mem_cons.1 h with rfl | h
    · refine operand.nested_tokens.append ?_
      cases asName with
      | none => exact .nil
      | some s => exact plain_as s
    · exact Operand.nested_columnTokens rest ts h

/-- Parentheses match in a query. -/
theorem Select.balanced_tokens : ∀ s : Select, Balanced s.tokens
  | ⟨columns, tables, joins, conditions, groupBy, having, orderBy, limit, offset⟩ => by
    have hselected : Balanced
        (if columns.isEmpty then [symbol "*"] else list (Operand.columnTokens columns)) := by
      split
      · exact .single (by decide) (by decide) trivial
      · exact (plain_list (Operand.nested_columnTokens columns)).balanced
    have htables := (plain_list_map TableRef.nested_tokens tables).balanced
    have hgroups := (plain_list_map plain_ofName groupBy).balanced
    have horders := (plain_list_map plain_order orderBy).balanced
    have hconditions := (plain_conjunction (Expr.nested_conditionTokens conditions)).balanced
    have hhaving := (plain_conjunction (Expr.nested_conditionTokens having)).balanced
    rw [Select.tokens]
    exact ((((((((((balanced_keywords ["SELECT"]).append hselected).append
      (balanced_clauseOf tables _ htables)).append (JoinClause.balanced_tokensAll joins)).append
      (balanced_clauseOf conditions _ hconditions)).append (balanced_clauseOf groupBy _ hgroups)).append
      (balanced_clauseOf having _ hhaving)).append (balanced_clauseOf orderBy _ horders)).append
      (balanced_count _ limit)).append (balanced_count _ offset))

end

/-! ### The clauses of statements -/

/-- The conditions of a clause that is there only if it has some. -/
def Expr.listed (w : String) (conditions : List Expr) : List (String × List Expr) :=
  if conditions.isEmpty then [] else [(w, conditions)]

/-- The clauses of a query that hold conditions, each with its keyword. -/
def Select.conditionLists (s : Select) : List (String × List Expr) :=
  s.joins.flatMap (fun j => Expr.listed "ON" j.conditions) ++ Expr.listed "WHERE" s.conditions ++
    Expr.listed "HAVING" s.having

/-- The clauses of a statement that hold conditions; an update without columns is not written. -/
def Statement.conditionLists : Statement → List (String × List Expr)
  | .select s => s.conditionLists
  | .insert _ => []
  | .update u => if u.columns.isEmpty then [] else Expr.listed "WHERE" u.conditions
  | .delete d => Expr.listed "WHERE" d.conditions

/-- The tokens of a clause with conditions. -/
def Token.ofConditions (c : String × List Expr) : String × List Token :=
  (c.1, conjunction (Expr.conditionTokens c.2))

namespace Token.Sections

variable {ts us : List Token} {cs ds : List (String × List Token)}

/-- A clause without conditions. -/
theorem other {w : String} {body : List Token} (hw : clauseWords.contains w = true)
    (hcondition : ["ON", "WHERE", "HAVING"].contains w = false) (hbody : Nested Plain body) :
    Sections (word w :: body) [] := by
  have h := clause hw hbody
  rwa [hcondition] at h

/-- A clause without conditions that is there only if it has members. -/
theorem otherOf {α : Type} {w : String} {body : List Token} (xs : List α)
    (hw : clauseWords.contains w = true) (hcondition : ["ON", "WHERE", "HAVING"].contains w = false)
    (hbody : Nested Plain body) : Sections (Token.clauseOf xs [w] body) [] := by
  rw [Token.clauseOf]
  split
  · exact nil
  · exact other hw hcondition hbody

/-- A clause of two keywords. -/
theorem otherOf_two {α : Type} {v w : String} {body : List Token} (xs : List α)
    (hv : clauseWords.contains v = true) (hcondition : ["ON", "WHERE", "HAVING"].contains v = false)
    (hw : clauseWords.contains w = true) (hcondition' : ["ON", "WHERE", "HAVING"].contains w = false)
    (hbody : Nested Plain body) : Sections (Token.clauseOf xs [v, w] body) [] := by
  rw [Token.clauseOf]
  split
  · exact nil
  · exact (other hv hcondition .nil).trans (other hw hcondition' hbody)

/-- A count. -/
theorem count {w : String} (hw : clauseWords.contains w = true)
    (hcondition : ["ON", "WHERE", "HAVING"].contains w = false) (n : Option Nat) :
    Sections (Token.count w n) [] := by
  cases n with
  | none => exact nil
  | some n => exact other hw hcondition (.single (by simp [opening]) (by simp [closing]) rfl)

/-- A clause with conditions. -/
theorem conditions {w : String} (hw : clauseWords.contains w = true)
    (hcondition : ["ON", "WHERE", "HAVING"].contains w = true) (es : List Expr) :
    Sections (Token.clauseOf es [w] (conjunction (Expr.conditionTokens es)))
      ((Expr.listed w es).map ofConditions) := by
  have h := clauseOf es hw (plain_conjunction (Expr.nested_conditionTokens es))
  rw [hcondition, if_pos rfl] at h
  rw [Expr.listed]
  split at h <;> simp_all [ofConditions]

/-- The end of an update or deletion. -/
theorem scope (es : List Expr) (limit : Option Nat) :
    Sections (Token.scope es limit) ((Expr.listed "WHERE" es).map ofConditions) := by
  have hlimit := count (w := "LIMIT") (by decide) (by decide) limit
  have h := (conditions (w := "WHERE") (by decide) (by decide) es).trans hlimit
  rwa [List.append_nil] at h

end Token.Sections

/-- A join is a clause of two keywords, and one of conditions. -/
theorem JoinClause.sections (j : JoinClause) :
    Sections j.tokens ((Expr.listed "ON" j.conditions).map ofConditions) := by
  obtain ⟨kind, table, conditions⟩ := j
  have hkind : clauseWords.contains kind.spelling = true ∧
      ["ON", "WHERE", "HAVING"].contains kind.spelling = false := by
    cases kind <;> decide
  exact ((Sections.other hkind.1 hkind.2 .nil).trans
    (.other (by decide) (by decide) table.nested_tokens)).trans
    (.conditions (by decide) (by decide) conditions)

/-- So are some joins, one after the other. -/
theorem JoinClause.sections_all (js : List JoinClause) : Sections (JoinClause.tokensAll js)
    ((js.flatMap fun j => Expr.listed "ON" j.conditions).map ofConditions) := by
  induction js with
  | nil => exact .nil
  | cons j js ih =>
    rw [JoinClause.tokensAll, List.flatMap_cons, List.map_append]
    exact j.sections.trans ih

/-- A query is made of clauses. -/
theorem Select.sections (s : Select) : Sections s.tokens (s.conditionLists.map ofConditions) := by
  obtain ⟨columns, tables, joins, conditions, groupBy, having, orderBy, limit, offset⟩ := s
  have hselected : Nested Plain
      (if columns.isEmpty then [symbol "*"] else list (Operand.columnTokens columns)) := by
    split
    · exact .single (by decide) (by decide) rfl
    · exact plain_list (Operand.nested_columnTokens columns)
  have hselect : Sections (word "SELECT" :: _) [] := .other (by decide) (by decide) hselected
  have hfrom := Sections.otherOf tables (w := "FROM") (by decide) (by decide)
    (plain_list_map TableRef.nested_tokens tables)
  have hwhere := Sections.conditions (w := "WHERE") (by decide) (by decide) conditions
  have hgroup := Sections.otherOf_two groupBy (v := "GROUP") (w := "BY") (by decide) (by decide)
    (by decide) (by decide) (plain_list_map plain_ofName groupBy)
  have hhaving := Sections.conditions (w := "HAVING") (by decide) (by decide) having
  have horder := Sections.otherOf_two orderBy (v := "ORDER") (w := "BY") (by decide) (by decide)
    (by decide) (by decide) (plain_list_map plain_order orderBy)
  have hlimit := Sections.count (w := "LIMIT") (by decide) (by decide) limit
  have hoffset := Sections.count (w := "OFFSET") (by decide) (by decide) offset
  have h := (((((((hselect.trans hfrom).trans (JoinClause.sections_all joins)).trans hwhere).trans
    hgroup).trans hhaving).trans horder).trans hlimit).trans hoffset
  rw [Select.tokens, Select.conditionLists]
  simpa only [List.map_append, List.nil_append, List.append_nil] using h

/-- **The clauses of a statement are found in its tokens.** Between the keyword of a clause and the next
one outside of parentheses stand the tokens of its conditions. -/
theorem Statement.conditionClauses_tokens (st : Statement) :
    conditionClauses st.tokens = st.conditionLists.map ofConditions := by
  cases st with
  | select s => exact s.sections.conditionClauses_eq
  | insert i =>
    have hcolumns : Nested Plain (ofName i.table ++ Token.parens (list (i.columns.map ofName))) :=
      (plain_ofName i.table).append (.enclose (plain_list_map plain_ofName i.columns).balanced)
    have hinsert : Sections [word "INSERT"] [] := .other (by decide) (by decide) .nil
    have hinto : Sections (word "INTO" :: _) [] := .other (by decide) (by decide) hcolumns
    have hvalues : Sections (word "VALUES" :: _) [] :=
      .other (by decide) (by decide) (plain_list_map plain_values i.rows)
    have h := ((hinsert.trans hinto).trans hvalues).conditionClauses_eq
    simpa [Statement.tokens, Insert.tokens, Statement.conditionLists, keywords] using h
  | update u =>
    rw [Statement.tokens, Update.tokens, Statement.conditionLists]
    split
    · rfl
    · have hcell : ∀ p : String × Value, Nested Plain (ofName p.1 ++ [symbol "=", ofValue p.2]) :=
        fun p => (plain_ofName p.1).append (.cons (by decide) (by decide) rfl (plain_ofValue p.2))
      have hupdate : Sections (word "UPDATE" :: ofName u.table) [] :=
        .other (by decide) (by decide) (plain_ofName u.table)
      have hset : Sections (word "SET" :: _) [] :=
        .other (by decide) (by decide) (plain_list_map hcell u.columns)
      have h := ((hupdate.trans hset).trans (.scope u.conditions u.limit)).conditionClauses_eq
      simpa [keywords] using h
  | delete d =>
    have hdelete : Sections [word "DELETE"] [] := .other (by decide) (by decide) .nil
    have hfrom : Sections (word "FROM" :: ofName d.table) [] :=
      .other (by decide) (by decide) (plain_ofName d.table)
    have h := ((hdelete.trans hfrom).trans (.scope d.conditions d.limit)).conditionClauses_eq
    simpa [Statement.tokens, Delete.tokens, Statement.conditionLists, keywords] using h

end EntityGraph
