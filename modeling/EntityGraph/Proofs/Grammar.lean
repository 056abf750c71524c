import EntityGraph.Proofs.Tokens

/-!
# The grammar of queries

The grammar of the `SELECT` statements of MySQL, as far as it goes without window functions, `CASE`,
index hints, natural joins and the locking clauses; names stand between backticks. For each phrase
`Grammar.productions` lists what it may be written as, and a sentence is what a query is written as.

The grammar is ambiguous, so nothing can be read off the beginning of a sentence. What can be said of every
sentence is local: each of its tokens has been put there by one production, and what stands beside it in the
production stands beside it in the sentence.

## Main results

* `Grammar.Derives.list`, `Grammar.Derives.conjunction`, `Grammar.Derives.optional`: what is put together
  from phrases;
* `Grammar.Derives.placed`: every token of a sentence has been put there by a production;
* `Grammar.Placed.limit_before`, `Grammar.Placed.open_after`, `Grammar.Placed.truth_after`,
  `Grammar.Placed.member_after`: what therefore stands before `OFFSET`, and behind `IN`, `IS` and an opening
  parenthesis.
-/

namespace EntityGraph

namespace Grammar

/-! ### Phrases and productions -/

/-- The clauses that a query may have behind what it selects, in their order. -/
inductive Clause where
  | tables
  | conditions
  | groups
  | having
  | order
  deriving DecidableEq

/-- The keywords that a clause begins with. -/
def Clause.words : Clause → List String
  | tables => ["FROM"]
  | conditions => ["WHERE"]
  | groups => ["GROUP", "BY"]
  | having => ["HAVING"]
  | order => ["ORDER", "BY"]

/-- The phrases that queries are made of. -/
inductive Phrase where
  | query
  | distinction
  | selected
  | item
  /-- Another name of a column or a table. -/
  | label
  | table
  | column
  | reference
  | factor
  | side
  | outer
  | matching
  | key
  | expr
  | negation
  | primary
  | predicate
  | escape
  | bits
  | simple
  | ordering
  | direction
  | limit
  | clause (c : Clause)
  /-- One or more phrases, with commas between them. -/
  | list (p : Phrase)
  | optional (p : Phrase)
  deriving DecidableEq

/-- What a clause holds. -/
def Clause.body : Clause → Phrase
  | tables => .list .reference
  | conditions => .expr
  | groups => .list .expr
  | having => .expr
  | order => .list .ordering

/-- A part of a production: a token, of which some are told apart only by their kind, or a phrase. -/
inductive Part where
  | oneOf (ts : List Token)
  | name
  | text
  | number
  | phrase (p : Phrase)
  deriving DecidableEq

namespace Part

/-- A keyword. -/
abbrev word (w : String) : Part :=
  oneOf [.word w]

/-- One of some keywords. -/
abbrev words (ws : List String) : Part :=
  oneOf (ws.map .word)

/-- An operator or a mark of punctuation. -/
abbrev mark (s : String) : Part :=
  oneOf [.symbol s]

/-- A phrase that may be left out. -/
abbrev maybe (p : Phrase) : Part :=
  phrase (.optional p)

/-- A list of phrases. -/
abbrev listOf (p : Phrase) : Part :=
  phrase (.list p)

/-- Operators between conditions. -/
abbrev connective : Part :=
  oneOf [.word "OR", .word "XOR", .word "AND", .symbol "||", .symbol "&&"]

/-- Operators that compare. -/
abbrev comparison : Part :=
  oneOf (["=", "<=>", ">=", ">", "<=", "<", "<>", "!="].map .symbol)

/-- Operators that compute. -/
abbrev arithmetic : Part :=
  oneOf ((["|", "&", "<<", ">>", "+", "-", "*", "/", "%", "^"].map .symbol) ++
    ["DIV", "MOD"].map .word)

/-- Operators before what they are applied to. -/
abbrev sign : Part :=
  oneOf (["+", "-", "~", "!"].map .symbol)

/-- Whether a token may stand for a part. -/
def accepts : Part → Token → Bool
  | oneOf ts, t => ts.contains t
  | name, .name _ => true
  | text, .text _ => true
  | number, .number _ => true
  | _, _ => false

@[simp] theorem accepts_oneOf (ts : List Token) (t : Token) : (oneOf ts).accepts t = ts.contains t := rfl

end Part

/-- What a phrase may be written as. -/
def productions : Phrase → List (List Part)
  | .query => [[.word "SELECT", .maybe .distinction, .phrase .selected, .maybe (.clause .tables),
      .maybe (.clause .conditions), .maybe (.clause .groups), .maybe (.clause .having),
      .maybe (.clause .order), .maybe .limit]]
  | .clause c => [c.words.map .word ++ [.phrase c.body]]
  | .limit => [
      [.word "LIMIT", .number],
      [.word "LIMIT", .number, .mark ",", .number],
      [.word "LIMIT", .number, .word "OFFSET", .number]]
  -- what is selected
  | .distinction => [[.words ["ALL", "DISTINCT", "DISTINCTROW"]]]
  | .selected => [[.mark "*"], [.mark "*", .mark ",", .listOf .item], [.listOf .item]]
  | .item => [[.phrase .expr, .maybe .label], [.phrase .table, .mark ".", .mark "*"]]
  | .label => [[.name], [.word "AS", .name]]
  | .table => [[.name], [.name, .mark ".", .name]]
  | .column => [[.name], [.name, .mark ".", .name], [.name, .mark ".", .name, .mark ".", .name]]
  -- where it is selected from
  | .reference => [
      [.phrase .factor],
      [.phrase .reference, .maybe .side, .word "JOIN", .phrase .factor, .maybe .matching],
      [.phrase .reference, .words ["LEFT", "RIGHT"], .maybe .outer, .word "JOIN", .phrase .reference,
        .phrase .matching]]
  | .side => [[.words ["INNER", "CROSS"]]]
  | .outer => [[.word "OUTER"]]
  | .matching => [[.word "ON", .phrase .expr], [.word "USING", .mark "(", .listOf .key, .mark ")"]]
  | .key => [[.name]]
  | .factor => [
      [.phrase .table, .maybe .label],
      [.mark "(", .phrase .query, .mark ")", .phrase .label],
      [.mark "(", .listOf .reference, .mark ")"]]
  -- conditions
  | .expr => [
      [.phrase .expr, .connective, .phrase .expr],
      [.word "NOT", .phrase .expr],
      [.phrase .primary, .word "IS", .maybe .negation, .words ["TRUE", "FALSE", "UNKNOWN"]],
      [.phrase .primary]]
  | .negation => [[.word "NOT"]]
  | .primary => [
      [.phrase .primary, .word "IS", .maybe .negation, .word "NULL"],
      [.phrase .primary, .comparison, .phrase .predicate],
      [.phrase .primary, .comparison, .words ["ALL", "ANY", "SOME"], .mark "(", .phrase .query, .mark ")"],
      [.phrase .predicate]]
  | .predicate => [
      [.phrase .bits, .maybe .negation, .word "IN", .mark "(", .phrase .query, .mark ")"],
      [.phrase .bits, .maybe .negation, .word "IN", .mark "(", .listOf .expr, .mark ")"],
      [.phrase .bits, .maybe .negation, .word "BETWEEN", .phrase .bits, .word "AND", .phrase .predicate],
      [.phrase .bits, .maybe .negation, .word "LIKE", .phrase .simple, .maybe .escape],
      [.phrase .bits, .maybe .negation, .words ["REGEXP", "RLIKE"], .phrase .bits],
      [.phrase .bits]]
  | .escape => [[.word "ESCAPE", .phrase .simple]]
  | .bits => [[.phrase .bits, .arithmetic, .phrase .bits], [.phrase .simple]]
  | .simple => [
      [.text], [.number], [.words ["NULL", "TRUE", "FALSE"]], [.phrase .column],
      [.name, .mark "(", .maybe (.list .expr), .mark ")"],
      [.sign, .phrase .simple],
      [.mark "(", .listOf .expr, .mark ")"],
      [.mark "(", .phrase .query, .mark ")"],
      [.word "EXISTS", .mark "(", .phrase .query, .mark ")"]]
  | .ordering => [[.phrase .expr, .maybe .direction]]
  | .direction => [[.words ["ASC", "DESC"]]]
  | .list p => [[.phrase p], [.phrase p, .mark ",", .listOf p]]
  | .optional p => [[], [.phrase p]]

/-- What the parts of a production may be written as, one after the other. -/
inductive Yields : List Part → List Token → Prop
  | nil : Yields [] []
  | token {a : Part} {as : List Part} {t : Token} {ts : List Token} (ha : a.accepts t = true)
      (has : Yields as ts) : Yields (a :: as) (t :: ts)
  | phrase {p : Phrase} {rule as : List Part} {ts us : List Token} (hrule : rule ∈ productions p)
      (hts : Yields rule ts) (has : Yields as us) : Yields (.phrase p :: as) (ts ++ us)

/-- What a phrase may be written as. -/
def Derives (p : Phrase) (ts : List Token) : Prop :=
  ∃ rule ∈ productions p, Yields rule ts

/-- A sentence is what a query is written as. -/
abbrev Sentence (ts : List Token) : Prop :=
  Derives .query ts

/-! ### Putting phrases together -/

variable {p : Phrase} {as bs : List Part} {ts ts' us vs : List Token} {t : Token}

/-- A phrase among the parts of a production. -/
theorem Yields.cons (hts : Derives p ts) (has : Yields as us) : Yields (.phrase p :: as) (ts ++ us) := by
  obtain ⟨rule, hrule, hts⟩ := hts
  exact .phrase hrule hts has

/-- A phrase alone. -/
theorem Yields.single (hts : Derives p ts) : Yields [.phrase p] ts := by
  simpa using Yields.cons hts .nil

/-- A keyword among the parts of a production. -/
theorem Yields.word (w : String) (has : Yields as ts) : Yields (.word w :: as) (.word w :: ts) :=
  .token (by simp) has

/-- A mark among the parts of a production. -/
theorem Yields.mark (s : String) (has : Yields as ts) : Yields (.mark s :: as) (.symbol s :: ts) :=
  .token (by simp) has

/-- Parts after other parts. -/
theorem Yields.append (has : Yields as ts) (hbs : Yields bs us) : Yields (as ++ bs) (ts ++ us) := by
  induction has with
  | nil => exact hbs
  | token ha _ ih => exact .token ha ih
  | phrase hrule hts _ _ ih =>
    rw [List.append_assoc]
    exact .phrase hrule hts ih

/-- Keywords in a row. -/
theorem Yields.words (ws : List String) : Yields (ws.map .word) (Token.keywords ws) := by
  induction ws with
  | nil => exact .nil
  | cons w ws ih => exact .word w ih

namespace Derives

/-- A phrase that is written as another one. -/
theorem of_single {q : Phrase} (hrule : [.phrase p] ∈ productions q) (h : Derives p ts) : Derives q ts :=
  ⟨_, hrule, .single h⟩

/-- What is simple is an operand of arithmetic operators, … -/
theorem bits (h : Derives .simple ts) : Derives .bits ts :=
  h.of_single (by decide)

/-- … a predicate, … -/
theorem predicate (h : Derives .bits ts) : Derives .predicate ts :=
  h.of_single (by decide)

/-- … something that may be compared, … -/
theorem primary (h : Derives .predicate ts) : Derives .primary ts :=
  h.of_single (by decide)

/-- … and an expression. -/
theorem expr (h : Derives .primary ts) : Derives .expr ts :=
  h.of_single (by decide)

/-- Nothing is left out. -/
theorem absent : Derives (.optional p) [] :=
  ⟨[], List.mem_cons_self, .nil⟩

/-- What may be left out need not be. -/
theorem optional (h : Derives p ts) : Derives (.optional p) ts :=
  h.of_single (List.mem_cons_of_mem _ List.mem_cons_self)

/-- A list of one. -/
theorem one (h : Derives p ts) : Derives (.list p) ts :=
  h.of_single List.mem_cons_self

/-- A list with one more in front. -/
theorem more (h : Derives p ts) (hus : Derives (.list p) us) :
    Derives (.list p) (ts ++ .symbol "," :: us) :=
  ⟨[.phrase p, .mark ",", .listOf p], List.mem_cons_of_mem _ List.mem_cons_self,
    .cons h (.mark "," (.single hus))⟩

/-- Members with commas between them. -/
theorem list {tss : List (List Token)} (hne : tss ≠ []) (h : ∀ ts ∈ tss, Derives p ts) :
    Derives (.list p) (Token.list tss) := by
  induction tss with
  | nil => exact absurd rfl hne
  | cons ts tss ih =>
    have hts := h ts List.mem_cons_self
    cases tss with
    | nil => simpa [Token.list] using hts.one
    | cons us tss =>
      have htss := ih (List.cons_ne_nil us tss) fun vs hvs => h vs (List.mem_cons_of_mem _ hvs)
      rw [Token.list, List.intercalate_cons_cons, List.append_assoc]
      exact hts.more htss

/-- Members that are given by a function. -/
theorem list_map {α : Type} {f : α → List Token} {xs : List α} (hne : xs ≠ [])
    (h : ∀ x ∈ xs, Derives p (f x)) : Derives (.list p) (Token.list (xs.map f)) :=
  list (by simpa using hne) fun ts hts => by
    obtain ⟨x, hx, rfl⟩ := List.mem_map.1 hts
    exact h x hx

/-- Conditions with `AND` between them are a condition. -/
theorem conjunction {tss : List (List Token)} (hne : tss ≠ []) (h : ∀ ts ∈ tss, Derives .expr ts) :
    Derives .expr (Token.conjunction tss) := by
  induction tss with
  | nil => exact absurd rfl hne
  | cons ts tss ih =>
    have hts := h ts List.mem_cons_self
    cases tss with
    | nil => simpa [Token.conjunction] using hts
    | cons us tss =>
      have htss := ih (List.cons_ne_nil us tss) fun vs hvs => h vs (List.mem_cons_of_mem _ hvs)
      rw [Token.conjunction, List.intercalate_cons_cons, List.append_assoc]
      exact ⟨[.phrase .expr, .connective, .phrase .expr], by decide,
        .cons hts (.token (by decide) (.single htss))⟩

/-- An expression in parentheses is simple. -/
theorem parens (h : Derives (.list .expr) ts) : Derives .simple (Token.parens ts) :=
  ⟨[.mark "(", .listOf .expr, .mark ")"], by decide,
    .mark "(" (.cons h (.mark ")" .nil))⟩

/-- A clause: its keywords, and what it holds. -/
theorem clause {c : Clause} (h : Derives c.body ts) :
    Derives (.clause c) (Token.keywords c.words ++ ts) :=
  ⟨_, List.mem_singleton_self _, (Yields.words c.words).append (.single h)⟩

/-- A clause that is there only if it has members. -/
theorem clauseOf {α : Type} {xs : List α} (c : Clause) (h : xs ≠ [] → Derives c.body ts) :
    Derives (.optional (.clause c)) (Token.clauseOf xs c.words ts) := by
  rw [Token.clauseOf]
  split
  · exact absent
  · next hne => exact (clause (h (by simpa using hne))).optional

end Derives

/-! ### Where tokens stand -/

/-- A token has been put between others by a production: what stands beside it in the production stands
beside it here. -/
inductive Placed (us : List Token) (t : Token) (vs : List Token) : Prop
  | intro {p : Phrase} {as bs : List Part} {a : Part} {us' vs' : List Token}
      (hrule : as ++ a :: bs ∈ productions p) (ha : a.accepts t = true) (has : Yields as us')
      (hbs : Yields bs vs') (hus : us' <:+ us) (hvs : vs' <+: vs)

/-- A token stays where it has been put when others come around it. -/
theorem Placed.mono {us' vs' : List Token} (h : Placed us t vs) (hus : us <:+ us') (hvs : vs <+: vs') :
    Placed us' t vs' := by
  obtain ⟨hrule, ha, has, hbs, hus', hvs'⟩ := h
  exact ⟨hrule, ha, has, hbs, hus'.trans hus, hvs'.trans hvs⟩

/-- A token of what is put together is a token of what comes first, or of what comes next. -/
theorem split_append (h : ts ++ ts' = us ++ t :: vs) :
    (∃ us', us = ts ++ us' ∧ ts' = us' ++ t :: vs) ∨ ∃ vs', ts = us ++ t :: vs' ∧ vs = vs' ++ ts' := by
  rcases List.append_eq_append_iff.1 h with hright | ⟨vs', rfl, hvs⟩
  · exact .inl hright
  · cases vs' with
    | nil => exact .inl ⟨[], by simp, hvs.symm⟩
    | cons v vs' =>
      obtain ⟨rfl, rfl⟩ := List.cons.inj hvs
      exact .inr ⟨vs', rfl, rfl⟩

/-- A token of some parts is one of the parts, or has been put there by a production of a phrase among
them. -/
theorem Yields.split (h : Yields as ts) (hts : ts = us ++ t :: vs) :
    (∃ as₁ a as₂, as = as₁ ++ a :: as₂ ∧ a.accepts t = true ∧ Yields as₁ us ∧ Yields as₂ vs) ∨
      Placed us t vs := by
  induction h generalizing us vs with
  | nil => simp at hts
  | @token a as u ts ha has ih =>
    rcases List.cons_eq_append_iff.1 hts with ⟨rfl, hcons⟩ | ⟨us', rfl, hrest⟩
    · obtain ⟨rfl, rfl⟩ := List.cons.inj hcons
      exact .inl ⟨[], a, as, rfl, ha, .nil, has⟩
    · rcases ih hrest with ⟨as₁, b, as₂, rfl, hb, has₁, has₂⟩ | hplaced
      · exact .inl ⟨a :: as₁, b, as₂, rfl, hb, .token ha has₁, has₂⟩
      · exact .inr (hplaced.mono (List.suffix_cons u us') (List.prefix_refl vs))
  | @phrase p rule as ts ts' hrule hts₁ has ihrule ih =>
    rcases split_append hts with ⟨us', rfl, hrest⟩ | ⟨vs', hrest, rfl⟩
    · rcases ih hrest with ⟨as₁, b, as₂, rfl, hb, has₁, has₂⟩ | hplaced
      · exact .inl ⟨.phrase p :: as₁, b, as₂, rfl, hb, .phrase hrule hts₁ has₁, has₂⟩
      · exact .inr (hplaced.mono (List.suffix_append ts us') (List.prefix_refl vs))
    · -- the token is inside the phrase, where its own production has put it, or one further down
      refine .inr ?_
      rcases ihrule hrest with ⟨as₁, b, as₂, rfl, hb, has₁, has₂⟩ | hplaced
      · exact ⟨hrule, hb, has₁, has₂, List.suffix_refl us, List.prefix_append vs' ts'⟩
      · exact hplaced.mono (List.suffix_refl us) (List.prefix_append vs' ts')

/-- **Every token of a phrase has been put there by a production.** -/
theorem Derives.placed (h : Derives p (us ++ t :: vs)) : Placed us t vs := by
  obtain ⟨rule, hrule, h⟩ := h
  rcases h.split rfl with ⟨as, a, bs, rfl, ha, has, hbs⟩ | hplaced
  · exact ⟨hrule, ha, has, hbs, List.suffix_refl us, List.prefix_refl vs⟩
  · exact hplaced

/-! ### What stands beside a token -/

/-- Whether a phrase is written as at least one token, the first of which closes no parenthesis. -/
def Phrase.begins : Phrase → Bool
  | .optional _ => false
  | .list p => p.begins
  | _ => true

/-- Whether a part is written as at least one token, the first of which closes no parenthesis. -/
def Part.begins : Part → Bool
  | .oneOf ts => !ts.contains (.symbol ")")
  | .phrase p => p.begins
  | _ => true

/-- What may stand around a part in a production. -/
def Neighbours (as : List Part) (a : Part) (bs : List Part) : Prop :=
  (a.accepts (.word "OFFSET") = true → as = [.word "LIMIT", .number]) ∧
  (a.accepts (.word "IN") = true → bs.head? = some (.mark "(")) ∧
  (a.accepts (.word "IS") = true →
    bs ∈ [[.maybe .negation, .words ["TRUE", "FALSE", "UNKNOWN"]], [.maybe .negation, .word "NULL"]]) ∧
  (a.accepts (.symbol "(") = true → as.getLast? = some .name ∨ bs.head?.any Part.begins = true)

instance (as : List Part) (a : Part) (bs : List Part) : Decidable (Neighbours as a bs) :=
  inferInstanceAs (Decidable (_ ∧ _ ∧ _ ∧ _))

/-- What stands around the parts of the productions. -/
theorem neighbours_at (p : Phrase) : ∀ rule ∈ productions p, ∀ i (hi : i < rule.length),
    Neighbours (rule.take i) rule[i] (rule.drop (i + 1)) := by
  cases p with
  | clause c => cases c <;> decide
  | list p => exact of_decide_eq_true rfl
  | optional p => exact of_decide_eq_true rfl
  | _ => decide

/-- What stands around a part of a production. -/
theorem neighbours_of_mem {a : Part} (h : as ++ a :: bs ∈ productions p) : Neighbours as a bs := by
  have hi : as.length < (as ++ a :: bs).length := by simp
  simpa using neighbours_at p _ h as.length hi

/-- The productions of a phrase that begins so begin so. -/
theorem begins_of_mem {rule : List Part} (hp : p.begins = true) (h : rule ∈ productions p) :
    rule.head?.any Part.begins = true := by
  cases p with
  | optional p => cases hp
  | list p =>
    rcases List.mem_cons.1 h with rfl | h
    · exact hp
    · obtain rfl := List.mem_singleton.1 h
      exact hp
  | clause c =>
    obtain rfl := List.mem_singleton.1 h
    cases c <;> rfl
  | _ => exact (by decide : ∀ rule ∈ productions _, rule.head?.any Part.begins = true) rule h

/-- What begins so is written as at least one token, the first of which closes no parenthesis. -/
theorem Yields.begins (h : Yields as ts) (has : as.head?.any Part.begins = true) :
    ∃ u us, ts = u :: us ∧ u ≠ .symbol ")" := by
  induction h with
  | nil => cases has
  | @token a as t ts ha _ _ =>
    refine ⟨t, ts, rfl, ?_⟩
    rintro rfl
    cases a with
    | oneOf us =>
      rw [Part.accepts_oneOf] at ha
      rw [List.head?_cons, Option.any_some, Part.begins, ha] at has
      cases has
    | _ => cases ha
  | @phrase p rule as ts us hrule _ _ ih _ =>
    obtain ⟨v, vs, rfl, hv⟩ := ih (begins_of_mem has hrule)
    exact ⟨v, vs ++ us, rfl, hv⟩

/-- A token that may stand for one of some tokens is one of them. -/
theorem Yields.of_oneOf {us : List Token} (h : Yields (.oneOf us :: as) ts) :
    ∃ t ∈ us, ∃ vs, ts = t :: vs ∧ Yields as vs := by
  cases h with
  | token ha has => exact ⟨_, by simpa using ha, _, rfl, has⟩

/-- A name is written as one. -/
theorem Yields.of_name (h : Yields (.name :: as) ts) : ∃ s vs, ts = .name s :: vs ∧ Yields as vs := by
  cases h with
  | @token _ _ t _ ha has =>
    cases t with
    | name s => exact ⟨s, _, rfl, has⟩
    | _ => cases ha

/-- So is a number. -/
theorem Yields.of_number (h : Yields (.number :: as) ts) :
    ∃ s vs, ts = .number s :: vs ∧ Yields as vs := by
  cases h with
  | @token _ _ t _ ha has =>
    cases t with
    | number s => exact ⟨s, _, rfl, has⟩
    | _ => cases ha

/-- No parts are written as nothing. -/
theorem Yields.of_nil (h : Yields [] ts) : ts = [] := by
  cases h
  rfl

/-- Parts after other parts are written after them. -/
theorem Yields.of_append (h : Yields (as ++ bs) ts) :
    ∃ us vs, ts = us ++ vs ∧ Yields as us ∧ Yields bs vs := by
  induction as generalizing ts with
  | nil => exact ⟨[], ts, rfl, .nil, h⟩
  | cons a as ih =>
    cases h with
    | token ha has =>
      obtain ⟨us, vs, rfl, has, hbs⟩ := ih has
      exact ⟨_ :: us, vs, rfl, .token ha has, hbs⟩
    | phrase hrule hts has =>
      obtain ⟨us, vs, rfl, has, hbs⟩ := ih has
      exact ⟨_ ++ us, vs, (List.append_assoc _ us vs).symm, .phrase hrule hts has, hbs⟩

/-- A phrase is written as one of its productions. -/
theorem Yields.of_phrase (h : Yields (.phrase p :: as) ts) :
    ∃ us vs, ts = us ++ vs ∧ Derives p us ∧ Yields as vs := by
  cases h with
  | token ha _ => cases ha
  | phrase hrule hts has => exact ⟨_, _, rfl, ⟨_, hrule, hts⟩, has⟩

/-- A negation that may be left out. -/
theorem Yields.of_negation (h : Yields (.maybe .negation :: as) ts) :
    Yields as ts ∨ ∃ us, ts = .word "NOT" :: us ∧ Yields as us := by
  obtain ⟨us, vs, rfl, ⟨rule, hrule, hus⟩, has⟩ := h.of_phrase
  rcases List.mem_cons.1 hrule with rfl | hrule
  · obtain rfl := hus.of_nil
    exact .inl has
  · obtain rfl := List.mem_singleton.1 hrule
    obtain ⟨ts, _, rfl, ⟨rule, hrule, hts⟩, hnil⟩ := hus.of_phrase
    obtain rfl := List.mem_singleton.1 hrule
    obtain ⟨t, ht, _, rfl, hnil'⟩ := hts.of_oneOf
    obtain rfl := List.mem_singleton.1 ht
    obtain rfl := hnil'.of_nil
    obtain rfl := hnil.of_nil
    exact .inr ⟨vs, rfl, has⟩

namespace Placed

/-- `OFFSET` stands behind a limit. -/
theorem limit_before (h : Placed us (.word "OFFSET") vs) :
    ∃ digits, [.word "LIMIT", .number digits] <:+ us := by
  obtain ⟨hrule, ha, has, -, hus, -⟩ := h
  obtain ⟨hoffset, -⟩ := neighbours_of_mem hrule
  obtain rfl := hoffset ha
  obtain ⟨w, hw, us₁, rfl, hnumber⟩ := has.of_oneOf
  obtain rfl := List.mem_singleton.1 hw
  obtain ⟨digits, us₂, rfl, hnil⟩ := hnumber.of_number
  obtain rfl := hnil.of_nil
  exact ⟨digits, hus⟩

/-- `IN` stands before a parenthesis. -/
theorem open_after (h : Placed us (.word "IN") vs) : [.symbol "("] <+: vs := by
  obtain ⟨hrule, ha, -, hbs, -, hvs⟩ := h
  obtain ⟨-, hin, -⟩ := neighbours_of_mem hrule
  obtain ⟨bs, rfl⟩ := List.head?_eq_some_iff.1 (hin ha)
  obtain ⟨t, ht, vs', rfl, -⟩ := hbs.of_oneOf
  obtain rfl := List.mem_singleton.1 ht
  exact (List.prefix_append [_] vs').trans hvs

/-- `IS` stands before a truth value or null, with or without `NOT`. -/
theorem truth_after (h : Placed us (.word "IS") vs) : ∃ w ∈ ["TRUE", "FALSE", "UNKNOWN", "NULL"],
    [.word w] <+: vs ∨ [.word "NOT", .word w] <+: vs := by
  obtain @⟨_, _, bs, _, _, _, hrule, ha, -, hbs, -, hvs⟩ := h
  obtain ⟨-, -, his, -⟩ := neighbours_of_mem hrule
  have htruth : ∃ ws ⊆ ["TRUE", "FALSE", "UNKNOWN", "NULL"], bs = [.maybe .negation, .words ws] := by
    have hbs := his ha
    rw [List.mem_cons, List.mem_singleton] at hbs
    rcases hbs with rfl | rfl
    · exact ⟨["TRUE", "FALSE", "UNKNOWN"], by decide, rfl⟩
    · exact ⟨["NULL"], by decide, rfl⟩
  obtain ⟨ws, hws, rfl⟩ := htruth
  have hword : ∀ {ts}, Yields [.words ws] ts →
      ∃ w ∈ ["TRUE", "FALSE", "UNKNOWN", "NULL"], ts = [.word w] := by
    intro ts hts
    obtain ⟨t, ht, us, rfl, hus⟩ := hts.of_oneOf
    obtain ⟨w, hw, rfl⟩ := List.mem_map.1 ht
    obtain rfl := hus.of_nil
    exact ⟨w, hws hw, rfl⟩
  rcases hbs.of_negation with hts | ⟨ts, rfl, hts⟩
  · obtain ⟨w, hw, rfl⟩ := hword hts
    exact ⟨w, hw, .inl hvs⟩
  · obtain ⟨w, hw, rfl⟩ := hword hts
    exact ⟨w, hw, .inr hvs⟩

/-- An opening parenthesis stands behind a name, or before something that it encloses. -/
theorem member_after (h : Placed us (.symbol "(") vs) :
    (∃ s, [.name s] <:+ us) ∨ ∃ t, t ≠ .symbol ")" ∧ [t] <+: vs := by
  obtain ⟨hrule, ha, has, hbs, hus, hvs⟩ := h
  obtain ⟨-, -, -, hopen⟩ := neighbours_of_mem hrule
  rcases hopen ha with hname | hbegins
  · obtain ⟨as, rfl⟩ := List.getLast?_eq_some_iff.1 hname
    obtain ⟨us₁, us₂, rfl, -, hlast⟩ := has.of_append
    obtain ⟨s, _, rfl, hnil⟩ := hlast.of_name
    obtain rfl := hnil.of_nil
    exact .inl ⟨s, (List.suffix_append us₁ _).trans hus⟩
  · obtain ⟨t, vs', rfl, ht⟩ := hbs.begins hbegins
    exact .inr ⟨t, ht, (List.prefix_append [_] vs').trans hvs⟩

end Placed

end Grammar

end EntityGraph
