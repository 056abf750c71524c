import EntityGraph.Proofs.Clauses

/-!
# Reading expressions by precedence

A reader of token lists that knows the precedence of operators, and nothing of how the tokens were
written: `OR` binds least, then `AND`, `NOT`, comparisons, sums, products and signs; operators of one
precedence group to the left, and parentheses come first. Its operands are names, literals, and lists of
values or queries in parentheses; which of these they are is left to whoever reads on.

A phrase that is grouped as its tokens are read, is read back from them. Where a phrase stands as the
right operand of an operator of its own precedence, its tokens are read otherwise: the operator joins the
leftmost operand of the phrase instead, as `Phrase.under` says.

* `Token.IsOperand` — what is read as one operand;
* `Phrase.read` — the phrase of some tokens;
* `Phrase.Yields` — what reading the tokens of a phrase comes to, with a lemma for each kind of phrase;
* `Phrase.read_tokens` — a phrase that is grouped as it is read, is read;
* `Phrase.Grouped.under` — how an operator before a phrase is read.
-/

namespace EntityGraph

namespace Token

variable {P : Token → Prop} {ts us : List Token}

/-! ### Parentheses that match -/

/-- What stands before the parenthesis that closes, and what follows it; `n` parentheses have been opened
since. -/
def closeAt : Nat → List Token → Option (List Token × List Token)
  | _, [] => none
  | n, t :: ts =>
    if t = opening then (closeAt (n + 1) ts).map fun p => (t :: p.1, p.2)
    else if t = closing then
      if n = 0 then some ([], ts) else (closeAt (n - 1) ts).map fun p => (t :: p.1, p.2)
    else (closeAt n ts).map fun p => (t :: p.1, p.2)

/-- Tokens in which parentheses match are passed over. -/
theorem closeAt_append (h : Nested P ts) (n : Nat) (us : List Token) :
    closeAt n (ts ++ us) = (closeAt n us).map fun p => (ts ++ p.1, p.2) := by
  induction h generalizing n us with
  | nil => simp
  | cons hopening hclosing _ _ ih =>
    rw [List.cons_append, closeAt, if_neg hopening, if_neg hclosing, ih, Option.map_map]
    rfl
  | @parens _ inner ts hinner _ ihinner ih =>
    have hne : closing ≠ opening := by decide
    rw [List.append_assoc, List.cons_append, List.cons_append, closeAt, if_pos rfl, ihinner,
      closeAt, if_neg hne, if_pos rfl, if_neg (Nat.succ_ne_zero n), Nat.add_sub_cancel, ih]
    simp [Function.comp_def]

/-- The parenthesis that closes is found behind tokens in which parentheses match. -/
theorem closeAt_closing (h : Nested P ts) (us : List Token) :
    closeAt 0 (ts ++ closing :: us) = some (ts, us) := by
  have hne : closing ≠ opening := by decide
  rw [closeAt_append h, closeAt, if_neg hne, if_pos rfl, if_pos rfl]
  simp

/-! ### Operands -/

/-- A text, a number or null. -/
def isLiteral : Token → Bool
  | text _ | number _ => true
  | word s => s = "NULL"
  | _ => false

/-- Literals with commas between them. -/
def isValues : List Token → Bool
  | [] => true
  | [t] => t.isLiteral
  | t :: comma :: ts => t.isLiteral && comma = symbol "," && isValues ts

/-- Whether what stands in parentheses is an operand: a query, or a list of values. -/
def isRow (ts : List Token) : Bool :=
  ts.head? = some (word "SELECT") || isValues ts

/-- A segment of a name. -/
def isSegment : Token → Bool
  | name _ => true
  | symbol s => s = "*"
  | _ => false

/-- The dots and segments that a name goes on with, and what follows. -/
def nameRest : List Token → List Token × List Token
  | dot :: t :: ts =>
    if dot = symbol "." ∧ t.isSegment then
      (dot :: t :: (nameRest ts).1, (nameRest ts).2)
    else ([], dot :: t :: ts)
  | ts => ([], ts)

/-- The tokens of an operand, and what follows it: a name, a literal, or a row in parentheses. -/
def operandAt : List Token → Option (List Token × List Token)
  | [] => none
  | t :: ts =>
    if t = opening then
      (closeAt 0 ts).bind fun p => if isRow p.1 then some (parens p.1, p.2) else none
    else if t.isLiteral then some ([t], ts)
    else if t.isSegment then some (t :: (nameRest ts).1, (nameRest ts).2)
    else none

/-- Tokens that are read as one operand: a name, a value, or a row. -/
inductive IsOperand : List Token → Prop
  | name (s : String) : IsOperand (ofName s)
  | value (v : Value) : IsOperand [ofValue v]
  | row {ts : List Token} (hbalanced : Balanced ts) (hrow : isRow ts) : IsOperand (parens ts)

/-- The first segment of a name, and its dots and segments. -/
theorem ofName_eq (s : String) : ∃ t ts, ofName s = t :: ts ∧ t.isSegment ∧
    ∀ us, us.head? ≠ some (symbol ".") → nameRest (ts ++ us) = (ts, us) := by
  have hsegment : ∀ s, (ofSegment s).isSegment := fun s => by
    rw [ofSegment]
    split <;> rfl
  rw [ofName]
  have hne : Text.splitDots s ≠ [] := by simp [Text.splitDots, Text.segments_ne_nil]
  obtain ⟨first, rest, hsplit⟩ := List.exists_cons_of_ne_nil hne
  rw [hsplit]
  clear hsplit
  induction rest generalizing first with
  | nil =>
    refine ⟨ofSegment first, [], rfl, hsegment first, fun us hus => ?_⟩
    cases us with
    | nil => rfl
    | cons u us =>
      cases us with
      | nil => rfl
      | cons u' us =>
        have hdot : u ≠ symbol "." := fun h => hus (by rw [h]; rfl)
        simp [nameRest, hdot]
  | cons second rest ih =>
    obtain ⟨t, ts, hts, ht, hrest⟩ := ih second
    refine ⟨ofSegment first, symbol "." :: t :: ts, ?_, hsegment first, fun us hus => ?_⟩
    · rw [List.map_cons, List.map_cons] at *
      rw [List.intercalate_cons_cons, hts]
      rfl
    · simp [nameRest, ht, hrest us hus]

/-- A value is a literal. -/
theorem isLiteral_ofValue (v : Value) : (ofValue v).isLiteral := by
  cases v <;> rfl

/-- A list of values is a row. -/
theorem isRow_values (vs : List Value) : isRow (list (vs.map fun v => [ofValue v])) := by
  have hvalues : isValues (list (vs.map fun v => [ofValue v])) := by
    induction vs with
    | nil => rfl
    | cons v vs ih =>
      cases vs with
      | nil => simpa [list, isValues] using isLiteral_ofValue v
      | cons w vs =>
        rw [list, List.map_cons, List.map_cons, List.intercalate_cons_cons]
        simp only [List.cons_append, List.nil_append, isValues, isLiteral_ofValue, decide_true,
          Bool.and_self, Bool.true_and]
        exact ih
  rw [isRow, hvalues, Bool.or_true]

/-- An operand is read before anything but a dot. -/
theorem operandAt_append (h : IsOperand ts) (hus : us.head? ≠ some (symbol ".")) :
    operandAt (ts ++ us) = some (ts, us) := by
  cases h with
  | name s =>
    obtain ⟨t, ts, hts, ht, hrest⟩ := ofName_eq s
    have hopening : t ≠ opening := by
      rintro rfl
      cases ht
    have hliteral : t.isLiteral = false := by
      cases t <;> first | rfl | cases ht
    rw [hts, List.cons_append, operandAt, if_neg hopening, if_neg (by simp [hliteral]), if_pos ht,
      hrest us hus]
  | value v =>
    have hopening : ofValue v ≠ opening := by cases v <;> simp [ofValue, opening]
    rw [List.singleton_append, operandAt, if_neg hopening, if_pos (isLiteral_ofValue v)]
  | @row ts hbalanced hrow =>
    have hparens : parens ts ++ us = opening :: (ts ++ closing :: us) := by simp [parens, opening, closing]
    rw [hparens, operandAt, if_pos rfl, closeAt_closing hbalanced]
    simp [hrow]

/-- Parentheses match in an operand. -/
theorem IsOperand.balanced (h : IsOperand ts) : Balanced ts := by
  cases h with
  | name s => exact nested_ofName (fun _ => trivial) trivial trivial s
  | value v => exact nested_ofValue (fun _ => trivial) trivial v
  | row hbalanced => exact .enclose hbalanced

/-- What an operand begins with: no keyword but null, no sign and no dot. -/
theorem IsOperand.head (h : IsOperand ts) : ∃ t us, ts = t :: us ∧
    (t = opening ∨ t.isLiteral ∨ t.isSegment) := by
  cases h with
  | name s =>
    obtain ⟨t, us, hts, ht, -⟩ := ofName_eq s
    exact ⟨t, us, hts, .inr (.inr ht)⟩
  | value v => exact ⟨_, _, rfl, .inr (.inl (isLiteral_ofValue v))⟩
  | row => exact ⟨_, _, rfl, .inl rfl⟩

end Token

open Token

/-! ### Operators -/

/-- How tightly a binary operator binds. -/
def BinaryOp.level : BinaryOp → Nat
  | .or => 1
  | .and => 2
  | .add | .sub => 5
  | .mul | .div => 6
  | _ => 4

/-- How tightly a unary operator binds. -/
def UnaryOp.level : UnaryOp → Nat
  | .not => 3
  | .neg => 7
  | .hasRow | .hasNoRow => 8

/-- The binary operators; one whose tokens begin another's comes after it. -/
def BinaryOp.all : List BinaryOp :=
  [.or, .and, .eq, .ne, .lt, .le, .gt, .ge, .like, .notLike, .isIn, .notIn, .isNot, .is, .add, .sub,
    .mul, .div]

/-- The binary operator at the beginning of some tokens, and what follows it. -/
def Token.binaryAt (ts : List Token) : Option (BinaryOp × List Token) :=
  (BinaryOp.all.find? fun op => op.tokens.isPrefixOf ts).map fun op =>
    (op, ts.drop op.tokens.length)

/-- An operator is found at the beginning; one that `NOT` would turn into another must not be followed by
it. -/
theorem Token.binaryAt_tokens (op : BinaryOp) {ts : List Token}
    (h : op = .is → ts.head? ≠ some (.word "NOT")) : binaryAt (op.tokens ++ ts) = some (op, ts) := by
  cases op with
  | is =>
    have hnot : ([Token.word "NOT"].isPrefixOf ts) = false := by
      cases ts with
      | nil => rfl
      | cons t ts =>
        have hne : Token.word "NOT" ≠ t := fun heq => h rfl (by rw [← heq]; rfl)
        simpa [List.isPrefixOf] using hne
    have hisNot : BinaryOp.tokens .isNot = .word "IS" :: [.word "NOT"] := rfl
    have hstarts : (BinaryOp.tokens .isNot).isPrefixOf (.word "IS" :: ts) = false := by
      rw [hisNot, List.isPrefixOf, hnot, Bool.and_false]
    have hfind : BinaryOp.all.find? (fun op => op.tokens.isPrefixOf (.word "IS" :: ts)) = some .is := by
      refine List.find?_eq_some_iff_append.2 ⟨rfl, [.or, .and, .eq, .ne, .lt, .le, .gt, .ge, .like,
        .notLike, .isIn, .notIn, .isNot], [.add, .sub, .mul, .div], rfl, fun op _ => ?_⟩
      cases op <;> first
        | rfl
        | (rw [hstarts]; rfl)
        | simp_all
    exact congrArg (Option.map _) hfind
  | _ => rfl

/-- Operators have no parentheses, and begin with no dot. -/
theorem BinaryOp.tokens_plain (op : BinaryOp) : op.tokens ≠ [] ∧ op.tokens.head? ≠ some (.symbol ".") ∧
    ∀ t ∈ op.tokens, t ≠ opening ∧ t ≠ closing ∧ t.isLiteral = false ∧ t ≠ .symbol "," := by
  cases op <;> decide

/-! ### Phrases -/

/-- What an expression is read as, over operands of some kind. -/
inductive Phrase (α : Type) where
  | leaf (a : α)
  | binary (left : Phrase α) (op : BinaryOp) (right : Phrase α)
  | unary (op : UnaryOp) (x : Phrase α)
  /-- A phrase in parentheses. -/
  | group (x : Phrase α)

namespace Phrase

variable {α β : Type} {spell : α → List Token} {x y : Phrase α} {us : List Token} {k m n : Nat}

/-- The phrase over other operands. -/
def map (f : α → β) : Phrase α → Phrase β
  | leaf a => leaf (f a)
  | binary l op r => binary (l.map f) op (r.map f)
  | unary op x => unary op (x.map f)
  | group x => group (x.map f)

/-- How tightly a phrase binds: as its operator does, or more tightly than all operators. -/
def level : Phrase α → Nat
  | binary _ op _ => op.level
  | unary op _ => op.level
  | leaf _ | group _ => 9

/-- The tokens of a phrase whose operands are spelt so. -/
def tokens (spell : α → List Token) : Phrase α → List Token
  | leaf a => spell a
  | binary l op r => l.tokens spell ++ op.tokens ++ r.tokens spell
  | unary op x => op.tokens ++ x.tokens spell
  | group x => parens (x.tokens spell)

@[simp] theorem tokens_leaf (a : α) : (leaf a).tokens spell = spell a := rfl

@[simp] theorem tokens_binary (l : Phrase α) (op : BinaryOp) (r : Phrase α) :
    (binary l op r).tokens spell = l.tokens spell ++ op.tokens ++ r.tokens spell := rfl

@[simp] theorem tokens_unary (op : UnaryOp) (x : Phrase α) :
    (unary op x).tokens spell = op.tokens ++ x.tokens spell := rfl

@[simp] theorem tokens_group (x : Phrase α) : (group x).tokens spell = parens (x.tokens spell) := rfl

/-- Phrases that are grouped as their tokens are read: an operator stands between phrases that bind more
tightly, and the one on its left may bind as it does; and what stands in parentheses is no row. -/
inductive Grouped (spell : α → List Token) : Phrase α → Prop
  | leaf {a : α} (ha : IsOperand (spell a)) : Grouped spell (leaf a)
  | binary {l r : Phrase α} {op : BinaryOp} (hl : Grouped spell l) (hr : Grouped spell r)
      (hleft : op.level ≤ l.level) (hright : op.level < r.level) : Grouped spell (binary l op r)
  | not {x : Phrase α} (hx : Grouped spell x) (hlevel : UnaryOp.not.level ≤ x.level) :
      Grouped spell (unary .not x)
  | neg {x : Phrase α} (hx : Grouped spell x) (hlevel : UnaryOp.neg.level ≤ x.level) :
      Grouped spell (unary .neg x)
  | hasRow {a : α} (ha : IsOperand (spell a)) : Grouped spell (unary .hasRow (.leaf a))
  | group {x : Phrase α} (hx : Grouped spell x) (hrow : isRow (x.tokens spell) = false) :
      Grouped spell (group x)

/-! ### Reading -/

/-- The part of a phrase that stands before the first operator between operands: signs, `NOT` where an
operator that binds as tightly may stand, a test for rows, an operand, or a phrase in parentheses. What
follows a sign or `NOT`, and what stands in parentheses, is read by `rd`. -/
def startAt (rd : Nat → List Token → Option (Phrase (List Token) × List Token)) (k : Nat) :
    List Token → Option (Phrase (List Token) × List Token)
  | [] => none
  | t :: ts =>
    if t = .word "NOT" then
      if k ≤ UnaryOp.not.level then
        (rd UnaryOp.not.level ts).map fun p => (unary .not p.1, p.2)
      else none
    else if t = .symbol "-" then (rd UnaryOp.neg.level ts).map fun p => (unary .neg p.1, p.2)
    else if t = .word "EXISTS" then
      (operandAt ts).map fun p => (unary .hasRow (leaf p.1), p.2)
    else match operandAt (t :: ts) with
      | some p => some (leaf p.1, p.2)
      | none =>
        if t = opening then
          (closeAt 0 ts).bind fun p => (rd 0 p.1).bind fun q =>
            if q.2 = [] then some (group q.1, p.2) else none
        else none

mutual

/-- The phrase at the beginning of some tokens whose operators bind at least as tightly as the level `k`,
and what follows it. -/
def readAt : Nat → Nat → List Token → Option (Phrase (List Token) × List Token)
  | 0, _, _ => none
  | n + 1, k, ts => (startAt (readAt n) k ts).bind fun p => readOn n k p.1 p.2

/-- The phrase that goes on from `x` along operators that bind at least as tightly as the level `k`. -/
def readOn : Nat → Nat → Phrase (List Token) → List Token →
    Option (Phrase (List Token) × List Token)
  | 0, _, _, _ => none
  | n + 1, k, x, ts =>
    match binaryAt ts with
    | none => some (x, ts)
    | some (op, rest) =>
      if op.level < k then some (x, ts)
      else (readAt n (op.level + 1) rest).bind fun p => readOn n k (binary x op p.1) p.2

end

/-- A phrase is read from its start on. -/
theorem readAt_succ (n k : Nat) (ts : List Token) :
    readAt (n + 1) k ts = (startAt (readAt n) k ts).bind fun p => readOn n k p.1 p.2 := rfl

/-- The phrase that some tokens are, if they are one. -/
def read (ts : List Token) : Option (Phrase (List Token)) :=
  (readAt (ts.length + 1) 0 ts).bind fun p => if p.2 = [] then some p.1 else none

/-- What may follow a phrase that binds at the level `m`: no operator that binds more tightly, and no dot
that a name would go on with. -/
structure Follows (m : Nat) (us : List Token) : Prop where
  dot : us.head? ≠ some (.symbol ".")
  level : ∀ op rest, binaryAt us = some (op, rest) → op.level ≤ m

/-- No operator stands where nothing is left. -/
theorem binaryAt_nil {op : BinaryOp} {rest : List Token} : binaryAt [] ≠ some (op, rest) := by
  rw [show binaryAt [] = none from rfl]
  exact (Option.some_ne_none _).symm

theorem Follows.nil (m : Nat) : Follows m [] where
  dot := by simp
  level _ _ h := absurd h binaryAt_nil

theorem Follows.mono (h : Follows m us) (hmn : m ≤ n) : Follows n us :=
  ⟨h.dot, fun op rest hop => Nat.le_trans (h.level op rest hop) hmn⟩

/-- The first token of an operand is none that begins a phrase otherwise. -/
theorem startAt_operand {ts : List Token} (rd : Nat → List Token → Option (Phrase (List Token) × List Token))
    (h : IsOperand ts) (hus : us.head? ≠ some (.symbol ".")) :
    startAt rd k (ts ++ us) = some (leaf ts, us) := by
  have hoperand := operandAt_append h hus
  obtain ⟨t, ts', rfl, ht⟩ := h.head
  have hne : t ≠ .word "NOT" ∧ t ≠ .symbol "-" ∧ t ≠ .word "EXISTS" := by
    refine ⟨?_, ?_, ?_⟩ <;>
      · rintro rfl
        revert ht
        decide
  rw [List.cons_append] at hoperand ⊢
  rw [startAt, if_neg hne.1, if_neg hne.2.1, if_neg hne.2.2, hoperand]

/-- A phrase that binds more tightly than `NOT` does not begin with it. -/
theorem Grouped.head?_ne_not (h : x.Grouped spell) (hlevel : UnaryOp.not.level < x.level)
    (us : List Token) : (x.tokens spell ++ us).head? ≠ some (.word "NOT") := by
  induction h generalizing us with
  | leaf ha =>
    obtain ⟨t, ts, hts, ht⟩ := ha.head
    rw [tokens_leaf, hts]
    rintro heq
    obtain rfl := Option.some.inj heq
    revert ht
    decide
  | binary hl hr hleft hright ihl =>
    rw [tokens_binary, List.append_assoc, List.append_assoc]
    exact ihl (Nat.lt_of_lt_of_le hlevel hleft) _
  | not => exact absurd hlevel (Nat.lt_irrefl _)
  | neg => simp [UnaryOp.tokens]
  | hasRow => simp [UnaryOp.tokens, keywords]
  | group => simp [Token.parens]

/-- Where no operator follows that binds tightly enough, a phrase ends. -/
theorem readOn_stop {z : Phrase (List Token)} (hn : 0 < n)
    (h : ∀ op rest, binaryAt us = some (op, rest) → op.level < k) : readOn n k z us = some (z, us) := by
  obtain ⟨n, rfl⟩ := Nat.exists_eq_succ_of_ne_zero (Nat.ne_of_gt hn)
  unfold readOn
  split
  · rfl
  · next op rest hop => rw [if_pos (h op rest hop)]

/-- Parentheses match in a phrase. -/
theorem Grouped.balanced (h : x.Grouped spell) : Balanced (x.tokens spell) := by
  have hop : ∀ op : BinaryOp, Balanced op.tokens := fun op =>
    .of_forall fun t ht => ⟨(op.tokens_plain.2.2 t ht).1, (op.tokens_plain.2.2 t ht).2.1, trivial⟩
  have hun : ∀ op : UnaryOp, Balanced op.tokens := fun op => by
    cases op <;> exact .of_forall (by decide)
  induction h with
  | leaf ha => exact ha.balanced
  | @binary _ _ op _ _ _ _ ihl ihr => exact (ihl.append (hop op)).append ihr
  | not _ _ ih => exact (hun .not).append ih
  | neg _ _ ih => exact (hun .neg).append ih
  | hasRow ha => exact (hun .hasRow).append ha.balanced
  | group _ _ ih => exact .enclose ih

/-- An operator may follow a phrase that binds as tightly. -/
theorem follows_tokens (op : BinaryOp) (h : op = .is → us.head? ≠ some (.word "NOT")) :
    Follows op.level (op.tokens ++ us) where
  dot := by
    obtain ⟨hne, hdot, -⟩ := op.tokens_plain
    rwa [List.head?_append_of_ne_nil _ hne]
  level op' rest hop' := by
    rw [binaryAt_tokens op h] at hop'
    obtain ⟨rfl, -⟩ := Prod.mk.inj (Option.some.inj hop')
    exact Nat.le_refl _

/-- No binary operator binds as `NOT` does, or as tightly as a sign. -/
theorem level_ne (op : BinaryOp) : op.level ≠ UnaryOp.not.level ∧ op.level < UnaryOp.neg.level := by
  cases op <;> decide

/-- Tokens that are read as the phrase `z`, which binds at the level `m`: where nothing follows that binds
more tightly, reading comes to the phrase, and goes on behind it. -/
def Yields (ts : List Token) (z : Phrase (List Token)) (m : Nat) : Prop :=
  ∀ n k us, k ≤ m → Follows m us → (ts ++ us).length < n → ∃ n', us.length < n' ∧
    readAt n k (ts ++ us) = readOn n' k z us

namespace Yields

variable {ts : List Token} {y z : Phrase (List Token)} {m' : Nat}

/-- The phrase alone is read where what follows it binds less tightly than the level. -/
theorem readAt_eq (h : Yields ts z m) (hk : k ≤ m) (hus : Follows m us)
    (hend : ∀ op rest, binaryAt us = some (op, rest) → op.level < k) (hn : (ts ++ us).length < n) :
    readAt n k (ts ++ us) = some (z, us) := by
  obtain ⟨n', hn', hread⟩ := h n k us hk hus hn
  rw [hread, readOn_stop (Nat.zero_lt_of_lt hn') hend]

/-- Tokens behind which nothing follows. -/
theorem readAt_self (h : Yields ts z m) (hn : ts.length < n) : readAt n 0 ts = some (z, []) := by
  have hread := h.readAt_eq (n := n) (Nat.zero_le m) (.nil m) (fun _ _ hop => absurd hop binaryAt_nil)
    (by rwa [List.append_nil])
  rwa [List.append_nil] at hread

theorem leaf (ha : IsOperand ts) : Yields ts (.leaf ts) 9 := by
  intro n k us _ hus hn
  obtain ⟨n, rfl⟩ := Nat.exists_eq_succ_of_ne_zero (Nat.ne_of_gt (Nat.zero_lt_of_lt hn))
  obtain ⟨t, ts', hts, -⟩ := ha.head
  refine ⟨n, ?_, ?_⟩
  · rw [hts, List.cons_append, List.length_cons, List.length_append] at hn
    omega
  · rw [readAt_succ, startAt_operand _ ha hus.dot]
    rfl

/-- The left operand is read first, then the operator, and then the right operand, which ends where an
operator follows that binds as this one does. -/
theorem binary {rs : List Token} {op : BinaryOp} (hl : Yields ts y m) (hr : Yields rs z m')
    (hleft : op.level ≤ m) (hright : op.level < m')
    (hnot : ∀ us, op = .is → (rs ++ us).head? ≠ some (.word "NOT")) :
    Yields (ts ++ op.tokens ++ rs) (.binary y op z) op.level := by
  intro n k us hk hus hn
  have hpos := List.length_pos_iff.2 op.tokens_plain.1
  rw [List.append_assoc, List.append_assoc] at hn ⊢
  obtain ⟨n₁, hn₁, hreadl⟩ :=
    hl n k _ (Nat.le_trans hk hleft) ((follows_tokens op (hnot us)).mono hleft) hn
  obtain ⟨n₁, rfl⟩ := Nat.exists_eq_succ_of_ne_zero (Nat.ne_of_gt (Nat.zero_lt_of_lt hn₁))
  rw [List.length_append] at hn₁
  have hreadr := hr.readAt_eq (k := op.level + 1) (n := n₁) hright (hus.mono (Nat.le_of_lt hright))
    (fun op' rest hop' => Nat.lt_succ_of_le (hus.level op' rest hop')) (by omega)
  refine ⟨n₁, ?_, ?_⟩
  · rw [List.length_append] at hn₁
    omega
  · rw [hreadl]
    conv_lhs => unfold readOn
    have hk' : ¬ op.level < k := Nat.not_lt.2 hk
    rw [binaryAt_tokens op (hnot us)]
    simp only [hk', if_false, hreadr, Option.bind_some]

/-- What stands behind an operator before one operand is read up to an operator that binds less tightly. -/
theorem unary {op : UnaryOp} {t : Token} (h : Yields ts z m) (hlevel : op.level ≤ m)
    (hne : ∀ op' : BinaryOp, op'.level ≠ op.level)
    (hstart : ∀ rd k us, k ≤ op.level →
      startAt rd k (t :: us) = (rd op.level us).map fun p => (.unary op p.1, p.2)) :
    Yields (t :: ts) (.unary op z) op.level := by
  intro n k us hk hus hn
  obtain ⟨n, rfl⟩ := Nat.exists_eq_succ_of_ne_zero (Nat.ne_of_gt (Nat.zero_lt_of_lt hn))
  rw [List.cons_append, List.length_cons] at hn
  have hread := h.readAt_eq (n := n) hlevel (hus.mono hlevel)
    (fun op' rest hop => Nat.lt_of_le_of_ne (hus.level op' rest hop) (hne op'))
    (Nat.lt_of_succ_lt_succ hn)
  refine ⟨n, ?_, ?_⟩
  · rw [List.length_append] at hn
    omega
  · rw [readAt_succ, List.cons_append, hstart _ _ _ hk, hread]
    rfl

theorem not (h : Yields ts z m) (hlevel : UnaryOp.not.level ≤ m) :
    Yields (.word "NOT" :: ts) (.unary .not z) UnaryOp.not.level :=
  h.unary hlevel (fun op => (level_ne op).1) fun rd k us hk => by rw [startAt, if_pos rfl, if_pos hk]

theorem neg (h : Yields ts z m) (hlevel : UnaryOp.neg.level ≤ m) :
    Yields (.symbol "-" :: ts) (.unary .neg z) UnaryOp.neg.level :=
  h.unary hlevel (fun op => Nat.ne_of_lt (level_ne op).2) fun rd k us _ => by
    rw [startAt, if_neg (by decide), if_pos rfl]

/-- A test for rows has a single operand. -/
theorem hasRow (ha : IsOperand ts) :
    Yields (.word "EXISTS" :: ts) (.unary .hasRow (.leaf ts)) UnaryOp.hasRow.level := by
  intro n k us _ hus hn
  obtain ⟨n, rfl⟩ := Nat.exists_eq_succ_of_ne_zero (Nat.ne_of_gt (Nat.zero_lt_of_lt hn))
  rw [List.cons_append, List.length_cons, List.length_append] at hn
  refine ⟨n, by omega, ?_⟩
  rw [readAt_succ, List.cons_append, startAt, if_neg (by decide), if_neg (by decide), if_pos rfl,
    operandAt_append ha hus.dot]
  rfl

/-- What stands in parentheses is read on its own, unless it is a row. -/
theorem group (h : Yields ts z m) (hbalanced : Balanced ts) (hrow : isRow ts = false) :
    Yields (Token.parens ts) (.group z) 9 := by
  intro n k us _ _ hn
  obtain ⟨n, rfl⟩ := Nat.exists_eq_succ_of_ne_zero (Nat.ne_of_gt (Nat.zero_lt_of_lt hn))
  have hcons : Token.parens ts ++ us = opening :: (ts ++ closing :: us) := by
    simp [Token.parens, opening, closing]
  rw [hcons, List.length_cons, List.length_append, List.length_cons] at hn
  have hclose := closeAt_closing hbalanced us
  have hread := h.readAt_self (n := n) (by omega)
  have hoperand : operandAt (opening :: (ts ++ closing :: us)) = none := by
    rw [operandAt, if_pos rfl, hclose]
    simp [hrow]
  refine ⟨n, by omega, ?_⟩
  rw [readAt_succ, hcons, startAt, if_neg (by decide), if_neg (by decide), if_neg (by decide), hoperand]
  simp only [if_pos, hclose, Option.bind_some, hread]

end Yields

/-- **What is grouped as it is read, is read.** -/
theorem Grouped.yields (h : x.Grouped spell) : Yields (x.tokens spell) (x.map spell) x.level := by
  induction h with
  | leaf ha => exact .leaf ha
  | @binary l r op hl hr hleft hright ihl ihr =>
    refine ihl.binary ihr hleft hright fun us his => ?_
    subst his
    exact hr.head?_ne_not (Nat.lt_of_succ_lt hright) us
  | not hx hlevel ih => exact ih.not hlevel
  | neg hx hlevel ih => exact ih.neg hlevel
  | hasRow ha => exact .hasRow ha
  | group hx hrow ih => exact ih.group hx.balanced hrow

/-- A phrase that is grouped as it is read, is what its tokens are read as. -/
theorem read_tokens (h : x.Grouped spell) : read (x.tokens spell) = some (x.map spell) := by
  rw [read, h.yields.readAt_self (Nat.lt_succ_self _)]
  rfl

/-! ### An operator before a phrase -/

/-- How an operator of the level `m` before a phrase is read: as the operator of the leftmost operand along
operators of this level. -/
def under (f : Phrase α → Phrase α) (m : Nat) : Phrase α → Phrase α
  | binary l op r => if op.level = m then binary (l.under f m) op r else f (binary l op r)
  | x => f x

variable {f : Phrase α → Phrase α}

theorem under_binary (l : Phrase α) (op : BinaryOp) (r : Phrase α) : (binary l op r).under f m =
    if op.level = m then binary (l.under f m) op r else f (binary l op r) := rfl

/-- The operator is written before the phrase. -/
theorem tokens_under {before : List Token} (hf : ∀ y, (f y).tokens spell = before ++ y.tokens spell)
    (x : Phrase α) : (x.under f m).tokens spell = before ++ x.tokens spell := by
  induction x with
  | binary l op r ihl =>
    rw [under_binary]
    split
    · rw [tokens_binary, ihl, tokens_binary, List.append_assoc, List.append_assoc, List.append_assoc]
    · exact hf _
  | _ => exact hf _

/-- The phrase binds as the operator does, or as it did before. -/
theorem level_under (hf : ∀ y, m ≤ (f y).level) (x : Phrase α) : m ≤ (x.under f m).level := by
  cases x with
  | binary l op r =>
    rw [under_binary]
    split
    · next hm => exact Nat.le_of_eq hm.symm
    · exact hf _
  | _ => exact hf _

/-- A binary operator before a phrase binds as it does, wherever it is read. -/
theorem level_under_binary (l x : Phrase α) (op : BinaryOp) :
    (x.under (.binary l op) op.level).level = op.level := by
  cases x with
  | binary l' op' r =>
    rw [under_binary]
    split
    · next h => exact h
    · rfl
  | _ => rfl

/-- A phrase that binds as tightly as a sign binds more tightly than a binary operator. -/
theorem lt_level (op : BinaryOp) (h : UnaryOp.neg.level ≤ k) : op.level < k :=
  Nat.lt_of_lt_of_le (level_ne op).2 h

/-- An operator before a phrase that binds as tightly is read so, if it is read as it stands before one that
binds more tightly. -/
theorem Grouped.under {op : BinaryOp} (hx : x.Grouped spell) (hlevel : op.level ≤ x.level)
    (hf : ∀ y, y.Grouped spell → op.level < y.level → (f y).Grouped spell)
    (hflevel : ∀ y, op.level ≤ (f y).level) : (x.under f op.level).Grouped spell := by
  induction hx with
  | @binary l r op' hl hr hleft hright ihl =>
    rw [Phrase.under_binary]
    split
    · next heq =>
      exact .binary (ihl (heq ▸ hleft)) hr (heq ▸ level_under hflevel l) hright
    · next hne => exact hf _ (.binary hl hr hleft hright) (Nat.lt_of_le_of_ne hlevel (Ne.symm hne))
  | leaf ha => exact hf _ (.leaf ha) (lt_level op (Nat.le_add_left 7 2))
  | not hx hnot => exact hf _ (.not hx hnot) (Nat.lt_of_le_of_ne hlevel (level_ne op).1)
  | neg hx hneg => exact hf _ (.neg hx hneg) (level_ne op).2
  | hasRow ha => exact hf _ (.hasRow ha) (lt_level op (Nat.le_add_left 7 1))
  | group hx hrow => exact hf _ (.group hx hrow) (lt_level op (Nat.le_add_left 7 2))

/-- What an operator before a phrase comes to, if it may be moved into the phrase. -/
theorem eval_under {V : Type} (val : Phrase α → V) (ap : BinaryOp → V → V → V) (F : V → V)
    (hval : ∀ l op r, op.level = m → val (binary l op r) = ap op (val l) (val r))
    (hf : ∀ y, val (f y) = F (val y))
    (hF : ∀ op a b, op.level = m → ap op (F a) b = F (ap op a b)) (x : Phrase α) :
    val (x.under f m) = F (val x) := by
  induction x with
  | binary l op r ihl =>
    rw [under_binary]
    split
    · next hm => rw [hval _ _ _ hm, ihl, hF _ _ _ hm, hval _ _ _ hm]
    · exact hf _
  | _ => exact hf _

end Phrase

/-! ### The phrases of expressions -/

open Phrase

mutual

/-- The phrase of an operand inside an expression. -/
def Operand.phrase : Operand → Phrase Operand
  | .expr e => if e.isLogical then .group e.phrase else e.phrase
  | o => .leaf o

/-- The phrase that an expression is read as. -/
def Expr.phrase : Expr → Phrase Operand
  | .binary left op right => right.phrase.under (.binary left.phrase op) op.level
  | .unary .neg operand => operand.phrase.under (.unary .neg) BinaryOp.mul.level
  | .unary .hasNoRow operand => .unary .not (.unary .hasRow operand.phrase)
  | .unary op operand => .unary op operand.phrase
  | e => .leaf (.expr e)

end

/-- What has an operator binds as it does, wherever the operator is read. -/
theorem Expr.level_phrase (left : Operand) (op : BinaryOp) (right : Operand) :
    (Expr.binary left op right).phrase.level = op.level :=
  level_under_binary _ _ _

mutual

/-- The phrase of an operand has its tokens. -/
theorem Operand.tokens_phrase : ∀ o : Operand, o.phrase.tokens Operand.nestedTokens = o.nestedTokens
  | .name s => rfl
  | .query s => rfl
  | .expr e => by
    have he := e.tokens_phrase
    rw [Operand.phrase, Operand.nestedTokens]
    cases e.isLogical with
    | true => exact congrArg Token.parens he
    | false => exact he

/-- The phrase of an expression has its tokens. -/
theorem Expr.tokens_phrase : ∀ e : Expr, e.phrase.tokens Operand.nestedTokens = e.tokens
  | .binary left op right => by
    rw [Expr.phrase, Expr.tokens, ← left.tokens_phrase, ← right.tokens_phrase]
    exact tokens_under (fun _ => rfl) _
  | .unary op operand => by
    have ho := operand.tokens_phrase
    rw [Expr.tokens, ← ho]
    cases op with
    | not => rfl
    | hasRow => rfl
    | hasNoRow => rfl
    | neg => exact tokens_under (fun _ => rfl) _
  | .param v => rfl
  | .values vs => rfl
  | .verbatim s => rfl

end

/-- Whether an operand is a single one: a name, a query, a value or a set of values. -/
def Operand.isSingle : Operand → Bool
  | .name _ | .query _ | .expr (.param _) | .expr (.values _) => true
  | _ => false

mutual

/-- Whether an operand inside an expression keeps its parts together. -/
def Operand.binds : Operand → Prop
  | .expr e => e.binds
  | _ => True

/-- Whether no operator stands before or after an operand that binds less tightly: no operand of a binary
operator does, nor one of a sign or of `NOT`; and tests for rows have single operands. -/
def Expr.binds : Expr → Prop
  | .binary left op right => left.binds ∧ right.binds ∧ op.level ≤ left.phrase.level ∧
      op.level ≤ right.phrase.level
  | .unary .not operand => operand.binds ∧ UnaryOp.not.level ≤ operand.phrase.level
  | .unary .neg operand => operand.binds ∧ BinaryOp.mul.level ≤ operand.phrase.level
  | .unary _ operand => operand.isSingle = true
  | .verbatim _ => False
  | _ => True

end

/-- A single operand is read as one. -/
theorem Operand.isOperand : ∀ o : Operand, o.isSingle = true → IsOperand o.nestedTokens
  | .name s, _ => .name s
  | .query s, _ => .row s.balanced_tokens (by
      obtain ⟨columns, tables, joins, conditions, groupBy, having, orderBy, limit, offset⟩ := s
      rfl)
  | .expr (.param v), _ => .value v
  | .expr (.values vs), _ => .row (plain_list_map plain_ofValue vs).balanced (isRow_values vs)

/-- A single operand is its own phrase. -/
theorem Operand.phrase_of_isSingle : ∀ o : Operand, o.isSingle = true → o.phrase = .leaf o
  | .name _, _ => rfl
  | .query _, _ => rfl
  | .expr (.param _), _ => rfl
  | .expr (.values _), _ => rfl

/-- Values are separated by commas alone. -/
theorem Token.literal_of_isValues {ts : List Token} (h : isValues ts = true) :
    ∀ t ∈ ts, t.isLiteral = true ∨ t = .symbol "," := by
  induction ts using isValues.induct with
  | case1 => exact fun t ht => absurd ht List.not_mem_nil
  | case2 t =>
    intro u hu
    rw [List.mem_singleton.1 hu]
    exact .inl h
  | case3 t comma ts ih =>
    simp only [isValues, Bool.and_eq_true, decide_eq_true_eq] at h
    intro u hu
    rcases List.mem_cons.1 hu with rfl | hu
    · exact .inl h.1.1
    · rcases List.mem_cons.1 hu with rfl | hu
      · exact .inr h.1.2
      · exact ih h.2 u hu

/-- A phrase does not begin as a query. -/
theorem Phrase.Grouped.head?_ne_select {α : Type} {spell : α → List Token} {x : Phrase α}
    (h : x.Grouped spell) (us : List Token) :
    (x.tokens spell ++ us).head? ≠ some (.word "SELECT") := by
  induction h generalizing us with
  | leaf ha =>
    obtain ⟨t, ts, hts, ht⟩ := ha.head
    rw [tokens_leaf, hts]
    rintro heq
    obtain rfl := Option.some.inj heq
    revert ht
    decide
  | binary hl hr hleft hright ihl =>
    rw [tokens_binary, List.append_assoc, List.append_assoc]
    exact ihl _
  | not => simp [UnaryOp.tokens, keywords]
  | neg => simp [UnaryOp.tokens]
  | hasRow => simp [UnaryOp.tokens, keywords]
  | group => simp [Token.parens]

/-- What has an operator outside of parentheses is no row. -/
theorem Phrase.Grouped.isRow_eq_false {α : Type} {spell : α → List Token} {x : Phrase α}
    (h : x.Grouped spell) {before after : List Token} (op : BinaryOp)
    (hx : x.tokens spell = before ++ op.tokens ++ after) : isRow (x.tokens spell) = false := by
  obtain ⟨hne, -, hplain⟩ := op.tokens_plain
  obtain ⟨t, ts, hts⟩ := List.exists_cons_of_ne_nil hne
  have hmem : t ∈ op.tokens := hts ▸ List.mem_cons_self
  rw [isRow, Bool.or_eq_false_iff, decide_eq_false_iff_not, Bool.eq_false_iff]
  refine ⟨?_, fun hvalues => ?_⟩
  · simpa using h.head?_ne_select []
  · have hin : t ∈ x.tokens spell := by
      rw [hx]
      exact List.mem_append_left _ (List.mem_append_right _ hmem)
    obtain ⟨-, -, hliteral, hcomma⟩ := hplain t hmem
    rcases literal_of_isValues hvalues t hin with hl | hc
    · rw [hliteral] at hl
      cases hl
    · exact hcomma hc

/-- An `AND` or `OR` in parentheses is no row. -/
theorem Expr.group_phrase {e : Expr} (he : e.phrase.Grouped Operand.nestedTokens)
    (hlogical : e.isLogical = true) : (Phrase.group e.phrase).Grouped Operand.nestedTokens := by
  refine .group he ?_
  cases e with
  | binary left op right => exact he.isRow_eq_false op (Expr.tokens_phrase (.binary left op right))
  | _ => cases hlogical

mutual

/-- The phrase of an operand that keeps its parts together is grouped as it is read. -/
theorem Operand.grouped : ∀ o : Operand, o.binds → o.phrase.Grouped Operand.nestedTokens
  | .name s, _ => .leaf (.name s)
  | .query s, _ => .leaf (Operand.isOperand (.query s) rfl)
  | .expr e, h => by
    have he := e.grouped h
    rw [Operand.phrase]
    split
    · next hlogical => exact Expr.group_phrase he hlogical
    · exact he

/-- The phrase of an expression in which operators keep their operands is grouped as it is read. -/
theorem Expr.grouped : ∀ e : Expr, e.binds → e.phrase.Grouped Operand.nestedTokens
  | .binary left op right, h => by
    obtain ⟨hleft, hright, hl, hr⟩ := h
    exact (right.grouped hright).under hr
      (fun y hy hlevel => .binary (left.grouped hleft) hy hl hlevel) fun _ => Nat.le_refl _
  | .unary op operand, h => by
    cases op with
    | not => exact .not (operand.grouped h.1) h.2
    | neg =>
      exact (operand.grouped h.1).under h.2 (fun y hy hlevel => .neg hy hlevel) fun _ =>
        Nat.le_succ 6
    | hasRow =>
      show (Phrase.unary .hasRow operand.phrase).Grouped _
      rw [operand.phrase_of_isSingle h]
      exact .hasRow (operand.isOperand h)
    | hasNoRow =>
      have hlevel : UnaryOp.not.level ≤ UnaryOp.hasRow.level := by decide
      rw [Expr.phrase, operand.phrase_of_isSingle h]
      exact .not (.hasRow (operand.isOperand h)) hlevel
  | .param v, _ => .leaf (.value v)
  | .values vs, _ => .leaf (Operand.isOperand (.expr (.values vs)) rfl)

end

end EntityGraph
