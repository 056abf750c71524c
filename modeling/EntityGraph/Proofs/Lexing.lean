import EntityGraph.Statement.Change
import Mathlib.Data.List.Basic

/-!
# Lexing

A reader of statement texts that knows nothing of how they were written. Blanks stand between
tokens; a name stands between backticks and a text between quotes, where the closing mark stands
for itself when it is doubled and, in a text, a backslash escapes the character after it; a comment
is a line from `#` or from `--` and a blank, or a block. Everything else is a word, a number or the
longest operator.

`Reads cs ts` says that `cs` is read as the tokens `ts` wherever a space, a comma, a closing
parenthesis or nothing follows. What a dialect spells is read so: a name segment by segment, a
value as one text or the keyword for null, counts and keywords as they stand; and what is read so
may be put into clauses, lists and parentheses.

* `reads_name`, `reads_value`, `reads_digits` — the spellings of names, values and counts;
* `Reads.append`, `Reads.parens`, `Reads.comma`, `Reads.negated` — texts that are put together.
-/

namespace EntityGraph

/-- A token of a statement. -/
inductive Token where
  /-- A keyword or a bare name. -/
  | word (s : String)
  | number (digits : String)
  /-- An operator or a mark of punctuation. -/
  | symbol (s : String)
  /-- A name between backticks, as it is meant. -/
  | name (s : String)
  /-- A text between quotes, as it is meant. -/
  | text (s : String)
  | comment
  deriving DecidableEq, Repr

namespace Token

/-- What may stand between tokens. -/
def isBlank (c : Char) : Bool :=
  [' ', '\t', '\n', '\x0b', '\x0c', '\r'].contains c

/-- What words and numbers are made of. -/
def isWordChar (c : Char) : Bool :=
  c.isAlphanum || c = '_' || c = '$' || '\x80' ≤ c

/-- The meaning of a character after a backslash; before the wildcards of patterns the backslash
stays. -/
def unescape : Char → List Char
  | '0' => ['\x00']
  | 'b' => ['\x08']
  | 'n' => ['\n']
  | 'r' => ['\r']
  | 't' => ['\t']
  | 'Z' => ['\x1a']
  | '%' => ['\\', '%']
  | '_' => ['\\', '_']
  | c => [c]

/-- The meaning of what stands before the closing mark `q`, and what follows it. With `escapes`, a
backslash escapes the character after it. -/
def scan (q : Char) (escapes : Bool) : List Char → Option (List Char × List Char)
  | [] => none
  | [c] => if c = q then some ([], []) else none
  | c :: d :: cs =>
    if escapes ∧ c = '\\' then (scan q escapes cs).map fun p => (unescape d ++ p.1, p.2)
    else if c ≠ q then (scan q escapes (d :: cs)).map fun p => (c :: p.1, p.2)
    else if d = q then (scan q escapes cs).map fun p => (q :: p.1, p.2)
    else some ([], d :: cs)

/-- What follows the end of a block comment. -/
def afterBlock : List Char → Option (List Char)
  | [] | [_] => none
  | c :: d :: cs => if c = '*' ∧ d = '/' then some cs else afterBlock (d :: cs)

/-- Whether a dash before the characters begins a comment: another dash, and then a blank, a
control character or nothing. -/
def dashOpensComment : List Char → Bool
  | ['-'] => true
  | '-' :: c :: _ => c ≤ ' ' || c = '\x7f'
  | _ => false

/-- The operators of several characters; one that begins another comes after it. -/
def operators : List (List Char) :=
  [['<', '=', '>'], ['<', '='], ['<', '>'], ['<', '<'], ['>', '='], ['>', '>'], ['!', '='],
    ['-', '>', '>'], ['-', '>'], ['|', '|'], ['&', '&'], [':', '=']]

/-- The longest operator at the beginning of `c :: cs`, or `c` alone. -/
def operatorAt (c : Char) (cs : List Char) : List Char :=
  (operators.find? (·.isPrefixOf (c :: cs))).getD [c]

/-- A run of word characters: a number when it has digits only. -/
def ofRun (cs : List Char) : Token :=
  if cs.all Char.isDigit then number (String.ofList cs) else word (String.ofList cs)

/-- The token that begins with `c`, and what follows it; nothing where a closing mark is missing. -/
def read (c : Char) (cs : List Char) : Option (Token × List Char) :=
  if c = '\x60' then (scan c false cs).map fun p => (name (String.ofList p.1), p.2)
  else if c = '\'' ∨ c = '"' then
    (scan c true cs).map fun p => (text (String.ofList p.1), p.2)
  else if c = '#' ∨ c = '-' ∧ dashOpensComment cs then some (comment, cs.dropWhile (· ≠ '\n'))
  else if c = '/' ∧ cs.head? = some '*' then (afterBlock cs.tail).map fun rest => (comment, rest)
  else if isWordChar c then some (ofRun (c :: cs.takeWhile isWordChar), cs.dropWhile isWordChar)
  else some (symbol (String.ofList (operatorAt c cs)), cs.drop ((operatorAt c cs).length - 1))

/-- Scanning takes at least the closing mark. -/
theorem scan_length {q : Char} {escapes : Bool} {cs s rest : List Char}
    (h : scan q escapes cs = some (s, rest)) : rest.length < cs.length := by
  induction cs using scan.induct q escapes generalizing s rest with
  | case1 => simp [scan] at h
  | case2 => simp_all [scan]
  | case3 c hc => simp [scan, hc] at h
  | case4 c d cs hc ih =>
    rw [scan, if_pos hc] at h
    obtain ⟨⟨s', rest'⟩, hs, h⟩ := Option.map_eq_some_iff.1 h
    obtain ⟨-, rfl⟩ := Prod.mk.inj h
    exact Nat.lt_succ_of_lt (Nat.lt_succ_of_lt (ih hs))
  | case5 c d cs hc hq ih =>
    rw [scan, if_neg hc, if_pos hq] at h
    obtain ⟨⟨s', rest'⟩, hs, h⟩ := Option.map_eq_some_iff.1 h
    obtain ⟨-, rfl⟩ := Prod.mk.inj h
    exact Nat.lt_succ_of_lt (ih hs)
  | case6 c cs hc hq ih =>
    rw [scan, if_neg hc, if_neg hq, if_pos rfl] at h
    obtain ⟨⟨s', rest'⟩, hs, h⟩ := Option.map_eq_some_iff.1 h
    obtain ⟨-, rfl⟩ := Prod.mk.inj h
    exact Nat.lt_succ_of_lt (Nat.lt_succ_of_lt (ih hs))
  | case7 c d cs hc hq hd =>
    rw [scan, if_neg hc, if_neg hq, if_neg hd] at h
    obtain ⟨-, rfl⟩ := Prod.mk.inj (Option.some.inj h)
    simp

/-- A block comment is not longer than what it stands in. -/
theorem afterBlock_length {cs rest : List Char} (h : afterBlock cs = some rest) :
    rest.length ≤ cs.length := by
  induction cs using afterBlock.induct with
  | case1 => simp [afterBlock] at h
  | case2 => simp [afterBlock] at h
  | case3 c d cs hc =>
    rw [afterBlock, if_pos hc] at h
    obtain rfl := Option.some.inj h
    simp only [List.length_cons]
    omega
  | case4 c d cs hc ih =>
    rw [afterBlock, if_neg hc] at h
    exact Nat.le_succ_of_le (ih h)

/-- Reading a token never goes back. -/
theorem read_length {c : Char} {cs : List Char} {t : Token} {rest : List Char}
    (h : read c cs = some (t, rest)) : rest.length ≤ cs.length := by
  have scanned {q : Char} {e : Bool} {k : List Char → Token}
      (h : (scan q e cs).map (fun p => (k p.1, p.2)) = some (t, rest)) :
      rest.length ≤ cs.length := by
    obtain ⟨⟨s, rest'⟩, hs, h⟩ := Option.map_eq_some_iff.1 h
    obtain ⟨-, rfl⟩ := Prod.mk.inj h
    exact Nat.le_of_lt (scan_length hs)
  simp only [read] at h
  split_ifs at h
  · exact scanned (k := fun s => name (String.ofList s)) h
  · exact scanned (k := fun s => text (String.ofList s)) h
  · obtain ⟨-, rfl⟩ := Prod.mk.inj (Option.some.inj h)
    exact (List.dropWhile_suffix _).length_le
  · obtain ⟨rest', hb, h⟩ := Option.map_eq_some_iff.1 h
    obtain ⟨-, rfl⟩ := Prod.mk.inj h
    exact Nat.le_trans (afterBlock_length hb) (by simp)
  · obtain ⟨-, rfl⟩ := Prod.mk.inj (Option.some.inj h)
    exact (List.dropWhile_suffix _).length_le
  · obtain ⟨-, rfl⟩ := Prod.mk.inj (Option.some.inj h)
    exact (List.drop_suffix _ _).length_le

end Token

open Token

/-- The tokens of a text; nothing when a name, a text or a block comment is not closed. -/
def lex : List Char → Option (List Token)
  | [] => some []
  | c :: cs =>
    if isBlank c then lex cs
    else match _read : Token.read c cs with
      | none => none
      | some (t, rest) => (lex rest).map (t :: ·)
termination_by cs => cs.length
decreasing_by
  · exact Nat.lt_succ_self _
  · exact Nat.lt_succ_of_le (read_length _read)

/-- A blank is passed over. -/
theorem lex_blank {c : Char} (h : isBlank c) (cs : List Char) : lex (c :: cs) = lex cs := by
  rw [lex, if_pos h]

/-- A token is followed by the tokens of the rest. -/
theorem lex_read {c : Char} {cs rest : List Char} {t : Token} (hc : isBlank c = false)
    (h : Token.read c cs = some (t, rest)) : lex (c :: cs) = (lex rest).map (t :: ·) := by
  rw [lex, if_neg (by simp [hc])]
  split <;> simp_all

/-! ### Texts that are read the same before every separator -/

/-- Nothing, or a space, a comma or a closing parenthesis and more. -/
def Stops (rest : List Char) : Prop :=
  ∀ c ∈ rest.head?, c = ' ' ∨ c = ',' ∨ c = ')'

/-- A separator and more. -/
theorem Stops.cons {c : Char} (hc : c = ' ' ∨ c = ',' ∨ c = ')') (rest : List Char) :
    Stops (c :: rest) := by
  intro d hd
  obtain rfl := Option.some.inj hd
  exact hc

/-- What begins with a separator still does with more after it. -/
theorem Stops.append {cs rest : List Char} (hcs : Stops cs) (hrest : Stops rest) :
    Stops (cs ++ rest) := by
  cases cs with
  | nil => exact hrest
  | cons c cs => exact hcs

/-- There is nothing, or one of the separators is first. -/
theorem Stops.cases {rest : List Char} (h : Stops rest) :
    rest = [] ∨ ∃ cs, rest = ' ' :: cs ∨ rest = ',' :: cs ∨ rest = ')' :: cs := by
  cases rest with
  | nil => exact .inl rfl
  | cons c cs => rcases h c rfl with rfl | rfl | rfl <;> exact .inr ⟨cs, by simp⟩

/-- No word goes on over a separator. -/
theorem Stops.takeWhile {rest : List Char} (h : Stops rest) : rest.takeWhile isWordChar = [] := by
  rcases h.cases with rfl | ⟨rest, rfl | rfl | rfl⟩ <;> rfl

/-- Nor is anything of it passed over with a word. -/
theorem Stops.dropWhile {rest : List Char} (h : Stops rest) : rest.dropWhile isWordChar = rest := by
  rcases h.cases with rfl | ⟨rest, rfl | rfl | rfl⟩ <;> rfl

/-- `cs` is read as the tokens `ts`, none of them a comment, whenever a separator follows. -/
structure Reads (cs : List Char) (ts : List Token) : Prop where
  no_comment : Token.comment ∉ ts
  lex_append : ∀ {rest}, Stops rest → lex (cs ++ rest) = (lex rest).map (ts ++ ·)

namespace Reads

/-- A text that is read so is read so alone. -/
theorem lex_eq {cs : List Char} {ts : List Token} (h : Reads cs ts) : lex cs = some ts := by
  have hnil : Stops [] := fun c hc => nomatch hc
  simpa [lex] using h.lex_append hnil

/-- Nothing is read as no tokens. -/
theorem nil : Reads [] [] :=
  ⟨List.not_mem_nil, fun _ => by simp⟩

/-- A space before a text changes nothing. -/
theorem space {cs : List Char} {ts : List Token} (h : Reads cs ts) : Reads (' ' :: cs) ts :=
  ⟨h.no_comment, fun hrest => (lex_blank rfl _).trans (h.lex_append hrest)⟩

/-- A text and one that begins with a separator are read one after the other. -/
theorem append {as bs : List Char} {ts us : List Token} (ha : Reads as ts) (hb : Reads bs us)
    (hs : Stops bs) : Reads (as ++ bs) (ts ++ us) where
  no_comment := by simp [ha.no_comment, hb.no_comment]
  lex_append hrest := by
    rw [List.append_assoc, ha.lex_append (hs.append hrest), hb.lex_append hrest, Option.map_map]
    simp [Function.comp_def]

/-- A single token that is read before every separator. -/
theorem of_read {c : Char} {cs : List Char} {t : Token} (ht : t ≠ .comment)
    (hc : isBlank c = false)
    (h : ∀ rest, Stops rest → Token.read c (cs ++ rest) = some (t, rest)) :
    Reads (c :: cs) [t] where
  no_comment := by simpa using ht.symm
  lex_append hrest := lex_read hc (h _ hrest)

end Reads

/-- An opening parenthesis is a token before anything. -/
theorem lex_open (cs : List Char) : lex ('(' :: cs) = (lex cs).map (.symbol "(" :: ·) :=
  lex_read rfl rfl

/-- So is a closing one. -/
theorem lex_close (cs : List Char) : lex (')' :: cs) = (lex cs).map (.symbol ")" :: ·) :=
  lex_read rfl rfl

/-- So is a comma. -/
theorem lex_comma (cs : List Char) : lex (',' :: cs) = (lex cs).map (.symbol "," :: ·) :=
  lex_read rfl rfl

namespace Reads

/-- A text in parentheses. -/
theorem parens {cs : List Char} {ts : List Token} (h : Reads cs ts) :
    Reads ('(' :: cs ++ [')']) (.symbol "(" :: ts ++ [.symbol ")"]) where
  no_comment := by simp [h.no_comment]
  lex_append {rest} _ := by
    have hclose : Stops (')' :: rest) := .cons (by decide) rest
    simp only [List.cons_append, List.append_assoc, List.nil_append]
    rw [lex_open, h.lex_append hclose, lex_close, Option.map_map, Option.map_map]
    simp [Function.comp_def]

/-- Two members of a list. -/
theorem comma {as bs : List Char} {ts us : List Token} (ha : Reads as ts) (hb : Reads bs us) :
    Reads (as ++ ',' :: ' ' :: bs) (ts ++ .symbol "," :: us) := by
  refine ha.append ⟨by simp [hb.no_comment], fun hrest => ?_⟩ (.cons (by decide) _)
  rw [List.cons_append, List.cons_append, lex_comma, lex_blank rfl, hb.lex_append hrest,
    Option.map_map]
  rfl

end Reads

/-! ### Names, texts, words and operators -/

/-- A character that is no mark and no backslash stands for itself. -/
theorem scan_plain {q c : Char} {escapes : Bool} (hc : ¬(escapes ∧ c = '\\')) (hq : c ≠ q)
    (cs : List Char) :
    scan q escapes (c :: cs) = (scan q escapes cs).map fun p => (c :: p.1, p.2) := by
  cases cs with
  | nil => simp [scan, hq]
  | cons d cs => rw [scan, if_neg hc, if_pos hq]

/-- Without escapes, scanning up to a mark undoes doubling it. -/
theorem scan_doubled {q : Char} {rest : List Char} (hrest : rest.head? ≠ some q)
    (s : List Char) :
    scan q false (s.flatMap (fun c => if c = q then [q, q] else [c]) ++ q :: rest) =
      some (s, rest) := by
  induction s with
  | nil =>
    cases rest with
    | nil => simp [scan]
    | cons d rest =>
      have hd : d ≠ q := fun h => hrest (congrArg some h)
      simp [scan, hd]
  | cons c s ih =>
    by_cases hc : c = q
    · subst hc
      simp [scan, ih]
    · rw [List.flatMap_cons, if_neg hc, List.append_assoc, List.singleton_append,
        scan_plain (by simp) hc, ih]
      rfl

/-- A character is escaped by a backslash and a character that means it, or it is neither a quote
nor a backslash. -/
theorem escapeChar_cases (c : Char) :
    (∃ d, Dialect.escapeChar c = ['\\', d] ∧ unescape d = [c]) ∨
      (Dialect.escapeChar c = [c] ∧ c ≠ '\\' ∧ c ≠ '\'') := by
  by_cases h : c ∈ ['\x00', '\n', '\r', '\\', '\'', '"', '\x1a']
  · simp only [List.mem_cons, List.not_mem_nil, or_false] at h
    rcases h with rfl | rfl | rfl | rfl | rfl | rfl | rfl <;> exact .inl ⟨_, rfl, rfl⟩
  · simp only [List.mem_cons, List.not_mem_nil, or_false, not_or] at h
    refine .inr ⟨?_, h.2.2.2.1, h.2.2.2.2.1⟩
    simp [Dialect.escapeChar, h]

/-- With escapes, scanning up to a quote undoes the escapes of a quoted value. -/
theorem scan_escaped {rest : List Char} (hrest : rest.head? ≠ some '\'') (s : List Char) :
    scan '\'' true (s.flatMap Dialect.escapeChar ++ '\'' :: rest) = some (s, rest) := by
  induction s with
  | nil =>
    cases rest with
    | nil => simp [scan]
    | cons d rest =>
      have hd : d ≠ '\'' := fun h => hrest (congrArg some h)
      simp [scan, hd]
  | cons c s ih =>
    rw [List.flatMap_cons, List.append_assoc]
    rcases escapeChar_cases c with ⟨d, hd, hmeans⟩ | ⟨hd, hslash, hquote⟩
    · rw [hd, List.cons_append, List.cons_append, List.nil_append, scan, if_pos (by simp), ih]
      simp [hmeans]
    · rw [hd, List.singleton_append, scan_plain (by simpa using hslash) hquote, ih]
      rfl

/-- What begins with a separator or a dot begins with no mark. -/
theorem Stops.head?_ne {rest : List Char} (h : Stops rest) {c : Char}
    (hc : c ≠ ' ' ∧ c ≠ ',' ∧ c ≠ ')') : rest.head? ≠ some c := by
  intro hrest
  rcases h c hrest with rfl | rfl | rfl <;> simp at hc

namespace Token

/-- A segment of a name: a star stands for itself. -/
def ofSegment (s : String) : Token :=
  if s = "*" then symbol "*" else name s

/-- The segments of a name, with dots between them. -/
def ofName (s : String) : List Token :=
  [symbol "."].intercalate ((Text.splitDots s).map fun segment => [ofSegment segment])

/-- A value: the keyword for null, and one text for everything else. -/
def ofValue : Value → Token
  | .null => word "NULL"
  | v => text v.toText

end Token

/-- A quoted segment is one token before anything but another backtick. -/
theorem lex_quoteSegment (s : List Char) {rest : List Char} (hrest : rest.head? ≠ some '\x60') :
    lex (Dialect.quoteSegment s ++ rest) =
      (lex rest).map (Token.ofSegment (String.ofList s) :: ·) := by
  by_cases hs : s = ['*']
  · subst hs
    exact lex_read rfl rfl
  · have hstar : String.ofList s ≠ "*" := fun h => hs (by simpa using congrArg String.toList h)
    rw [Dialect.quoteSegment, if_neg hs, Token.ofSegment, if_neg hstar]
    simp only [List.cons_append, List.append_assoc, List.nil_append]
    refine lex_read rfl ?_
    rw [Token.read, if_pos rfl, scan_doubled hrest]
    rfl

/-- A segment is no comment. -/
theorem Token.ofSegment_ne_comment (s : String) : Token.ofSegment s ≠ .comment := by
  rw [Token.ofSegment]
  split <;> simp

/-- Quoted segments are read one by one, with dots between them. -/
theorem reads_segments {ss : List (List Char)} (hss : ss ≠ []) :
    Reads (['.'].intercalate (ss.map Dialect.quoteSegment))
      ([Token.symbol "."].intercalate (ss.map fun s => [Token.ofSegment (String.ofList s)])) := by
  induction ss with
  | nil => exact absurd rfl hss
  | cons s ss ih =>
    have hs := Token.ofSegment_ne_comment (String.ofList s)
    cases ss with
    | nil =>
      refine ⟨by simpa using hs.symm, fun hrest => ?_⟩
      simpa using lex_quoteSegment s (hrest.head?_ne (by decide))
    | cons s' ss =>
      have hdot (cs : List Char) : lex ('.' :: cs) = (lex cs).map (.symbol "." :: ·) :=
        lex_read rfl rfl
      have ih := ih (by simp)
      rw [List.map_cons, List.map_cons] at ih ⊢
      rw [List.map_cons, List.map_cons, List.intercalate_cons_cons, List.intercalate_cons_cons]
      refine ⟨?_, fun hrest => ?_⟩
      · simp only [List.mem_append, List.mem_singleton, not_or]
        exact ⟨⟨hs.symm, by simp⟩, ih.no_comment⟩
      simp only [List.append_assoc, List.singleton_append]
      rw [lex_quoteSegment s (by simp), List.cons_append, hdot, ih.lex_append hrest,
        Option.map_map, Option.map_map]
      rfl

/-- A name is read as its segments. -/
theorem reads_name (s : String) : Reads (Dialect.quoteName s).toList (Token.ofName s) := by
  rw [Dialect.quoteName, String.toList_ofList, Token.ofName, Text.splitDots, List.map_map]
  exact reads_segments (Text.segments_ne_nil _)

/-- Word characters up to a separator are one word or number. -/
theorem reads_run {cs : List Char} (hne : cs ≠ []) (hcs : cs.all isWordChar) :
    Reads cs [Token.ofRun cs] := by
  obtain ⟨c, cs, rfl⟩ := List.exists_cons_of_ne_nil hne
  rw [List.all_cons, Bool.and_eq_true] at hcs
  have hmark : ∀ d, isWordChar d = false → c ≠ d := by
    rintro d hd rfl
    simp [hcs.1] at hd
  have hblank : isBlank c = false := by
    rw [isBlank, List.contains_eq_mem, decide_eq_false_iff_not]
    simp only [List.mem_cons, List.not_mem_nil, or_false, not_or]
    exact ⟨hmark _ rfl, hmark _ rfl, hmark _ rfl, hmark _ rfl, hmark _ rfl, hmark _ rfl⟩
  have hrun : Token.ofRun (c :: cs) ≠ .comment := by
    rw [Token.ofRun]
    split <;> simp
  refine .of_read hrun hblank fun rest hrest => ?_
  have hspan : ∀ d ∈ cs, isWordChar d := List.all_eq_true.1 hcs.2
  rw [Token.read, if_neg (hmark '\x60' rfl),
    if_neg (not_or.2 ⟨hmark '\'' rfl, hmark '"' rfl⟩),
    if_neg (not_or.2 ⟨hmark '#' rfl, fun h => hmark '-' rfl h.1⟩),
    if_neg (fun h => hmark '/' rfl h.1), if_pos hcs.1,
    List.takeWhile_append_of_pos hspan, List.dropWhile_append_of_pos hspan, hrest.takeWhile,
    hrest.dropWhile, List.append_nil]

/-- The digits of a count are one number. -/
theorem reads_digits (n : Nat) :
    Reads (Decimal.digitChars n) [.number (String.ofList (Decimal.digitChars n))] := by
  have hdigit : ∀ c ∈ Decimal.digitChars n, c.isDigit := fun c hc =>
    Nat.isDigit_of_mem_toDigits (by decide) (by decide) hc
  have hrun : Token.ofRun (Decimal.digitChars n) =
      .number (String.ofList (Decimal.digitChars n)) := by
    rw [Token.ofRun, if_pos (List.all_eq_true.2 hdigit)]
  rw [← hrun]
  refine reads_run Nat.toDigits_ne_nil (List.all_eq_true.2 fun c hc => ?_)
  simp [isWordChar, Char.isAlphanum, hdigit c hc]

/-- Whether a text is read as a keyword: it is made of word characters, not all of them digits. -/
def Token.isKeyword (s : String) : Bool :=
  s.toList.all isWordChar && !s.toList.all Char.isDigit

/-- A keyword is read as one word. -/
theorem reads_keyword {s : String} (h : Token.isKeyword s) : Reads s.toList [.word s] := by
  rw [Token.isKeyword, Bool.and_eq_true, Bool.not_eq_true'] at h
  have hrun : Token.ofRun s.toList = .word s := by
    rw [Token.ofRun, if_neg (by simp [h.2]), String.ofList_toList]
  rw [← hrun]
  refine reads_run (fun hnil => ?_) h.1
  simp [hnil] at h

/-- A value is read as one token. -/
theorem reads_value (v : Value) : Reads (Dialect.quoteValue v).toList [Token.ofValue v] := by
  have hquoted (s : String) :
      Reads (String.ofList ('\'' :: s.toList.flatMap Dialect.escapeChar ++ ['\''])).toList
        [.text s] := by
    rw [String.toList_ofList, List.cons_append]
    refine .of_read (by simp) rfl fun rest hrest => ?_
    rw [List.append_assoc, List.singleton_append, Token.read, if_neg (by decide), if_pos (by simp),
      scan_escaped (hrest.head?_ne (by decide))]
    simp
  cases v with
  | null => exact reads_keyword (by decide)
  | bool b => exact hquoted (Value.bool b).toText
  | int n => exact hquoted (Value.int n).toText
  | float x => exact hquoted (Value.float x).toText
  | text s => exact hquoted (Value.text s).toText

/-! ### Minus signs -/

/-- What a dash may stand before: minus signs, and then a character that neither ends a comment
mark nor belongs to an operator. -/
inductive Opens : List Char → Prop
  | sign {cs : List Char} (h : Opens cs) : Opens ('-' :: cs)
  | mark {c : Char} (hc : ' ' < c ∧ c ≠ '\x7f' ∧ c ≠ '-' ∧ c ≠ '>') (cs : List Char) :
    Opens (c :: cs)

namespace Opens

/-- Only the beginning counts. -/
theorem append {cs : List Char} (h : Opens cs) (ds : List Char) : Opens (cs ++ ds) := by
  induction h with
  | sign _ ih => exact .sign ih
  | mark hc cs => exact .mark hc (cs ++ ds)

/-- A dash before it begins no comment: the second of two dashes is not followed by a blank. -/
theorem not_comment {cs : List Char} (h : Opens cs) : dashOpensComment cs = false := by
  cases h with
  | sign h =>
    cases h with
    | sign _ => rfl
    | mark hc cs =>
      rw [dashOpensComment, Bool.or_eq_false_iff, decide_eq_false_iff_not, decide_eq_false_iff_not,
        Char.not_le]
      exact ⟨hc.1, hc.2.1⟩
  | @mark c hc cs =>
    rw [dashOpensComment]
    · exact fun h => hc.2.2.1 (List.cons.inj h).1
    · exact fun d ds h => hc.2.2.1 (List.cons.inj h).1

/-- A dash before it is an operator of its own. -/
theorem operatorAt_dash {cs : List Char} (h : Opens cs) : operatorAt '-' cs = ['-'] := by
  cases h with
  | sign _ => rfl
  | mark hc cs =>
    have hne := hc.2.2.2.symm
    simp [operatorAt, operators, List.isPrefixOf, hne]

end Opens

/-- A minus sign before what it may stand before is a token of its own; two of them never begin a
comment. -/
theorem Reads.negated {cs : List Char} {ts : List Token} (h : Reads cs ts) (hcs : Opens cs) :
    Reads ('-' :: cs) (.symbol "-" :: ts) where
  no_comment := by simp [h.no_comment]
  lex_append {rest} hrest := by
    have hopens := hcs.append rest
    have hread : Token.read '-' (cs ++ rest) = some (.symbol "-", cs ++ rest) := by
      rw [Token.read, if_neg (by decide), if_neg (by decide),
        if_neg (by simp [hopens.not_comment]), if_neg (by simp), if_neg (by decide),
        hopens.operatorAt_dash]
      rfl
    rw [List.cons_append, lex_read rfl hread, h.lex_append hrest, Option.map_map]
    rfl

/-- What a quoted name begins with. -/
theorem opens_name (s : String) : Opens (Dialect.quoteName s).toList := by
  obtain ⟨segment, segments, h⟩ := List.exists_cons_of_ne_nil (Text.segments_ne_nil s.toList)
  have hsegment : Opens (Dialect.quoteSegment segment) := by
    rw [Dialect.quoteSegment]
    split
    · next hs => exact hs ▸ .mark (by decide) []
    · exact .mark (by decide) _
  rw [Dialect.quoteName, String.toList_ofList, h]
  cases segments with
  | nil => simpa using hsegment
  | cons => simpa [List.append_assoc] using hsegment.append _

/-- What a value begins with. -/
theorem opens_value (v : Value) : Opens (Dialect.quoteValue v).toList := by
  cases v with
  | null => exact .mark (by decide) _
  | _ =>
    rw [Dialect.quoteValue, String.toList_ofList]
    · exact .mark (by decide) _
    · simp

end EntityGraph
