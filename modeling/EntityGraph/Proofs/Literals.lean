import EntityGraph.Proofs.Accepted
import EntityGraph.Proofs.Decimals
import EntityGraph.Proofs.Lexing
import EntityGraph.Query.Mapper

/-!
# Values that are written and read back

A statement writes a value as a literal, null as a keyword and every other value as a quoted text. Storage
keeps what the literal stands for, and loading coerces it to the kind of its atomic again. Whatever value
coercion has made, loading makes the same value of it: the quotes and escapes of a literal are undone, and
the text of a number, of the least word as of every finite double, is read as that number.

* `Value.ofLiteral?` — what a literal stands for;
* `Value.parseInt?_intText` — the text of a word is read as the word;
* `Text.trim_eq_self` — a text without blanks has none to lose.

## Main result

* `AtomicKind.literal_reads_back`: a coerced value is what its literal is coerced to.
-/

namespace EntityGraph

/-- A text without blanks loses nothing when it is trimmed. -/
theorem Text.trim_eq_self {s : String} (h : ∀ c ∈ s.toList, isBlank c = false) : trim s = s := by
  have hdrop : ∀ cs : List Char, (∀ c ∈ cs, isBlank c = false) → cs.dropWhile isBlank = cs := by
    intro cs hcs
    cases cs with
    | nil => rfl
    | cons c cs => exact List.dropWhile_cons_of_neg (by simp [hcs c List.mem_cons_self])
  unfold trim trimChars
  rw [hdrop _ h, hdrop _ fun c hc => h c (List.mem_reverse.1 hc), List.reverse_reverse, String.ofList_toList]

/-- Digits are not blank. -/
theorem Text.isBlank_of_isDigit {c : Char} (h : c.isDigit = true) : isBlank c = false := by
  have hlow : '0'.val ≤ c.val := of_decide_eq_true (Bool.and_eq_true_iff.1 h).1
  have hhigh : c.val ≤ '9'.val := of_decide_eq_true (Bool.and_eq_true_iff.1 h).2
  have hle : 48 ≤ c.toNat := hlow
  have hge : c.toNat ≤ 57 := hhigh
  unfold isBlank
  simp
  omega

namespace Value

/-- What a literal stands for: null for the keyword, and a text for one that is quoted. -/
def ofLiteral? (s : String) : Option Value :=
  match lex s.toList with
  | some [.word w] => if Text.upper w = "NULL" then some .null else none
  | some [.text t] => some (.text t)
  | _ => none

/-- The literal of a value stands for null or for the text of the value. -/
theorem ofLiteral?_literal (v : Value) : ofLiteral? (Dialect.mysql.literal v) =
    some (if v.isNull then .null else .text v.toText) := by
  unfold ofLiteral?
  rw [show Dialect.mysql.literal v = Dialect.quoteValue v from rfl, (reads_value v).lex_eq]
  cases v <;> rfl

/-- A word is a whole number that fits it. -/
theorem word?_toInt (n : Int64) : word? n.toInt = some n := by
  have hlow := n.le_toInt
  have hhigh := n.toInt_lt
  have hmin := Int64.toInt_minValue
  have hmax : Int64.maxValue.toInt = 2 ^ 63 - 1 := by decide
  unfold word?
  rw [if_pos (by omega), Int64.ofInt_toInt]

/-- The text of a word has digits and a dash only. -/
theorem mem_intText {n : Int} {c : Char} (h : c ∈ (intText n).toList) : c.isDigit = true ∨ c = '-' := by
  unfold intText at h
  rw [String.toList_ofList] at h
  rcases List.mem_append.1 h with h | h
  · split at h
    · exact .inr (List.mem_singleton.1 h)
    · cases h
  · exact .inl (Decimal.isDigit_of_mem_digitChars h)

/-- **The text of a word is read as the word.** -/
theorem parseInt?_intText (n : Int64) : parseInt? (intText n.toInt) = some n := by
  have hdigits : ∀ c ∈ Decimal.digitChars n.toInt.natAbs, c.isDigit = true := fun c =>
    Decimal.isDigit_of_mem_digitChars
  obtain ⟨c, cs, hcs⟩ := List.exists_cons_of_ne_nil
    (show Decimal.digitChars n.toInt.natAbs ≠ [] from Nat.toDigits_ne_nil)
  have hread := Decimal.readDigits_digitChars n.toInt.natAbs
  rw [hcs] at hdigits hread
  have hsign : (if n.toInt < 0 then ['-'] else []) = if decide (n.toInt < 0) then ['-'] else [] := by
    by_cases h : n.toInt < 0 <;> simp [h]
  unfold parseInt? intText
  rw [String.toList_ofList, hcs, hsign, Binary64.takeSign_signed _ (hdigits c List.mem_cons_self)]
  simp only
  rw [if_neg (by simpa using hdigits), hread]
  have hvalue : (if decide (n.toInt < 0) then -(n.toInt.natAbs : Int) else n.toInt.natAbs) = n.toInt := by
    by_cases h : n.toInt < 0
    · rw [if_pos (decide_eq_true h)]
      omega
    · rw [if_neg (by simpa using h)]
      omega
  rw [hvalue, word?_toInt]

end Value

namespace AtomicKind

variable {k : AtomicKind} {v w : Value}

/-- **Values that are written and read back.** What a value is coerced to, a finite number if it is a double,
is what the value that its literal stands for is coerced to; so an atomic of the kind that is loaded from
storage gets the value that was written. -/
theorem literal_reads_back (h : k.coerce? v = some w) (hfinite : ∀ x, w = .float x → x.isFinite = true) :
    ((Value.ofLiteral? (Dialect.mysql.literal w)).bind k.coerce? = some w) ∧
      ∀ (s : Schema) (a : Atomic) (row : Row) (label : String), a.kind = k →
        row.get? label = Value.ofLiteral? (Dialect.mysql.literal w) →
          Mapper.cell s a row label = .ok w := by
  have hcoerce : k.coerce? (if w.isNull then .null else .text w.toText) = some w := by
    cases w with
    | null => rfl
    | text s => rcases coerce?_holds h with rfl | rfl <;> rfl
    | bool b =>
      obtain rfl : k = .bool := coerce?_holds h
      cases b <;> decide
    | int n =>
      obtain rfl : k = .int := coerce?_holds h
      have htrim : Text.trim (Value.intText n.toInt) = Value.intText n.toInt := Text.trim_eq_self fun c hc =>
        (Value.mem_intText hc).elim Text.isBlank_of_isDigit fun hdash => hdash ▸ rfl
      show (Value.parseInt? (Text.trim (Value.intText n.toInt))).map Value.int = _
      rw [htrim, Value.parseInt?_intText, Option.map_some]
    | float x =>
      obtain rfl : k = .float := coerce?_holds h
      have hx := hfinite x rfl
      have htrim : Text.trim x.text = x.text := Text.trim_eq_self fun c hc =>
        (Binary64.mem_text hx c hc).elim Text.isBlank_of_isDigit fun hmark =>
          hmark.elim (fun hpoint => hpoint ▸ rfl) fun hdash => hdash ▸ rfl
      show (Binary64.parse? (Text.trim x.text)).map Value.float = _
      rw [htrim, Binary64.parse?_text hx, Option.map_some]
  rw [Value.ofLiteral?_literal, Option.bind_some]
  refine ⟨hcoerce, fun s a row label ha hrow => ?_⟩
  unfold Mapper.cell
  rw [hrow, Option.getD_some]
  exact Atomic.coerce_eq_ok_iff.2 (ha ▸ hcoerce)

/-- The least word, and a double with a fraction, are written and read back. -/
theorem literal_reads_back_numbers :
    (Value.ofLiteral? (Dialect.mysql.literal (.int Int64.minValue))).bind AtomicKind.int.coerce? =
        some (.int Int64.minValue) ∧
      AtomicKind.float.coerce? (.text " -0.1 ") = some (.float ⟨0xBFB999999999999A⟩) ∧
        (⟨0xBFB999999999999A⟩ : Binary64).isFinite = true ∧
        (Value.ofLiteral? (Dialect.mysql.literal (.float ⟨0xBFB999999999999A⟩))).bind
          AtomicKind.float.coerce? = some (.float ⟨0xBFB999999999999A⟩) := by
  have hread : AtomicKind.float.coerce? (.text " -0.1 ") = some (.float ⟨0xBFB999999999999A⟩) := by
    decide +kernel
  have hfinite : (⟨0xBFB999999999999A⟩ : Binary64).isFinite = true := by decide
  refine ⟨(literal_reads_back (v := .int Int64.minValue) rfl fun _ hx => Value.noConfusion hx).1, hread, hfinite, ?_⟩
  exact (literal_reads_back hread fun x hx => Value.float.inj hx ▸ hfinite).1

end AtomicKind

end EntityGraph
