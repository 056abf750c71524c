/-!
# Blank characters and words

Blank characters are those with the Unicode property `White_Space`. Texts are trimmed and cut
into words at blanks; keywords are compared after their words are put into upper case and joined
by single spaces.

* `isBlank_of_isWhitespace` — every character that core calls whitespace is blank;
* `words_blank_free` — no word contains a blank, and no word is empty.
-/

namespace EntityGraph.Text

/-- The Unicode property `White_Space`. -/
def isBlank (c : Char) : Bool :=
  let n := c.toNat
  (9 ≤ n && n ≤ 13) || n == 0x20 || n == 0x85 || n == 0xA0 || n == 0x1680 ||
    (0x2000 ≤ n && n ≤ 0x200A) || n == 0x2028 || n == 0x2029 || n == 0x202F ||
    n == 0x205F || n == 0x3000

/-- Core's whitespace characters are blank. -/
theorem isBlank_of_isWhitespace {c : Char} (h : c.isWhitespace = true) : isBlank c = true := by
  simp only [Char.isWhitespace, Bool.or_eq_true, decide_eq_true_eq] at h
  rcases h with ((rfl | rfl) | rfl) | rfl <;> decide

/-- The characters left after blanks are dropped at both ends. -/
def trimChars (cs : List Char) : List Char :=
  ((cs.dropWhile isBlank).reverse.dropWhile isBlank).reverse

/-- A text without the blanks at its two ends. -/
def trim (s : String) : String :=
  String.ofList (trimChars s.toList)

/-- The maximal blank-free runs of a character list, given the run read so far in reverse. -/
def wordsFrom : List Char → List Char → List (List Char)
  | run, [] => if run.isEmpty then [] else [run.reverse]
  | run, c :: cs =>
    if isBlank c then
      if run.isEmpty then wordsFrom [] cs else run.reverse :: wordsFrom [] cs
    else wordsFrom (c :: run) cs

/-- The maximal blank-free runs of a character list. -/
def words (cs : List Char) : List (List Char) :=
  wordsFrom [] cs

/-- No run holds a blank if the one read so far holds none. -/
theorem wordsFrom_blank_free (cs : List Char) (run : List Char)
    (hrun : ∀ c ∈ run, isBlank c = false) :
    ∀ w ∈ wordsFrom run cs, w ≠ [] ∧ ∀ c ∈ w, isBlank c = false := by
  induction cs generalizing run with
  | nil =>
    intro w hw
    unfold wordsFrom at hw
    split at hw
    · simp at hw
    · next hne =>
      obtain rfl := List.mem_singleton.1 hw
      exact ⟨by simpa using hne, fun c hc => hrun c (List.mem_reverse.1 hc)⟩
  | cons c cs ih =>
    intro w hw
    unfold wordsFrom at hw
    split at hw
    · split at hw
      · exact ih [] (by simp) w hw
      · next hne =>
        rcases List.mem_cons.1 hw with rfl | hw
        · exact ⟨by simpa using hne, fun c hc => hrun c (List.mem_reverse.1 hc)⟩
        · exact ih [] (by simp) w hw
    · next hc =>
      refine ih (c :: run) (fun d hd => ?_) w hw
      rcases List.mem_cons.1 hd with rfl | hd
      · simpa using hc
      · exact hrun d hd

/-- Words are nonempty and hold no blank. -/
theorem words_blank_free (cs : List Char) :
    ∀ w ∈ words cs, w ≠ [] ∧ ∀ c ∈ w, isBlank c = false :=
  wordsFrom_blank_free cs [] (by simp)

/-- The upper case of a character wherever it is made of ASCII letters; any other character
stays as it is, which is enough to compare with keywords spelt in ASCII. -/
def upperChars (c : Char) : List Char :=
  if c.isLower then [c.toUpper]
  else match c.toNat with
    | 0xDF => ['S', 'S']
    | 0x131 => ['I']
    | 0x17F => ['S']
    | 0xFB00 => ['F', 'F']
    | 0xFB01 => ['F', 'I']
    | 0xFB02 => ['F', 'L']
    | 0xFB03 => ['F', 'F', 'I']
    | 0xFB04 => ['F', 'F', 'L']
    | 0xFB05 => ['S', 'T']
    | 0xFB06 => ['S', 'T']
    | _ => [c]

/-- A text in upper case, for comparison with ASCII keywords. -/
def upper (s : String) : String :=
  String.ofList (s.toList.flatMap upperChars)

/-- A text in lower case, for comparison with ASCII keywords that hold no letter `k` (the only
letter that is also the lower case of a character outside ASCII). -/
def lower (s : String) : String :=
  String.ofList (s.toList.map Char.toLower)

/-- A keyword phrase: its words in upper case, one space apart. -/
def phrase (s : String) : String :=
  upper (String.intercalate " " ((words s.toList).map String.ofList))

end EntityGraph.Text
