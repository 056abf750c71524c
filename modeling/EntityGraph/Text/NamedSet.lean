import EntityGraph.Text.Age
import EntityGraph.Text.Script
import EntityGraph.Text.Segmentation

/-!
# Sets of characters by name

A set of characters can be asked for by the name of a yes-or-no property, of a general category or of
a script, or by a property and one of its values. Names are compared without regard to case, blanks,
underscores and hyphens, and a leading `is` does not count.

* `normalize_isc` — the one name that keeps its `is`.
-/

namespace EntityGraph.Text.NamedSet

/-- The characters of a name that count. -/
def significant (name : List Char) : List Char :=
  name.filterMap fun c =>
    if c = ' ' ∨ c = '_' ∨ c = '-' ∨ 0x7F < c.toNat then none else some c.toLower

/-- Whether a name starts with `is`. -/
def startsWithIs : List Char → Bool
  | i :: s :: _ => (i == 'i' || i == 'I') && (s == 's' || s == 'S')
  | _ => false

/-- The form in which names are compared. The name `isc` is that of a property, and not the name `c`
after an `is`. -/
def normalize (name : List Char) : String :=
  if startsWithIs name then
    let rest := significant (name.drop 2)
    if rest = ['c'] then "isc" else String.ofList rest
  else String.ofList (significant name)

/-- The name `isc` does not stand for `c`. -/
theorem normalize_isc : normalize ['I', 's', '_', 'C'] = "isc" := by
  decide

/-- The characters of a general category or of one of the three categories that cover it all. -/
def category? : String → Option CharSet
  | "any" => some .all
  | "ascii" => some .ascii
  | "assigned" => some Category.assignedSet
  | name => (Category.named? name).map Category.setOf

/-- The set that a single name stands for. -/
def ofName? (name : List Char) : Option CharSet :=
  let name := normalize name
  (Trait.set? name).or ((category? name).or ((Script.named? name).map Script.set))

/-- The set of the characters for which a property has a value. -/
def ofValue? (property value : List Char) : Option CharSet :=
  let value := normalize value
  match normalize property with
  | "gc" | "generalcategory" => category? value
  | "sc" | "script" => (Script.named? value).map Script.set
  | "scx" | "scriptextensions" => (Script.named? value).map Script.usedSet
  | "age" => Age.set? value
  | "gcb" | "graphemeclusterbreak" => Segmentation.grapheme? value
  | "wb" | "wordbreak" => Segmentation.word? value
  | "sb" | "sentencebreak" => Segmentation.sentence? value
  | _ => none

/-- The decimal digits. -/
def digits : CharSet :=
  Category.setOf [.decimalNumber]

/-- The blank characters. -/
def blanks : CharSet :=
  Trait.tabled "whitespace"

/-- The characters of words. -/
def wordChars : CharSet :=
  Trait.word

/-- A named class of ASCII characters. -/
def ascii? : String → Option CharSet
  | "alnum" => some (CharSet.ofRows ["30-39 41-5A 61-7A"])
  | "alpha" => some (CharSet.ofRows ["41-5A 61-7A"])
  | "ascii" => some .ascii
  | "blank" => some (CharSet.ofRows ["9 20"])
  | "cntrl" => some (CharSet.ofRows ["0-1F 7F"])
  | "digit" => some (CharSet.ofRows ["30-39"])
  | "graph" => some (CharSet.ofRows ["21-7E"])
  | "lower" => some (CharSet.ofRows ["61-7A"])
  | "print" => some (CharSet.ofRows ["20-7E"])
  | "punct" => some (CharSet.ofRows ["21-2F 3A-40 5B-60 7B-7E"])
  | "space" => some (CharSet.ofRows ["9-D 20"])
  | "upper" => some (CharSet.ofRows ["41-5A"])
  | "word" => some (CharSet.ofRows ["30-39 41-5A 5F 61-7A"])
  | "xdigit" => some (CharSet.ofRows ["30-39 41-46 61-66"])
  | _ => none

end EntityGraph.Text.NamedSet
