import EntityGraph.Text.Trait

/-!
# Characters of names

Names that are given inside a text hold letters and digits. Which characters these are goes by
Unicode 17, while the sets of characters that have a name of their own go by Unicode 16; so the tables
here list what came in between.

* `isAlphanumeric_of_letters` — a letter may stand wherever a letter or digit may.
-/

namespace EntityGraph.Text.NameChar

/-- The letters that Unicode 17 added. -/
def addedLetters : List String := [
  "88F C5C CDC A7CE-A7CF A7D2 A7D4 A7F1 10940-10959 10EC5-10EC7 10EFA-10EFB 11B60-11B67",
  "11DB0-11DDB 16EA0-16EB8 16EBB-16ED3 16FF2-16FF6 187F8-187FF 18D09-18D1E 18D80-18DF2",
  "1E6C0-1E6DE 1E6E0-1E6F5 1E6FE-1E6FF 2B73A-2B73F 2CEA2-2CEAD 323B0-33479"]

/-- The numbers that Unicode 17 added and that are no letters. -/
def addedNumbers : List String := ["11DE0-11DE9"]

/-- The letters, and the marks that count as parts of letters. -/
def letters : CharSet :=
  Trait.alphabetic.union (.ofRows addedLetters)

/-- Numbers of any kind, such as digits, fractions and superscripts. -/
def numbers : CharSet :=
  (Category.setOf Category.numbers).union (.ofRows addedNumbers)

/-- Whether a character is a letter or a number. -/
def isAlphanumeric (c : Char) : Bool :=
  letters.contains c.toNat || numbers.contains c.toNat

/-- A letter may stand wherever a letter or digit may. -/
theorem isAlphanumeric_of_letters {c : Char} (h : letters.contains c.toNat = true) :
    isAlphanumeric c = true := by
  simp [isAlphanumeric, h]

end EntityGraph.Text.NameChar
