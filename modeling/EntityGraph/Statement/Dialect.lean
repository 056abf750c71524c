import EntityGraph.Text.Segments
import EntityGraph.Value

/-!
# Lexemes and dialects

A statement is written as a list of lexemes, in which names and values are still themselves. A
`Dialect` spells names and values as text; keywords, symbols and spaces are the same in every
dialect. In the `mysql` dialect names stand between backticks, segment by segment, and every value
but null stands between quotes.
-/

namespace EntityGraph

/-- A part of a written statement. -/
inductive Lexeme where
  | word (s : String)
  | symbol (s : String)
  | space
  /-- A name, with dots between its segments. -/
  | name (s : String)
  | value (v : Value)
  | number (n : Nat)
  /-- Text that is written as it is. -/
  | verbatim (s : String)
  deriving DecidableEq, Repr

/-- How names and values are spelt. -/
structure Dialect where
  identifier : String → String
  literal : Value → String
  /-- The spelling of a value inside a statement. -/
  parameter : Value → String := literal

namespace Dialect

/-- The spelling of a lexeme. -/
def spell (d : Dialect) : Lexeme → String
  | .word s => s
  | .symbol s => s
  | .space => " "
  | .name s => d.identifier s
  | .value v => d.parameter v
  | .number n => String.ofList (Decimal.digitChars n)
  | .verbatim s => s

/-- The text of a list of lexemes. -/
def text (d : Dialect) (ls : List Lexeme) : String :=
  String.join (ls.map d.spell)

/-- A segment between backticks, with the backticks inside it doubled; a star stays bare. -/
def quoteSegment (s : List Char) : List Char :=
  if s = ['*'] then s
  else '\x60' :: s.flatMap (fun c => if c = '\x60' then ['\x60', '\x60'] else [c]) ++ ['\x60']

/-- A name with its segments quoted one by one. -/
def quoteName (name : String) : String :=
  String.ofList (['.'].intercalate ((Text.segments name.toList).map quoteSegment))

/-- A character of a quoted value; the characters that could end or change the value are escaped
with a backslash. -/
def escapeChar : Char → List Char
  | '\x00' => ['\\', '0']
  | '\n' => ['\\', 'n']
  | '\r' => ['\\', 'r']
  | '\\' => ['\\', '\\']
  | '\'' => ['\\', '\'']
  | '"' => ['\\', '"']
  | '\x1a' => ['\\', 'Z']
  | c => [c]

/-- A text as it stands between quotes. -/
def escapeText (s : String) : String :=
  String.ofList (s.toList.flatMap escapeChar)

/-- A value as a quoted text, null as a keyword. -/
def quoteValue : Value → String
  | .null => "NULL"
  | v => String.ofList ('\'' :: v.toText.toList.flatMap escapeChar ++ ['\''])

/-- Backticks around names, quotes around values. -/
def mysql : Dialect where
  identifier := quoteName
  literal := quoteValue

end Dialect

end EntityGraph
