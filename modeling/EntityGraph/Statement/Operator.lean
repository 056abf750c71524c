import EntityGraph.Error

/-!
# Operators

The operators of statements and their spellings. Spellings are read in any case and with any blanks
between their words; several operators have a second spelling.
-/

namespace EntityGraph

/-- The operators between two operands. -/
inductive BinaryOp where
  | eq
  | ne
  | lt
  | le
  | gt
  | ge
  | like
  | notLike
  | isIn
  | notIn
  | is
  | isNot
  | and
  | or
  | add
  | sub
  | mul
  | div
  deriving DecidableEq, Repr

namespace BinaryOp

/-- How an operator is written. -/
def spelling : BinaryOp → String
  | eq => "="
  | ne => "!="
  | lt => "<"
  | le => "<="
  | gt => ">"
  | ge => ">="
  | like => "LIKE"
  | notLike => "NOT LIKE"
  | isIn => "IN"
  | notIn => "NOT IN"
  | is => "IS"
  | isNot => "IS NOT"
  | and => "AND"
  | or => "OR"
  | add => "+"
  | sub => "-"
  | mul => "*"
  | div => "/"

/-- `AND` and `OR`, which need parentheses inside one another. -/
def isLogical : BinaryOp → Bool
  | and | or => true
  | _ => false

/-- The operator of a phrase in upper case. -/
def ofPhrase? : String → Option BinaryOp
  | "=" | "==" => some eq
  | "!=" | "<>" => some ne
  | "<" => some lt
  | "<=" => some le
  | ">" => some gt
  | ">=" => some ge
  | "LIKE" => some like
  | "NOT LIKE" => some notLike
  | "IN" => some isIn
  | "NOT IN" => some notIn
  | "IS" => some is
  | "IS NOT" => some isNot
  | "AND" => some and
  | "OR" => some or
  | "+" => some add
  | "-" => some sub
  | "*" => some mul
  | "/" => some div
  | _ => none

/-- Reads the spelling of an operator. -/
def parse (s : String) : Except Error BinaryOp :=
  match ofPhrase? (Text.phrase s) with
  | some op => .ok op
  | none => .error (.unsupportedOperator s)

/-- Every operator is the operator of its spelling. -/
theorem ofPhrase?_spelling (op : BinaryOp) : ofPhrase? op.spelling = some op := by
  cases op <;> rfl

end BinaryOp

/-- The operators before an operand. -/
inductive UnaryOp where
  | not
  | hasRow
  | hasNoRow
  | neg
  deriving DecidableEq, Repr

namespace UnaryOp

/-- How an operator is written. -/
def spelling : UnaryOp → String
  | not => "NOT"
  | hasRow => "EXISTS"
  | hasNoRow => "NOT EXISTS"
  | neg => "-"

/-- The operator of a phrase in upper case. -/
def ofPhrase? : String → Option UnaryOp
  | "NOT" | "!" => some not
  | "EXISTS" => some hasRow
  | "NOT EXISTS" => some hasNoRow
  | "-" => some neg
  | _ => none

/-- Reads the spelling of an operator. -/
def parse (s : String) : Except Error UnaryOp :=
  match ofPhrase? (Text.phrase s) with
  | some op => .ok op
  | none => .error (.unsupportedOperator s)

end UnaryOp

end EntityGraph
