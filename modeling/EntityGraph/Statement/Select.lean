import EntityGraph.Statement.Operator
import EntityGraph.Statement.Dialect

/-!
# Expressions and queries

Expressions and `SELECT` statements, and how they are written as lexemes. A bare operand is a name;
only parameters and value sets hold values. Operands that are themselves `AND` or `OR` are put in
parentheses, and so is an `OR` among the conditions of a clause, which are joined by `AND`. Clauses
come in one fixed order, and empty clauses are left out.
-/

namespace EntityGraph

/-- The directions of an ordering. -/
inductive Direction where
  | asc
  | desc
  deriving DecidableEq, Repr

/-- The keyword of a direction. -/
def Direction.spelling : Direction → String
  | asc => "ASC"
  | desc => "DESC"

/-- The ways to join a table. -/
inductive JoinKind where
  | inner
  | left
  /-- The product of two tables, without conditions. -/
  | cross
  deriving DecidableEq, Repr

/-- The first keyword of a join. -/
def JoinKind.spelling : JoinKind → String
  | inner => "INNER"
  | left => "LEFT"
  | cross => "CROSS"

/-- A table, possibly under another name. -/
structure TableRef where
  name : String
  asName : Option String := none
  deriving DecidableEq, Repr

mutual

/-- An operand of an expression. -/
inductive Operand where
  | name (s : String)
  | expr (e : Expr)
  | query (s : Select)

/-- An expression. -/
inductive Expr where
  | binary (left : Operand) (op : BinaryOp) (right : Operand)
  | unary (op : UnaryOp) (operand : Operand)
  | param (v : Value)
  | values (vs : List Value)
  | verbatim (s : String)

/-- One joined table. -/
structure JoinClause where
  kind : JoinKind
  table : TableRef
  conditions : List Expr

/-- A `SELECT` statement; without columns it selects everything. -/
structure Select where
  columns : List (Operand × Option String) := []
  tables : List TableRef := []
  joins : List JoinClause := []
  conditions : List Expr := []
  groupBy : List String := []
  having : List Expr := []
  orderBy : List (String × Direction) := []
  limit : Option Nat := none
  offset : Option Nat := none

end

instance : Inhabited Expr := ⟨.values []⟩

namespace Operand

/-- A whole number as a bare operand stands for the name spelt like it. -/
def ofInt (n : Int) : Operand :=
  .name (Value.intText n)

end Operand

namespace Expr

/-- Whether an expression is an `AND` or an `OR`. -/
def isLogical : Expr → Bool
  | binary _ op _ => op.isLogical
  | _ => false

/-- Whether an expression is an `OR`. -/
def isOr : Expr → Bool
  | binary _ .or _ => true
  | _ => false

/-- A binary expression from the spelling of its operator. -/
def parseBinary (left : Operand) (op : String) (right : Operand) : Except Error Expr := do
  return .binary left (← BinaryOp.parse op) right

/-- A unary expression from the spelling of its operator. -/
def parseUnary (op : String) (operand : Operand) : Except Error Expr := do
  return .unary (← UnaryOp.parse op) operand

/-- The comparison of a named column with a value. -/
def columnEq (column : String) (v : Value) : Expr :=
  .binary (.name column) .eq (.expr (.param v))

end Expr

namespace Lexeme

/-- What stands between keywords. -/
def spaced : List Lexeme :=
  [.space]

/-- What stands between list members. -/
def comma : List Lexeme :=
  [.symbol ",", .space]

/-- What stands between conditions. -/
def conjunction : List Lexeme :=
  [.space, .word "AND", .space]

/-- Lexemes in parentheses. -/
def parens (ls : List Lexeme) : List Lexeme :=
  .symbol "(" :: ls ++ [.symbol ")"]

/-- Parentheses where they are needed. -/
def parensIf (b : Bool) (ls : List Lexeme) : List Lexeme :=
  if b then parens ls else ls

/-- Keywords, one space apart. -/
def words (ws : List String) : List Lexeme :=
  spaced.intercalate (ws.map fun w => [.word w])

/-- A clause after a space: its keywords, a space and its body. -/
def clause (ws : List String) (body : List Lexeme) : List Lexeme :=
  .space :: words ws ++ .space :: body

end Lexeme

open Lexeme

/-- A binary operator; operators that are words are keywords. -/
def BinaryOp.lexemes : BinaryOp → List Lexeme
  | .like => words ["LIKE"]
  | .notLike => words ["NOT", "LIKE"]
  | .isIn => words ["IN"]
  | .notIn => words ["NOT", "IN"]
  | .is => words ["IS"]
  | .isNot => words ["IS", "NOT"]
  | .and => words ["AND"]
  | .or => words ["OR"]
  | op => [.symbol op.spelling]

/-- A unary operator and the space after it, if there is one. -/
def UnaryOp.lexemes : UnaryOp → List Lexeme
  | .not => words ["NOT"] ++ [.space]
  | .hasRow => words ["EXISTS"] ++ [.space]
  | .hasNoRow => words ["NOT", "EXISTS"] ++ [.space]
  | .neg => [.symbol "-"]

/-- A table, with its other name after `AS`. -/
def TableRef.lexemes (t : TableRef) : List Lexeme :=
  .name t.name :: match t.asName with
    | some name => clause ["AS"] [.name name]
    | none => []

/-- The values of a set or of an inserted row, in parentheses. -/
def Lexeme.valueList (vs : List Value) : List Lexeme :=
  parens (comma.intercalate (vs.map fun v => [.value v]))

/-- Optional counts at the end of a statement. -/
def Lexeme.count (word : String) : Option Nat → List Lexeme
  | some n => clause [word] [.number n]
  | none => []

mutual

/-- An operand on its own. -/
def Operand.lexemes : Operand → List Lexeme
  | .name s => [.name s]
  | .expr e => e.lexemes
  | .query s => parens s.lexemes

/-- An operand inside an expression. -/
def Operand.nested : Operand → List Lexeme
  | .name s => [.name s]
  | .expr e => parensIf e.isLogical e.lexemes
  | .query s => parens s.lexemes

/-- An expression. -/
def Expr.lexemes : Expr → List Lexeme
  | .binary left op right => left.nested ++ .space :: op.lexemes ++ .space :: right.nested
  | .unary op operand => op.lexemes ++ operand.nested
  | .param v => [.value v]
  | .values vs => valueList vs
  | .verbatim s => [.verbatim s]

/-- The conditions of a clause, each on its own. -/
def Expr.conditionLexemes : List Expr → List (List Lexeme)
  | [] => []
  | e :: es => parensIf e.isOr e.lexemes :: Expr.conditionLexemes es

/-- A join, with its conditions after `ON`. -/
def JoinClause.lexemes : JoinClause → List Lexeme
  | ⟨kind, table, conditions⟩ =>
    clause [kind.spelling, "JOIN"] table.lexemes ++
      if conditions.isEmpty then []
      else clause ["ON"] (conjunction.intercalate (Expr.conditionLexemes conditions))

/-- All joins, in order. -/
def JoinClause.lexemesAll : List JoinClause → List Lexeme
  | [] => []
  | j :: js => j.lexemes ++ JoinClause.lexemesAll js

/-- The selected columns, each on its own. -/
def Operand.columnLexemes : List (Operand × Option String) → List (List Lexeme)
  | [] => []
  | (operand, asName) :: rest =>
    (operand.lexemes ++ match asName with
      | some shown => clause ["AS"] [.name shown]
      | none => []) :: Operand.columnLexemes rest

/-- The clauses in their order. -/
def Select.lexemes : Select → List Lexeme
  | ⟨columns, tables, joins, conditions, groupBy, having, orderBy, limit, offset⟩ =>
    .word "SELECT" :: .space ::
      (if columns.isEmpty then [.symbol "*"]
        else comma.intercalate (Operand.columnLexemes columns)) ++
      (if tables.isEmpty then []
        else clause ["FROM"] (comma.intercalate (tables.map TableRef.lexemes))) ++
      JoinClause.lexemesAll joins ++
      (if conditions.isEmpty then []
        else clause ["WHERE"] (conjunction.intercalate (Expr.conditionLexemes conditions))) ++
      (if groupBy.isEmpty then []
        else clause ["GROUP", "BY"] (comma.intercalate (groupBy.map fun c => [.name c]))) ++
      (if having.isEmpty then []
        else clause ["HAVING"] (conjunction.intercalate (Expr.conditionLexemes having))) ++
      (if orderBy.isEmpty then []
        else clause ["ORDER", "BY"]
          (comma.intercalate (orderBy.map fun (c, d) => [.name c, .space, .word d.spelling]))) ++
      Lexeme.count "LIMIT" limit ++ Lexeme.count "OFFSET" offset

end

namespace Expr

/-- The conditions of a clause, joined by `AND`. -/
def conjunctionLexemes (conditions : List Expr) : List Lexeme :=
  conjunction.intercalate (conditionLexemes conditions)

/-- The text of an expression in a dialect. -/
def text (d : Dialect) (e : Expr) : String :=
  d.text e.lexemes

end Expr

/-- The text of a query in a dialect. -/
def Select.text (d : Dialect) (s : Select) : String :=
  d.text s.lexemes

end EntityGraph
