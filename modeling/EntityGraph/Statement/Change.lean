import EntityGraph.Statement.Select

/-!
# Statements that change rows

`INSERT`, `UPDATE` and `DELETE`. The first row of an insert fixes its columns, and later rows are
brought into their order. An update without columns is written as nothing at all.
-/

namespace EntityGraph

open Lexeme

/-- Rows to insert; every row has one value for each column. -/
structure Insert where
  table : String
  columns : List String := []
  rows : List (List Value) := []
  deriving DecidableEq, Repr

/-- Columns to overwrite in the rows that meet the conditions. -/
structure Update where
  table : String
  columns : List (String × Value) := []
  conditions : List Expr := []
  limit : Option Nat := none

/-- Rows to delete. -/
structure Delete where
  table : String
  conditions : List Expr := []
  limit : Option Nat := none

namespace Insert

/-- The value of a column in a row given as pairs; a missing column is null. -/
def cell (pairs : List (String × Value)) (column : String) : Value :=
  (pairs.lookup column).getD .null

/-- Adds a row. The first row fixes the columns. -/
def addRow (i : Insert) (pairs : List (String × Value)) : Insert :=
  let columns := if i.rows.isEmpty then pairs.map (·.1) else i.columns
  { i with columns, rows := i.rows ++ [columns.map (cell pairs)] }

/-- One row. -/
def single (table : String) (pairs : List (String × Value)) : Insert :=
  addRow { table } pairs

/-- `INSERT INTO` the table, its columns, and the rows. -/
def lexemes (i : Insert) : List Lexeme :=
  words ["INSERT", "INTO"] ++ .space :: .name i.table :: .space ::
    parens (comma.intercalate (i.columns.map fun c => [.name c])) ++
    clause ["VALUES"] (comma.intercalate (i.rows.map valueList))

end Insert

/-- The conditions and the limit at the end of an update or deletion. -/
def Lexeme.scope (conditions : List Expr) (limit : Option Nat) : List Lexeme :=
  (if conditions.isEmpty then [] else clause ["WHERE"] (Expr.conjunctionLexemes conditions)) ++
    Lexeme.count "LIMIT" limit

namespace Update

/-- Sets a column; a column that is set already keeps its place and takes the new value. -/
def set (u : Update) (column : String) (v : Value) : Update :=
  if u.columns.any (·.1 == column) then
    { u with columns := u.columns.map fun (c, w) => if c == column then (c, v) else (c, w) }
  else { u with columns := u.columns ++ [(column, v)] }

/-- Sets columns in order. -/
def setAll (u : Update) (pairs : List (String × Value)) : Update :=
  pairs.foldl (fun u p => u.set p.1 p.2) u

/-- `UPDATE` the table, its new values, and the scope; nothing when there are no columns. -/
def lexemes (u : Update) : List Lexeme :=
  if u.columns.isEmpty then []
  else
    .word "UPDATE" :: .space :: .name u.table :: clause ["SET"]
      (comma.intercalate (u.columns.map fun (c, v) =>
        [.name c, .space, .symbol "=", .space, .value v])) ++
      scope u.conditions u.limit

end Update

namespace Delete

/-- `DELETE FROM` the table, and the scope. -/
def lexemes (d : Delete) : List Lexeme :=
  words ["DELETE", "FROM"] ++ .space :: .name d.table :: scope d.conditions d.limit

end Delete

/-- A statement of any kind. -/
inductive Statement where
  | select (s : Select)
  | insert (i : Insert)
  | update (u : Update)
  | delete (d : Delete)

namespace Statement

/-- The lexemes of a statement. -/
def lexemes : Statement → List Lexeme
  | select s => s.lexemes
  | insert i => i.lexemes
  | update u => u.lexemes
  | delete d => d.lexemes

/-- The text of a statement in a dialect. -/
def text (d : Dialect) (s : Statement) : String :=
  d.text s.lexemes

end Statement

end EntityGraph
