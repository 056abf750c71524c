import EntityGraph.Assoc
import EntityGraph.Connection.Basic

/-!
# Connections that hold rows

A storage answers queries from the rows that it holds. Each table of a query contributes one of its
rows to a result, and binds the values of that row to references, which are spelt with the alias of
the table and the column. A left join without a matching row binds nothing. What is not bound is null,
and null equals nothing.

Only comparisons of columns and values for equality are understood, and orderings and groups are not:
these are the queries that look entities up by their keys.
-/

namespace EntityGraph

/-- A row of a table. A column without a value is null. -/
structure StoredRow where
  table : String
  cells : Assoc String Value
  deriving DecidableEq, Repr

/-- The number of cells that rows have. -/
def StoredRow.cellCount (rows : List StoredRow) : Nat :=
  rows.foldr (fun row n => row.cells.length + n) 0

/-- The rows of all tables. -/
structure Storage where
  dialect : Dialect
  rows : List StoredRow := []

/-- The values that the tables of a query have bound so far. -/
abbrev Bindings := Assoc String Value

/-- A row of a table binds its values to references. -/
def TableRef.bind (t : TableRef) (cells : Assoc String Value) : Bindings :=
  cells.map fun p => (t.asName.getD t.name ++ "." ++ p.1, p.2)

namespace Bindings

/-- The value of an operand. -/
def value (env : Bindings) : Operand → Value
  | .name reference => (env.get? reference).getD .null
  | .expr (.param v) => v
  | _ => .null

/-- Whether a comparison is known to hold. -/
def holds (env : Bindings) : Expr → Bool
  | .binary left .eq right => !(env.value left).isNull && env.value left == env.value right
  | _ => false

end Bindings

namespace Storage

/-- The rows of a table. -/
def rowsOf (s : Storage) (table : String) : List (Assoc String Value) :=
  (s.rows.filter (·.table = table)).map (·.cells)

/-- Joins a table. -/
def join (s : Storage) (envs : List Bindings) (j : JoinClause) : List Bindings :=
  envs.flatMap fun env =>
    let found := ((s.rowsOf j.table.name).map fun cells => env ++ j.table.bind cells).filter
      fun env => j.conditions.all (Bindings.holds env)
    if found.isEmpty && j.kind = .left then [env] else found

/-- The label of a selected column. -/
def label : Operand × Option String → String
  | (_, some shown) => shown
  | (.name reference, none) => reference
  | _ => ""

/-- The rows of a result. -/
def answer (s : Storage) (q : Select) : List Row :=
  let envs := q.tables.foldl (fun envs t => s.join envs ⟨.cross, t, []⟩) [[]]
  let envs := (q.joins.foldl s.join envs).filter fun env => q.conditions.all (Bindings.holds env)
  let envs := envs.drop (q.offset.getD 0)
  let envs := match q.limit with
    | some n => envs.take n
    | none => envs
  envs.map fun env => ⟨q.columns.map label, q.columns.map fun c => Bindings.value env c.1⟩

/-- The rows that an insertion writes. -/
def written (i : Insert) : List StoredRow :=
  i.rows.map fun row => ⟨i.table, i.columns.zip row⟩

/-- What insertions have written, when the database has made the key of the row in the primary
table. -/
def ofInserts (dialect : Dialect) (table keyColumn : String) (key : Value) (is : List Insert) :
    Storage where
  dialect
  rows := (is.flatMap written).map fun row =>
    if row.table = table then { row with cells := row.cells.put keyColumn key } else row

end Storage

instance : Connection Storage where
  dialect := Storage.dialect
  select q link := (.ok (link.answer q), link)
  insert _ link := (.ok none, link)
  update _ link := (.ok 0, link)
  delete _ link := (.ok 0, link)
  cellBound link := StoredRow.cellCount link.rows

end EntityGraph
