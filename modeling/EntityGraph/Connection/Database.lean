import EntityGraph.Connection.Storage

/-!
# Databases

A database holds rows and executes statements about one table each: queries of columns, updates and
deletions. Their conditions compare columns and values for equality, or ask whether the value of a
column is among the answers to a query of that sort. Null equals nothing and is among nothing.

Some columns are required. An update that would make a required column null in some row is refused,
and so is every statement that is not of the sort described.

* `meets_columnEq`, `meets_isIn` — which rows meet a condition;
* `mem_matching_iff` — which rows a statement is about;
* `answer_column` — what a query for a column is answered with.
-/

namespace EntityGraph

/-- The value of a column of a row. -/
def StoredRow.value (row : StoredRow) (column : String) : Value :=
  (row.cells.get? column).getD .null

/-- Overwrites columns of a row. -/
def StoredRow.overwrite (row : StoredRow) (columns : List (String × Value)) : StoredRow :=
  { row with cells := columns.foldl (fun cells p => cells.put p.1 p.2) row.cells }

/-- Overwriting columns leaves a row in its table. -/
@[simp] theorem StoredRow.table_overwrite (row : StoredRow) (columns : List (String × Value)) :
    (row.overwrite columns).table = row.table := rfl

/-- Overwriting one column changes the value of that one. -/
theorem StoredRow.value_overwrite (row : StoredRow) (column other : String) (v : Value) :
    (row.overwrite [(column, v)]).value other = if other = column then v else row.value other := by
  unfold value overwrite
  split
  · next h => simp [h]
  · next h => simp [Assoc.get?_put_of_ne _ _ h]

/-- The rows of all tables, and the columns that are never null, each with its table. -/
structure Database where
  dialect : Dialect
  required : List (String × String) := []
  rows : List StoredRow := []

namespace Database

/-- Whether an operand is a column or a value. -/
def isPlain : Operand → Bool
  | .name _ => true
  | .expr (.param _) => true
  | _ => false

/-- Whether an expression compares columns and values for equality. -/
def isComparison : Expr → Bool
  | .binary left .eq right => isPlain left && isPlain right
  | _ => false

/-- Whether a query is about one table, apart from its conditions. -/
def isSimple (q : Select) : Bool :=
  q.tables.length == 1 && q.tables.all (·.asName.isNone) && q.joins.isEmpty && q.groupBy.isEmpty &&
    q.having.isEmpty && q.orderBy.isEmpty && q.offset.isNone && q.columns.all (isPlain ·.1)

/-- Whether an expression is a condition on the rows of one table. -/
def isCondition : Expr → Bool
  | .binary left .isIn (.query q) =>
    isPlain left && isSimple q && q.columns.length == 1 && q.limit.isNone &&
      q.conditions.all isComparison
  | e => isComparison e

/-- The answers to a query of one column, under comparisons. -/
def column (db : Database) (q : Select) : List Value :=
  (db.rows.filter fun row => q.tables.any (·.name == row.table) &&
      q.conditions.all (Bindings.holds row.cells)).flatMap fun row =>
    q.columns.map fun c => Bindings.value row.cells c.1

/-- Whether a row is known to meet a condition. -/
def meets (db : Database) (row : StoredRow) : Expr → Bool
  | .binary left .isIn (.query q) =>
    let v := Bindings.value row.cells left
    !v.isNull && (db.column q).contains v
  | e => Bindings.holds row.cells e

/-- The rows of a table that meet conditions. -/
def matching (db : Database) (table : String) (conditions : List Expr) : List StoredRow :=
  db.rows.filter fun row => row.table == table && conditions.all (db.meets row)

/-- The rows of a result. -/
def answer (db : Database) (q : Select) : List Row :=
  let rows := db.rows.filter fun row =>
    q.tables.any (·.name == row.table) && q.conditions.all (db.meets row)
  let rows := match q.limit with
    | some n => rows.take n
    | none => rows
  rows.map fun row => ⟨q.columns.map Storage.label,
    q.columns.map fun c => Bindings.value row.cells c.1⟩

/-- Whether an update would make a required column null in some row. -/
def breaks (db : Database) (u : Update) : Bool :=
  !(db.matching u.table u.conditions).isEmpty &&
    u.columns.any fun p => p.2.isNull && db.required.contains (u.table, p.1)

/-- Overwrites columns of the rows that an update is about. -/
def updated (db : Database) (u : Update) : Database :=
  { db with rows := db.rows.map fun row =>
      if row.table == u.table && u.conditions.all (db.meets row) then row.overwrite u.columns
      else row }

/-- Removes the rows that a deletion is about. -/
def without (db : Database) (d : Delete) : Database :=
  { db with rows := db.rows.filter fun row =>
      !(row.table == d.table && d.conditions.all (db.meets row)) }

/-- The message of a refused statement of another sort. -/
def unsupported : String :=
  "statement is not supported"

/-- The message of a refused update of a required column. -/
def required_null : String :=
  "column cannot be null"

instance : Connection Database where
  dialect := Database.dialect
  select q db :=
    if isSimple q && q.conditions.all isCondition then (.ok (db.answer q), db)
    else (.error unsupported, db)
  insert i db := (.ok none, { db with rows := db.rows ++ Storage.written i })
  update u db :=
    if !(u.conditions.all isCondition && u.limit.isNone) then (.error unsupported, db)
    else if db.breaks u then (.error required_null, db)
    else (.ok (db.matching u.table u.conditions).length, db.updated u)
  delete d db :=
    if d.conditions.all isCondition && d.limit.isNone then
      (.ok (db.matching d.table d.conditions).length, db.without d)
    else (.error unsupported, db)
  cellBound db := StoredRow.cellCount db.rows

variable {db : Database} {row : StoredRow}

/-- A row meets a comparison of a column with a value if it has the value, which must not be null. -/
@[simp] theorem meets_columnEq {column : String} {v : Value} :
    db.meets row (Expr.columnEq column v) = true ↔ row.value column = v ∧ v ≠ .null := by
  have hmeets : db.meets row (Expr.columnEq column v) =
      (!(row.value column).isNull && row.value column == v) := rfl
  rw [hmeets, Bool.and_eq_true, Bool.not_eq_true', beq_iff_eq]
  constructor
  · rintro ⟨hnull, rfl⟩
    exact ⟨rfl, Value.isNull_eq_false_iff.1 hnull⟩
  · rintro ⟨rfl, hne⟩
    exact ⟨Value.isNull_eq_false_iff.2 hne, rfl⟩

/-- A row meets a question for a column of the rows of a key if one of these rows has its value. -/
theorem meets_isIn {column referenced table key : String} {k : Value} :
    db.meets row (.binary (.name column) .isIn (.query {
        columns := [(.name referenced, none)]
        tables := [{ name := table }]
        conditions := [Expr.columnEq key k] })) = true ↔
      row.value column ≠ .null ∧ k ≠ .null ∧ ∃ other ∈ db.rows, other.table = table ∧
        other.value key = k ∧ other.value referenced = row.value column := by
  have hmeets : db.meets row (.binary (.name column) .isIn (.query {
        columns := [(.name referenced, none)]
        tables := [{ name := table }]
        conditions := [Expr.columnEq key k] })) = (!(row.value column).isNull &&
      ((db.rows.filter fun other => table == other.table && db.meets other (Expr.columnEq key k)).map
        fun other => other.value referenced).contains (row.value column)) := by
    simp [meets, Database.column, StoredRow.value, Bindings.value, Expr.columnEq, List.map_eq_flatMap]
  rw [hmeets, Bool.and_eq_true, Bool.not_eq_true', List.contains_iff_mem, List.mem_map]
  simp only [List.mem_filter, Bool.and_eq_true, beq_iff_eq, meets_columnEq]
  constructor
  · rintro ⟨hnull, other, ⟨hmem, htable, hkey, hk⟩, hvalue⟩
    exact ⟨Value.isNull_eq_false_iff.1 hnull, hk, other, hmem, htable.symm, hkey, hvalue⟩
  · rintro ⟨hnull, hk, other, hmem, htable, hkey, hvalue⟩
    exact ⟨Value.isNull_eq_false_iff.2 hnull, other, ⟨hmem, htable.symm, hkey, hk⟩, hvalue⟩

/-- A statement is about the rows of its table that meet its conditions. -/
theorem mem_matching_iff {table : String} {conditions : List Expr} :
    row ∈ db.matching table conditions ↔
      row ∈ db.rows ∧ row.table = table ∧ ∀ e ∈ conditions, db.meets row e = true := by
  simp [matching]

/-- A query for a column is answered with the values of the rows that it is about. -/
theorem answer_column {column table : String} {conditions : List Expr} :
    db.answer { columns := [(.name column, none)], tables := [{ name := table }], conditions } =
      (db.matching table conditions).map fun row => ⟨[column], [row.value column]⟩ := by
  simp [answer, matching, Storage.label, StoredRow.value, Bindings.value, BEq.comm (a := table)]

/-- A query for so many values of a column is answered with the first ones. -/
theorem answer_column_limit {column table : String} {conditions : List Expr} {n : Nat} :
    db.answer { columns := [(.name column, none)], tables := [{ name := table }], conditions,
                limit := some n } =
      ((db.matching table conditions).take n).map fun row => ⟨[column], [row.value column]⟩ := by
  simp [answer, matching, Storage.label, StoredRow.value, Bindings.value, BEq.comm (a := table)]

end Database

end EntityGraph
