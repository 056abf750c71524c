import EntityGraph.Path
import EntityGraph.Statement.Select

/-!
# Entity queries

An entity query says with property paths, not with tables and columns, what to load, filter and
order by. With an implicit root every result begins with the root entity, and paths are relative to
it; otherwise roots are listed under aliases, and only what is selected is returned.
-/

namespace EntityGraph

/-- Something to return: what a path denotes, or a raw expression under a label. -/
inductive Selection where
  | path (p : String)
  | raw (sql label : String)
  deriving DecidableEq, Repr

/-- What a filter compares with. -/
inductive FilterValue where
  | one (v : Value)
  | many (vs : List Value)
  deriving DecidableEq, Repr

/-- A comparison of what a path denotes; an entity is compared by its primary key. -/
structure Filter where
  path : String
  op : BinaryOp
  value : FilterValue
  deriving DecidableEq, Repr

/-- A query over entities. -/
structure Query where
  root : Option String := none
  /-- The explicit roots: an alias and an entity type each. -/
  roots : List (String × String) := []
  selections : List Selection := []
  filters : List Filter := []
  order : List (String × Direction) := []
  limit : Option Nat := none
  offset : Option Nat := none
  deriving DecidableEq, Repr

/-- A filter value inside a statement. -/
def FilterValue.toExpr : FilterValue → Expr
  | one v => .param v
  | many vs => .values vs

/-- A filter from the spelling of its operator. -/
def Filter.parse (path op : String) (v : Value) : Except Error Filter := do
  return ⟨path, ← BinaryOp.parse op, .one v⟩

/-- Membership in a list of values. -/
def Filter.isIn (path : String) (vs : List Value) : Filter :=
  ⟨path, .isIn, .many vs⟩

end EntityGraph
