import EntityGraph.Session.Traversal

/-!
# Deleting

Deleting the rows of an entity first applies the policies of its relations to the rows that refer to
it, then deletes its own rows, secondary tables first, and last follows the cascading relations whose
key it stored. One traversal deletes the rows of a type and key at most once.

Entities in memory are only known to a deletion through the loaded relations of the entity that is
being deleted; their state follows what is done to their rows.
-/

namespace EntityGraph

variable {σ : Type} [Connection σ]

/-- Work of a deletion, which enters types with keys. -/
abbrev DeletionM (σ α : Type) := TraversalM (String × Value) σ α

namespace Deletion

open Traversal

/-- Rows to delete: of a type, under a key, and the entity that they were loaded as, if it is
known. -/
structure Doomed where
  schema : Schema
  key : Value
  loaded : Option EntityId

/-- What a traversal enters for the rows. -/
def Doomed.row (d : Doomed) : String × Value :=
  (d.schema.name, d.key)

/-- The first cell of a row. -/
def firstCell (row : Row) : Value :=
  (row.at? 0).getD .null

/-- The value of an atomic of the doomed entity: its key, the loaded value, or what storage has. -/
def storedValue (d : Doomed) (name : String) : DeletionM σ Value := do
  let a ← Act.ofExcept (d.schema.atomic name)
  if a.primaryKey then return d.key
  match d.loaded with
  | some e => Act.ofExcept ((← graph).value e name)
  | none =>
    let key ← Act.ofExcept d.schema.key
    let rows ← onWire d.row (Select.fetch {
      columns := [(.name a.column, none)]
      tables := [{ name := d.schema.tableOf a }]
      conditions := [Expr.columnEq key.column d.key]
      limit := some 1 })
    Act.ofExcept (a.coerce d.schema.name ((rows.head?.map firstCell).getD .null))

/-- The condition that a column refers to the doomed entity through an atomic of it. Without the
loaded value a condition on the entity's row stands in, which needs the atomic to be unique. A loaded
entity whose value is null is referred to by nothing. -/
def referenceCondition? (g : Graph) (d : Doomed) (c : Component) (join : Join) (column : String) :
    Except Error (Option Expr) := do
  let a ← d.schema.atomic join.referenced
  if a.primaryKey then return some (Expr.columnEq column d.key)
  match d.loaded with
  | some e =>
    let v ← g.value e a.name
    return if v.isNull then none else some (Expr.columnEq column v)
  | none =>
    if !a.constraints.unique then
      throw (.malformedRelation d.schema.name c.name (.policyNeedsUnique a.name))
    let key ← d.schema.key
    let subquery : Select := {
      columns := [(.name a.column, none)]
      tables := [{ name := d.schema.tableOf a }]
      conditions := [Expr.columnEq key.column d.key] }
    return some (.binary (.name column) .isIn (.query subquery))

/-- The loaded entities that a relation of the doomed entity leads to. -/
def known (g : Graph) (d : Doomed) (c : Component) : List EntityId :=
  match d.loaded with
  | some e => g.targetsOf e c.name
  | none => []

/-- The first of some entities that has a key. -/
def withKey? (g : Graph) (es : List EntityId) (key : Value) : Option EntityId :=
  es.find? fun e => g.key? e == some key

/-- Deletes the entities of a type whose rows in a table meet a condition, on behalf of other
rows. -/
def deleteMatching (delete : Doomed → DeletionM σ Unit) (d : Doomed) (target : Schema)
    (table : String) (condition : Expr) (known : List EntityId) : DeletionM σ Unit := do
  let key ← Act.ofExcept target.key
  let rows ← onWire d.row (Select.fetch {
    columns := [(.name key.column, none)]
    tables := [{ name := table }]
    conditions := [condition] })
  rows.forM fun row => do
    let v ← Act.ofExcept (key.coerce target.name (firstCell row))
    if v.isNull then return
    delete ⟨target, v, withKey? (← graph) known v⟩

/-- The loaded dependents of an entity lose their foreign keys, as their rows in storage have. -/
def release (e : EntityId) (c : Component) (join : Join) : GraphM Unit := do
  ((← get).loadedRelations e).forM fun r => do
    if r.1.name = c.name then
      match r.2 with
      | .many id => Graph.releaseMembers id
      | .one (some target) => Graph.clearForeignKey target join.foreignKey
      | .one none => pure ()

/-- Applies the policy of a relation whose foreign key is on the target: the referring rows lose
their foreign key, or are deleted. -/
def applyPolicy (c : Catalog) (delete : Doomed → DeletionM σ Unit) (d : Doomed) (comp : Component)
    (join : Join) : DeletionM σ Unit := do
  let target ← Act.ofExcept (c.schema comp.target)
  let foreignKey ← Act.ofExcept (target.atomic join.foreignKey)
  let table := target.tableOf foreignKey
  match ← Act.ofExcept (referenceCondition? (← graph) d comp join foreignKey.column) with
  | none => pure ()
  | some condition =>
    match comp.onDelete with
    | .keep => pure ()
    | .setNull =>
      let u : Update := { table, conditions := [condition] }
      let _ ← onWire d.row (u.set foreignKey.column .null).execute
      if let some e := d.loaded then onGraph (release e comp join)
    | .cascade =>
      deleteMatching delete d target table condition (known (← graph) d comp)

/-- A cascading relation whose key the doomed entity stores, with the value of that key. -/
structure Owned where
  component : Component
  join : Join
  value : Value

/-- Handles a relation before the rows go; answers what is left to do after that. -/
def prepare (c : Catalog) (delete : Doomed → DeletionM σ Unit) (d : Doomed) (comp : Component) :
    DeletionM σ (Option Owned) := do
  if comp.onDelete = .keep then return none
  let join ← Act.ofExcept (c.join d.schema comp)
  match join.side with
  | .there =>
    applyPolicy c delete d comp join
    return none
  | .here =>
    if comp.onDelete ≠ .cascade then return none
    let v ← storedValue d join.foreignKey
    return if v.isNull then none else some ⟨comp, join, v⟩

/-- Deletes the target of a relation whose key the doomed entity stored. -/
def deleteOwned (c : Catalog) (delete : Doomed → DeletionM σ Unit) (d : Doomed) (o : Owned) :
    DeletionM σ Unit := do
  let target ← Act.ofExcept (c.schema o.component.target)
  let g ← graph
  let known := known g d o.component
  let a ← Act.ofExcept (target.atomic o.join.referenced)
  if a.primaryKey then delete ⟨target, o.value, withKey? g known o.value⟩
  else
    deleteMatching delete d target (target.tableOf a) (Expr.columnEq a.column o.value) known

/-- Deletes rows, with what depends on them before and what they own after. The first argument bounds
the depth of the traversal. -/
def deleteFrom (c : Catalog) : Nat → Doomed → DeletionM σ Unit
  | 0, _ => throw .exhausted
  | depth + 1, d => do
    if !(← enter d.row) then return
    let key ← Act.ofExcept d.schema.key
    let owned ← d.schema.components.mapM (prepare c (deleteFrom c depth) d)
    (d.schema.secondary.reverse ++ [d.schema.table]).forM fun table => do
      let statement : Delete := { table, conditions := [Expr.columnEq key.column d.key] }
      let _ ← onWire d.row statement.execute
    (owned.filterMap id).forM (deleteOwned c (deleteFrom c depth) d)
    if let some e := d.loaded then onGraph (modify (·.markDeleted e))

/-- Along a path of the traversal no type and key come twice. A key is the first cell of an answer, in
one of the forms that the five kinds give it, or is the key before, taken over by another type, or it
is a value of the loaded entity before, which has come up at most once for each type. -/
def depthBound (c : Catalog) (w : World σ) : Nat :=
  let types := c.definitions.length + 1
  types * (2 + types * w.graph.entities.length + 5 * Connection.cellBound w.wire.link)

/-- Runs a deletion with a depth bound that fits the world. -/
def run (c : Catalog) (d : Doomed) : SessionM σ Unit := do
  Traversal.run (deleteFrom c (depthBound c (← get)) d)

end Deletion

namespace Session

/-- Deletes the rows of an entity, which storage then no longer has; does nothing if storage does not
have it. -/
def delete (s : Session) (e : EntityId) : SessionM σ Unit := do
  let g := (← get).graph
  if (g.entity e).stored then
    let key ← Act.ofExcept (g.requireKey e)
    Deletion.run s.catalog ⟨(g.entity e).schema, key, some e⟩

/-- Deletes the rows of a type and key without loading them. -/
def deleteByKey (s : Session) (entity : String) (key : Value) : SessionM σ Unit := do
  let schema ← Act.ofExcept (s.catalog.schema entity)
  let a ← Act.ofExcept schema.key
  let key ← Act.ofExcept (a.coerce schema.name key)
  Deletion.run s.catalog ⟨schema, key, none⟩

end Session

end EntityGraph
