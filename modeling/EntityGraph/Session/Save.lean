import EntityGraph.Session.Traversal

/-!
# Saving

Saving an entity inserts it or updates it, with one statement for each of its tables. With cascading
on, the targets whose key the entity stores are saved before it, and everything that its loaded
relations lead to is saved after it. One traversal writes an entity at most once; coming back to it
does nothing.
-/

namespace EntityGraph

variable {σ : Type} [Connection σ]

/-- Work of a save, which enters entities. -/
abbrev SaveM (σ α : Type) := TraversalM EntityId σ α

namespace Save

open Traversal

/-- The least of a list of names. -/
def least? (names : List String) : Option String :=
  names.foldl (fun least name => match least with
    | some l => if name < l then some name else some l
    | none => some name) none

/-- No foreign key of the entity itself may wait any more. -/
def checkPending (g : Graph) (e : EntityId) : Except Error Unit :=
  let x := g.entity e
  match least? (x.pending.map (·.1)) with
  | some name => .error (.violation x.schema.name name .referenceNotInserted)
  | none => .ok ()

/-- Checks values against their constraints. -/
def checkAll (entity : String) : List (Atomic × Value) → Except Error Unit
  | [] => .ok ()
  | (a, v) :: rest => do
    a.check entity v
    checkAll entity rest

/-- The columns and values of each table, in the order of the tables. A table appears also when it
has none; a value whose table the schema does not have is left out. -/
def columnsByTable (s : Schema) (values : List (Atomic × Value)) :
    List (String × List (String × Value)) :=
  columnsFrom s.tables []
where
  /-- A table that is listed twice gets its columns where it comes first. -/
  columnsFrom : List String → List String → List (String × List (String × Value))
    | [], _ => []
    | table :: rest, earlier =>
      let columns := if earlier.contains table then [] else
        values.filterMap fun p =>
          if s.tableOf p.1 = table then some (p.1.column, p.2) else none
      (table, columns) :: columnsFrom rest (table :: earlier)

/-- Saves, one after another, the targets of the loaded to-one relations whose key the entity stores
and that storage does not have yet. -/
def saveOwnedTargets (c : Catalog) (save : EntityId → SaveM σ Unit) (e : EntityId) :
    SaveM σ Unit := do
  let g ← graph
  let s := (g.entity e).schema
  (g.loadedRelations e).forM fun r => do
    match r.2 with
    | .one (some target) =>
      if ((← graph).entity target).stored then return
      let join ← Act.ofExcept (c.join s r.1)
      if join.side = .here then save target
    | _ => pure ()

/-- Saves everything that the loaded relations lead to. -/
def saveRelations (save : EntityId → SaveM σ Unit) (e : EntityId) : SaveM σ Unit := do
  ((← graph).loadedRelations e).forM fun r => do
    ((← graph).targets r.2).forM save

/-- Inserts a row into the first table, and takes over the key that the database makes unless the
entity has one. -/
def insertFirst (e : EntityId) (table : String) (columns : List (String × Value)) :
    SaveM σ Unit := do
  let made ← onWire e (Insert.single table columns).execute
  if ((← graph).key? e).isNone then
    match made with
    | none => throw (.malformedStatement (.noGeneratedKey table))
    | some v => onGraph (Graph.assignGeneratedKey e v)

/-- Checks that an entity can be inserted as it is: no foreign key waits, values keep their
constraints, and the key is there unless the database makes it. -/
def checkInsert (ses : Session) (g : Graph) (e : EntityId) : Except Error Unit := do
  let s := (g.entity e).schema
  checkPending g e
  let key ← s.key
  if ses.config.validate then
    checkAll s.name ((g.allAtomics e).filter fun p => !(p.1.primaryKey && p.1.generated))
  if (g.key? e).isNone && !key.generated then
    throw (.violation s.name key.name .keyNotAssigned)

/-- Inserts a row into each of some tables under a key. -/
def insertRest (e : EntityId) (key : Atomic) (v : Value)
    (tables : List (String × List (String × Value))) : SaveM σ Unit :=
  tables.forM fun t => do
    let _ ← onWire e (Insert.single t.1 ((key.column, v) :: t.2)).execute

/-- Inserts the rows of an entity, the one of its primary table first. -/
def insertRows (ses : Session) (e : EntityId) : SaveM σ Unit := do
  let g ← graph
  Act.ofExcept (checkInsert ses g e)
  let key ← Act.ofExcept (g.entity e).schema.key
  let tables := columnsByTable (g.entity e).schema (g.dirtyAtomics e)
  if let (table, columns) :: _ := tables then
    insertFirst e table columns
  let v ← Act.ofExcept ((← graph).requireKey e)
  insertRest e key v tables.tail
  onGraph (modify fun g => (g.markClean e).markStored e)

/-- The values of an entity that storage does not have and that an update writes: the key stays as
it is. -/
def changes (g : Graph) (e : EntityId) : List (Atomic × Value) :=
  (g.dirtyAtomics e).filter (!·.1.primaryKey)

/-- Writes values in the rows of a key. -/
def updateTables (e : EntityId) (key : Atomic) (v : Value)
    (tables : List (String × List (String × Value))) : SaveM σ Unit :=
  tables.forM fun t => do
    let u : Update := { table := t.1, conditions := [Expr.columnEq key.column v] }
    let _ ← onWire e (u.setAll t.2).execute

/-- Writes the changes of an entity in the rows of its key. -/
def updateRows (ses : Session) (e : EntityId) : SaveM σ Unit := do
  let g ← graph
  let s := (g.entity e).schema
  Act.ofExcept (checkPending g e)
  let dirty := changes g e
  if !dirty.isEmpty then
    if ses.config.validate then Act.ofExcept (checkAll s.name dirty)
    let key ← Act.ofExcept s.key
    let v ← Act.ofExcept (g.requireKey e)
    updateTables e key v (columnsByTable s dirty)
  onGraph (modify fun g => (g.markClean e).markStored e)

/-- Writes the rows of an entity, unless the traversal has been there: with cascading, after the owned
targets and before everything that the loaded relations lead to. -/
def visit (ses : Session) (save : EntityId → SaveM σ Unit) (e : EntityId) (rows : SaveM σ Unit) :
    SaveM σ Unit := do
  if !(← enter e) then return
  if ses.config.cascade then saveOwnedTargets ses.catalog save e
  rows
  if ses.config.cascade then saveRelations save e

/-- Inserts an entity that storage does not have. -/
def insertWith (ses : Session) (save : EntityId → SaveM σ Unit) (e : EntityId) :
    SaveM σ Unit := do
  if ((← graph).entity e).stored then return
  visit ses save e (insertRows ses e)

/-- Writes the values of an entity that storage does not have, in the rows of its key; does nothing
without a key. -/
def updateWith (ses : Session) (save : EntityId → SaveM σ Unit) (e : EntityId) :
    SaveM σ Unit := do
  if ((← graph).key? e).isNone then return
  visit ses save e (updateRows ses e)

/-- Inserts or updates an entity. A key that the database makes is set exactly when the entity is
inserted already; for other keys the entity itself knows. The first argument bounds the depth of the
traversal. -/
def saveFrom (ses : Session) : Nat → EntityId → SaveM σ Unit
  | 0, _ => throw .exhausted
  | depth + 1, e => do
    let x := (← graph).entity e
    let key ← Act.ofExcept x.schema.key
    if (if key.generated then x.key?.isSome else x.stored) then
      updateWith ses (saveFrom ses depth) e
    else insertWith ses (saveFrom ses depth) e

/-- A traversal enters every entity at most once, so it is never deeper than their number. -/
def depthBound (g : Graph) : Nat :=
  g.entities.length + 1

/-- Runs a save with a depth bound that fits the graph. -/
def run (act : Nat → SaveM σ Unit) : SessionM σ Unit := do
  Traversal.run (act (depthBound (← get).graph))

end Save

namespace Session

/-- Inserts or updates an entity and, with cascading, what it leads to. -/
def save (s : Session) (e : EntityId) : SessionM σ Unit :=
  Save.run fun depth => Save.saveFrom s depth e

/-- Inserts an entity; does nothing if storage has it. -/
def insert (s : Session) (e : EntityId) : SessionM σ Unit :=
  Save.run fun depth => Save.insertWith s (Save.saveFrom s depth) e

/-- Updates an entity; does nothing if it has no key. -/
def update (s : Session) (e : EntityId) : SessionM σ Unit :=
  Save.run fun depth => Save.updateWith s (Save.saveFrom s depth) e

end Session

end EntityGraph
