import EntityGraph.Graph.Basic

/-!
# Assigning atomics and relations

Assignment keeps foreign keys in step with relations at once: linking an entity writes the foreign
key on whichever side owns it. When the key that it refers to does not exist yet, the foreign key is
left pending and is written when the key arrives.
-/

namespace EntityGraph.Graph

/-- Writes the foreign key of a holder, which is then no longer pending. -/
def writeForeignKey (holder : EntityId) (name : String) (v : Value) : GraphM Unit := do
  let x := (← get).entity holder
  let a ← Act.ofExcept (x.schema.atomic name)
  let v ← Act.ofExcept (a.coerce x.schema.name v)
  modify fun g => g.modifyEntity holder (·.receive name v)

/-- Nulls a foreign key that storage has nulled already. -/
def clearForeignKey (holder : EntityId) (name : String) : GraphM Unit :=
  modify fun g => g.modifyEntity holder fun x => (x.settle name).loadAtomic name .null

/-- Notes the position of a member that has its primary key. -/
def indexMember (c : CollectionId) (member : EntityId) : GraphM Unit :=
  modify fun g =>
    match g.key? member, (g.collection c).members.idxOf? member with
    | some key, some i => g.modifyCollection c fun x => { x with index := x.index.put key i }
    | _, _ => g

/-- What a listener does. A foreign key that has been assigned since no longer waits. -/
def hear (source : EntityId) : KeyListener → GraphM Unit
  | .foreignKey holder name referenced => do
    let g ← get
    if (g.entity holder).pending.get? name = some source then
      writeForeignKey holder name (← Act.ofExcept (g.value source referenced))
  | .collection c => indexMember c source

/-- Tells the listeners of an entity, once, that it has its primary key. -/
def announceKey (e : EntityId) : GraphM Unit := do
  let listeners := ((← get).entity e).listeners
  modify fun g => g.modifyEntity e fun x => { x with listeners := [] }
  Act.forAll (hear e) listeners

/-- Adds a listener after those that an entity has. -/
def addListener (e : EntityId) (l : KeyListener) : GraphM Unit :=
  modify fun g => g.modifyEntity e fun x => { x with listeners := x.listeners ++ [l] }

/-- Assigns an atomic. The primary key of a stored entity cannot change. -/
def assign (e : EntityId) (name : String) (v : Value) : GraphM Unit := do
  let x := (← get).entity e
  let a ← Act.ofExcept (Entity.atomic x.schema name)
  let v ← Act.ofExcept (a.coerce x.schema.name v)
  let current := (x.atomics.get? a.name).map (·.value)
  if a.primaryKey ∧ x.stored ∧ current ≠ some v then
    throw (.violation x.schema.name a.name .keyIsFixed)
  modify fun g => g.modifyEntity e (·.settle a.name)
  if x.isStoredValue a.name v then return
  modify fun g => g.modifyEntity e (·.writeAtomic a.name v)
  if a.primaryKey ∧ v ≠ .null then announceKey e

/-- Gives an entity the primary key that the database made. -/
def assignGeneratedKey (e : EntityId) (v : Value) : GraphM Unit := do
  let x := (← get).entity e
  let a ← Act.ofExcept x.schema.key
  let v ← Act.ofExcept (a.coerce x.schema.name v)
  modify fun g => g.modifyEntity e (·.loadAtomic a.name v)
  announceKey e

/-- Points a foreign key of a holder at an atomic of a source. It waits while the source lacks the
primary key that it refers to; any other atomic must be set. -/
def link (holder : EntityId) (name : String) (source : EntityId) (referenced : String) :
    GraphM Unit := do
  let g ← get
  let v ← Act.ofExcept (g.value source referenced)
  let s := (g.entity source).schema
  if ¬v.isNull then writeForeignKey holder name v
  else if s.keyName? ≠ some referenced then
    throw (.violation (g.entity holder).schema.name name (.referenceNotSet s.name referenced))
  else
    modify fun g => g.modifyEntity holder fun x => { x with pending := x.pending.put name source }
    addListener source (.foreignKey holder name referenced)

/-- A relation only takes entities of its target type. -/
def checkTarget (owner : Schema) (c : Component) (found : Schema) : Except Error Unit :=
  if found.name = c.target then .ok ()
  else .error (.wrongTarget owner.name c.name c.target found.name)

/-- Writes the foreign key of a to-one relation of an entity. When the other side owns the foreign key,
the target before loses it. -/
def relink (e : EntityId) (join : Join) (before target : Option EntityId) : GraphM Unit :=
  match join.side, target with
  | .here, some t => link e join.foreignKey t join.referenced
  | .here, none => writeForeignKey e join.foreignKey .null
  | .there, target => do
    if let some b := before then
      if target ≠ some b then writeForeignKey b join.foreignKey .null
    if let some t := target then
      link t join.foreignKey e join.referenced

/-- Assigns a to-one relation and its foreign key. -/
def assignOne (c : Catalog) (e : EntityId) (name : String) (target : Option EntityId) :
    GraphM Unit := do
  let g ← get
  let x := g.entity e
  let comp ← Act.ofExcept (Entity.relation x.schema name false)
  if let some t := target then
    Act.ofExcept (checkTarget x.schema comp (g.entity t).schema)
  let join ← Act.ofExcept (c.join x.schema comp)
  relink e join ((x.toOne.get? comp.name).bind (·.value)) target
  modify fun g => g.modifyEntity e fun x =>
    { x with toOne := x.toOne.put comp.name (.dirty target) }

/-- The collection of a to-many relation, made on first use. -/
def many (c : Catalog) (e : EntityId) (name : String) : GraphM CollectionId := do
  let x := (← get).entity e
  let comp ← Act.ofExcept (Entity.relation x.schema name true)
  match x.toMany.get? comp.name with
  | some id => return id
  | none =>
    let join ← Act.ofExcept (c.join x.schema comp)
    let id ← newCollection { owner := e, component := comp, join }
    modify fun g => g.modifyEntity e fun x => { x with toMany := x.toMany.put comp.name id }
    return id

/-- An embedded component, made on first use. -/
def embedded (e : EntityId) (name : String) : GraphM EntityId := do
  let x := (← get).entity e
  match x.embedded.get? name with
  | some part => return part
  | none =>
    match x.schema.embedded? name with
    | none => throw (Entity.notOfKind x.schema name .embedded)
    | some s =>
      let part ← newEntity s
      modify fun g => g.modifyEntity part fun p => { p with stored := x.stored }
      modify fun g => g.modifyEntity e fun x => { x with embedded := x.embedded.put name part }
      return part

/-- The embedded component at the end of a path of embedded properties. -/
def embeddedAt (e : EntityId) : List String → GraphM EntityId
  | [] => pure e
  | name :: path => do embeddedAt (← embedded e name) path

/-- Records a to-one relation that was read from storage, unless one is loaded. -/
def loadOne (e : EntityId) (name : String) (target : Option EntityId) : GraphM Unit :=
  modify fun g => g.modifyEntity e fun x =>
    if x.toOne.contains name then x else { x with toOne := x.toOne.put name (.loaded target) }

/-- Sets atomics that were read from storage. -/
def loadAtomics (e : EntityId) (values : List (String × Value)) : GraphM Unit :=
  modify fun g => g.modifyEntity e fun x =>
    values.foldl (fun x p => x.loadAtomic p.1 p.2) x

end EntityGraph.Graph
