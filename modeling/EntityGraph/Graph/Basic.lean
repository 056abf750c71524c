import EntityGraph.Act
import EntityGraph.Assoc
import EntityGraph.Schema.Catalog

/-!
# The graph in memory

A `Graph` holds the entities that were created or loaded, and the collections of their to-many
relations. Entities and collections are addressed by identity: two entities with the same values are
still two. Embedded components are entities of their own, reached from their owner.

Every atomic and every to-one relation of an entity sits in a `Slot` that says whether it agrees with
storage. A foreign key that waits for the primary key of an entity that has none yet is *pending* on
it, and that entity keeps a listener for the moment it gets its key.

* `entity_modifyEntity_self`, `entity_modifyEntity_of_ne` — changing one entity leaves the others alone.
-/

namespace EntityGraph

/-- The identity of an entity. -/
structure EntityId where
  index : Nat
  deriving DecidableEq, Repr, Inhabited

/-- The identity of a collection. -/
structure CollectionId where
  index : Nat
  deriving DecidableEq, Repr, Inhabited

/-- A value, and whether it agrees with storage. -/
structure Slot (α : Type) where
  value : α
  clean : Bool
  deriving DecidableEq, Repr

namespace Slot

variable {α : Type}

/-- A value that storage does not have. -/
def dirty (a : α) : Slot α := ⟨a, false⟩

/-- A value that storage has. -/
def loaded (a : α) : Slot α := ⟨a, true⟩

end Slot

/-- What is done when an entity gets its primary key. -/
inductive KeyListener where
  /-- The foreign key of a holder takes the value that it waits for. -/
  | foreignKey (holder : EntityId) (foreignKey referenced : String)
  /-- A collection notes the position of its member. -/
  | collection (c : CollectionId)
  deriving DecidableEq, Repr

/-- An entity in memory. -/
structure Entity where
  schema : Schema
  atomics : Assoc String (Slot Value) := []
  toOne : Assoc String (Slot (Option EntityId)) := []
  toMany : Assoc String CollectionId := []
  embedded : Assoc String EntityId := []
  /-- Whether storage has the entity. -/
  stored : Bool := false
  /-- The foreign keys that wait for the key of another entity. -/
  pending : Assoc String EntityId := []
  listeners : List KeyListener := []
  deriving Inhabited

/-- The members of a to-many relation of an entity, in order of first appearance. -/
structure Collection where
  owner : EntityId
  component : Component
  join : Join
  members : List EntityId := []
  /-- The positions of members by primary key. -/
  index : Assoc Value Nat := []
  deriving Repr

instance : Inhabited Collection where
  default :=
    { owner := default, component := default, join := ⟨.there, "", ""⟩ }

/-- The entities and collections in memory. -/
structure Graph where
  entities : List Entity := []
  collections : List Collection := []
  deriving Inhabited

/-- Work on the graph. -/
abbrev GraphM (α : Type) := Act Graph α

namespace Entity

/-- The primary key, unless it is unset or null. -/
def key? (x : Entity) : Option Value := do
  let name ← x.schema.keyName?
  let slot ← x.atomics.get? name
  if slot.value.isNull then none else some slot.value

/-- The value of an atomic; null while it is unset. -/
def atomicValue (x : Entity) (name : String) : Value :=
  ((x.atomics.get? name).map (·.value)).getD .null

/-- Whether some atomic of its own differs from storage. -/
def hasDirtyAtomic (x : Entity) : Bool :=
  x.atomics.any (!·.2.clean)

/-- The atomics of its own that differ from storage, in schema order. -/
def dirtyAtomics (x : Entity) : List (Atomic × Value) :=
  x.schema.atomics.filterMap fun a =>
    match x.atomics.get? a.name with
    | some slot => if slot.clean then none else some (a, slot.value)
    | none => none

/-- All atomics of its own, in schema order. -/
def allAtomics (x : Entity) : List (Atomic × Value) :=
  x.schema.atomics.map fun a => (a, x.atomicValue a.name)

/-- Sets an atomic to a value that storage does not have. -/
def writeAtomic (x : Entity) (name : String) (v : Value) : Entity :=
  { x with atomics := x.atomics.put name (.dirty v) }

/-- Sets an atomic to a value that storage has. -/
def loadAtomic (x : Entity) (name : String) (v : Value) : Entity :=
  { x with atomics := x.atomics.put name (.loaded v) }

/-- An explicit value replaces a foreign key that waits. -/
def settle (x : Entity) (name : String) : Entity :=
  { x with pending := x.pending.erase name }

/-- Whether storage is known to have a value of an atomic. -/
def isStoredValue (x : Entity) (name : String) (v : Value) : Bool :=
  match x.atomics.get? name with
  | some slot => slot.clean && slot.value == v
  | none => false

/-- A foreign key takes a value, and no longer waits. -/
def receive (x : Entity) (name : String) (v : Value) : Entity :=
  let x := x.settle name
  if x.isStoredValue name v then x else x.writeAtomic name v

/-- Everything agrees with storage. -/
def markClean (x : Entity) : Entity :=
  { x with
    atomics := x.atomics.mapValues fun s => { s with clean := true }
    toOne := x.toOne.mapValues fun s => { s with clean := true } }

/-- The rows are gone: storage has neither the entity nor its values. -/
def markDeleted (x : Entity) : Entity :=
  { x with
    stored := false
    atomics := x.atomics.mapValues fun s => { s with clean := false } }

/-- The failure to find a property of a kind: the name may belong to another kind. -/
def notOfKind (s : Schema) (name : String) (kind : PropertyKind) : Error :=
  match s.property name with
  | .ok _ => .wrongKind s.name name kind
  | .error e => e

/-- The atomic of a name. -/
def atomic (s : Schema) (name : String) : Except Error Atomic :=
  match s.atomic? name with
  | some a => .ok a
  | none => .error (notOfKind s name .atomic)

/-- The relation of a name, to-one or to-many as asked. -/
def relation (s : Schema) (name : String) (toMany : Bool) : Except Error Component :=
  let missing := notOfKind s name (if toMany then .toMany else .toOne)
  match s.component? name with
  | some c => if c.isToMany = toMany then .ok c else .error missing
  | none => .error missing

end Entity

namespace Graph

/-- The entity of an identity. -/
def entity (g : Graph) (e : EntityId) : Entity :=
  g.entities.getD e.index default

/-- The collection of an identity. -/
def collection (g : Graph) (c : CollectionId) : Collection :=
  g.collections.getD c.index default

/-- Changes one entity. -/
def modifyEntity (g : Graph) (e : EntityId) (f : Entity → Entity) : Graph :=
  { g with entities := g.entities.modify e.index f }

/-- Changes one collection. -/
def modifyCollection (g : Graph) (c : CollectionId) (f : Collection → Collection) : Graph :=
  { g with collections := g.collections.modify c.index f }

/-- A changed entity is what the change makes of it. -/
theorem entity_modifyEntity_self {g : Graph} {e : EntityId} (f : Entity → Entity)
    (h : e.index < g.entities.length) : (g.modifyEntity e f).entity e = f (g.entity e) := by
  simp [entity, modifyEntity, List.getD_eq_getElem?_getD, h]

/-- Changing one entity leaves the others alone. -/
theorem entity_modifyEntity_of_ne {g : Graph} {d e : EntityId} (f : Entity → Entity) (h : d ≠ e) :
    (g.modifyEntity e f).entity d = g.entity d := by
  have hne : e.index ≠ d.index := fun hi => h (by cases d; cases e; simp_all)
  simp [entity, modifyEntity, List.getD_eq_getElem?_getD, hne]

/-- Changing an entity leaves the collections alone. -/
@[simp] theorem collection_modifyEntity (g : Graph) (e : EntityId) (f : Entity → Entity)
    (c : CollectionId) : (g.modifyEntity e f).collection c = g.collection c := rfl

/-- The primary key of an entity, unless it is unset or null. -/
def key? (g : Graph) (e : EntityId) : Option Value :=
  (g.entity e).key?

/-- The value of an atomic; null while it is unset. -/
def value (g : Graph) (e : EntityId) (name : String) : Except Error Value := do
  let x := g.entity e
  let a ← Entity.atomic x.schema name
  return x.atomicValue a.name

/-- The loaded value of a to-one relation. -/
def one (g : Graph) (e : EntityId) (name : String) : Except Error (Option EntityId) := do
  let x := g.entity e
  let c ← Entity.relation x.schema name false
  return (x.toOne.get? c.name).bind (·.value)

mutual

/-- An entity of a schema and its embedded components, as far as they have been used, each before its
own. -/
def partsOf (g : Graph) : Schema → EntityId → List EntityId
  | ⟨_, _, _, _, _, _, _, embedded⟩, e => e :: embeddedPartsOf g embedded e

/-- The parts for a list of embedded schemas. -/
def embeddedPartsOf (g : Graph) : List (String × Schema) → EntityId → List EntityId
  | [], _ => []
  | (name, s) :: rest, e =>
    (match (g.entity e).embedded.get? name with
      | some x => partsOf g s x
      | none => []) ++ embeddedPartsOf g rest e

end

/-- An entity and its embedded components, as far as they have been used, each before its own. -/
def parts (g : Graph) (e : EntityId) : List EntityId :=
  g.partsOf (g.entity e).schema e

/-- Whether some atomic, own or embedded, differs from storage. -/
def isDirty (g : Graph) (e : EntityId) : Bool :=
  (g.parts e).any fun x => (g.entity x).hasDirtyAtomic

/-- Whether storage has the entity with all its values. -/
def isPersistent (g : Graph) (e : EntityId) : Bool :=
  (g.entity e).stored && !g.isDirty e

/-- The atomics that differ from storage, own ones first. -/
def dirtyAtomics (g : Graph) (e : EntityId) : List (Atomic × Value) :=
  (g.parts e).flatMap fun x => (g.entity x).dirtyAtomics

/-- All atomics, own ones first, then those of the embedded components that have been used. -/
def allAtomics (g : Graph) (e : EntityId) : List (Atomic × Value) :=
  (g.parts e).flatMap fun x => (g.entity x).allAtomics

/-- Changes an entity and its embedded components. -/
def modifyParts (g : Graph) (e : EntityId) (f : Entity → Entity) : Graph :=
  (g.parts e).foldl (fun g x => g.modifyEntity x f) g

/-- An entity and its embedded components agree with storage. -/
def markClean (g : Graph) (e : EntityId) : Graph :=
  g.modifyParts e Entity.markClean

/-- Storage has an entity and its embedded components. -/
def markStored (g : Graph) (e : EntityId) : Graph :=
  g.modifyParts e fun x => { x with stored := true }

/-- Storage has neither an entity nor its embedded components any more. -/
def markDeleted (g : Graph) (e : EntityId) : Graph :=
  g.modifyParts e Entity.markDeleted

/-- The loaded value of a relation. -/
inductive Loaded where
  | one (target : Option EntityId)
  | many (c : CollectionId)
  deriving DecidableEq, Repr

/-- The loaded relations of an entity, in schema order. -/
def loadedRelations (g : Graph) (e : EntityId) : List (Component × Loaded) :=
  let x := g.entity e
  x.schema.components.filterMap fun c =>
    match x.toMany.get? c.name, x.toOne.get? c.name with
    | some id, _ => some (c, .many id)
    | none, some slot => some (c, .one slot.value)
    | none, none => none

/-- The entities that a loaded relation leads to. -/
def targets (g : Graph) : Loaded → List EntityId
  | .one target => target.toList
  | .many c => (g.collection c).members

/-- The entities that the loaded relations of a name lead to. -/
def targetsOf (g : Graph) (e : EntityId) (name : String) : List EntityId :=
  ((g.loadedRelations e).filter (·.1.name == name)).flatMap fun r => g.targets r.2

/-- Adds an entity of a schema that is not stored yet. -/
def newEntity (s : Schema) : GraphM EntityId := fun g =>
  .ok ⟨g.entities.length⟩ { g with entities := g.entities ++ [{ schema := s }] }

/-- Adds an empty collection. -/
def newCollection (c : Collection) : GraphM CollectionId := fun g =>
  .ok ⟨g.collections.length⟩ { g with collections := g.collections ++ [c] }

end Graph

end EntityGraph
