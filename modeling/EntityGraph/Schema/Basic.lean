import EntityGraph.Atomic.Basic
import EntityGraph.Relation

/-!
# Schemas

A `Schema` describes how one entity type, or one embeddable type, is stored: its tables, its atomic
properties, its relations, and the schemas embedded in it. A schema begins as a `Draft`, which
collects declarations in order and still names embedded types; the draft's rules are checked by
`Draft.check`.

* `Schema.atomic_eq_ok_iff`, `Schema.component_eq_ok_iff` — look-ups fail only where the name is not
  declared.
-/

namespace EntityGraph

/-- How an entity or embeddable type is stored. -/
structure Schema where
  name : String
  /-- The primary table. -/
  table : String
  secondary : List String
  embeddable : Bool
  /-- The primary key, which a checked schema of an entity has. -/
  primaryKey : Option Atomic
  atomics : List Atomic
  components : List Component
  embedded : List (String × Schema)
  deriving Inhabited

/-- A property of a schema. -/
inductive Property where
  | atomic (a : Atomic)
  | component (c : Component)
  | embedded (name : String) (s : Schema)

namespace Schema

/-- The tables of a schema, the primary table first. -/
def tables (s : Schema) : List String :=
  s.table :: s.secondary

/-- The first atomic of a name. -/
def atomic? (s : Schema) (name : String) : Option Atomic :=
  s.atomics.find? (·.name == name)

/-- The first component of a name. -/
def component? (s : Schema) (name : String) : Option Component :=
  s.components.find? (·.name == name)

/-- The first embedded schema of a name. -/
def embedded? (s : Schema) (name : String) : Option Schema :=
  (s.embedded.find? (·.1 == name)).map (·.2)

/-- The failure to find a name. -/
def unknown (s : Schema) (name : String) : Error :=
  .unknownProperty s.name name

/-- The primary key, which an unchecked or embeddable schema lacks. -/
def key (s : Schema) : Except Error Atomic :=
  match s.primaryKey with
  | some a => .ok a
  | none => .error (.primaryKeyCount s.name 0)

/-- The name of the primary key. -/
def keyName? (s : Schema) : Option String :=
  s.primaryKey.map (·.name)

/-- The property of a name: atomics are searched first, then components, then embedded schemas. -/
def property (s : Schema) (name : String) : Except Error Property :=
  match s.atomic? name, s.component? name, s.embedded? name with
  | some a, _, _ => .ok (.atomic a)
  | none, some c, _ => .ok (.component c)
  | none, none, some e => .ok (.embedded name e)
  | none, none, none => .error (s.unknown name)

/-- The atomic of a name, which must be declared. -/
def atomic (s : Schema) (name : String) : Except Error Atomic :=
  match s.atomic? name with
  | some a => .ok a
  | none => .error (s.unknown name)

/-- The component of a name, which must be declared. -/
def component (s : Schema) (name : String) : Except Error Component :=
  match s.component? name with
  | some c => .ok c
  | none => .error (s.unknown name)

/-- Whether a name is that of a to-many component. -/
def isToMany (s : Schema) (name : String) : Bool :=
  (s.component? name).any (·.isToMany)

/-- The table that stores an atomic. -/
def tableOf (s : Schema) (a : Atomic) : String :=
  a.tableOr s.table

/-- Looking up an atomic fails only where there is none. -/
theorem atomic_eq_ok_iff {s : Schema} {name : String} {a : Atomic} :
    s.atomic name = .ok a ↔ s.atomic? name = some a := by
  unfold atomic
  cases s.atomic? name <;> simp

/-- Looking up a component fails only where there is none. -/
theorem component_eq_ok_iff {s : Schema} {name : String} {c : Component} :
    s.component name = .ok c ↔ s.component? name = some c := by
  unfold component
  cases s.component? name <;> simp

end Schema

/-- One step of setting up a schema. -/
inductive Declaration where
  | table (name : String)
  | secondary (name : String)
  | atomic (a : Atomic)
  | component (c : Component)
  | embed (property type : String)
  deriving DecidableEq, Repr

/-- A schema under construction: embedded types are still names. -/
structure Draft where
  name : String
  table : String
  secondary : List String := []
  embeddable : Bool := false
  atomics : List Atomic := []
  components : List Component := []
  embeds : List (String × String) := []

namespace Draft

/-- The empty draft of an entity type, stored in a table of its own name. -/
def entity (name : String) : Draft :=
  { name, table := name }

/-- The empty draft of an embeddable type, stored in its owner's table. -/
def embeddableIn (name table : String) : Draft :=
  { name, table, embeddable := true }

/-- Applies one declaration. A secondary table is listed once; the last primary table wins. -/
def declare (d : Draft) : Declaration → Draft
  | .table name => { d with table := name }
  | .secondary name =>
    if d.secondary.contains name then d else { d with secondary := d.secondary ++ [name] }
  | .atomic a => { d with atomics := d.atomics ++ [a] }
  | .component c => { d with components := d.components ++ [c] }
  | .embed property type => { d with embeds := d.embeds ++ [(property, type)] }

/-- Applies declarations in order. -/
def setUp (d : Draft) (steps : List Declaration) : Draft :=
  steps.foldl declare d

/-- The schema of a draft as it stands, unchecked: without primary key. -/
def toSchema (d : Draft) (primaryKey : Option Atomic) (embedded : List (String × Schema)) :
    Schema :=
  { d with primaryKey, embedded }

/-- The atomics that are declared as primary keys. -/
def keys (d : Draft) : List Atomic :=
  d.atomics.filter (·.primaryKey)

/-- Whether an atomic of a name is declared. -/
def hasAtomic (d : Draft) (name : String) : Bool :=
  d.atomics.any (·.name == name)

/-- An entity has one primary key, an embeddable type none. -/
def checkKeys (d : Draft) : Except Error Unit :=
  if d.embeddable then
    if d.keys.isEmpty then .ok () else .error (.invalidSchema d.name .embeddableKey)
  else if d.keys.length = 1 then .ok ()
  else .error (.primaryKeyCount d.name d.keys.length)

/-- Atomics have distinct names and are stored in declared tables; `earlier` are the names before
them. -/
def checkAtomics (d : Draft) : List String → List Atomic → Except Error Unit
  | _, [] => .ok ()
  | earlier, a :: rest =>
    if earlier.contains a.name then .error (.invalidSchema d.name (.duplicateProperty a.name))
    else
      let table := a.tableOr d.table
      if table ≠ d.table ∧ ¬d.secondary.contains table then
        .error (.invalidSchema d.name (.undeclaredTable a.name table))
      else d.checkAtomics (a.name :: earlier) rest

/-- Embedded properties have names of their own. -/
def checkEmbeds (d : Draft) : List String → List (String × String) → Except Error Unit
  | _, [] => .ok ()
  | earlier, (name, _) :: rest =>
    if d.hasAtomic name || d.components.any (·.name == name) || earlier.contains name then
      .error (.invalidSchema d.name (.duplicateProperty name))
    else d.checkEmbeds (name :: earlier) rest

/-- What is wrong with a component, if anything. -/
def componentFault? (d : Draft) (c : Component) : Option RelationFault :=
  if d.hasAtomic c.name then some .nameIsAtomic
  else match c.mappedBy, c.joinColumn with
    | some _, some _ => some .inverseOwnsColumn
    | none, none => some .noColumn
    | some _, none => none
    | none, some column =>
      if c.isToMany then
        match c.referenced with
        | some referenced => if d.hasAtomic referenced then none else some .referencedNotLocal
        | none => none
      else if d.hasAtomic column then none else some .columnNotLocal

/-- The first component with a fault is reported. -/
def checkComponents (d : Draft) : List Component → Except Error Unit
  | [] => .ok ()
  | c :: rest =>
    match d.componentFault? c with
    | some fault => .error (.malformedRelation d.name c.name fault)
    | none => d.checkComponents rest

/-- The rules of a draft, in the order in which a breach is reported. -/
def check (d : Draft) : Except Error Unit := do
  d.checkKeys
  d.checkAtomics [] d.atomics
  d.checkEmbeds [] d.embeds
  d.checkComponents d.components

/-- The finished schema of a draft whose embedded types are resolved. -/
def finish (d : Draft) (embedded : List (String × Schema)) : Except Error Schema := do
  d.check
  return d.toSchema d.keys.head? embedded

end Draft

end EntityGraph
