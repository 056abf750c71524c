import EntityGraph.Connection.Basic
import EntityGraph.Graph.Members
import EntityGraph.Path

/-!
# Sessions

A session works on the graph in memory, on a connection, and on the paths walked so far, all of which
make up its `World`. What it knows about types, and how it saves, is fixed in the `Session` itself.
-/

namespace EntityGraph

/-- How a session saves. -/
structure Config where
  /-- Check the constraints of atomics before they are written. -/
  validate : Bool := true
  /-- Save owned targets before an entity, and loaded relations after it. -/
  cascade : Bool := true
  deriving DecidableEq, Repr, Inhabited

/-- What a session knows of types, and how it saves. -/
structure Session where
  catalog : Catalog
  config : Config := {}
  deriving Inhabited

/-- What a session works on. -/
structure World (σ : Type) where
  graph : Graph := {}
  wire : Wire σ
  paths : PathCache := {}

/-- Work of a session. -/
abbrev SessionM (σ α : Type) := Act (World σ) α

namespace SessionM

variable {σ α : Type}

/-- Work on the graph alone. -/
def onGraph (act : GraphM α) : SessionM σ α :=
  Act.onPart World.graph (fun w graph => { w with graph }) act

/-- Work on the connection alone. -/
def onWire (act : WireM σ α) : SessionM σ α :=
  Act.onPart World.wire (fun w wire => { w with wire }) act

end SessionM

/-- The primary key of an entity, which must be set. -/
def Graph.requireKey (g : Graph) (e : EntityId) : Except Error Value :=
  match g.key? e with
  | some key => .ok key
  | none =>
    let s := (g.entity e).schema
    .error (.violation s.name (s.keyName?.getD "") .keyNotSet)

/-- A new entity of a type, which storage does not have. -/
def Session.create {σ : Type} (s : Session) (entity : String) : SessionM σ EntityId := do
  let schema ← Act.ofExcept (s.catalog.schema entity)
  SessionM.onGraph (Graph.newEntity schema)

end EntityGraph
