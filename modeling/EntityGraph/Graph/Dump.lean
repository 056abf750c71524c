import EntityGraph.Graph.Basic
import EntityGraph.Json.Document

/-!
# Documents of entities

The document of an entity holds its atomics that are set, the embedded components that have been
used, and the loaded relations. An entity that is already open on the way from the root is written as
its primary key, so the documents of cyclic graphs are finite.
-/

namespace EntityGraph.Graph

/-- An entity as its primary key alone. -/
def keyDocument (g : Graph) (e : EntityId) : Document :=
  match g.key? e with
  | some key => Document.ofValue key
  | none => Document.null

/-- The document of an entity; `path` holds the entities that are open. The first argument bounds the
length of the path. -/
def dumpFrom (g : Graph) : Nat → List EntityId → EntityId → Document
  | 0, _, e => g.keyDocument e
  | depth + 1, path, e =>
    if path.contains e then g.keyDocument e
    else
      let x := g.entity e
      let inner := dumpFrom g depth (e :: path)
      let atomics := x.schema.atomics.filterMap fun a =>
        (x.atomics.get? a.name).map fun slot => (a.name, Document.ofValue slot.value)
      let embedded := x.schema.embedded.filterMap fun s =>
        (x.embedded.get? s.1).map fun part => (s.1, inner part)
      let relations := (g.loadedRelations e).map fun r =>
        (r.1.name, match r.2 with
          | .one none => Document.null
          | .one (some target) => inner target
          | .many c => .list ((g.collection c).members.map inner))
      Document.ofFields (atomics ++ embedded ++ relations)

/-- The document of an entity. -/
def dump (g : Graph) (e : EntityId) : Document :=
  g.dumpFrom (g.entities.length + 1) [] e

end EntityGraph.Graph
