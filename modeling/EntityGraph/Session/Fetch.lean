import EntityGraph.Query.Mapper
import EntityGraph.Session.Basic

/-!
# Fetching

A session compiles a query, runs it on its connection, and reads the rows into the graph.
-/

namespace EntityGraph

variable {σ : Type}

namespace Session

/-- Compiles a query; walked paths are kept for later queries. -/
def compile (s : Session) (q : Query) : SessionM σ CompiledQuery := fun w =>
  match q.compile s.catalog w.paths with
  | (.ok compiled, paths) => .ok compiled { w with paths }
  | (.error e, paths) => .error e { w with paths }

/-- Reads rows with a mapper, which may have read rows before. The mapper as it then is comes with
the outcome, since what it has read before a failure stays read. -/
def mapRows (s : Session) (m : Mapper) (rows : List Row) (g : Graph) :
    Except Error (List Tuple) × Mapper × Graph :=
  match Mapper.mapRows s.catalog rows ⟨m, g⟩ with
  | .ok tuples st => (.ok tuples, st.mapper, st.graph)
  | .error e st => (.error e, st.mapper, st.graph)

/-- Reads rows into the graph with a fresh mapper. -/
def readRows (s : Session) (compiled : CompiledQuery) (rows : List Row) :
    SessionM σ (List Tuple) := fun w =>
  match s.mapRows compiled.mapper rows w.graph with
  | (.ok tuples, _, graph) => .ok tuples { w with graph }
  | (.error e, _, graph) => .error e { w with graph }

variable [Connection σ]

/-- The tuples of a query. -/
def fetch (s : Session) (q : Query) : SessionM σ (List Tuple) := do
  let compiled ← s.compile q
  let rows ← SessionM.onWire compiled.select.fetch
  s.readRows compiled rows

/-- The entities that the tuples of a query begin with. -/
def fetchEntities (s : Session) (q : Query) : SessionM σ (List EntityId) := do
  return (← s.fetch q).filterMap fun t => (t.at? 0).bind Item.entity?

/-- The entity of a type and primary key, if storage has it. -/
def find (s : Session) (entity : String) (key : Value) : SessionM σ (Option EntityId) := do
  let schema ← Act.ofExcept (s.catalog.schema entity)
  let a ← Act.ofExcept schema.key
  return (← s.fetchEntities {
    root := some entity
    filters := [⟨a.name, .eq, .one key⟩]
    limit := some 1 }).head?

end Session

end EntityGraph
