import EntityGraph.Graph.Members
import EntityGraph.Query.Plan
import EntityGraph.Query.Tuple
import EntityGraph.Row

/-!
# Reading rows back into the graph

A `Mapper` reads the flat rows of one compiled query. It keeps one entity for each entity type and
primary key, so that rows that repeat an entity, as the rows of a joined collection do, add to the
same instance. A row makes a tuple when the keys of its roots differ from those of the row before;
later rows of the same roots only add members and to-one targets to entities that were returned
already.
-/

namespace EntityGraph

/-- The state of reading the rows of a query. -/
structure Mapper where
  plan : Plan
  /-- The entity of each type and primary key that was read. -/
  identity : Assoc (String × Value) EntityId := []
  /-- The root keys of the row before. -/
  lastRoots : List (Option Value)
  deriving Inhabited

/-- A mapper for the rows of a query, with nothing read yet. -/
def CompiledQuery.mapper (q : CompiledQuery) : Mapper where
  plan := q.plan
  lastRoots := q.plan.roots.map fun _ => none

/-- What reading rows changes. -/
structure Mapping where
  mapper : Mapper
  graph : Graph

/-- Work on a mapper and the graph that it reads into. -/
abbrev MapM (α : Type) := Act Mapping α

namespace Mapper

/-- Work on the graph while rows are read. -/
def onGraph {α : Type} (act : GraphM α) : MapM α :=
  Act.onPart Mapping.graph (fun m graph => { m with graph }) act

/-- The value under a label as a value of an atomic; a missing label reads as null. -/
def cell (s : Schema) (a : Atomic) (row : Row) (label : String) : Except Error Value :=
  a.coerce s.name ((row.get? label).getD .null)

mutual

/-- Loads the atomics of a schema at a node, then those of its embedded schemas. -/
def loadPart (n : PlanNode) (row : Row) (path : List String) : Schema → EntityId → GraphM Unit
  | s@⟨_, _, _, _, _, atomics, _, embedded⟩, e => do
    let values ← atomics.mapM fun a => do
      return (a.name, ← Act.ofExcept (cell s a row (n.label path a.name)))
    Graph.loadAtomics e values
    loadEmbedded n row path embedded e

/-- The part for a list of embedded schemas. -/
def loadEmbedded (n : PlanNode) (row : Row) (path : List String) :
    List (String × Schema) → EntityId → GraphM Unit
  | [], _ => pure ()
  | (name, s) :: rest, e => do
    let part ← Graph.embedded e name
    loadPart n row (path ++ [name]) s part
    loadEmbedded n row path rest e

end

/-- Makes sure that an entity has the collections that a node asks for. -/
def openCollections (c : Catalog) (n : PlanNode) (e : EntityId) : GraphM Unit :=
  n.toMany.forM fun name => do let _ ← Graph.many c e name

/-- The entity of a node in a row, if it has one: a known instance, or a new one with the values of
the row. -/
def entityAt (c : Catalog) (n : PlanNode) (row : Row) : MapM (Option EntityId) := do
  let a ← Act.ofExcept n.schema.key
  let key ← Act.ofExcept (cell n.schema a row (n.label [] a.name))
  if key.isNull then return none
  match (← get).mapper.identity.get? (n.schema.name, key) with
  | some e =>
    onGraph (openCollections c n e)
    return some e
  | none =>
    let e ← onGraph do
      let e ← Graph.newEntity n.schema
      loadPart n row [] n.schema e
      modify (·.markStored e)
      openCollections c n e
      return e
    modify fun m =>
      { m with mapper :=
        { m.mapper with identity := m.mapper.identity.put (n.schema.name, key) e } }
    return some e

/-- The entities of the nodes of a row; a node without its parent's entity has none. -/
def entitiesAt (c : Catalog) (row : Row) :
    List PlanNode → List (Option EntityId) → MapM (List (Option EntityId))
  | [], current => return current
  | n :: rest, current => do
    let present := match n.parent with
      | some (parent, _) => ((current[parent]?).bind id).isSome
      | none => true
    let e ← if n.mapped && present then entityAt c n row else pure none
    entitiesAt c row rest (current ++ [e])

/-- The entity of a node in a row. -/
def entityOf (current : List (Option EntityId)) (node : Nat) : Option EntityId :=
  (current[node]?).bind id

/-- Connects the entities of a row along the relations of the plan. -/
def connect (c : Catalog) (current : List (Option EntityId)) (n : PlanNode)
    (e : Option EntityId) : GraphM Unit :=
  match n.parent with
  | none => pure ()
  | some (parent, comp) =>
    match n.mapped, entityOf current parent with
    | true, some owner =>
      if comp.isToMany then do
        let id ← Graph.many c owner comp.name
        if let some member := e then
          let _ ← Graph.append id member
      else Graph.loadOne owner comp.name e
    | _, _ => pure ()

/-- The value of an output in a row. -/
def itemAt (c : Catalog) (current : List (Option EntityId)) (row : Row) : Output → GraphM Item
  | .entity _ node => return ((entityOf current node).map Item.entity).getD .absent
  | .collection _ node name =>
    match entityOf current node with
    | some owner => return .collection (← Graph.many c owner name)
    | none => return .absent
  | .embedded _ node path =>
    match entityOf current node with
    | some owner => return .entity (← Graph.embeddedAt owner path)
    | none => return .absent
  | .scalar _ node path atomic =>
    match entityOf current node with
    | some owner => do
      let e ← Graph.embeddedAt owner path
      return .scalar (← Act.ofExcept ((← get).value e atomic))
    | none => return .absent
  | .raw _ label => return .scalar ((row.get? label).getD .null)

/-- Whether the keys of the roots begin a new tuple: some root exists and is not the one of the row
before. -/
def isNew (before now : List (Option Value)) : Bool :=
  (before.zip now).any fun p => p.2.isSome && p.2 != p.1

/-- Reads one row; answers a tuple if the row begins a new one. -/
def mapRow (c : Catalog) (row : Row) : MapM (Option Tuple) := do
  let plan := (← get).mapper.plan
  let current ← entitiesAt c row plan.nodes []
  onGraph ((plan.nodes.zip current).forM fun p => connect c current p.1 p.2)
  let m ← get
  let roots := plan.roots.map fun i => (entityOf current i).bind m.graph.key?
  set { m with mapper := { m.mapper with lastRoots := roots } }
  if isNew m.mapper.lastRoots roots then
    let items ← onGraph (plan.outputs.mapM fun o => do return (o.key, ← itemAt c current row o))
    return some items
  else return none

/-- Reads rows in order; answers the tuples that they begin. -/
def mapRows (c : Catalog) : List Row → MapM (List Tuple)
  | [] => return []
  | row :: rows => do
    let tuple ← mapRow c row
    return tuple.toList ++ (← mapRows c rows)

end Mapper

end EntityGraph
