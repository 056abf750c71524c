import EntityGraph.Query.Basic

/-!
# Query plans

Compiling a query walks every path through the schemas and gives each visited relation one aliased
occurrence of its target, a `PlanNode`. The tables of a node are aliased `{table}_{n}` in the order
in which nodes are first visited, its secondary tables right after its primary table. The result is
one flat `SELECT` and the `Plan` by which its rows are read back: nodes whose columns are selected
are *mapped*, and every selection has an `Output`.

Compiling also walks the paths through a `PathCache`, which keeps what was walked even when the
query turns out not to compile.
-/

namespace EntityGraph

/-- One occurrence of an entity in a query. -/
structure PlanNode where
  schema : Schema
  /-- The alias of the primary table. -/
  tableAlias : String
  /-- The aliases of all tables; the latest comes first. -/
  tables : List (String × String)
  /-- The node and the component that this node was joined through. -/
  parent : Option (Nat × Component)
  /-- Whether the node's columns are selected. -/
  mapped : Bool := false
  /-- The to-many components that entities read at this node get a collection for. -/
  toMany : List String := []
  deriving Inhabited

/-- What one position of a result holds, and how it is read. -/
inductive Output where
  | entity (key : String) (node : Nat)
  | collection (key : String) (node : Nat) (component : String)
  | embedded (key : String) (node : Nat) (path : List String)
  | scalar (key : String) (node : Nat) (path : List String) (atomic : String)
  | raw (key : String) (label : String)
  deriving DecidableEq, Repr

/-- The key under which an output is returned. -/
def Output.key : Output → String
  | entity key _ | collection key _ _ | embedded key _ _ | scalar key _ _ _ | raw key _ => key

/-- How rows are read back. Parents come before their children. -/
structure Plan where
  nodes : List PlanNode
  roots : List Nat
  outputs : List Output
  deriving Inhabited

/-- The keys of a result, in order. -/
def Plan.keys (p : Plan) : List String :=
  p.outputs.map Output.key

/-- A compiled query. -/
structure CompiledQuery where
  select : Select
  plan : Plan

namespace PlanNode

/-- The aliased column that stores an atomic of a schema, which is the node's schema or embedded in
it. -/
def column (n : PlanNode) (s : Schema) (a : Atomic) : Except Error String :=
  match n.tables.lookup (s.tableOf a) with
  | some name => .ok (name ++ "." ++ a.column)
  | none => .error (.invalidSchema s.name (.tableNotJoined (s.tableOf a) a.name))

/-- The label under which an atomic is selected, reached through embedded properties. -/
def label (n : PlanNode) (path : List String) (atomic : String) : String :=
  String.join (n.tableAlias :: (path ++ [atomic]).map ("_" ++ ·))

end PlanNode

/-- A plan under construction. -/
structure Planner where
  nodes : List PlanNode := []
  /-- The node of a path from a root; the latest entry comes first. -/
  byPath : List (String × Nat) := []
  roots : List Nat := []
  tables : List TableRef := []
  joins : List JoinClause := []
  /-- The number of the next alias. -/
  next : Nat := 0
  deriving Inhabited

/-- What a path reaches in a plan. -/
inductive Reached where
  | node (n : Nat)
  | embedded (n : Nat) (path : List String)
  | scalar (n : Nat) (path : List String) (owner : Schema) (a : Atomic)

/-- Work on a plan, given up at the first error. -/
abbrev PlanM := StateT Planner (Except Error)

namespace Planner

/-- The node at a position. -/
def node (p : Planner) (i : Nat) : PlanNode :=
  p.nodes.getD i default

/-- A numbered alias. -/
def aliasFor (table : String) (n : Nat) : String :=
  table ++ "_" ++ Value.intText n

/-- The aliases of a list of tables, numbered upwards. -/
def aliasesFrom : Nat → List String → List (String × String)
  | _, [] => []
  | n, t :: ts => (t, aliasFor t n) :: aliasesFrom (n + 1) ts

/-- Adds a node with fresh aliases for all its tables; answers its position. -/
def pushNode (s : Schema) (parent : Option (Nat × Component)) : PlanM Nat := fun p =>
  let aliases := aliasesFrom p.next s.tables
  let node : PlanNode :=
    { schema := s, tableAlias := aliasFor s.table p.next, tables := aliases.reverse, parent }
  .ok (p.nodes.length,
    { p with nodes := p.nodes ++ [node], next := p.next + s.tables.length })

/-- Joins a node's secondary tables by its primary key. -/
def joinSecondaries (i : Nat) : PlanM Unit := do
  let p ← get
  let n := p.node i
  let key ← liftM n.schema.key
  let clauses := n.schema.secondary.map fun table =>
    let name := (n.tables.lookup table).getD ""
    ({ kind := .left
       table := ⟨table, some name⟩
       conditions := [.binary (.name (name ++ "." ++ key.column)) .eq
         (.name (n.tableAlias ++ "." ++ key.column))] } : JoinClause)
  set { p with joins := p.joins ++ clauses }

/-- Puts the primary table of a root into the plan: the first root stands in the `FROM` clause, the
others are cross joined. -/
def placeRoot (p : Planner) (i : Nat) : Planner :=
  let n := p.node i
  let table : TableRef := ⟨n.schema.table, some n.tableAlias⟩
  if p.tables.isEmpty then { p with tables := [table] }
  else { p with joins := p.joins ++ [⟨.cross, table, []⟩] }

/-- Selects the columns of a node. -/
def setMapped (p : Planner) (i : Nat) : Planner :=
  { p with nodes := p.nodes.set i { p.node i with mapped := true } }

/-- Adds a root. -/
def addRoot (key : String) (s : Schema) : PlanM Unit := do
  let i ← pushNode s none
  modify fun p => (p.setMapped i).placeRoot i
  joinSecondaries i
  modify fun p => { p with byPath := (key, i) :: p.byPath, roots := p.roots ++ [i] }

/-- The node of a component of a node, joined on first use. The target's side of the join must be
stored in its primary table. -/
def child (c : Catalog) (parent : Nat) (key : String) (comp : Component) : PlanM Nat := do
  match (← get).byPath.lookup key with
  | some i => return i
  | none =>
    let owner := ((← get).node parent).schema
    let target ← liftM (c.schema comp.target)
    let join ← liftM (c.join owner comp)
    let here ← liftM (owner.atomic join.localAtomic)
    let there ← liftM (target.atomic join.remoteAtomic)
    if target.tableOf there ≠ target.table then
      throw (.malformedRelation owner.name comp.name (.columnNotPrimary there.name target.name))
    let i ← pushNode target (some (parent, comp))
    let p ← get
    let left ← liftM ((p.node i).column target there)
    let right ← liftM ((p.node parent).column owner here)
    let clause : JoinClause :=
      { kind := .left
        table := ⟨target.table, some (p.node i).tableAlias⟩
        conditions := [.binary (.name left) .eq (.name right)] }
    set { p with joins := p.joins ++ [clause] }
    joinSecondaries i
    modify fun p => { p with byPath := (key, i) :: p.byPath }
    return i

/-- The root that a first segment names: a path that is known, or the only root of a type. -/
def root? (p : Planner) (segment : String) : Option Nat :=
  match p.byPath.lookup segment with
  | some i => some i
  | none => match p.roots.filter fun i => (p.node i).schema.name == segment with
    | [i] => some i
    | _ => none

/-- Walks segments from a node, or from a schema embedded in it. Every relation on the way is
joined; with `mapped`, what it leads to is mapped. -/
def walkFrom (c : Catalog) (chain : String) (mapped : Bool) :
    Nat → String → List String → Schema → List String → PlanM Reached
  | i, _, path, _, [] => return if path.isEmpty then .node i else .embedded i path
  | i, key, path, s, segment :: rest =>
    match s.component? segment, s.embedded? segment, s.atomic? segment with
    | some comp, _, _ => do
      if ¬path.isEmpty then throw (.unresolved chain)
      let key := if key.isEmpty then comp.name else key ++ "." ++ comp.name
      let j ← child c i key comp
      if mapped then modify (·.setMapped j)
      walkFrom c chain mapped j key path ((← get).node j).schema rest
    | none, some e, _ => walkFrom c chain mapped i key (path ++ [segment]) e rest
    | none, none, some a => return .scalar i path s a
    | none, none, none => throw (.unresolved chain)

/-- Walks a path from its root. -/
def walk (c : Catalog) (rooted : Bool) (chain : String) (mapped : Bool) : PlanM Reached := do
  let p ← get
  let segments := Text.splitDots chain
  if rooted then walkFrom c chain mapped 0 "" [] (p.node 0).schema segments
  else match segments with
    | [] => throw (.unresolved chain)
    | first :: rest => match p.root? first with
      | none => throw (.unresolved chain)
      | some i => walkFrom c chain mapped i first [] (p.node i).schema rest

/-- The output of a selected path. -/
def outputOf (p : Planner) (key : String) : Reached → Output
  | .node i => match (p.node i).parent with
    | some (parent, comp) =>
      if comp.isToMany then .collection key parent comp.name else .entity key i
    | none => .entity key i
  | .embedded i path => .embedded key i path
  | .scalar i path _ a => .scalar key i path a.name

/-- The column that a filter or an ordering compares. -/
def columnOf (p : Planner) (chain : String) : Reached → Except Error String
  | .scalar i _ owner a => (p.node i).column owner a
  | .node i => do
    let n := p.node i
    n.column n.schema (← n.schema.key)
  | .embedded _ _ => .error (.unresolved chain)

/-- The to-many components that lead from a node to mapped nodes, without repetition. -/
def toManyOf (p : Planner) (i : Nat) : List String :=
  (p.nodes.filterMap fun n => match n.parent with
    | some (parent, comp) =>
      if n.mapped ∧ parent = i ∧ comp.isToMany then some comp.name else none
    | none => none).eraseDups

mutual

/-- The selected columns of a schema at a node: its atomics, then those of its embedded schemas. -/
def columnsOf (n : PlanNode) (path : List String) :
    Schema → Except Error (List (Operand × Option String))
  | s@⟨_, _, _, _, _, atomics, _, embedded⟩ => do
    let own ← atomics.mapM fun a => do
      return (Operand.name (← n.column s a), some (n.label path a.name))
    return own ++ (← columnsOfEmbedded n path embedded)

/-- The part for a list of embedded schemas. -/
def columnsOfEmbedded (n : PlanNode) (path : List String) :
    List (String × Schema) → Except Error (List (Operand × Option String))
  | [] => return []
  | (name, s) :: rest => do
    return (← columnsOf n (path ++ [name]) s) ++ (← columnsOfEmbedded n path rest)

end

/-- Selected are the columns of the own atomics, and then those of the embedded schemas. -/
theorem columnsOf_def (n : PlanNode) (path : List String) (s : Schema) : columnsOf n path s = (do
    let own ← s.atomics.mapM fun a => do
      return (Operand.name (← n.column s a), some (n.label path a.name))
    return own ++ (← columnsOfEmbedded n path s.embedded)) := by
  cases s
  rfl

theorem columnsOfEmbedded_cons (n : PlanNode) (path : List String) (p : String × Schema)
    (l : List (String × Schema)) : columnsOfEmbedded n path (p :: l) = (do
      return (← columnsOf n (path ++ [p.1]) p.2) ++ (← columnsOfEmbedded n path l)) := rfl

/-- The columns of all mapped nodes. -/
def selectedColumns (p : Planner) : Except Error (List (Operand × Option String)) := do
  let parts ← (p.nodes.filter (·.mapped)).mapM fun n => columnsOf n [] n.schema
  return parts.flatten

/-- The finished plan. -/
def toPlan (p : Planner) (outputs : List Output) : Plan where
  nodes := p.nodes.mapIdx fun i n => { n with toMany := p.toManyOf i }
  roots := p.roots
  outputs := outputs

end Planner

namespace Query

/-- The scope in which the paths of a query are walked. -/
def scope (c : Catalog) (q : Query) : Except Error Scope :=
  match q.root with
  | some root => Scope.rooted c root
  | none =>
    if q.roots.isEmpty then .error (.malformedStatement .queryWithoutRoot)
    else q.roots.foldlM (fun sc r => sc.addAlias c r.1 r.2) {}

/-- The plan of the roots alone. -/
def plannedRoots (c : Catalog) (q : Query) (sc : Scope) : PlanM (List Output) :=
  match sc.root with
  | some root => do
    Planner.addRoot "" root
    return [.entity root.name 0]
  | none => do
    q.roots.forM fun r => do Planner.addRoot r.1 (← liftM (c.schema r.2))
    return []

/-- A compilation: the plan so far, and the cache of walked paths. -/
structure Progress where
  planner : Planner
  cache : PathCache

/-- Work on a compilation; the walked paths survive a failure. -/
abbrev CompileM := EStateM Error Progress

/-- Resolves a path, then walks it in the plan. -/
def visit (c : Catalog) (sc : Scope) (chain : String) (mapped : Bool) : CompileM Reached :=
  fun st =>
    match sc.resolve c chain st.cache with
    | (.error e, cache) => .error e { st with cache }
    | (.ok _, cache) =>
      match (Planner.walk c sc.root.isSome chain mapped).run st.planner with
      | .error e => .error e { st with cache }
      | .ok (reached, planner) => .ok reached ⟨planner, cache⟩

/-- The output of a selection. -/
def compileSelection (c : Catalog) (sc : Scope) : Selection → CompileM Output
  | .path p => do
    let reached ← visit c sc p true
    return (← get).planner.outputOf p reached
  | .raw _ label => return .raw label label

/-- The column that a path is compared by. -/
def compileColumn (c : Catalog) (sc : Scope) (chain : String) : CompileM String := do
  let reached ← visit c sc chain false
  match (← get).planner.columnOf chain reached with
  | .ok column => return column
  | .error e => throw e

/-- The condition of a filter. -/
def compileFilter (c : Catalog) (sc : Scope) (f : Filter) : CompileM Expr := do
  return .binary (.name (← compileColumn c sc f.path)) f.op (.expr f.value.toExpr)

/-- The raw columns of a query, in order. -/
def rawColumns (q : Query) : List (Operand × Option String) :=
  q.selections.filterMap fun
    | .path _ => none
    | .raw sql label => some (.expr (.verbatim sql), some label)

/-- Selections first, then filters, then the ordering. -/
def compileBody (c : Catalog) (q : Query) (sc : Scope) (rootOutputs : List Output) :
    CompileM CompiledQuery := do
  let outputs ← q.selections.mapM (compileSelection c sc)
  let conditions ← q.filters.mapM (compileFilter c sc)
  let orderBy ← q.order.mapM fun o => do return (← compileColumn c sc o.1, o.2)
  let p := (← get).planner
  match p.selectedColumns with
  | .error e => throw e
  | .ok columns =>
    return {
      select := {
        columns := columns ++ q.rawColumns
        tables := p.tables
        joins := p.joins
        conditions, orderBy
        limit := q.limit
        offset := q.offset }
      plan := p.toPlan (rootOutputs ++ outputs) }

/-- The statement and the plan of a query. -/
def compile (c : Catalog) (q : Query) (cache : PathCache) :
    Except Error CompiledQuery × PathCache :=
  match q.scope c with
  | .error e => (.error e, cache)
  | .ok sc =>
    match (q.plannedRoots c sc).run {} with
    | .error e => (.error e, cache)
    | .ok (rootOutputs, planner) =>
      match (compileBody c q sc rootOutputs).run ⟨planner, cache⟩ with
      | .ok compiled st => (.ok compiled, st.cache)
      | .error e st => (.error e, st.cache)

end Query

end EntityGraph
