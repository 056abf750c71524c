import EntityGraph.Proofs.Occurrences
import EntityGraph.Session.Fetch

/-!
# Looking an entity up by its key

The query for the entity of a type and a key compiles, whatever paths have been walked before, to one
statement: the primary table is filtered by the key, every secondary table is left joined to it, and
one column is selected for each occurrence of an atomic.

## Main results

* `Lookup.addRoot_eq`: the plan of the entity's tables.
* `Lookup.compile_eq`: the statement and the plan of the query.
-/

namespace EntityGraph.Lookup

open Planner

variable {c : Catalog} {s : Schema} {key : Atomic} {type : String} {k : Value}

/-- A name that is a path of one segment. -/
def IsSegment (name : String) : Prop :=
  name ≠ "" ∧ '.' ∉ name.toList

instance (name : String) : Decidable (IsSegment name) :=
  inferInstanceAs (Decidable (_ ∧ _))

/-- The query for the entity of a type and a key. -/
def query (type : String) (key : Atomic) (k : Value) : Query where
  root := some type
  filters := [⟨key.name, .eq, .one k⟩]
  limit := some 1

/-- The only node of the query. -/
def node (s : Schema) : PlanNode where
  schema := s
  tableAlias := aliasFor s.table 0
  tables := (aliasesFrom 0 s.tables).reverse
  parent := none
  mapped := true

/-- The alias of a table. -/
def aliasOf (s : Schema) (table : String) : String :=
  ((node s).tables.lookup table).getD ""

/-- How the query refers to a cell. -/
def reference (s : Schema) (cell : String × String) : String :=
  aliasOf s cell.1 ++ "." ++ cell.2

/-- The label under which an occurrence is selected. -/
def label (s : Schema) (q : List String × Atomic) : String :=
  (node s).label q.1 q.2.name

/-- How a secondary table is joined. -/
def join (s : Schema) (key : Atomic) (table : String) : JoinClause where
  kind := .left
  table := ⟨table, some (aliasOf s table)⟩
  conditions := [.binary (.name (reference s (table, key.column))) .eq
    (.name (reference s (s.table, key.column)))]

/-- The plan under construction, once the root has been placed. -/
def planner (s : Schema) (key : Atomic) : Planner where
  nodes := [node s]
  byPath := [("", 0)]
  roots := [0]
  tables := [⟨s.table, some (aliasOf s s.table)⟩]
  joins := s.secondary.map (join s key)
  next := s.tables.length

/-- The finished plan: the entity is all that is answered. -/
def plan (s : Schema) : Plan where
  nodes := [node s]
  roots := [0]
  outputs := [.entity s.name 0]

/-- The statement of the query. -/
def select (s : Schema) (key : Atomic) (k : Value) : Select where
  columns := (s.occurrences []).map fun q =>
    (.name (reference s (s.cell q.2)), some (label s q))
  tables := [⟨s.table, some (aliasOf s s.table)⟩]
  joins := s.secondary.map (join s key)
  conditions := [.binary (.name (reference s (s.table, key.column))) .eq (.expr (.param k))]
  limit := some 1

/-- What a schema must be like for its entities to be read back as they were written: every atomic is
stored in a table of the schema, the key in the primary one, and no two in one cell; secondary tables
are other tables, and have the column of the key for the key alone; labels differ. -/
structure Consistent (s : Schema) (key : Atomic) : Prop where
  primary : s.table ∉ s.secondary
  keyTable : s.tableOf key = s.table
  declared : ∀ a ∈ s.deepAtomics, s.tableOf a ∈ s.tables
  cells : s.CellsDiffer
  keyColumn : ∀ a ∈ s.deepAtomics, s.tableOf a ≠ s.table → a.column ≠ key.column
  labels : ((s.occurrences []).map (label s)).Nodup

/-- The cells that belong to an entity: those of its atomics, and in every table one for its key. -/
def ownCells (s : Schema) (key : Atomic) : List (String × String) :=
  s.tables.map (·, key.column) ++ s.deepAtomics.map s.cell

/-- The query refers to different cells differently. -/
def ReferencesDiffer (s : Schema) (key : Atomic) : Prop :=
  ∀ x ∈ ownCells s key, ∀ y ∈ ownCells s key, reference s x = reference s y → x = y

instance (s : Schema) (key : Atomic) : Decidable (ReferencesDiffer s key) :=
  inferInstanceAs (Decidable (∀ x ∈ ownCells s key, ∀ y ∈ ownCells s key, _ → _))

/-! ### Aliases -/

/-- The aliases of a list of tables are looked up among those of the tables. -/
theorem lookup_aliasesFrom_isSome {table : String} {tables : List String} (h : table ∈ tables)
    (n : Nat) : ((aliasesFrom n tables).reverse.lookup table).isSome := by
  have hmem : table ∈ (aliasesFrom n tables).map (·.1) := by
    induction tables generalizing n with
    | nil => cases h
    | cons first tables ih =>
      rcases List.mem_cons.1 h with rfl | h
      · exact List.mem_cons_self
      · exact List.mem_cons_of_mem _ (ih h _)
  obtain ⟨p, hp, rfl⟩ := List.mem_map.1 hmem
  exact List.lookup_isSome_iff.2 ⟨p, List.mem_reverse.2 hp, beq_self_eq_true _⟩

/-- Every table of the schema has an alias. -/
theorem lookup_tables {table : String} (h : table ∈ s.tables) :
    (node s).tables.lookup table = some (aliasOf s table) := by
  obtain ⟨name, hname⟩ := Option.isSome_iff_exists.1 (lookup_aliasesFrom_isSome h 0)
  have hname : (node s).tables.lookup table = some name := hname
  rw [aliasOf, hname]
  rfl

/-- Tables that are not listed have no alias among them. -/
theorem lookup_aliasesFrom_eq_none {table : String} {tables : List String} (h : table ∉ tables)
    (n : Nat) : (aliasesFrom n tables).reverse.lookup table = none := by
  rw [List.lookup_eq_none_iff]
  intro p hp
  rw [List.mem_reverse] at hp
  induction tables generalizing n with
  | nil => cases hp
  | cons first tables ih =>
    rw [List.mem_cons, not_or] at h
    rcases List.mem_cons.1 hp with rfl | hp
    · simpa using h.1
    · exact ih h.2 _ hp

/-- A primary table that is not listed again has the first alias. -/
theorem aliasOf_table (h : s.table ∉ s.secondary) : aliasOf s s.table = aliasFor s.table 0 := by
  have hrest := lookup_aliasesFrom_eq_none h 1
  unfold aliasOf node Schema.tables
  simp only [aliasesFrom, List.reverse_cons, List.lookup_append, hrest]
  simp

/-- A column is referred to by the alias of its table. -/
theorem column_eq {a : Atomic} (h : s.tableOf a ∈ s.tables) :
    (node s).column s a = .ok (reference s (s.cell a)) := by
  unfold PlanNode.column
  rw [lookup_tables h]
  rfl

/-! ### The statement -/

/-- Secondary tables are joined by the primary key. -/
theorem joinSecondaries_run {p : Planner} {i : Nat} (hnode : p.node i = node s)
    (hkey : s.primaryKey = some key) (htable : s.table ∉ s.secondary) :
    (joinSecondaries i).run p =
      .ok ((), { p with joins := p.joins ++ s.secondary.map (join s key) }) := by
  have hok : (p.node i).schema.key = .ok key := by
    rw [hnode]
    exact Schema.key_eq_ok_iff.2 hkey
  unfold joinSecondaries
  rw [StateT.run_bind]
  refine bind_eq_ok_iff.2 ⟨_, StateT.run_get _, ?_⟩
  rw [StateT.run_bind]
  refine bind_eq_ok_iff.2 ⟨(key, p), by rw [hok]; rfl, ?_⟩
  unfold join reference
  rw [hnode, aliasOf_table htable]
  rfl

/-- Placing the root makes one node and joins its secondary tables. -/
theorem addRoot_eq (hkey : s.primaryKey = some key) (htable : s.table ∉ s.secondary) :
    (addRoot "" s).run {} = .ok ((), planner s key) := by
  have hpush : (pushNode s none).run {} =
      .ok (0, { nodes := [{ node s with mapped := false }], next := s.tables.length }) := by
    simp [pushNode, node, StateT.run]
  have hplaced : ((({ nodes := [{ node s with mapped := false }], next := s.tables.length } :
      Planner).setMapped 0).placeRoot 0).node 0 = node s := rfl
  unfold addRoot
  rw [StateT.run_bind]
  refine bind_eq_ok_iff.2 ⟨_, hpush, ?_⟩
  rw [StateT.run_bind]
  refine bind_eq_ok_iff.2 ⟨_, StateT.run_modify _ _, ?_⟩
  rw [StateT.run_bind]
  refine bind_eq_ok_iff.2 ⟨_, joinSecondaries_run hplaced hkey htable, ?_⟩
  rw [StateT.run_modify]
  unfold planner
  rw [aliasOf_table htable]
  rfl

/-- In a coherent schema, no relation and no embedded property has the name of an atomic. -/
theorem names_of_coherent (hs : s.Coherent) (hmem : key ∈ s.atomics) :
    s.component? key.name = none ∧ s.embedded? key.name = none ∧ s.atomic? key.name = some key := by
  refine ⟨?_, ?_, hs.atomic?_name hmem⟩
  · refine List.find?_eq_none.2 fun comp hcomp => ?_
    simpa using hs.component_ne_atomic comp hcomp key hmem
  · unfold Schema.embedded?
    rw [Option.map_eq_none_iff, List.find?_eq_none]
    intro p hp
    simpa using hs.embedded_ne_atomic p hp key hmem

/-- The name of the key is a path to something, whatever is known of other paths. -/
theorem resolve_eq (hs : s.Coherent) (hmem : key ∈ s.atomics) (hname : IsSegment key.name)
    (cache : PathCache) : ∃ r cache',
      ({ root := some s } : Scope).resolve c key.name cache = (.ok r, cache') := by
  obtain ⟨hcomponent, hembedded, hatomic⟩ := names_of_coherent hs hmem
  unfold Scope.resolve
  rw [Text.splitDots_of_not_mem hname.2]
  have hnonempty : [key.name].contains "" = false := by simpa using hname.1.symm
  simp only [hnonempty, Bool.false_eq_true, if_false, Scope.start?]
  cases hfound : cache.find? s.name [key.name] with
  | some r => exact ⟨r, cache, rfl⟩
  | none =>
    simp only [Scope.walk, List.nil_append, hfound, Resolution.step, hcomponent, hembedded, hatomic]
    exact ⟨_, _, rfl⟩

/-- The name of the key leads to the key, without any join. -/
theorem walk_eq (hs : s.Coherent) (hmem : key ∈ s.atomics) (hname : IsSegment key.name) :
    (walk c true key.name false).run (planner s key) =
      .ok (.scalar 0 [] s key, planner s key) := by
  obtain ⟨hcomponent, hembedded, hatomic⟩ := names_of_coherent hs hmem
  have hfrom : (walkFrom c key.name false 0 "" [] s [key.name]).run (planner s key) =
      .ok (.scalar 0 [] s key, planner s key) := by
    simp only [walkFrom, hcomponent, hembedded, hatomic]
    rfl
  unfold walk
  rw [StateT.run_bind]
  refine bind_eq_ok_iff.2 ⟨_, StateT.run_get _, ?_⟩
  simp only [if_true, Text.splitDots_of_not_mem hname.2]
  exact hfrom

/-- The filter compares the key's column in the primary table. -/
theorem compileFilter_eq (hs : s.Coherent) (hmem : key ∈ s.atomics) (hname : IsSegment key.name)
    (hkeyTable : s.tableOf key = s.table) (cache : PathCache) : ∃ cache',
      Query.compileFilter c { root := some s } ⟨key.name, .eq, .one k⟩ ⟨planner s key, cache⟩ =
        .ok (.binary (.name (reference s (s.table, key.column))) .eq (.expr (.param k)))
          ⟨planner s key, cache'⟩ := by
  obtain ⟨r, cache', hresolve⟩ := resolve_eq (c := c) hs hmem hname cache
  have hvisit : Query.visit c { root := some s } key.name false ⟨planner s key, cache⟩ =
      .ok (.scalar 0 [] s key) ⟨planner s key, cache'⟩ := by
    unfold Query.visit
    simp only [hresolve]
    rw [Option.isSome_some, walk_eq hs hmem hname]
  have hcolumn : (planner s key).columnOf key.name (.scalar 0 [] s key) =
      .ok (reference s (s.table, key.column)) := by
    have htable : s.tableOf key ∈ s.tables := hkeyTable ▸ List.mem_cons_self
    have hcolumn := column_eq htable
    unfold Schema.cell at hcolumn
    rwa [hkeyTable] at hcolumn
  refine ⟨cache', ?_⟩
  unfold Query.compileFilter Query.compileColumn
  simp only [bind, EStateM.bind, hvisit, Act.get_apply, hcolumn, pure, EStateM.pure]
  rfl

/-- One column is selected for each occurrence. -/
theorem selectedColumns_eq (key : Atomic) (htable : ∀ t : Schema, t.Within s → t.table = s.table)
    (hdeclared : ∀ a ∈ s.deepAtomics, s.tableOf a ∈ s.tables) :
    (planner s key).selectedColumns = .ok ((s.occurrences []).map fun q =>
      (.name (reference s (s.cell q.2)), some (label s q))) := by
  have hcolumns := columnsOf_eq (n := node s) (r := s) (s := s) [] htable fun a ha =>
    column_eq (hdeclared a ha)
  have hmapped : (planner s key).nodes.filter (·.mapped) = [node s] := rfl
  unfold selectedColumns
  rw [hmapped]
  rw [List.mapM_cons, List.mapM_nil]
  refine bind_eq_ok_iff.2 ⟨_, bind_eq_ok_iff.2 ⟨_, hcolumns, rfl⟩, ?_⟩
  rw [List.flatten_singleton]
  rfl

/-- The only node is no collection of another one. -/
theorem toPlan_eq : (planner s key).toPlan [.entity s.name 0] = plan s := by
  have hmany : (planner s key).toManyOf 0 = [] := rfl
  unfold toPlan plan
  show (⟨[{ node s with toMany := (planner s key).toManyOf 0 }], [0], _⟩ : Plan) = _
  rw [hmany]
  rfl

/-- The query compiles, whatever paths have been walked before. -/
theorem compile_eq (hs : c.schema type = .ok s) (hkey : s.primaryKey = some key)
    (hc : Consistent s key) (hname : IsSegment key.name) (cache : PathCache) : ∃ cache',
      (query type key k).compile c cache = (.ok ⟨select s key k, plan s⟩, cache') := by
  have hmem := Catalog.mem_of_primaryKey hs hkey
  have hcoherent := Catalog.coherent_of_within hs (.refl s)
  have hscope : (query type key k).scope c = .ok { root := some s } := by
    show (c.schema type >>= fun s => pure ({ root := some s } : Scope)) = _
    rw [hs]
    rfl
  have hroots : ((query type key k).plannedRoots c { root := some s }).run {} =
      .ok ([.entity s.name 0], planner s key) := by
    show (addRoot "" s >>= fun _ => pure [Output.entity s.name 0]).run {} = _
    rw [StateT.run_bind]
    exact bind_eq_ok_iff.2 ⟨_, addRoot_eq hkey hc.primary, rfl⟩
  obtain ⟨cache', hfilter⟩ :=
    compileFilter_eq (c := c) (k := k) hcoherent hmem hname hc.keyTable cache
  have hcolumns := selectedColumns_eq key (fun t ht => Catalog.table_of_within hs ht)
    hc.declared
  have hbody : Query.compileBody c (query type key k) { root := some s } [.entity s.name 0]
      ⟨planner s key, cache⟩ = .ok ⟨select s key k, plan s⟩ ⟨planner s key, cache'⟩ := by
    unfold Query.compileBody query
    simp only [List.mapM_nil, List.mapM_cons, bind, EStateM.bind, pure, EStateM.pure, hfilter,
      Act.get_apply, hcolumns, Query.rawColumns, List.filterMap_nil, List.append_nil, toPlan_eq]
    rfl
  refine ⟨cache', ?_⟩
  unfold Query.compile
  simp only [hscope, hroots, EStateM.run, hbody]

end EntityGraph.Lookup
