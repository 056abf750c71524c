import EntityGraph.Proofs.Lookup
import EntityGraph.Proofs.Planning

/-!
# Scopes of compiled queries

The aliases of a plan are numbered upwards, over primary and secondary tables of all nodes alike, in
the order in which the tables are introduced. A number is read back from its alias, so no alias is
introduced twice, and what a query refers to is found among the tables that were introduced.

## Main result

* `Query.wellScoped_of_compile`: no alias of a compiled query is given to two tables, and every column
  that it refers to is one of a table with an alias.
-/

namespace EntityGraph

namespace Planner

variable {c : Catalog} {p p' : Planner} {s : Schema} {n : PlanNode} {key : Atomic} {table : String}

/-! ### Aliases -/

/-- The number at the end of an alias. -/
def numberOf (name : String) : Nat :=
  Nat.ofDigitChars 10 (name.toList.reverse.takeWhile Char.isDigit).reverse 0

/-- The number is read back from an alias. -/
theorem numberOf_aliasFor (table : String) (n : Nat) : numberOf (aliasFor table n) = n := by
  have hdigits : ∀ d ∈ (Nat.toDigits 10 n).reverse, d.isDigit = true := fun d hd =>
    Nat.isDigit_of_mem_toDigits (by decide) (by decide) (List.mem_reverse.1 hd)
  have hlist : (aliasFor table n).toList = table.toList ++ '_' :: Nat.toDigits 10 n := by
    simp [aliasFor, Value.intText, Decimal.digitChars]
  unfold numberOf
  rw [hlist, List.reverse_append, List.reverse_cons, List.append_assoc,
    List.takeWhile_append_of_pos hdigits]
  simp [Nat.ofDigitChars_toDigits]

@[simp] theorem length_aliasesFrom (n : Nat) (tables : List String) :
    (aliasesFrom n tables).length = tables.length := by
  induction tables generalizing n with
  | nil => rfl
  | cons table tables ih => simp [aliasesFrom, ih]

/-- Every table gets an alias. -/
@[simp] theorem map_fst_aliasesFrom (n : Nat) (tables : List String) :
    (aliasesFrom n tables).map (·.1) = tables := by
  induction tables generalizing n with
  | nil => rfl
  | cons table tables ih => simp [aliasesFrom, ih]

/-- Numbers go on where the tables before end. -/
theorem aliasesFrom_append (n : Nat) (tables more : List String) :
    aliasesFrom n (tables ++ more) = aliasesFrom n tables ++ aliasesFrom (n + tables.length) more := by
  induction tables generalizing n with
  | nil => rfl
  | cons table tables ih => simp [aliasesFrom, ih, Nat.add_assoc, Nat.add_comm 1]

/-- Aliases have the numbers that follow. -/
theorem map_numberOf_aliasesFrom (n : Nat) (tables : List String) :
    ((aliasesFrom n tables).map (·.2)).map numberOf = List.range' n tables.length := by
  induction tables generalizing n with
  | nil => rfl
  | cons table tables ih =>
    rw [aliasesFrom, List.map_cons, List.map_cons, ih, numberOf_aliasFor, List.length_cons,
      List.range'_succ]

/-- No alias is given twice. -/
theorem nodup_aliasesFrom (n : Nat) (tables : List String) :
    ((aliasesFrom n tables).map (·.2)).Nodup := by
  refine List.Nodup.of_map numberOf ?_
  rw [map_numberOf_aliasesFrom]
  exact List.nodup_range'

/-- Among entries whose texts differ, each is looked up. -/
theorem lookup_of_mem {α : Type} {l : List (String × α)} (hnodup : (l.map (·.1)).Nodup)
    {x : String × α} (hx : x ∈ l) : l.lookup x.1 = some x.2 := by
  obtain ⟨l₁, l₂, rfl⟩ := List.append_of_mem hx
  refine List.lookup_eq_some_iff.2 ⟨l₁, l₂, rfl, fun y hy => ?_⟩
  rw [List.map_append, List.map_cons, List.nodup_append] at hnodup
  simpa using fun h : x.1 = y.1 =>
    hnodup.2.2 _ (List.mem_map_of_mem hy) _ List.mem_cons_self h.symm

/-! ### The numbering of a plan -/

/-- The tables that a plan has introduced, each with its alias, in order. -/
def introduced (p : Planner) : List (String × String) :=
  p.nodes.flatMap fun n => n.tables.reverse

/-- The tables of the statement, in order. -/
def sources (p : Planner) : List TableRef :=
  p.tables ++ p.joins.map (·.table)

/-- A column that is referred to by an alias of one of some tables. -/
def Uses (tables : List TableRef) (reference : String) : Prop :=
  ∃ t ∈ tables, ∃ name column, t.asName = some name ∧ reference = name ++ "." ++ column

/-- The conditions of joins, one after the other, compare a column of the table that is joined with one
of a table before it. -/
def Scoped : List TableRef → List JoinClause → Prop
  | _, [] => True
  | earlier, clause :: rest =>
    (∀ e ∈ clause.conditions, ∃ x y, e = .binary (.name x) .eq (.name y) ∧ Uses [clause.table] x ∧
      Uses earlier y) ∧ Scoped (earlier ++ [clause.table]) rest

theorem Uses.mono {tables tables' : List TableRef} {reference : String} (h : Uses tables reference)
    (hsub : tables ⊆ tables') : Uses tables' reference := by
  obtain ⟨t, ht, h⟩ := h
  exact ⟨t, hsub ht, h⟩

/-- More joins come after those that are there. -/
theorem scoped_append {earlier : List TableRef} {joins more : List JoinClause} :
    Scoped earlier (joins ++ more) ↔
      Scoped earlier joins ∧ Scoped (earlier ++ joins.map (·.table)) more := by
  induction joins generalizing earlier with
  | nil => simp [Scoped]
  | cons clause joins ih => simp [Scoped, ih, and_assoc]

/-- Secondary tables are compared with the primary one. -/
theorem scoped_secondaries {earlier : List TableRef} (tables : List String)
    (h : Uses earlier (n.tableAlias ++ "." ++ key.column)) :
    Scoped earlier (tables.map (secondaryJoin n key)) := by
  induction tables generalizing earlier with
  | nil => trivial
  | cons table tables ih =>
    refine ⟨fun e he => ?_, ih (h.mono (List.subset_append_left _ _))⟩
    rw [List.mem_singleton.1 he]
    exact ⟨_, _, rfl, ⟨_, List.mem_singleton_self _, _, _, rfl, rfl⟩, h⟩

/-- What is known of the aliases of a plan: they are numbered in the order in which the tables are
introduced, which is that of the statement, and joins are scoped. -/
structure Numbered (p : Planner) : Prop where
  aliases : p.introduced = aliasesFrom 0 (p.introduced.map (·.1))
  next : p.next = p.introduced.length
  sources : p.sources = p.introduced.map fun x => ⟨x.1, some x.2⟩
  tables : p.tables = [] → p.nodes = []
  joins : Scoped p.tables p.joins

namespace Numbered

/-- Nothing is introduced by an empty plan. -/
theorem empty : Numbered {} :=
  ⟨rfl, rfl, rfl, fun _ => rfl, trivial⟩

/-- The tables of a node are those of the statement. -/
theorem mem_sources (h : Numbered p) (hn : n ∈ p.nodes) {x : String × String} (hx : x ∈ n.tables) :
    ⟨x.1, some x.2⟩ ∈ p.sources := by
  rw [h.sources]
  exact List.mem_map.2 ⟨x, List.mem_flatMap.2 ⟨n, hn, List.mem_reverse.2 hx⟩, rfl⟩

/-- The column of an atomic is one of a table of the statement. -/
theorem uses_column (h : Numbered p) (hn : n ∈ p.nodes) {a : Atomic} {reference : String}
    (hcolumn : n.column s a = .ok reference) : ∃ name, (s.tableOf a, name) ∈ n.tables ∧
      ⟨s.tableOf a, some name⟩ ∈ p.sources ∧ reference = name ++ "." ++ a.column := by
  unfold PlanNode.column at hcolumn
  split at hcolumn
  · next name hname =>
    obtain ⟨l₁, l₂, hmem, -⟩ := List.lookup_eq_some_iff.1 hname
    have hx : (s.tableOf a, name) ∈ n.tables := hmem ▸ List.mem_append_right _ List.mem_cons_self
    exact ⟨name, hx, h.mem_sources hn hx, (Except.ok.inj hcolumn).symm⟩
  · cases hcolumn

end Numbered

/-- The secondary tables of a fresh node are joined under the aliases that it has for them. -/
theorem tables_secondaryJoin (p : Planner) (parent : Option (Nat × Component)) (key : Atomic)
    (hprimary : s.table ∉ s.secondary) (hnodup : s.secondary.Nodup) :
    ⟨s.table, some (p.fresh s parent).tableAlias⟩ ::
        (s.secondary.map (secondaryJoin (p.fresh s parent) key)).map (·.table) =
      (aliasesFrom p.next s.tables).map fun x => (⟨x.1, some x.2⟩ : TableRef) := by
  have hkeys : ((p.fresh s parent).tables.map (·.1)).Nodup := by
    rw [fresh, List.map_reverse, map_fst_aliasesFrom]
    exact List.nodup_reverse.2 (List.nodup_cons.2 ⟨hprimary, hnodup⟩)
  have hlookup : ∀ x ∈ aliasesFrom p.next s.tables,
      (p.fresh s parent).tables.lookup x.1 = some x.2 := fun x hx =>
    lookup_of_mem hkeys (List.mem_reverse.2 hx)
  have hsecondary : s.secondary = (aliasesFrom (p.next + 1) s.secondary).map (·.1) :=
    (map_fst_aliasesFrom _ _).symm
  unfold Schema.tables aliasesFrom
  rw [List.map_cons]
  refine congrArg₂ _ rfl ?_
  conv_lhs => rw [hsecondary]
  rw [List.map_map, List.map_map]
  refine List.map_congr_left fun x hx => ?_
  have hx := hlookup x (List.mem_cons_of_mem _ hx)
  simp only [Function.comp_apply, secondaryJoin, hx, Option.getD_some]

namespace Numbered

variable {parent : Option (Nat × Component)}

/-- A node whose tables come last in the statement, joined to what is before. -/
theorem append (h : Numbered p) (hnodes : p'.nodes = p.nodes ++ [n])
    (htables : n.tables = (aliasesFrom p.next s.tables).reverse)
    (hnext : p'.next = p.next + s.tables.length)
    (hsources : p'.sources = p.sources ++
      (aliasesFrom p.next s.tables).map fun x => ⟨x.1, some x.2⟩)
    (hne : p'.tables ≠ []) (hjoins : Scoped p'.tables p'.joins) : Numbered p' := by
  have hintroduced : p'.introduced = p.introduced ++ aliasesFrom p.next s.tables := by
    simp [introduced, hnodes, htables]
  refine ⟨?_, ?_, ?_, fun hnil => absurd hnil hne, hjoins⟩
  · rw [hintroduced, List.map_append, map_fst_aliasesFrom, aliasesFrom_append, ← h.aliases,
      List.length_map, Nat.zero_add, h.next]
  · rw [hintroduced, hnext, h.next, List.length_append, length_aliasesFrom]
  · rw [hintroduced, hsources, h.sources, List.map_append]

/-- The first root stands alone. -/
theorem joins_eq_nil (h : Numbered p) (htables : p.tables = []) : p.joins = [] := by
  have hsources := h.sources
  rw [Planner.sources, introduced, htables, h.tables htables] at hsources
  simpa using hsources

/-- A new root comes with its secondary tables. -/
theorem withRoot (h : Numbered p) {path : String} (hprimary : s.table ∉ s.secondary)
    (hnodup : s.secondary.Nodup) : Numbered (p.withRoot path s key) := by
  have htables := tables_secondaryJoin p none key hprimary hnodup
  have huses : Uses [p.rootTable s] ((p.freshRoot s).tableAlias ++ "." ++ key.column) :=
    ⟨_, List.mem_singleton_self _, _, _, rfl, rfl⟩
  refine h.append rfl rfl rfl ?_ ?_ ?_
  · rw [← htables, Planner.sources]
    by_cases hnil : p.tables = []
    · simp [Planner.sources, Planner.withRoot, grow, rootTable, secondaryJoin, freshRoot, fresh, hnil,
        h.joins_eq_nil hnil]
    · simp [Planner.sources, Planner.withRoot, grow, rootTable, secondaryJoin, freshRoot, fresh, hnil]
  · by_cases hnil : p.tables = [] <;> simp [Planner.withRoot, hnil]
  · by_cases hnil : p.tables = []
    · have hjoins := h.joins_eq_nil hnil
      simp only [Planner.withRoot, grow, hnil, hjoins]
      exact scoped_secondaries _ huses
    · simp only [Planner.withRoot, grow, List.isEmpty_iff, hnil, if_false]
      refine scoped_append.2 ⟨h.joins, fun _ he => absurd he List.not_mem_nil, ?_⟩
      exact scoped_secondaries _ (huses.mono (List.subset_append_right _ _))

/-- A relation is joined to what its owner has introduced, and its secondary tables come with it. -/
theorem withChild (h : Numbered p) {path left right : String} {i : Nat} {comp : Component}
    {here there : Atomic} (hi : i < p.nodes.length) (hprimary : s.table ∉ s.secondary)
    (hnodup : s.secondary.Nodup) (htable : s.tableOf there = s.table)
    (hleft : (p.fresh s (some (i, comp))).column s there = .ok left)
    (hright : (p.node i).column (p.node i).schema here = .ok right) :
    Numbered (p.withChild path i comp s key left right) := by
  have htables := tables_secondaryJoin p (some (i, comp)) key hprimary hnodup
  have hmem : p.node i ∈ p.nodes := mem_nodes_iff.2 ⟨i, hi, rfl⟩
  have hne : p.tables ≠ [] := fun hnil => by
    rw [h.tables hnil] at hmem
    exact List.not_mem_nil hmem
  obtain ⟨name, -, hname, rfl⟩ := h.uses_column hmem hright
  -- the joined column is one of the primary table, which is not listed again
  have hleft : left = aliasFor s.table p.next ++ "." ++ there.column := by
    have hlookup : (p.fresh s (some (i, comp))).tables.lookup s.table =
        some (aliasFor s.table p.next) := by
      refine lookup_of_mem (x := (s.table, _)) ?_ (List.mem_reverse.2 List.mem_cons_self)
      rw [fresh, List.map_reverse, map_fst_aliasesFrom]
      exact List.nodup_reverse.2 (List.nodup_cons.2 ⟨hprimary, hnodup⟩)
    unfold PlanNode.column at hleft
    rw [htable, hlookup] at hleft
    exact (Except.ok.inj hleft).symm
  refine h.append rfl rfl rfl ?_ hne ?_
  · rw [← htables]
    simp [Planner.sources, Planner.withChild, grow, fresh]
  · refine scoped_append.2 ⟨h.joins, fun e he => ?_, scoped_secondaries _ ?_⟩
    · rw [List.mem_singleton.1 he]
      exact ⟨_, _, rfl, ⟨_, List.mem_singleton_self _, _, _, rfl, hleft⟩, _, hname, _, _, rfl, rfl⟩
    · exact ⟨_, List.mem_append_right _ (List.mem_singleton_self _), _, _, rfl, rfl⟩

/-- A node that is mapped keeps its tables. -/
theorem setMapped (h : Numbered p) (i : Nat) : Numbered (p.setMapped i) := by
  have hmap : (p.setMapped i).nodes.map (·.tables) = p.nodes.map (·.tables) := by
    refine List.ext_getElem (by simp) fun j hj _ => ?_
    have hnode := congrArg PlanNode.tables (node_setMapped p i j)
    rw [List.getElem_map, List.getElem_map, ← node_eq_getElem, ← node_eq_getElem, hnode]
  have hintroduced : (p.setMapped i).introduced = p.introduced := by
    have hflat := congrArg (List.flatMap List.reverse) hmap
    rwa [List.flatMap_map, List.flatMap_map] at hflat
  refine ⟨?_, ?_, ?_, fun hnil => ?_, h.joins⟩
  · rw [hintroduced]
    exact h.aliases
  · rw [hintroduced]
    exact h.next
  · rw [hintroduced]
    exact h.sources
  · simp [Planner.setMapped, h.tables hnil]

/-- Steps keep aliases numbered and joins scoped, where no schema lists its primary table again. -/
theorem steps (h : Numbered p) (hprimary : ∀ name s, c.schema name = .ok s → s.table ∉ s.secondary)
    (hsteps : Steps c p p') : Numbered p' := by
  induction hsteps with
  | refl => exact h
  | tail _ hstep ih =>
    cases hstep with
    | root hs => exact ih.withRoot (hprimary _ _ hs) (Catalog.nodup_secondary hs)
    | child hparent _ _ htarget _ _ _ _ htable hleft hright =>
      exact ih.withChild hparent (hprimary _ _ htarget) (Catalog.nodup_secondary htarget) htable
        hleft hright
    | map => exact ih.setMapped _

end Numbered

end Planner

/-- The tables of a statement, in order. -/
def CompiledQuery.sources (q : CompiledQuery) : List TableRef :=
  q.select.tables ++ q.select.joins.map (·.table)

/-- An atomic that occurs at a node is referred to: its column, by an alias that the node has for the
table that holds it, which is an alias of a table of the statement. -/
def PlanNode.RefersTo (n : PlanNode) (sources : List TableRef) (a : Atomic) (reference : String) :
    Prop :=
  ∃ name, (n.schema.tableOf a, name) ∈ n.tables ∧ ⟨n.schema.tableOf a, some name⟩ ∈ sources ∧
    reference = name ++ "." ++ a.column

namespace Query

variable {c : Catalog} {q : Query} {compiled : CompiledQuery} {cache cache' : PathCache}

/-- Some atomic of some node is referred to. -/
def Occurs (compiled : CompiledQuery) (reference : String) : Prop :=
  ∃ n ∈ compiled.plan.nodes, ∃ o ∈ n.schema.occurrences [],
    n.RefersTo compiled.sources o.2 reference

/-- A compiled query is well scoped: no alias is given to two tables; what is selected besides raw
expressions are the atomics of mapped nodes, and filters and orderings compare atomics of nodes, each by
an alias of the table that holds it; and joins compare the table that is joined with tables before. -/
structure WellScoped (q : Query) (compiled : CompiledQuery) : Prop where
  aliases : ∃ names : List String, compiled.sources.map (·.asName) = names.map some ∧ names.Nodup
  columns : ∃ selected, compiled.select.columns = selected ++ q.rawColumns ∧
    ∀ column ∈ selected, ∃ n ∈ compiled.plan.nodes, n.mapped = true ∧
      ∃ o ∈ n.schema.occurrences [], ∃ reference, n.RefersTo compiled.sources o.2 reference ∧
        column = (.name reference, some (n.label o.1 o.2.name))
  conditions : List.Forall₂ (fun (f : Filter) e => ∃ reference, Occurs compiled reference ∧
    e = .binary (.name reference) f.op (.expr f.value.toExpr)) q.filters compiled.select.conditions
  orderBy : List.Forall₂ (fun (o : String × Direction) (o' : String × Direction) =>
    Occurs compiled o'.1 ∧ o'.2 = o.2) q.order compiled.select.orderBy
  joins : Planner.Scoped compiled.select.tables compiled.select.joins

namespace Describes

variable {p : Planner}

/-- A node of the planner is one of the plan, with the tables and the schema that it has. -/
theorem mem_nodes (h : Describes q p compiled) {i : Nat} (hi : i < p.nodes.length) :
    { p.node i with toMany := p.toManyOf i } ∈ compiled.plan.nodes := by
  obtain ⟨_, _, hplan, -⟩ := h.plan
  rw [hplan]
  exact List.mem_mapIdx.2 ⟨i, hi, by rw [Planner.node_eq_getElem hi]⟩

/-- The tables of the statement are those that the plan has introduced. -/
theorem sources_eq (h : Describes q p compiled) : compiled.sources = p.sources := by
  unfold CompiledQuery.sources Planner.sources
  rw [h.tables, h.joins]

/-- The column of an atomic at a node is referred to by an alias of the statement. -/
theorem refersTo (h : Describes q p compiled) (hnumbered : p.Numbered) {n : PlanNode} (hn : n ∈ p.nodes)
    {a : Atomic} {reference : String} (hcolumn : n.column n.schema a = .ok reference) :
    n.RefersTo compiled.sources a reference := by
  rw [PlanNode.RefersTo, h.sources_eq]
  exact hnumbered.uses_column hn hcolumn

/-- What is compared is an atomic of a node. -/
theorem occurs (h : Describes q p compiled) (hsound : p.Sound c) (hnumbered : p.Numbered)
    {chain reference : String} (hcompares : Compares p chain reference) :
    Occurs compiled reference := by
  obtain ⟨r, hr, hcolumn⟩ := hcompares
  obtain ⟨i, hi, o, ho, hcolumn⟩ := Planner.column_of_columnOf hsound hr hcolumn
  exact ⟨_, h.mem_nodes hi, o, ho, h.refersTo hnumbered (Planner.mem_nodes_iff.2 ⟨i, hi, rfl⟩) hcolumn⟩

end Describes

/-- Every query that compiles is well scoped, where no schema lists its primary table among its
secondary tables. -/
theorem wellScoped_of_compile
    (hprimary : ∀ name s, c.schema name = .ok s → s.table ∉ s.secondary)
    (h : q.compile c cache = (.ok compiled, cache')) : q.WellScoped compiled := by
  obtain ⟨p, hsteps, -, hdescribes⟩ := exists_of_compile h
  have hsound := (Planner.Sound.empty c).steps hsteps
  have hnumbered := Planner.Numbered.empty.steps hprimary hsteps
  refine ⟨⟨p.introduced.map (·.2), ?_, ?_⟩, ?_, ?_, ?_, ?_⟩
  · rw [hdescribes.sources_eq, hnumbered.sources, List.map_map, List.map_map]
    rfl
  · rw [hnumbered.aliases]
    exact Planner.nodup_aliasesFrom _ _
  · obtain ⟨columns, hcolumns, hselect⟩ := hdescribes.columns
    obtain ⟨rfl, hreference⟩ := Planner.selectedColumns_ok hsound hcolumns
    refine ⟨_, hselect, fun column hcolumn => ?_⟩
    obtain ⟨n, hn, hcolumn⟩ := List.mem_flatMap.1 hcolumn
    obtain ⟨hn, hmapped⟩ := List.mem_filter.1 hn
    obtain ⟨o, ho, rfl⟩ := List.mem_map.1 hcolumn
    have hdeep : o.2 ∈ n.schema.deepAtomics := by
      rw [← Schema.map_occurrences n.schema []]
      exact List.mem_map_of_mem ho
    obtain ⟨i, hi, rfl⟩ := Planner.mem_nodes_iff.1 hn
    exact ⟨_, hdescribes.mem_nodes hi, hmapped, o, ho, _,
      hdescribes.refersTo hnumbered hn (hreference _ hn hmapped _ hdeep), rfl⟩
  · refine hdescribes.conditions.imp fun f e he => ?_
    obtain ⟨reference, hreference, rfl⟩ := he
    exact ⟨reference, hdescribes.occurs hsound hnumbered hreference, rfl⟩
  · exact hdescribes.orderBy.imp fun o o' ho =>
      ⟨hdescribes.occurs hsound hnumbered ho.1, ho.2⟩
  · rw [hdescribes.tables, hdescribes.joins]
    exact hnumbered.joins

/-- The query of the blog is well scoped. -/
theorem wellScoped_of_compile_blog :
    (∀ name s, Blog.catalog.schema name = .ok s → s.table ∉ s.secondary) ∧
      ∃ compiled cache', Blog.query.compile Blog.catalog {} = (.ok compiled, cache') ∧
        Blog.query.WellScoped compiled := by
  have hprimary : ∀ name s, Blog.catalog.schema name = .ok s → s.table ∉ s.secondary := by
    have hall : ∀ s ∈ Blog.catalog.schemas, s.table ∉ s.secondary := by decide
    exact fun name s hs => hall s (Catalog.mem_schemas_iff.2 (Catalog.schema_schema_name hs))
  have hanswers : (Blog.query.compile Blog.catalog {}).1.toOption.any (fun _ => true) = true := by
    decide +kernel
  obtain ⟨compiled, cache', h, -⟩ := exists_compiled hanswers
  exact ⟨hprimary, compiled, cache', h, wellScoped_of_compile hprimary h⟩

end Query

end EntityGraph
