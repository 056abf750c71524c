import EntityGraph.Proofs.Results

/-!
# The select list and the rows

A select list gives each column a label, and rows are read by label. Here a row is made from a select
list, by a value for each expression of the list, and then read back: at each mapped node it has, for
each atomic, the value of the atomic's own column, as long as labels differ. What is read is loaded
into the entity of the node, if there is one and it does not occur at an earlier node.

## Main results

* `Query.agrees_of_compile`: a row that is made from the select list of a query is mapped as its columns
  say.
-/

namespace EntityGraph

open EntityGraph.Graph

namespace Blog

/-- Values for the columns of the blog, when the post of the user has some key. -/
def value (own : Value) : Operand → Value
  | .name column => (List.lookup column [("users_0.id", .int 1), ("posts_2.id", .int 7),
      ("posts_2.title", .text "A"), ("posts_3.id", own), ("posts_3.title", .text "B")]).getD .null
  | _ => .text "12:00"

end Blog

namespace Office

/-- Offices have a city, and a place with a city as well. -/
def catalog : Catalog where
  definitions := [
    { name := "Office"
      steps := [.table "offices",
        .atomic { name := "id", column := "id", kind := .int, primaryKey := true },
        .atomic { name := "home_city", column := "home_city", kind := .string },
        .embed "home" "Place"] },
    { name := "Place", embeddable := true
      steps := [.atomic { name := "city", column := "city", kind := .string }] }]

/-- All offices. -/
def query : Query where
  root := some "Office"

/-- The two cities differ. -/
def value : Operand → Value
  | .name column => (List.lookup column [("offices_0.id", .int 1), ("offices_0.home_city", .text "Rome"),
      ("offices_0.city", .text "Oslo")]).getD .null
  | _ => .null

end Office

/-- The row in which every expression of a select list has a value. -/
def Select.rowOf (s : Select) (value : Operand → Value) : Row :=
  ⟨s.columns.map Storage.label, s.columns.map fun column => value column.1⟩

/-- Where the values of a node's columns are read, its key is that of its own column. -/
theorem PlanNode.identity?_of_read {c : Catalog} {n : PlanNode} {row : Row} {value : Operand → Value}
    {who : Identity} (hs : c.schema n.schema.name = .ok n.schema)
    (hread : ∀ o ∈ n.schema.occurrences [],
      n.read? row o = some (value (.name (n.reference o.2)))) :
    n.identity? row = some who ↔ ∃ key, n.schema.primaryKey = some key ∧
      who = (n.schema.name, value (.name (n.reference key))) ∧ who.2 ≠ .null := by
  have hkey := fun key hkey => hread ([], key)
    (Schema.mem_occurrences_of_embeddedAt? rfl (Catalog.mem_of_primaryKey hs hkey))
  rw [PlanNode.identity?_eq_some_iff]
  constructor
  · rintro ⟨htype, key, hprimary, hvalue, hnull⟩
    exact ⟨key, hprimary, Prod.ext htype
      (Option.some.inj (hvalue.symm.trans (hkey key hprimary))), hnull⟩
  · rintro ⟨key, hprimary, rfl, hnull⟩
    exact ⟨rfl, key, hprimary, hkey key hprimary, hnull⟩

namespace Plan

variable {p : Plan} {row : Row} {node : PlanNode} {who : Identity} {i : Nat}

/-- An entity appears at the first node at which it is shown. -/
theorem find?_appearances (hnode : p.nodes[i]? = some node) (hwho : p.identityAt row i = some who)
    (hfirst : ∀ j < i, p.identityAt row j ≠ some who) :
    (p.appearances row).find? (·.who = who) = some ⟨who, node, row⟩ := by
  obtain ⟨x, hx, rfl⟩ := Option.bind_eq_some_iff.1 hwho
  have hget : (p.shown row)[i]? = some (node, some who) := List.getElem?_zip_eq_some.2 ⟨hnode, hx⟩
  obtain ⟨hlt, hget⟩ := List.getElem?_eq_some_iff.1 hget
  have hfind : (p.shown row).find? (fun x => (x.2.map fun who => (⟨who, x.1, row⟩ : Appearance)).any
      fun a => decide (a.who = who)) = some (node, some who) := by
    refine List.find?_eq_some_iff_getElem.2 ⟨by simp, i, hlt, hget, fun j hj => ?_⟩
    have hpair := List.getElem?_eq_getElem (Nat.lt_trans hj hlt)
    have hshown := (List.getElem?_zip_eq_some.1 hpair).2
    have hne := hfirst j hj
    rw [identityAt, hshown] at hne
    cases hx : ((p.shown row)[j]).2 with
    | none => simp
    | some who' => simpa [hx] using hne
  unfold appearances
  rw [List.find?_filterMap, hfind]
  rfl

/-- Before the first row there are no keys, so any key begins a tuple. -/
theorem isNew_start : Mapper.isNew (p.roots.map fun _ => none) (p.rootKeys row) = true ↔
    ∃ i ∈ p.roots, (p.identityAt row i).isSome := by
  unfold Mapper.isNew rootKeys
  rw [List.zip_map', List.any_map, List.any_eq_true]
  refine exists_congr fun i => and_congr_right fun _ => ?_
  cases hwho : p.identityAt row i <;> simp [hwho]

end Plan

/-- The rows that a select list makes are mapped as their columns say, for some values of its
expressions. -/
structure CompiledQuery.Agrees (compiled : CompiledQuery) (selections : List Selection)
    (value : Operand → Value) (tuples : List Tuple) (m : Mapping) : Prop where
  /-- Under the label of each atomic of each mapped node there is the value of its own column. -/
  read : ∀ node ∈ compiled.plan.nodes, node.mapped = true → ∀ q ∈ node.schema.occurrences [],
    node.column node.schema q.2 = .ok (node.reference q.2) ∧
      node.read? (compiled.select.rowOf value) q = some (value (.name (node.reference q.2)))
  /-- A mapped node has an entity if its key is not null, and the nodes that it hangs on have one. -/
  entity : ∀ i (node : PlanNode), compiled.plan.nodes[i]? = some node → ∀ who,
    compiled.plan.identityAt (compiled.select.rowOf value) i = some who ↔ node.mapped = true ∧
      (∀ j comp, node.parent = some (j, comp) →
        (compiled.plan.identityAt (compiled.select.rowOf value) j).isSome) ∧
      ∃ key, node.schema.primaryKey = some key ∧
        who = (node.schema.name, value (.name (node.reference key))) ∧ who.2 ≠ .null
  /-- The entity has the values of the node's columns, if it does not occur at an earlier node. -/
  loaded : ∀ i (node : PlanNode), compiled.plan.nodes[i]? = some node → ∀ who,
    compiled.plan.identityAt (compiled.select.rowOf value) i = some who →
      (∀ j < i, compiled.plan.identityAt (compiled.select.rowOf value) j ≠ some who) →
        ∃ e, m.mapper.identity.get? who = some e ∧ (m.graph.entity e).schema = node.schema ∧
          ∀ q ∈ node.schema.occurrences [],
            m.graph.slotAt e q = some (.loaded (value (.name (node.reference q.2))))
  /-- If there is an entity at a root, there is a tuple, in which each raw selection has the value of its
  own expression. -/
  tuple : (∃ i ∈ compiled.plan.roots,
      (compiled.plan.identityAt (compiled.select.rowOf value) i).isSome) →
    ∃ root items, tuples = [root ++ items] ∧ List.Forall₂ (fun sel item => ∀ sql label,
      sel = .raw sql label → item = (label, .scalar (value (.expr (.verbatim sql))))) selections items

namespace Query

variable {c : Catalog} {q : Query} {compiled : CompiledQuery} {cache cache' : PathCache}
  {value : Operand → Value}

/-- Under a label that occurs once there is the value of its expression. -/
theorem get?_rowOf {s : Select} (hlabels : (s.columns.map Storage.label).Nodup) {e : Operand}
    {label : String} (hmem : (e, some label) ∈ s.columns) :
    (s.rowOf value).get? label = some (value e) :=
  Lookup.get?_row Storage.label (fun column => value column.1) hlabels hmem

/-- The values of the columns of a mapped node are read back at the node. -/
theorem read?_rowOf (hcompile : q.compile c cache = (.ok compiled, cache'))
    (hlabels : (compiled.select.columns.map Storage.label).Nodup) {node : PlanNode}
    (hnode : node ∈ compiled.plan.nodes) (hmapped : node.mapped = true)
    {o : List String × Atomic} (ho : o ∈ node.schema.occurrences [])
    (hvalue : o.2.kind.Holds (value (.name (node.reference o.2)))) :
    node.column node.schema o.2 = .ok (node.reference o.2) ∧
      node.read? (compiled.select.rowOf value) o = some (value (.name (node.reference o.2))) := by
  obtain ⟨p, hsteps, -, hdescribes⟩ := exists_of_compile hcompile
  obtain ⟨rootOutputs, outputs, hplan, -⟩ := hdescribes.plan
  obtain ⟨columns, hcolumns, hselect⟩ := hdescribes.columns
  obtain ⟨rfl, hcolumn⟩ := Planner.selectedColumns_ok ((Planner.Sound.empty c).steps hsteps) hcolumns
  obtain ⟨i, hi⟩ := List.mem_iff_getElem?.1 hnode
  rw [hplan] at hi
  have hlt := Planner.lt_of_getElem?_toPlan hi
  have heq := Option.some.inj (hi.symm.trans (Planner.getElem?_toPlan hlt))
  -- a node of the plan differs from the one of the planner only in the collections that it asks for
  have hschema : node.schema = (p.node i).schema := by rw [heq]
  have hcolumn' : ∀ a, node.column node.schema a = (p.node i).column (p.node i).schema a :=
    fun a => by rw [heq]; rfl
  have hreference : node.reference o.2 = (p.node i).reference o.2 := by rw [heq]; rfl
  have hlabel : node.label o.1 o.2.name = (p.node i).label o.1 o.2.name := by rw [heq]; rfl
  have hmem : p.node i ∈ p.nodes := Planner.mem_nodes_iff.2 ⟨i, hlt, rfl⟩
  rw [hschema] at ho
  have hdeep : o.2 ∈ (p.node i).schema.deepAtomics := by
    rw [← Schema.map_occurrences _ []]
    exact List.mem_map_of_mem ho
  have hselected : (.name ((p.node i).reference o.2), some ((p.node i).label o.1 o.2.name)) ∈
      compiled.select.columns := by
    rw [hselect]
    exact List.mem_append_left _ (List.mem_flatMap.2 ⟨p.node i, List.mem_filter.2
      ⟨hmem, by rw [heq] at hmapped; exact hmapped⟩, List.mem_map.2 ⟨o, ho, rfl⟩⟩)
  refine ⟨?_, ?_⟩
  · rw [hcolumn', hreference]
    exact hcolumn _ hmem (by rw [heq] at hmapped; exact hmapped) _ hdeep
  · unfold PlanNode.read?
    rw [hlabel, get?_rowOf hlabels hselected, Option.getD_some, ← hreference]
    exact AtomicKind.coerce?_of_holds hvalue

/-- In a tuple each raw selection has the value of its own expression. -/
theorem raw_tupleIn (value : Operand → Value) (hcompile : q.compile c cache = (.ok compiled, cache'))
    (hlabels : (compiled.select.columns.map Storage.label).Nodup) (known : Assoc Identity EntityId)
    (g : Graph) : ∃ root items,
      compiled.plan.tupleIn (compiled.select.rowOf value) known g = root ++ items ∧
        List.Forall₂ (fun sel item => ∀ sql label, sel = .raw sql label →
          item = (label, .scalar (value (.expr (.verbatim sql))))) q.selections items := by
  obtain ⟨p, -, -, hdescribes⟩ := exists_of_compile hcompile
  obtain ⟨rootOutputs, outputs, hplan, -, houtputs⟩ := hdescribes.plan
  obtain ⟨columns, -, hselect⟩ := hdescribes.columns
  unfold Plan.tupleIn
  rw [show compiled.plan.outputs = rootOutputs ++ outputs by rw [hplan]; rfl, List.map_append]
  refine ⟨_, _, rfl, List.forall₂_map_right_iff.2
    (List.forall₂_iff_get.2 ⟨houtputs.length_eq, fun i hi hi' sql label hsel => ?_⟩)⟩
  have ho : outputs.get ⟨i, hi'⟩ = .raw label label := by
    have hanswers := houtputs.get hi hi'
    rw [hsel] at hanswers
    exact hanswers
  have hmem : ((.expr (.verbatim sql) : Operand), some label) ∈ compiled.select.columns := by
    rw [hselect]
    exact List.mem_append_right _ (List.mem_filterMap.2
      ⟨_, hsel ▸ List.get_mem q.selections ⟨i, hi⟩, rfl⟩)
  rw [ho]
  simp only [Output.key, Plan.itemIn, get?_rowOf hlabels hmem, Option.getD_some]

/-- The row that is made from the select list of a compiled query, with labels that differ and values of
the kinds of the atomics, is mapped as its columns say. -/
theorem agrees_of_compile (hcompile : q.compile c cache = (.ok compiled, cache'))
    (hlabels : (compiled.select.columns.map Storage.label).Nodup)
    (hvalue : ∀ node ∈ compiled.plan.nodes, node.mapped = true → ∀ o ∈ node.schema.occurrences [],
      o.2.kind.Holds (value (.name (node.reference o.2)))) (g : Graph) :
    ∃ tuples m, Mapper.mapRows c [compiled.select.rowOf value] ⟨compiled.mapper, g⟩ =
      .ok tuples m ∧ compiled.Agrees q.selections value tuples m := by
  have hp := sound_of_compile hcompile
  have hread := fun node hnode hmapped o ho =>
    read?_rowOf hcompile hlabels hnode hmapped ho (hvalue node hnode hmapped o ho)
  have hends := (Mirrored.start c g).ends_mapRows (m := ⟨compiled.mapper, g⟩) hp rfl
    [compiled.select.rowOf value]
  cases hrun : Mapper.mapRows c [compiled.select.rowOf value] ⟨compiled.mapper, g⟩ with
  | error error m =>
    -- every value can be read
    obtain ⟨row, hrow, node, hnode, hmapped, o, ho, hnone⟩ := hends.of_error hrun
    rw [List.mem_singleton.1 hrow, (hread node hnode hmapped o ho).2] at hnone
    cases hnone
  | ok tuples m =>
    obtain ⟨hmirrored, -, rfl⟩ := hends.of_ok hrun
    rw [List.flatMap_singleton, List.flatMap_singleton] at hmirrored
    refine ⟨_, m, rfl, hread, fun i node hnode who => ?_, fun i node hnode who hwho hfirst => ?_,
      fun hroot => ?_⟩
    · have hmem := List.mem_of_getElem? hnode
      rw [Plan.identityAt_eq_some_iff hnode fun j comp hj => (hp.parent i node hnode j comp hj).1]
      exact and_congr_right fun hmapped => and_congr_right fun _ =>
        PlanNode.identity?_of_read (hp.schema node hmem) fun o ho => (hread node hmem hmapped o ho).2
    · obtain ⟨e, he⟩ := Option.isSome_iff_exists.1
        (hmirrored.isSome_of_identityAt (fun a ha => ha) hwho)
      obtain ⟨a, ha, hloaded⟩ := hmirrored.loaded who e he
      obtain rfl := Option.some.inj (ha.symm.trans (Plan.find?_appearances hnode hwho hfirst))
      obtain ⟨node', hnode', hmapped, -⟩ := Plan.identity?_of_identityAt hwho
      obtain rfl := Option.some.inj (hnode'.symm.trans hnode)
      refine ⟨e, he, hloaded.schema, fun o ho => ?_⟩
      obtain ⟨v, hv, hslot⟩ := hloaded.read o ho
      rw [(hread node' (List.mem_of_getElem? hnode) hmapped o ho).2] at hv
      rw [hslot, Option.some.inj hv]
    · obtain ⟨root, items, htuple, hitems⟩ :=
        raw_tupleIn value hcompile hlabels m.mapper.identity m.graph
      refine ⟨root, items, ?_, hitems⟩
      have hnew : Mapper.isNew compiled.mapper.lastRoots
          (compiled.plan.rootKeys (compiled.select.rowOf value)) = true := Plan.isNew_start.2 hroot
      rw [← htuple]
      unfold Plan.begins Plan.begins
      rw [if_pos hnew]
      rfl

/-- The row of the blog is mapped as its columns say. -/
theorem agrees_of_compile_blog : ∃ compiled cache',
    Blog.query.compile Blog.catalog {} = (.ok compiled, cache') ∧
      (compiled.select.columns.map Storage.label).Nodup ∧
        (∀ node ∈ compiled.plan.nodes, node.mapped = true → ∀ o ∈ node.schema.occurrences [],
          o.2.kind.Holds (Blog.value (.int 8) (.name (node.reference o.2)))) ∧
          ∃ tuples m, Mapper.mapRows Blog.catalog [compiled.select.rowOf (Blog.value (.int 8))]
            ⟨compiled.mapper, {}⟩ = .ok tuples m ∧
              compiled.Agrees Blog.query.selections (Blog.value (.int 8)) tuples m := by
  have hanswers : (Blog.query.compile Blog.catalog {}).1.toOption.any (fun compiled =>
      decide ((compiled.select.columns.map Storage.label).Nodup) &&
        decide (∀ node ∈ compiled.plan.nodes, node.mapped = true → ∀ o ∈ node.schema.occurrences [],
          o.2.kind.Holds (Blog.value (.int 8) (.name (node.reference o.2))))) = true := by
    decide +kernel
  obtain ⟨compiled, cache', hcompile, hanswer⟩ := exists_compiled hanswers
  obtain ⟨hlabels, hvalue⟩ := Bool.and_eq_true_iff.1 hanswer
  exact ⟨compiled, cache', hcompile, of_decide_eq_true hlabels, of_decide_eq_true hvalue,
    agrees_of_compile hcompile (of_decide_eq_true hlabels) (of_decide_eq_true hvalue) {}⟩

/-- At some mapped node there is no entity that has the values of the node's columns. -/
def Lacks (compiled : CompiledQuery) (value : Operand → Value) (m : Mapping) : Prop :=
  ∃ x ∈ compiled.plan.nodes.zipIdx, x.1.mapped = true ∧ ∃ o ∈ x.1.schema.occurrences [],
    ((compiled.plan.entityIn (compiled.select.rowOf value) m.mapper.identity x.2).bind fun e =>
      m.graph.slotAt e o) ≠ some (.loaded (value (.name (x.1.reference o.2))))

/-- A row with values of the kinds of the atomics is mapped, but some of them are not loaded. -/
def Misses (c : Catalog) (q : Query) (value : Operand → Value) : Prop :=
  ∃ compiled cache' tuples m, q.compile c {} = (.ok compiled, cache') ∧
    (∀ node ∈ compiled.plan.nodes, node.mapped = true → ∀ o ∈ node.schema.occurrences [],
      o.2.kind.Holds (value (.name (node.reference o.2)))) ∧
      Mapper.mapRows c [compiled.select.rowOf value] ⟨compiled.mapper, {}⟩ = .ok tuples m ∧
        Lacks compiled value m

instance (compiled : CompiledQuery) (value : Operand → Value) (m : Mapping) :
    Decidable (Lacks compiled value m) :=
  inferInstanceAs (Decidable (∃ x ∈ compiled.plan.nodes.zipIdx, x.1.mapped = true ∧ _))

/-- Whether values are missed can be found out by mapping the row. -/
theorem misses_of_any (h : (q.compile c {}).1.toOption.any (fun compiled =>
    decide (∀ node ∈ compiled.plan.nodes, node.mapped = true → ∀ o ∈ node.schema.occurrences [],
        o.2.kind.Holds (value (.name (node.reference o.2)))) &&
      ((Mapper.mapRows c [compiled.select.rowOf value]).succeeds ⟨compiled.mapper, {}⟩ &&
        decide (Lacks compiled value
          ((Mapper.mapRows c [compiled.select.rowOf value]).final ⟨compiled.mapper, {}⟩)))) = true) :
    Misses c q value := by
  obtain ⟨compiled, cache', hcompile, hanswer⟩ := exists_compiled h
  obtain ⟨hvalue, hanswer⟩ := Bool.and_eq_true_iff.1 hanswer
  obtain ⟨hsucceeds, hlacks⟩ := Bool.and_eq_true_iff.1 hanswer
  obtain ⟨tuples, m, hrun⟩ := Act.exists_of_succeeds hsucceeds
  rw [Act.final_of_ok hrun] at hlacks
  exact ⟨compiled, cache', tuples, m, hcompile, of_decide_eq_true hvalue, hrun,
    of_decide_eq_true hlacks⟩

/-- Where a key is null there is no entity; an entity has the values of the first node at which it
occurs; and of two columns with one label the first is read for both. Where the keys of all roots are
null there is no tuple, so a raw selection has no value. -/
theorem misses_values : Misses Blog.catalog Blog.query (Blog.value .null) ∧
    Misses Blog.catalog Blog.query (Blog.value (.int 7)) ∧
      Misses Office.catalog Office.query Office.value ∧
        ∃ compiled cache' m, Blog.query.compile Blog.catalog {} = (.ok compiled, cache') ∧
          Mapper.mapRows Blog.catalog [compiled.select.rowOf fun _ => .null] ⟨compiled.mapper, {}⟩ =
            .ok [] m := by
  refine ⟨misses_of_any (by decide +kernel), misses_of_any (by decide +kernel),
    misses_of_any (by decide +kernel), ?_⟩
  have hanswers : (Blog.query.compile Blog.catalog {}).1.toOption.any (fun compiled =>
      (Mapper.mapRows Blog.catalog [compiled.select.rowOf fun _ => .null]).answer?
        ⟨compiled.mapper, {}⟩ = some []) = true := by decide +kernel
  obtain ⟨compiled, cache', hcompile, hanswer⟩ := exists_compiled hanswers
  exact ⟨compiled, cache', _, hcompile, Act.eq_ok_of_answer? (of_decide_eq_true hanswer)⟩

end Query

end EntityGraph
