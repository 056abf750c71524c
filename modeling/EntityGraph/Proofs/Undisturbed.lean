import EntityGraph.Proofs.Planning
import EntityGraph.Proofs.Together

/-!
# Filters and orderings leave the selection alone

Selections are compiled before filters and orderings. What comes after them walks paths as well, and
may join relations, but it maps nothing and renames nothing: nodes are only added at the end, and so are
joins. What is selected, and how rows are read back, is therefore the same as without them.

* `Planner.Aside` — a plan to which nodes have been added that are not mapped;
* `Query.bare` — a query without its filters, orderings and counts;
* `Query.bare_of_compile` — it compiles where the query does, and the query only adds to it;
* `Query.compiled_unique` — what a query is compiled to does not depend on the paths walked before;
* `Query.undisturbed_of_compile` — queries that select the same differ in nothing but added joins.
-/

namespace EntityGraph

namespace Planner

variable {c : Catalog} {p p' p'' : Planner} {s : Schema} {i j parent : Nat} {comp : Component}
  {path chain : String}

/-! ### Joining without mapping -/

/-- Nodes that are not mapped do not count among those that are. -/
theorem filter_append_unmapped {nodes more : List PlanNode} (hnot : ∀ n ∈ more, n.mapped = false) :
    (nodes ++ more).filter (·.mapped) = nodes.filter (·.mapped) := by
  have hnone : more.filter (·.mapped) = [] := List.filter_eq_nil_iff.2 fun n hn => by simp [hnot n hn]
  rw [List.filter_append, hnone, List.append_nil]

/-- A plan that has been added to: nodes behind those that were there, none of them mapped, and joins
behind those that were there. -/
structure Aside (p p' : Planner) : Prop where
  nodes : ∃ more, p'.nodes = p.nodes ++ more ∧ ∀ n ∈ more, n.mapped = false
  roots : p'.roots = p.roots
  tables : p'.tables = p.tables
  joins : p.joins <+: p'.joins

namespace Aside

theorem refl (p : Planner) : Aside p p :=
  ⟨⟨[], (List.append_nil _).symm, fun _ hn => absurd hn List.not_mem_nil⟩, rfl, rfl, List.prefix_refl _⟩

theorem trans (h : Aside p p') (h' : Aside p' p'') : Aside p p'' := by
  obtain ⟨more, hmore, hnot⟩ := h.nodes
  obtain ⟨more', hmore', hnot'⟩ := h'.nodes
  refine ⟨⟨more ++ more', by rw [hmore', hmore, List.append_assoc], fun n hn => ?_⟩,
    h'.roots.trans h.roots, h'.tables.trans h.tables, h.joins.trans h'.joins⟩
  exact (List.mem_append.1 hn).elim (hnot n) (hnot' n)

/-- The mapped nodes are those that were mapped before. -/
theorem filter_mapped (h : Aside p p') :
    p'.nodes.filter (·.mapped) = p.nodes.filter (·.mapped) := by
  obtain ⟨more, hmore, hnot⟩ := h.nodes
  rw [hmore, filter_append_unmapped hnot]

/-- The same columns are selected. -/
theorem selectedColumns_eq (h : Aside p p') : p'.selectedColumns = p.selectedColumns := by
  unfold selectedColumns
  rw [h.filter_mapped]

/-- The same collections are there for what is read at a node. -/
theorem toManyOf_eq (h : Aside p p') (i : Nat) : p'.toManyOf i = p.toManyOf i := by
  obtain ⟨more, hmore, hnot⟩ := h.nodes
  have hnone (f : PlanNode → Option String) (hf : ∀ n, n.mapped = false → f n = none) :
      (p.nodes ++ more).filterMap f = p.nodes.filterMap f := by
    rw [List.filterMap_append, List.filterMap_eq_nil_iff.2 fun n hn => hf n (hnot n hn),
      List.append_nil]
  unfold toManyOf
  rw [hmore, hnone]
  intro n hn
  simp only [hn]
  split <;> simp

/-- Rows are read back at the same nodes, and at none of those that have been added. -/
theorem toPlan_nodes (h : Aside p p') (outputs outputs' : List Output) :
    ∃ more, (p'.toPlan outputs').nodes = (p.toPlan outputs).nodes ++ more ∧
      ∀ n ∈ more, n.mapped = false := by
  obtain ⟨more, hmore, hnot⟩ := h.nodes
  refine ⟨more.mapIdx fun i n => { n with toMany := p.toManyOf (i + p.nodes.length) }, ?_,
    fun n hn => ?_⟩
  · simp only [toPlan, h.toManyOf_eq, hmore, List.mapIdx_append]
  · obtain ⟨i, hi, rfl⟩ := List.mem_mapIdx.1 hn
    exact hnot more[i] (List.getElem_mem hi)

end Aside

/-- A relation that is joined is not mapped yet. -/
theorem Joins.aside (h : Joins c p path parent comp j p') : Aside p p' := by
  cases h with
  | known => exact .refl _
  | @added target key left right =>
    refine ⟨⟨[p.fresh target (some (parent, comp))], rfl, fun n hn => ?_⟩, rfl, rfl,
      List.prefix_append _ _⟩
    rw [List.mem_singleton.1 hn]
    rfl

/-- A walk that maps nothing only adds to a plan. -/
theorem Walks.aside {segments embeds : List String} {r : Reached}
    (h : Walks c false p i path embeds s segments r p') : Aside p p' := by
  induction h with
  | node | embedded | scalar => exact .refl _
  | through _ _ _ ih => exact ih
  | along _ _ hjoins _ ih => exact hjoins.aside.trans ih

end Planner

namespace Query

open Planner

variable {c : Catalog} {q : Query} {sc : Scope} {chain : String} {mapped : Bool} {st st' : Progress}
  {cache cache' : PathCache} {compiled : CompiledQuery}

/-! ### What filters and orderings do -/

/-- Work after the selections: the plan goes on growing, and is only added to. -/
def Progress.Adds (c : Catalog) (st st' : Progress) : Prop :=
  st.Grows c st' ∧ Aside st.planner st'.planner

theorem Progress.Adds.refl (c : Catalog) (st : Progress) : st.Adds c st :=
  ⟨.refl, .refl _⟩

theorem Progress.Adds.trans {st'' : Progress} (h : st.Adds c st') (h' : st'.Adds c st'') :
    st.Adds c st'' :=
  ⟨h.1.trans h'.1, h.2.trans h'.2⟩

/-- The column of a path is found by adding to the plan. -/
theorem ends_compileColumn_adds (h : Begun c st.planner) :
    Act.Ends (compileColumn c sc chain) st (fun _ st' => st.Adds c st') (fun _ _ => True) := by
  rw [ends_compileColumn_iff]
  refine ends_visit_of_walk fun _ _ _ r p hwalk => ?_
  obtain ⟨i, path, segments, hwalks⟩ := walks_of_walk h.sound h.nodes hwalk
  exact ⟨fun _ _ => ⟨hwalks.steps, hwalks.aside⟩, fun _ _ => trivial⟩

/-- Work for each member of a list adds to the plan if the work for one does. -/
theorem ends_mapM_adds {α β : Type} {f : α → CompileM β} (h : Begun c st.planner)
    (hf : ∀ a (st : Progress), Begun c st.planner →
      Act.Ends (f a) st (fun _ st' => st.Adds c st') fun _ _ => True) (l : List α) :
    Act.Ends (l.mapM f) st (fun _ st' => st.Adds c st') fun _ _ => True :=
  (Act.ends_mapM (E := fun _ _ => True) (R := Progress.Adds c) (Q := fun _ _ _ => True)
    (Progress.Adds.refl c) (fun _ _ _ => Progress.Adds.trans) (fun _ _ _ _ _ _ => trivial)
    fun a _ st₁ hst₁ => (hf a st₁ (h.grows hst₁.1)).mono (fun _ _ h => ⟨h, trivial⟩) fun _ _ h => h).mono
    (fun _ _ h => h.1) fun _ _ h => h

/-- What a body that compiles has done: it has compiled the selections, and then added to the plan. -/
structure Worked (c : Catalog) (q : Query) (sc : Scope) (rootOutputs : List Output) (st st' : Progress)
    (compiled : CompiledQuery) : Prop where
  selected : ∃ outputs st₁, q.selections.mapM (compileSelection c sc) st = .ok outputs st₁ ∧
    st₁.Adds c st' ∧ compiled.plan = st'.planner.toPlan (rootOutputs ++ outputs)
  columns : ∃ columns, st'.planner.selectedColumns = .ok columns ∧
    compiled.select.columns = columns ++ q.rawColumns
  tables : compiled.select.tables = st'.planner.tables
  joins : compiled.select.joins = st'.planner.joins

/-- A body that compiles has done so. -/
theorem ends_compileBody_worked {rootOutputs : List Output} (h : Begun c st.planner)
    (hall : st.planner.AllMapped) :
    Act.Ends (compileBody c q sc rootOutputs) st
      (fun compiled st' => Worked c q sc rootOutputs st st' compiled) (fun _ _ => True) := by
  rw [ends_compileBody_iff]
  refine ((ends_selections (q := q) (Knowing.nothing c sc) trivial h hall).and
    (Act.ends_run _ _)).mono (fun outputs st₁ h₁ => ?_) fun _ _ _ => trivial
  obtain ⟨⟨hgrows, -⟩, hselected⟩ := h₁
  have hbegun := h.grows hgrows
  refine (ends_mapM_adds hbegun (fun f st hst => ?_) q.filters).mono (fun conditions st₂ h₂ => ?_)
    fun _ _ h => h
  · unfold compileFilter
    rw [Act.ends_bind]
    exact (ends_compileColumn_adds hst).mono (fun _ _ h => h) fun _ _ h => h
  refine (ends_mapM_adds (hbegun.grows h₂.1) (fun o st hst => ?_) q.order).mono
    (fun orderBy st₃ h₃ => ?_) fun _ _ h => h
  · rw [Act.ends_bind]
    exact (ends_compileColumn_adds hst).mono (fun _ _ h => h) fun _ _ h => h
  exact ⟨fun columns hcolumns => ⟨⟨outputs, st₁, hselected, h₂.trans h₃, rfl⟩,
    ⟨columns, hcolumns, rfl⟩, rfl, rfl⟩, fun _ _ => trivial⟩

/-! ### Queries without filters and orderings -/

/-- What the plan of a query begins with, and what its statement selects, when more has been joined: the
same columns, outputs and roots, and the same nodes before others that are not mapped. -/
structure Widens (bare compiled : CompiledQuery) : Prop where
  columns : compiled.select.columns = bare.select.columns
  outputs : compiled.plan.outputs = bare.plan.outputs
  roots : compiled.plan.roots = bare.plan.roots
  nodes : ∃ more, compiled.plan.nodes = bare.plan.nodes ++ more ∧ ∀ n ∈ more, n.mapped = false
  tables : compiled.select.tables = bare.select.tables
  joins : bare.select.joins <+: compiled.select.joins

/-- No other node is mapped. -/
theorem Widens.filter_mapped {bare : CompiledQuery} (h : Widens bare compiled) :
    compiled.plan.nodes.filter (·.mapped) = bare.plan.nodes.filter (·.mapped) := by
  obtain ⟨more, hmore, hnot⟩ := h.nodes
  rw [hmore, filter_append_unmapped hnot]

/-- A query with its roots and selections only. -/
def bare (q : Query) : Query where
  root := q.root
  roots := q.roots
  selections := q.selections

/-- What a body selects is compiled without filters and orderings, too. -/
theorem Worked.bare {rootOutputs : List Output} (h : Worked c q sc rootOutputs st st' compiled) :
    ∃ bare st₁, (compileBody c q.bare sc rootOutputs).run st = .ok bare st₁ ∧ Widens bare compiled := by
  obtain ⟨outputs, st₁, hselected, ⟨-, haside⟩, hplan⟩ := h.selected
  obtain ⟨columns, hcolumns, hselect⟩ := h.columns
  rw [haside.selectedColumns_eq] at hcolumns
  refine ⟨⟨{ columns := columns ++ q.rawColumns, tables := st₁.planner.tables, joins := st₁.planner.joins },
    st₁.planner.toPlan (rootOutputs ++ outputs)⟩, st₁, ?_, ?_⟩
  · have hget : ∀ t : Progress, (get : CompileM Progress) t = .ok t t := fun _ => rfl
    unfold compileBody
    simp only [Query.bare, List.mapM_nil, EStateM.run, bind, EStateM.bind, hselected, pure,
      EStateM.pure, hget, hcolumns]
    rfl
  · refine ⟨hselect, by rw [hplan]; rfl, by rw [hplan]; exact haside.roots, ?_, h.tables.trans haside.tables,
      by rw [h.joins]; exact haside.joins⟩
    rw [hplan]
    exact haside.toPlan_nodes _ _

/-- Where a query compiles, it does so without its filters and orderings, and they only add to it. -/
theorem bare_of_compile (h : q.compile c cache = (.ok compiled, cache')) :
    ∃ bare cache₀, q.bare.compile c cache = (.ok bare, cache₀) ∧ Widens bare compiled := by
  obtain ⟨sc, rootOutputs, p, st, hsc, hroots, hrun, -⟩ := compile_eq_ok_iff.1 h
  obtain ⟨-, -, hall, -⟩ := run_plannedRoots (roots_of_scope hsc) hroots
  have hworked := (ends_compileBody_worked (begun_of_plannedRoots hsc hroots) hall).of_ok hrun
  obtain ⟨bare, st₁, hbare, hwidens⟩ := hworked.bare
  exact ⟨bare, st₁.cache, compile_eq_ok_iff.2 ⟨sc, rootOutputs, p, st₁, hsc, hroots, hbare, rfl⟩,
    hwidens⟩

/-! ### Compiling again -/

/-- Two compilations whose plans are the same. What has been walked before may differ. -/
def Progress.Alike (st st' : Progress) : Prop :=
  st.planner = st'.planner

/-- What visiting a path comes to is what walking it comes to. -/
theorem walk_of_visit {r : Reached} (h : visit c sc chain mapped st = .ok r st') :
    (walk c sc.root.isSome chain mapped).run st.planner = .ok (r, st'.planner) := by
  have hends : Act.Ends (visit c sc chain mapped) st (fun r st' =>
      (walk c sc.root.isSome chain mapped).run st.planner = .ok (r, st'.planner)) fun _ _ => True :=
    ends_visit_of_walk fun _ _ _ _ _ hwalk => hwalk
  exact hends.of_ok h

/-- A path leads to the same in plans that are the same, wherever it is resolved. -/
theorem together_visit (h : st.Alike st') : Act.Together (visit c sc chain mapped)
    (visit c sc chain mapped) st st' fun r r' t t' => r = r' ∧ t.Alike t' := by
  intro r t r' t' hr hr'
  have hwalk := walk_of_visit hr
  rw [show st.planner = st'.planner from h, walk_of_visit hr'] at hwalk
  obtain ⟨rfl, ht⟩ := Prod.mk.inj (Except.ok.inj hwalk)
  exact ⟨rfl, ht.symm⟩

/-- A selection is answered alike. -/
theorem together_compileSelection (sel : Selection) (h : st.Alike st') :
    Act.Together (compileSelection c sc sel) (compileSelection c sc sel) st st'
      fun o o' t t' => o = o' ∧ t.Alike t' := by
  cases sel with
  | raw sql label => exact Act.together_pure ⟨rfl, h⟩
  | path chain =>
    refine Act.together_bind (together_visit h) fun r r' t t' ht => ?_
    obtain ⟨rfl, ht⟩ := ht
    intro o u o' u' ho ho'
    cases ho
    cases ho'
    exact ⟨congrArg (fun p : Planner => p.outputOf chain r) ht, ht⟩

/-- A path is compared by the same column. -/
theorem together_compileColumn (h : st.Alike st') : Act.Together (compileColumn c sc chain)
    (compileColumn c sc chain) st st' fun column column' t t' => column = column' ∧ t.Alike t' := by
  refine Act.together_bind (together_visit h) fun r r' t t' ht => ?_
  obtain ⟨rfl, ht⟩ := ht
  refine Act.together_bind (R := fun u u' t t' => u.Alike u' ∧ t.Alike t')
    (Act.together_get ⟨ht, ht⟩) fun u u' t t' hu => ?_
  rw [show u.planner = u'.planner from hu.1]
  cases u'.planner.columnOf chain r with
  | ok column => exact Act.together_pure ⟨rfl, hu.2⟩
  | error e => exact fun _ _ _ _ h => nomatch h

/-- A body is compiled alike. -/
theorem together_compileBody (rootOutputs : List Output) (h : st.Alike st') :
    Act.Together (compileBody c q sc rootOutputs) (compileBody c q sc rootOutputs) st st'
      fun compiled again _ _ => compiled = again := by
  unfold compileBody
  refine Act.together_bind (Act.together_mapM (I := Progress.Alike) (Q := fun _ => True)
    (fun sel _ t t' ht => (together_compileSelection sel ht).mono fun _ _ _ _ h => ⟨⟨h.1, trivial⟩, h.2⟩)
    h) fun outputs outputs' t t' ht => ?_
  obtain ⟨⟨rfl, -⟩, ht⟩ := ht
  refine Act.together_bind (Act.together_mapM (I := Progress.Alike) (Q := fun _ => True)
    (fun f _ t t' ht => Act.together_bind (together_compileColumn ht) fun _ _ _ _ h =>
      Act.together_pure ⟨⟨by rw [h.1], trivial⟩, h.2⟩) ht) fun conditions conditions' u u' hu => ?_
  obtain ⟨⟨rfl, -⟩, hu⟩ := hu
  refine Act.together_bind (Act.together_mapM (I := Progress.Alike) (Q := fun _ => True)
    (fun o _ t t' ht => Act.together_bind (together_compileColumn ht) fun _ _ _ _ h =>
      Act.together_pure ⟨⟨by rw [h.1], trivial⟩, h.2⟩) hu) fun orderBy orderBy' v v' hv => ?_
  obtain ⟨⟨rfl, -⟩, hv⟩ := hv
  refine Act.together_bind (R := fun w w' _ _ => w.Alike w') (Act.together_get hv) fun w w' _ _ hw => ?_
  rw [show w.planner = w'.planner from hw]
  cases hcolumns : w'.planner.selectedColumns with
  | ok columns =>
    simp only [hcolumns]
    exact Act.together_pure rfl
  | error e =>
    simp only [hcolumns]
    exact fun _ _ _ _ h => nomatch h

/-- Where a query compiles twice, it is compiled to the same, whatever has been walked before. -/
theorem compiled_unique {again : CompiledQuery} {k k' : PathCache}
    (h : q.compile c cache = (.ok compiled, cache')) (h' : q.compile c k = (.ok again, k')) :
    compiled = again := by
  obtain ⟨sc, rootOutputs, p, st, hsc, hroots, hrun, -⟩ := compile_eq_ok_iff.1 h
  obtain ⟨sc', rootOutputs', p', st', hsc', hroots', hrun', -⟩ := compile_eq_ok_iff.1 h'
  obtain rfl := Except.ok.inj (hsc.symm.trans hsc')
  obtain ⟨rfl, rfl⟩ := Prod.mk.inj (Except.ok.inj (hroots.symm.trans hroots'))
  have hlike : Progress.Alike ⟨p, cache⟩ ⟨p, k⟩ := rfl
  exact together_compileBody rootOutputs hlike _ _ _ _ hrun hrun'

/-! ### Queries with the same selections -/

variable {q' : Query} {compiled' : CompiledQuery} {k k' : PathCache}

/-- Which columns are selected, under which keys rows are returned and how their positions are read, and
which nodes are mapped, is settled by the roots and the selections of a query. Whatever it filters and
orders by, its statement joins what those alone join, and then what its filters and orderings need. -/
theorem undisturbed_of_compile (hroot : q.root = q'.root) (hroots : q.roots = q'.roots)
    (hselections : q.selections = q'.selections) (h : q.compile c cache = (.ok compiled, cache'))
    (h' : q'.compile c k = (.ok compiled', k')) :
    compiled.select.columns = compiled'.select.columns ∧
      compiled.plan.keys = compiled'.plan.keys ∧ compiled.plan.outputs = compiled'.plan.outputs ∧
      compiled.plan.nodes.filter (·.mapped) = compiled'.plan.nodes.filter (·.mapped) ∧
      ∃ bare cache₀ k₀, q.bare.compile c cache = (.ok bare, cache₀) ∧ q.bare.compile c k = (.ok bare, k₀) ∧
        Widens bare compiled ∧ Widens bare compiled' := by
  obtain ⟨bare, cache₀, hbare, hwidens⟩ := bare_of_compile h
  obtain ⟨bare', k₀, hbare', hwidens'⟩ := bare_of_compile h'
  rw [show q'.bare = q.bare by simp only [Query.bare, hroot, hroots, hselections]] at hbare'
  obtain rfl := compiled_unique hbare hbare'
  refine ⟨hwidens.columns.trans hwidens'.columns.symm, ?_, hwidens.outputs.trans hwidens'.outputs.symm,
    hwidens.filter_mapped.trans hwidens'.filter_mapped.symm, bare, cache₀, k₀, hbare, hbare', hwidens,
    hwidens'⟩
  rw [Plan.keys, Plan.keys, hwidens.outputs, hwidens'.outputs]

end Query

/-- What the query of the blog selects, filtered and ordered by other paths. -/
def Blog.elsewhere : Query where
  roots := [("u", "User"), ("p", "Post")]
  selections := [.path "u.posts", .path "p", .raw "NOW()" "now"]
  filters := [⟨"u.posts.author.name", .eq, .one (.text "x")⟩, ⟨"p.author.bio", .eq, .one (.text "y")⟩]
  order := [("u.posts.title", .desc)]
  limit := some 3

namespace Query

/-- The two queries of the blog select the same. -/
theorem undisturbed_of_compile_blog : Blog.query.root = Blog.elsewhere.root ∧
    Blog.query.roots = Blog.elsewhere.roots ∧ Blog.query.selections = Blog.elsewhere.selections ∧
    ∃ compiled cache compiled' cache', Blog.query.compile Blog.catalog {} = (.ok compiled, cache) ∧
      Blog.elsewhere.compile Blog.catalog {} = (.ok compiled', cache') ∧
      compiled.select.columns = compiled'.select.columns ∧
      compiled.plan.keys = compiled'.plan.keys ∧ compiled.plan.outputs = compiled'.plan.outputs ∧
      compiled.plan.nodes.filter (·.mapped) = compiled'.plan.nodes.filter (·.mapped) ∧
      ∃ bare cache₀ k₀, Blog.query.bare.compile Blog.catalog {} = (.ok bare, cache₀) ∧
        Blog.query.bare.compile Blog.catalog {} = (.ok bare, k₀) ∧
        Widens bare compiled ∧ Widens bare compiled' := by
  have hanswers : (Blog.query.compile Blog.catalog {}).1.toOption.any (fun _ => true) = true := by
    decide +kernel
  have hanswers' : (Blog.elsewhere.compile Blog.catalog {}).1.toOption.any (fun _ => true) = true := by
    decide +kernel
  obtain ⟨compiled, cache, h, -⟩ := exists_compiled hanswers
  obtain ⟨compiled', cache', h', -⟩ := exists_compiled hanswers'
  have hroot : Blog.query.root = Blog.elsewhere.root := rfl
  have hroots : Blog.query.roots = Blog.elsewhere.roots := rfl
  have hselections : Blog.query.selections = Blog.elsewhere.selections := rfl
  exact ⟨hroot, hroots, hselections, compiled, cache, compiled', cache', h, h',
    undisturbed_of_compile hroot hroots hselections h h'⟩

end Query

end EntityGraph
