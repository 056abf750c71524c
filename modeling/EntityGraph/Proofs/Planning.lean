import EntityGraph.Proofs.Growth

/-!
# What a query is compiled to

The plan of a query that compiles has been grown by steps, and its statement is the one that the plan
describes: the columns of its mapped nodes are selected, and each condition and each ordering compares
the column of what its path has reached.

* `Query.Describes` — what a plan says of the statement and of the plan that a query is compiled to;
* `Query.exists_of_compile` — a query that compiles has a plan that says so;
* `Query.Knowing` — what is known of every path that is walked, while the plan goes on growing.
-/

namespace EntityGraph

/-! ### What is selected -/

/-- How a query refers to the column of an atomic at a node. -/
def PlanNode.reference (n : PlanNode) (a : Atomic) : String :=
  (n.column n.schema a).toOption.getD ""

/-- The columns that are selected at a node: one for each occurrence of an atomic. -/
def PlanNode.selected (n : PlanNode) : List (Operand × Option String) :=
  (n.schema.occurrences []).map fun q => (.name (n.reference q.2), some (n.label q.1 q.2.name))

namespace Planner

variable {c : Catalog} {p : Planner} {columns : List (Operand × Option String)}

/-- Where columns are selected, they are those of the mapped nodes, one node after the other. -/
theorem selectedColumns_ok (hsound : Sound c p) (h : p.selectedColumns = .ok columns) :
    columns = (p.nodes.filter (·.mapped)).flatMap PlanNode.selected ∧
      ∀ n ∈ p.nodes, n.mapped = true → ∀ a ∈ n.schema.deepAtomics,
        n.column n.schema a = .ok (n.reference a) := by
  have htable : ∀ n ∈ p.nodes, ∀ t : Schema, t.Within n.schema → t.table = n.schema.table := by
    intro n hn t ht
    obtain ⟨i, hi, rfl⟩ := mem_nodes_iff.1 hn
    exact Catalog.table_of_within (hsound.schema i hi) ht
  obtain ⟨parts, hparts, h⟩ := bind_eq_ok_iff.1 h
  obtain rfl := Except.ok.inj h
  have hreference : ∀ n ∈ p.nodes, n.mapped = true → ∀ a ∈ n.schema.deepAtomics,
      n.column n.schema a = .ok (n.reference a) := by
    intro n hn hmapped a ha
    obtain ⟨part, hpart⟩ := exists_of_mapM_ok hparts (List.mem_filter.2 ⟨hn, hmapped⟩)
    obtain ⟨reference, hcolumn⟩ := column_of_columnsOf (htable n hn) hpart a ha
    rw [PlanNode.reference, hcolumn]
    rfl
  have hall := mapM_eq_ok (g := PlanNode.selected) fun n hn =>
    columnsOf_eq [] (htable n (List.mem_filter.1 hn).1)
      (hreference n (List.mem_filter.1 hn).1 (List.mem_filter.1 hn).2)
  rw [Except.ok.inj (hparts.symm.trans hall), ← List.flatMap_def]
  exact ⟨rfl, hreference⟩

/-- The column that something is compared by is the one of an atomic that occurs at a node. -/
theorem column_of_columnOf (hsound : Sound c p) {r : Reached} {chain reference : String}
    (hr : p.Reaches r) (h : p.columnOf chain r = .ok reference) : ∃ i < p.nodes.length,
      ∃ o ∈ (p.node i).schema.occurrences [],
        (p.node i).column (p.node i).schema o.2 = .ok reference := by
  cases r with
  | node i =>
    obtain ⟨key, hkey, hcolumn⟩ := bind_eq_ok_iff.1 h
    have hmem := Catalog.mem_of_primaryKey (hsound.schema i hr) (Schema.key_eq_ok_iff.1 hkey)
    exact ⟨i, hr, ([], key), Schema.mem_occurrences_of_embeddedAt? rfl hmem, hcolumn⟩
  | embedded i path => cases h
  | scalar i path s a =>
    obtain ⟨hi, hs, ha⟩ := hr
    have htable := Catalog.table_of_within (hsound.schema i hi) (Schema.within_of_embeddedAt? hs)
    exact ⟨i, hi, _, Schema.mem_occurrences_of_embeddedAt? hs (Schema.mem_of_atomic? ha).1,
      column_of_table htable.symm h⟩

end Planner

namespace Query

variable {c : Catalog} {q : Query} {sc : Scope} {chain : String} {mapped : Bool} {st : Progress}

/-! ### The functions of a compilation -/

section ends

variable {E : Error → Progress → Prop}

/-- Visiting a path ends well iff resolving it and walking it do. -/
theorem ends_visit_iff {P : Reached → Progress → Prop} :
    Act.Ends (visit c sc chain mapped) st P E ↔ ∀ resolved cache,
      sc.resolve c chain st.cache = (resolved, cache) →
        (∀ error, resolved = .error error → E error { st with cache }) ∧
        ∀ denoted, resolved = .ok denoted →
          (∀ error, (Planner.walk c sc.root.isSome chain mapped).run st.planner = .error error →
            E error { st with cache }) ∧
          ∀ r p, (Planner.walk c sc.root.isSome chain mapped).run st.planner = .ok (r, p) →
            P r ⟨p, cache⟩ := by
  unfold Act.Ends visit
  obtain ⟨resolved, cache⟩ := sc.resolve c chain st.cache
  cases resolved with
  | error e => simp
  | ok denoted =>
    cases (Planner.walk c sc.root.isSome chain mapped).run st.planner with
    | error e => simp
    | ok result =>
      obtain ⟨r, p⟩ := result
      simp

/-- Visiting a path that is resolved comes to what walking it comes to. -/
theorem ends_visit_of_walk {P : Reached → Progress → Prop}
    (h : ∀ denoted cache, sc.resolve c chain st.cache = (.ok denoted, cache) → ∀ r p,
      (Planner.walk c sc.root.isSome chain mapped).run st.planner = .ok (r, p) → P r ⟨p, cache⟩) :
    Act.Ends (visit c sc chain mapped) st P fun _ _ => True :=
  ends_visit_iff.2 fun _ cache hresolve => ⟨fun _ _ => trivial, fun denoted hdenoted =>
    ⟨fun _ _ => trivial, h denoted cache (hdenoted ▸ hresolve)⟩⟩

/-- A path is compared by the column of what visiting it leads to. -/
theorem ends_compileColumn_iff {P : String → Progress → Prop} :
    Act.Ends (compileColumn c sc chain) st P E ↔ Act.Ends (visit c sc chain false) st (fun r st' =>
      (∀ column, st'.planner.columnOf chain r = .ok column → P column st') ∧
        ∀ error, st'.planner.columnOf chain r = .error error → E error st') E := by
  unfold compileColumn
  simp only [Act.ends_bind, Act.ends_get]
  refine iff_of_eq (congrArg (Act.Ends _ st · E) (funext₂ fun r st' => ?_))
  cases st'.planner.columnOf chain r <;> simp

/-- What is compiled when all parts of a query have been. -/
def assembled (q : Query) (p : Planner) (outputs : List Output) (columns : List (Operand × Option String))
    (conditions : List Expr) (orderBy : List (String × Direction)) : CompiledQuery where
  select := {
    columns := columns ++ q.rawColumns
    tables := p.tables
    joins := p.joins
    conditions, orderBy
    limit := q.limit
    offset := q.offset }
  plan := p.toPlan outputs

/-- Selections are compiled first, then filters, then the ordering. -/
theorem ends_compileBody_iff {rootOutputs : List Output} {P : CompiledQuery → Progress → Prop} :
    Act.Ends (compileBody c q sc rootOutputs) st P E ↔
      Act.Ends (q.selections.mapM (compileSelection c sc)) st (fun outputs st₁ =>
        Act.Ends (q.filters.mapM (compileFilter c sc)) st₁ (fun conditions st₂ =>
          Act.Ends (q.order.mapM fun o => do return (← compileColumn c sc o.1, o.2)) st₂
            (fun orderBy st₃ =>
              (∀ columns, st₃.planner.selectedColumns = .ok columns →
                P (q.assembled st₃.planner (rootOutputs ++ outputs) columns conditions orderBy) st₃) ∧
              ∀ error, st₃.planner.selectedColumns = .error error → E error st₃) E) E) E := by
  unfold compileBody
  simp only [Act.ends_bind, Act.ends_get]
  refine iff_of_eq (congrArg (Act.Ends _ st · E) (funext₂ fun outputs st₁ => ?_))
  refine congrArg (Act.Ends _ st₁ · E) (funext₂ fun conditions st₂ => ?_)
  refine congrArg (Act.Ends _ st₂ · E) (funext₂ fun orderBy st₃ => ?_)
  cases st₃.planner.selectedColumns <;> simp [assembled]

end ends

/-! ### What is compiled -/

/-- A path leads to something in a plan, which is compared by a column. -/
def Compares (p : Planner) (chain column : String) : Prop :=
  ∃ r, p.Reaches r ∧ p.columnOf chain r = .ok column

/-- What is answered for a selection: what its path leads to, which is mapped, or a raw expression. -/
def Answers (p : Planner) : Selection → Output → Prop
  | .path chain, o => ∃ r, p.Reaches r ∧ (p.node r.home).mapped = true ∧ o = p.outputOf chain r
  | .raw _ label, o => o = .raw label label

/-- The plan of a compilation goes on growing. -/
def Progress.Grows (c : Catalog) (st st' : Progress) : Prop :=
  Planner.Steps c st.planner st'.planner

/-- Growing extends a plan. -/
theorem Progress.Grows.extends {st st' : Progress} (h : st.Grows c st') :
    st.planner.Extends st'.planner :=
  Planner.Extends.steps h

/-- A plan that has been begun: it is sound, and there is a node. -/
structure Begun (c : Catalog) (p : Planner) : Prop where
  sound : p.Sound c
  nodes : 0 < p.nodes.length

/-- A plan that has been begun may go on. -/
theorem Begun.grows (h : Begun c st.planner) {st' : Progress} (hgrows : st.Grows c st') :
    Begun c st'.planner :=
  ⟨h.sound.steps hgrows, Nat.lt_of_lt_of_le h.nodes hgrows.extends.length⟩

/-- Visiting a path takes steps, and what it leads to is there in the end. -/
theorem ends_visit (h : Begun c st.planner) :
    Act.Ends (visit c sc chain mapped) st (fun r st' => st.Grows c st' ∧ st'.planner.Reaches r ∧
      (mapped = true → st.planner.AllMapped → st'.planner.AllMapped)) (fun _ _ => True) := by
  refine ends_visit_of_walk fun _ _ _ r p hwalk => ?_
  obtain ⟨i, path, segments, hwalks⟩ := Planner.walks_of_walk h.sound h.nodes hwalk
  refine ⟨hwalks.steps, hwalks.reaches, fun hmapped hall => ?_⟩
  subst hmapped
  exact hwalks.allMapped hall

/-- What is returned for the roots of a query: the entity of an implicit one. -/
def RootOutputs (q : Query) (outputs : List Output) : Prop :=
  (q.root = none ∧ outputs = []) ∨ (q.root.isSome ∧ ∃ key, outputs = [.entity key 0])

/-- What a plan says of the statement and of the plan that a query is compiled to. -/
structure Describes (q : Query) (p : Planner) (compiled : CompiledQuery) : Prop where
  plan : ∃ rootOutputs outputs, compiled.plan = p.toPlan (rootOutputs ++ outputs) ∧
    q.RootOutputs rootOutputs ∧ List.Forall₂ (Answers p) q.selections outputs
  columns : ∃ columns, p.selectedColumns = .ok columns ∧
    compiled.select.columns = columns ++ q.rawColumns
  tables : compiled.select.tables = p.tables
  joins : compiled.select.joins = p.joins
  conditions : List.Forall₂ (fun (f : Filter) e => ∃ column, Compares p f.path column ∧
    e = .binary (.name column) f.op (.expr f.value.toExpr)) q.filters compiled.select.conditions
  orderBy : List.Forall₂ (fun (o : String × Direction) (o' : String × Direction) =>
    Compares p o.1 o'.1 ∧ o'.2 = o.2) q.order compiled.select.orderBy

/-! ### What is known of paths -/

/-- A path leads to something in a plan of which `V` is known, and which is compared by a column. -/
def ComparesAs (V : Planner → String → Reached → Prop) (p : Planner) (chain column : String) : Prop :=
  ∃ r, p.Reaches r ∧ V p chain r ∧ p.columnOf chain r = .ok column

/-- What is answered for a selection: what its path leads to, which is mapped and of which `V` is known,
or a raw expression. -/
def AnswersAs (V : Planner → String → Reached → Prop) (p : Planner) : Selection → Output → Prop
  | .path chain, o => ∃ r, p.Reaches r ∧ V p chain r ∧ (p.node r.home).mapped = true ∧
      o = p.outputOf chain r
  | .raw _ label, o => o = .raw label label

/-- What a plan says of the statement and of the plan that a query is compiled to, and what is known of
the paths of the query. -/
structure DescribesAs (V : Planner → String → Reached → Prop) (q : Query) (p : Planner)
    (compiled : CompiledQuery) : Prop where
  plan : ∃ rootOutputs outputs, compiled.plan = p.toPlan (rootOutputs ++ outputs) ∧
    q.RootOutputs rootOutputs ∧ List.Forall₂ (AnswersAs V p) q.selections outputs
  columns : ∃ columns, p.selectedColumns = .ok columns ∧
    compiled.select.columns = columns ++ q.rawColumns
  tables : compiled.select.tables = p.tables
  joins : compiled.select.joins = p.joins
  conditions : List.Forall₂ (fun (f : Filter) e => ∃ column, ComparesAs V p f.path column ∧
    e = .binary (.name column) f.op (.expr f.value.toExpr)) q.filters compiled.select.conditions
  orderBy : List.Forall₂ (fun (o : String × Direction) (o' : String × Direction) =>
    ComparesAs V p o.1 o'.1 ∧ o'.2 = o.2) q.order compiled.select.orderBy

/-- Visiting a path keeps `I` and makes `V` known of what it leads to, for as long as the plan grows. -/
structure Knowing (c : Catalog) (sc : Scope) (I : Progress → Prop)
    (V : Planner → String → Reached → Prop) : Prop where
  visit : ∀ st chain mapped, I st →
    Act.Ends (visit c sc chain mapped) st (fun r st' => I st' ∧ V st'.planner chain r) (fun _ _ => True)
  keep : ∀ p p' chain r, p.Reaches r → Planner.Steps c p p' → V p chain r → V p' chain r

/-- Nothing need be known. -/
theorem Knowing.nothing (c : Catalog) (sc : Scope) :
    Knowing c sc (fun _ => True) (fun _ _ _ => True) where
  visit st chain mapped _ := by
    unfold Act.Ends
    split <;> trivial
  keep _ _ _ _ _ _ _ := trivial

section knowing

variable {I : Progress → Prop} {V : Planner → String → Reached → Prop} {compiled : CompiledQuery}

theorem ComparesAs.compares {p : Planner} {column : String} (h : ComparesAs V p chain column) :
    Compares p chain column := by
  obtain ⟨r, hr, -, hcolumn⟩ := h
  exact ⟨r, hr, hcolumn⟩

theorem AnswersAs.answers {p : Planner} {sel : Selection} {o : Output} (h : AnswersAs V p sel o) :
    Answers p sel o := by
  cases sel with
  | path chain =>
    obtain ⟨r, hr, -, ho⟩ := h
    exact ⟨r, hr, ho⟩
  | raw => exact h

/-- What is known of the paths may be left out. -/
theorem DescribesAs.describes {p : Planner} (h : DescribesAs V q p compiled) :
    Describes q p compiled where
  plan := by
    obtain ⟨rootOutputs, outputs, hplan, hroots, houtputs⟩ := h.plan
    exact ⟨rootOutputs, outputs, hplan, hroots, houtputs.imp fun _ _ => AnswersAs.answers⟩
  columns := h.columns
  tables := h.tables
  joins := h.joins
  conditions := h.conditions.imp fun _ _ ⟨column, hcolumn, he⟩ => ⟨column, hcolumn.compares, he⟩
  orderBy := h.orderBy.imp fun _ _ ho => ⟨ho.1.compares, ho.2⟩

/-- What is known may be put otherwise. -/
theorem DescribesAs.mono {W : Planner → String → Reached → Prop} {p : Planner}
    (h : DescribesAs V q p compiled) (hVW : ∀ chain r, V p chain r → W p chain r) :
    DescribesAs W q p compiled := by
  have hcompares : ∀ {chain column}, ComparesAs V p chain column → ComparesAs W p chain column :=
    fun ⟨r, hr, hv, hcolumn⟩ => ⟨r, hr, hVW _ r hv, hcolumn⟩
  obtain ⟨rootOutputs, outputs, hplan, hroots, houtputs⟩ := h.plan
  refine ⟨⟨rootOutputs, outputs, hplan, hroots, houtputs.imp fun sel o ho => ?_⟩, h.columns, h.tables,
    h.joins, h.conditions.imp fun _ _ ⟨column, hcolumn, he⟩ => ⟨column, hcompares hcolumn, he⟩,
    h.orderBy.imp fun _ _ ho => ⟨hcompares ho.1, ho.2⟩⟩
  cases sel with
  | path chain =>
    obtain ⟨r, hr, hv, ho⟩ := ho
    exact ⟨r, hr, hVW chain r hv, ho⟩
  | raw => exact ho

/-- What is compared is compared when more has been planned. -/
theorem ComparesAs.steps (K : Knowing c sc I V) {p p' : Planner} {column : String}
    (h : ComparesAs V p chain column) (hsteps : Planner.Steps c p p') : ComparesAs V p' chain column := by
  obtain ⟨r, hr, hv, hcolumn⟩ := h
  have hext := Planner.Extends.steps hsteps
  exact ⟨r, hext.reaches hr, K.keep _ _ _ _ hr hsteps hv, (hext.columnOf_eq hr chain).trans hcolumn⟩

/-- What is answered is answered when more has been planned. -/
theorem AnswersAs.steps (K : Knowing c sc I V) {p p' : Planner} {sel : Selection} {o : Output}
    (h : AnswersAs V p sel o) (hsteps : Planner.Steps c p p') : AnswersAs V p' sel o := by
  cases sel with
  | path chain =>
    obtain ⟨r, hr, hv, hmapped, ho⟩ := h
    have hext := Planner.Extends.steps hsteps
    obtain ⟨b, hb⟩ := hext.node r.home hr.home_lt
    exact ⟨r, hext.reaches hr, K.keep _ _ _ _ hr hsteps hv, by rw [hb, hmapped]; rfl,
      ho.trans (hext.outputOf_eq hr chain).symm⟩
  | raw => exact h

/-- A selection is answered by what its path leads to. -/
theorem ends_compileSelection (K : Knowing c sc I V) (hI : I st) (h : Begun c st.planner)
    (hall : st.planner.AllMapped) (sel : Selection) :
    Act.Ends (compileSelection c sc sel) st (fun o st' => st.Grows c st' ∧ I st' ∧
      st'.planner.AllMapped ∧ AnswersAs V st'.planner sel o) (fun _ _ => True) := by
  cases sel with
  | path chain =>
    unfold compileSelection
    rw [Act.ends_bind]
    refine ((ends_visit h).and (K.visit st chain true hI)).mono (fun r st' h' => ?_)
      fun _ _ _ => trivial
    obtain ⟨⟨hgrows, hr, hmapped⟩, hI', hv⟩ := h'
    have hall' := hmapped rfl hall
    exact ⟨hgrows, hI', hall', r, hr, hv, hall' _ hr.home_lt, rfl⟩
  | raw sql label => exact ⟨.refl, hI, hall, rfl⟩

/-- A path is compared by the column that it leads to. -/
theorem ends_compileColumn (K : Knowing c sc I V) (hI : I st) (h : Begun c st.planner) :
    Act.Ends (compileColumn c sc chain) st (fun column st' => st.Grows c st' ∧ I st' ∧
      ComparesAs V st'.planner chain column) (fun _ _ => True) := by
  rw [ends_compileColumn_iff]
  refine ((ends_visit h).and (K.visit st chain false hI)).mono (fun r st' h' => ?_)
    fun _ _ _ => trivial
  obtain ⟨⟨hgrows, hr, -⟩, hI', hv⟩ := h'
  exact ⟨fun column hcolumn => ⟨hgrows, hI', r, hr, hv, hcolumn⟩, fun _ _ => trivial⟩

/-- Selections are answered one after the other. All nodes stay mapped. -/
theorem ends_selections (K : Knowing c sc I V) (hI : I st) (h : Begun c st.planner)
    (hall : st.planner.AllMapped) :
    Act.Ends (q.selections.mapM (compileSelection c sc)) st (fun outputs st' => st.Grows c st' ∧ I st' ∧
      st'.planner.AllMapped ∧ List.Forall₂ (AnswersAs V st'.planner) q.selections outputs)
      (fun _ _ => True) := by
  refine (Act.ends_mapM (E := fun _ _ => True)
    (R := fun st st' => st.Grows c st' ∧ (I st → I st') ∧
      (st.planner.AllMapped → st'.planner.AllMapped))
    (Q := fun sel o st => AnswersAs V st.planner sel o) (fun _ => ⟨.refl, id, id⟩)
    (fun _ _ _ h h' => ⟨h.1.trans h'.1, h'.2.1 ∘ h.2.1, h'.2.2 ∘ h.2.2⟩)
    (fun _ _ _ _ hgrows ho => ho.steps K hgrows.1) fun sel _ st₁ hst₁ => ?_).mono
    (fun _ _ h => ⟨h.1.1, h.1.2.1 hI, h.1.2.2 hall, h.2⟩) fun _ _ h => h
  exact (ends_compileSelection K (hst₁.2.1 hI) (h.grows hst₁.1) (hst₁.2.2 hall) sel).mono
    (fun _ _ h₂ => ⟨⟨h₂.1, fun _ => h₂.2.1, fun _ => h₂.2.2.1⟩, h₂.2.2.2⟩) fun _ _ h => h

/-- Filters become conditions one after the other. -/
theorem ends_conditions (K : Knowing c sc I V) (hI : I st) (h : Begun c st.planner) :
    Act.Ends (q.filters.mapM (compileFilter c sc)) st (fun conditions st' => st.Grows c st' ∧ I st' ∧
      List.Forall₂ (fun f e => ∃ column, ComparesAs V st'.planner f.path column ∧
        e = .binary (.name column) f.op (.expr f.value.toExpr)) q.filters conditions)
      (fun _ _ => True) := by
  refine (Act.ends_mapM (E := fun _ _ => True) (R := fun st st' => st.Grows c st' ∧ (I st → I st'))
    (Q := fun (f : Filter) (e : Expr) st => ∃ column, ComparesAs V st.planner f.path column ∧
      e = .binary (.name column) f.op (.expr f.value.toExpr)) (fun _ => ⟨.refl, id⟩)
    (fun _ _ _ h h' => ⟨h.1.trans h'.1, h'.2 ∘ h.2⟩) (fun _ _ _ _ hgrows he => ?_)
    fun f _ st₁ hst₁ => ?_).mono (fun _ _ h => ⟨h.1.1, h.1.2 hI, h.2⟩) fun _ _ h => h
  · obtain ⟨column, hcolumn, he⟩ := he
    exact ⟨column, hcolumn.steps K hgrows.1, he⟩
  · unfold compileFilter
    rw [Act.ends_bind]
    exact (ends_compileColumn K (hst₁.2 hI) (h.grows hst₁.1)).mono
      (fun column _ h₂ => ⟨⟨h₂.1, fun _ => h₂.2.1⟩, column, h₂.2.2, rfl⟩) fun _ _ h => h

/-- Orderings are compiled one after the other. -/
theorem ends_orderBy (K : Knowing c sc I V) (hI : I st) (h : Begun c st.planner) :
    Act.Ends (q.order.mapM fun o => do return (← compileColumn c sc o.1, o.2)) st
      (fun orderBy st' => st.Grows c st' ∧ I st' ∧ List.Forall₂ (fun o o' =>
        ComparesAs V st'.planner o.1 o'.1 ∧ o'.2 = o.2) q.order orderBy) (fun _ _ => True) := by
  refine (Act.ends_mapM (E := fun _ _ => True) (R := fun st st' => st.Grows c st' ∧ (I st → I st'))
    (Q := fun (o : String × Direction) (o' : String × Direction) st =>
      ComparesAs V st.planner o.1 o'.1 ∧ o'.2 = o.2) (fun _ => ⟨.refl, id⟩)
    (fun _ _ _ h h' => ⟨h.1.trans h'.1, h'.2 ∘ h.2⟩)
    (fun _ _ _ _ hgrows ho => ⟨ho.1.steps K hgrows.1, ho.2⟩) fun o _ st₁ hst₁ => ?_).mono
    (fun _ _ h => ⟨h.1.1, h.1.2 hI, h.2⟩) fun _ _ h => h
  rw [Act.ends_bind]
  exact (ends_compileColumn K (hst₁.2 hI) (h.grows hst₁.1)).mono
    (fun column _ h₂ => ⟨⟨h₂.1, fun _ => h₂.2.1⟩, h₂.2.2, rfl⟩) fun _ _ h => h

/-- A body that compiles is described by the plan that it has grown to. -/
theorem ends_compileBody {rootOutputs : List Output} (K : Knowing c sc I V) (hI : I st)
    (h : Begun c st.planner) (hall : st.planner.AllMapped) (hroots : q.RootOutputs rootOutputs) :
    Act.Ends (compileBody c q sc rootOutputs) st (fun compiled st' => st.Grows c st' ∧ I st' ∧
      DescribesAs V q st'.planner compiled) (fun _ _ => True) := by
  rw [ends_compileBody_iff]
  refine (ends_selections K hI h hall).mono (fun outputs st₁ h₁ => ?_) fun _ _ h => h
  obtain ⟨hgrows₁, hI₁, -, houtputs⟩ := h₁
  refine (ends_conditions K hI₁ (h.grows hgrows₁)).mono (fun conditions st₂ h₂ => ?_) fun _ _ h => h
  obtain ⟨hgrows₂, hI₂, hconditions⟩ := h₂
  refine (ends_orderBy K hI₂ ((h.grows hgrows₁).grows hgrows₂)).mono (fun orderBy st₃ h₃ => ?_)
    fun _ _ h => h
  obtain ⟨hgrows₃, hI₃, horder⟩ := h₃
  -- what has been found for selections and filters is still there in the end
  refine ⟨fun columns hcolumns => ⟨(hgrows₁.trans hgrows₂).trans hgrows₃, hI₃,
    ⟨rootOutputs, outputs, rfl, hroots, ?_⟩, ⟨columns, hcolumns, rfl⟩, rfl, rfl, ?_, horder⟩,
    fun _ _ => trivial⟩
  · exact houtputs.imp fun _ _ ho => (ho.steps K hgrows₂).steps K hgrows₃
  · refine hconditions.imp fun f e he => ?_
    obtain ⟨column, hcolumn, he⟩ := he
    exact ⟨column, hcolumn.steps K hgrows₃, he⟩

end knowing

/-- Aliases leave the root of a scope alone. -/
theorem root_of_addAliases {l : List (String × String)} {sc₀ : Scope}
    (h : (l.foldlM (fun sc r => sc.addAlias c r.1 r.2) sc₀) = .ok sc) : sc.root = sc₀.root := by
  induction l generalizing sc₀ with
  | nil => exact Except.ok.inj h ▸ rfl
  | cons r l ih =>
    rw [List.foldlM_cons] at h
    obtain ⟨sc₁, h₁, h⟩ := bind_eq_ok_iff.1 h
    obtain ⟨s, -, h₁⟩ := bind_eq_ok_iff.1 h₁
    obtain rfl := Except.ok.inj h₁
    exact (ih h).trans rfl

/-- A query has roots: an implicit one, or explicit ones. -/
theorem roots_of_scope (h : q.scope c = .ok sc) :
    (q.root.isSome ∧ ∃ s, sc.root = some s ∧ c.schema s.name = .ok s) ∨
      (q.root = none ∧ sc.root = none ∧ q.roots ≠ []) := by
  unfold scope at h
  split at h
  · next root hroot =>
    obtain ⟨s, hs, h⟩ := bind_eq_ok_iff.1 h
    obtain rfl := Except.ok.inj h
    exact .inl ⟨by rw [hroot]; rfl, s, rfl, Catalog.schema_schema_name hs⟩
  · next hroot =>
    split at h
    · cases h
    · next hroots =>
      exact .inr ⟨hroot, root_of_addAliases h, by simpa using hroots⟩

/-- Placing the roots takes steps, after which all nodes are mapped and there is a root. -/
theorem run_plannedRoots {p : Planner} {rootOutputs : List Output}
    (hsc : (q.root.isSome ∧ ∃ s, sc.root = some s ∧ c.schema s.name = .ok s) ∨
      (q.root = none ∧ sc.root = none ∧ q.roots ≠ []))
    (h : (q.plannedRoots c sc).run {} = .ok (rootOutputs, p)) :
    Planner.Steps c {} p ∧ p.roots ≠ [] ∧ p.AllMapped ∧ q.RootOutputs rootOutputs := by
  rcases hsc with ⟨hsome, s, hroot, hs⟩ | ⟨hnone, hroot, hroots⟩
  · unfold plannedRoots at h
    simp only [hroot] at h
    obtain ⟨_, p₁, hadd, h⟩ := Planner.run_bind_iff.1 h
    obtain ⟨rfl, rfl⟩ := Planner.run_pure_iff.1 h
    obtain ⟨hsteps, hne, hall⟩ := Planner.run_addRoot_step hs hadd
    exact ⟨hsteps, hne, hall fun _ hi => absurd hi (Nat.not_lt_zero _), .inr ⟨hsome, _, rfl⟩⟩
  · unfold plannedRoots at h
    simp only [hroot] at h
    obtain ⟨_, p₁, hadd, h⟩ := Planner.run_bind_iff.1 h
    obtain ⟨rfl, rfl⟩ := Planner.run_pure_iff.1 h
    obtain ⟨hsteps, hne, hall⟩ := Planner.run_addRoots hadd
    exact ⟨hsteps, hne hroots, hall fun _ hi => absurd hi (Nat.not_lt_zero _), .inl ⟨hnone, rfl⟩⟩

/-- A plan with the roots of a query has been begun. -/
theorem begun_of_plannedRoots {p : Planner} {rootOutputs : List Output} (hsc : q.scope c = .ok sc)
    (h : (q.plannedRoots c sc).run {} = .ok (rootOutputs, p)) : Begun c p := by
  obtain ⟨hsteps, hne, -⟩ := run_plannedRoots (roots_of_scope hsc) h
  have hsound := (Planner.Sound.empty c).steps hsteps
  obtain ⟨i, hi⟩ := List.exists_mem_of_ne_nil _ hne
  exact ⟨hsound, Nat.zero_lt_of_lt (hsound.roots i hi).1⟩

/-- A query compiles iff it has a scope, its roots can be placed, and its body compiles in the plan that
begins with them. -/
theorem compile_eq_ok_iff {cache cache' : PathCache} {compiled : CompiledQuery} :
    q.compile c cache = (.ok compiled, cache') ↔ ∃ sc rootOutputs p st, q.scope c = .ok sc ∧
      (q.plannedRoots c sc).run {} = .ok (rootOutputs, p) ∧
      (compileBody c q sc rootOutputs).run ⟨p, cache⟩ = .ok compiled st ∧ st.cache = cache' := by
  unfold compile
  cases hsc : q.scope c with
  | error e => simp
  | ok sc =>
    cases hroots : (q.plannedRoots c sc).run {} with
    | error e => simp [hroots]
    | ok result =>
      obtain ⟨rootOutputs, p⟩ := result
      cases hrun : (compileBody c q sc rootOutputs).run ⟨p, cache⟩ with
      | error e st => simp [hroots, hrun]
      | ok compiled' st => simp [hroots, hrun]

/-- A query that compiles has a plan that was grown step by step, in which there is a root; its
statement is the one that the plan describes, and what visiting makes known holds of its paths. -/
theorem described_of_compile {I : Scope → Progress → Prop}
    {V : Scope → Planner → String → Reached → Prop} {cache cache' : PathCache}
    {compiled : CompiledQuery} (K : ∀ sc, q.scope c = .ok sc → Knowing c sc (I sc) (V sc))
    (hstart : ∀ sc rootOutputs p, q.scope c = .ok sc →
      (q.plannedRoots c sc).run {} = .ok (rootOutputs, p) → Begun c p → I sc ⟨p, cache⟩)
    (h : q.compile c cache = (.ok compiled, cache')) :
    ∃ sc st, q.scope c = .ok sc ∧ Planner.Steps c {} st.planner ∧ st.planner.roots ≠ [] ∧ I sc st ∧
      DescribesAs (V sc) q st.planner compiled := by
  obtain ⟨sc, rootOutputs, p, st, hsc, hroots, hrun, -⟩ := compile_eq_ok_iff.1 h
  obtain ⟨hsteps, hne, hall, houtputs⟩ := run_plannedRoots (roots_of_scope hsc) hroots
  have hbegun := begun_of_plannedRoots hsc hroots
  have hbody : Act.Ends (compileBody c q sc rootOutputs) ⟨p, cache⟩ (fun compiled st' =>
      Progress.Grows c ⟨p, cache⟩ st' ∧ I sc st' ∧ DescribesAs (V sc) q st'.planner compiled)
      (fun _ _ => True) :=
    ends_compileBody (K sc hsc) (hstart sc _ p hsc hroots hbegun) hbegun hall houtputs
  obtain ⟨hgrows, hI, hdescribes⟩ := hbody.of_ok hrun
  refine ⟨sc, st, hsc, hsteps.trans hgrows, fun hnil => ?_, hI, hdescribes⟩
  have hprefix := hgrows.extends.roots
  rw [hnil] at hprefix
  exact hne (List.prefix_nil.1 hprefix)

/-- A query that compiles has a plan that was grown step by step, in which there is a root; its
statement is the one that the plan describes. -/
theorem exists_of_compile {cache cache' : PathCache} {compiled : CompiledQuery}
    (h : q.compile c cache = (.ok compiled, cache')) :
    ∃ p, Planner.Steps c {} p ∧ p.roots ≠ [] ∧ Describes q p compiled := by
  obtain ⟨sc, st, -, hsteps, hne, -, hdescribes⟩ :=
    described_of_compile (fun sc _ => Knowing.nothing c sc) (fun _ _ _ _ _ _ => trivial) h
  exact ⟨st.planner, hsteps, hne, hdescribes.describes⟩

/-- A query whose compilation answers has a statement and a plan, of which the answer can be asked. -/
theorem exists_compiled {cache : PathCache} {P : CompiledQuery → Bool}
    (h : (q.compile c cache).1.toOption.any P = true) :
    ∃ compiled cache', q.compile c cache = (.ok compiled, cache') ∧ P compiled = true := by
  generalize q.compile c cache = result at h
  obtain ⟨result, cache'⟩ := result
  cases result with
  | error e => cases h
  | ok compiled => exact ⟨compiled, cache', rfl, h⟩

end Query

/-! ### An example -/

namespace Blog

/-- Users, who have a page of their own in a secondary table and an address, and their posts. -/
def catalog : Catalog where
  definitions := [
    { name := "User"
      steps := [.table "users", .secondary "pages",
        .atomic { name := "id", column := "id", kind := .int, primaryKey := true },
        .atomic { name := "name", column := "name", kind := .string },
        .atomic { name := "bio", column := "bio", kind := .string, table := some "pages" },
        .embed "home" "Address",
        .component { name := "posts", target := "Post", cardinality := .oneToMany,
                     joinColumn := some "author_id" }] },
    { name := "Post"
      steps := [.table "posts",
        .atomic { name := "id", column := "id", kind := .int, primaryKey := true },
        .atomic { name := "title", column := "title", kind := .string },
        .atomic { name := "author_id", column := "author_id", kind := .int },
        .component { name := "author", target := "User", cardinality := .manyToOne,
                     joinColumn := some "author_id" }] },
    { name := "Address", embeddable := true
      steps := [.atomic { name := "city", column := "city", kind := .string }] }]

/-- Users with their posts, and pairs of a user and any post. -/
def query : Query where
  roots := [("u", "User"), ("p", "Post")]
  selections := [.path "u.posts", .path "p", .raw "NOW()" "now"]
  filters := [⟨"p.author.bio", .eq, .one (.text "x")⟩]
  order := [("u.home.city", .asc)]

end Blog
end EntityGraph
