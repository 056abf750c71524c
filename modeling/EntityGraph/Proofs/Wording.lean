import EntityGraph.Proofs.Planning
import EntityGraph.Proofs.Sentences

/-!
# The wording of compiled queries

What a query is compiled to is worded with the aliases that its plan has numbered and with the names that
its catalog declares. Where these are plain, every table, join, column and label is worded as the grammar
asks for, in every step of planning; what is left to the query are its filters and its counts.

## Main results

* `Planner.Named.steps`: the aliases of a plan are names, and its joins compare columns;
* `Query.sentence_iff_of_compile`: a query without raw selections is compiled to a sentence iff its operators
  take what they compare with and there is no offset without a limit;
* `Query.users_not_sentences`: two queries that compile to no sentence.
-/

namespace EntityGraph

open Grammar Token

/-! ### The names of a plan -/

instance (s : String) : Decidable (IsName s) :=
  inferInstanceAs (Decidable (_ ∧ _))

/-- The names of a schema are plain: there are no dots in the names of tables and properties, no table is
a star, and a column has at most one dot and is no star. -/
def Schema.PlainNames (s : Schema) : Prop :=
  (∀ table ∈ s.tables, IsName table) ∧
    ∀ o ∈ s.occurrences [], (∀ name ∈ o.1 ++ [o.2.name], '.' ∉ name.toList) ∧
      (Text.splitDots o.2.column).length ≤ 2 ∧ "*" ∉ Text.splitDots o.2.column

instance (s : Schema) : Decidable s.PlainNames :=
  inferInstanceAs (Decidable (_ ∧ _))

/-- The names of all schemas of a catalog are plain. -/
abbrev Catalog.PlainNames (c : Catalog) : Prop :=
  ∀ s ∈ c.schemas, s.PlainNames

/-- The aliases of a node are names. -/
def PlanNode.HasNames (n : PlanNode) : Prop :=
  IsName n.tableAlias ∧ ∀ x ∈ n.tables, IsName x.2

/-- An atomic that occurs in a schema with plain names is stored in a column behind any alias. -/
theorem Schema.PlainNames.isColumn {s : Schema} (h : s.PlainNames) {o : List String × Atomic}
    (ho : o ∈ s.occurrences []) {name : String} (hname : IsName name) :
    IsColumn (name ++ "." ++ o.2.column) :=
  hname.qualify (h.2 o ho).2.1 (h.2 o ho).2.2

/-- What a node refers to an atomic by is a column. -/
theorem PlanNode.HasNames.isColumn {n : PlanNode} (h : n.HasNames) {s : Schema}
    (hs : s.PlainNames) {o : List String × Atomic} (ho : o ∈ s.occurrences []) {t : Schema}
    {reference : String} (hreference : n.column t o.2 = .ok reference) : IsColumn reference := by
  unfold PlanNode.column at hreference
  split at hreference
  · next name hname =>
    obtain ⟨l₁, l₂, hmem, -⟩ := List.lookup_eq_some_iff.1 hname
    obtain rfl := Except.ok.inj hreference
    exact hs.isColumn ho (h.2 _ (hmem ▸ List.mem_append_right _ List.mem_cons_self))
  · cases hreference

/-- What a node shows an atomic under is a name. -/
theorem PlanNode.HasNames.isName_label {n : PlanNode} (h : n.HasNames) {path : List String}
    {atomic : String} (hnames : ∀ name ∈ path ++ [atomic], '.' ∉ name.toList) :
    IsName (n.label path atomic) := by
  have hmem : ∀ x, x ∈ (n.label path atomic).toList ↔ x ∈ n.tableAlias.toList ∨
      ∃ name ∈ path ++ [atomic], x = '_' ∨ x ∈ name.toList := by
    intro x
    rw [PlanNode.label, List.map_append]
    simp
  refine ⟨fun hdot => ?_, fun hstar => ?_⟩
  · rcases (hmem '.').1 hdot with hdot | ⟨name, hname, hdot | hdot⟩
    · exact h.1.1 hdot
    · cases hdot
    · exact hnames name hname hdot
  · have hunderscore := (hmem '_').2 (.inr ⟨atomic, by simp, .inl rfl⟩)
    rw [hstar] at hunderscore
    exact absurd hunderscore (by decide)

namespace Planner

variable {c : Catalog} {p p' : Planner} {s : Schema} {n : PlanNode} {key a : Atomic} {path : String}

/-- A numbered alias is a name. -/
theorem isName_aliasFor {table : String} (h : '.' ∉ table.toList) (k : Nat) :
    IsName (aliasFor table k) := by
  have hlist : (aliasFor table k).toList = table.toList ++ '_' :: Nat.toDigits 10 k := by
    simp [aliasFor, Value.intText, Decimal.digitChars]
  refine ⟨fun hdot => ?_, fun hstar => ?_⟩
  · rw [hlist, List.mem_append, List.mem_cons] at hdot
    rcases hdot with hdot | hdot | hdot
    · exact h hdot
    · cases hdot
    · exact absurd (Nat.isDigit_of_mem_toDigits (by decide) (by decide) hdot) (by decide)
  · have hmem : '_' ∈ (aliasFor table k).toList := by simp [hlist]
    rw [hstar] at hmem
    exact absurd hmem (by decide)

/-- So are the aliases of some tables. -/
theorem isName_aliasesFrom {tables : List String} (h : ∀ table ∈ tables, IsName table) (k : Nat) :
    ∀ x ∈ aliasesFrom k tables, IsName x.2 := by
  induction tables generalizing k with
  | nil => exact fun _ hx => absurd hx List.not_mem_nil
  | cons table tables ih =>
    intro x hx
    rcases List.mem_cons.1 hx with rfl | hx
    · exact isName_aliasFor (h table List.mem_cons_self).1 k
    · exact ih (fun t ht => h t (List.mem_cons_of_mem _ ht)) (k + 1) x hx

/-- A fresh node has names for aliases. -/
theorem hasNames_fresh (hs : s.PlainNames) (p : Planner) (parent : Option (Nat × Component)) :
    (p.fresh s parent).HasNames :=
  ⟨isName_aliasFor (hs.1 s.table List.mem_cons_self).1 p.next,
    fun x hx => isName_aliasesFrom hs.1 p.next x (List.mem_reverse.1 hx)⟩

/-- Secondary tables are joined with names, by columns. -/
theorem isNamed_secondaryJoin (hn : n.HasNames) (hs : n.schema.PlainNames)
    (hkey : ([], key) ∈ n.schema.occurrences []) :
    ∀ j ∈ n.schema.secondary.map (secondaryJoin n key), j.IsNamed := by
  intro j hj
  obtain ⟨table, htable, rfl⟩ := List.mem_map.1 hj
  have hname : IsName ((n.tables.lookup table).getD "") := by
    cases hlookup : n.tables.lookup table with
    | none => exact (by decide : IsName "")
    | some name =>
      obtain ⟨l₁, l₂, hmem, -⟩ := List.lookup_eq_some_iff.1 hlookup
      exact hn.2 _ (hmem ▸ List.mem_append_right _ List.mem_cons_self)
  exact ⟨⟨hs.1 table (List.mem_cons_of_mem _ htable), _, rfl, hname⟩,
    .inr ⟨_, _, hs.isColumn hkey hname, hs.isColumn hkey hn.1, rfl, rfl⟩⟩

/-- What is known of the names of a plan: aliases are names; there is one table, with a name, unless there
is nothing; and joins have names and compare columns. -/
structure Named (p : Planner) : Prop where
  nodes : ∀ i < p.nodes.length, (p.node i).HasNames
  tables : p.nodes = [] ∧ p.tables = [] ∨ ∃ t, p.tables = [t] ∧ t.IsNamed
  joins : ∀ j ∈ p.joins, j.IsNamed

namespace Named

/-- There is nothing in an empty plan. -/
theorem empty : Named {} where
  nodes _ hi := absurd hi (Nat.not_lt_zero _)
  tables := .inl ⟨rfl, rfl⟩
  joins _ hj := absurd hj List.not_mem_nil

/-- The names of the nodes when one has been added. -/
theorem hasNames_append (h : Named p) (hnodes : p'.nodes = p.nodes ++ [n]) (hn : n.HasNames) :
    ∀ i < p'.nodes.length, (p'.node i).HasNames := fun i hi => by
  rcases lt_or_eq hnodes hi with hi | rfl
  · rw [node_of_lt hnodes hi]
    exact h.nodes i hi
  · rw [node_length hnodes]
    exact hn

/-- The joins when a node has been added. -/
theorem isNamed_grow (h : Named p) (hn : n.HasNames) (hs : n.schema.PlainNames)
    (hkey : ([], key) ∈ n.schema.occurrences []) {clauses : List JoinClause}
    (hclauses : ∀ j ∈ clauses, j.IsNamed) :
    ∀ j ∈ p.joins ++ (clauses ++ n.schema.secondary.map (secondaryJoin n key)), j.IsNamed := by
  intro j hj
  rcases List.mem_append.1 hj with hj | hj
  · exact h.joins j hj
  · rcases List.mem_append.1 hj with hj | hj
    · exact hclauses j hj
    · exact isNamed_secondaryJoin hn hs hkey j hj

theorem step (hnames : c.PlainNames) (hsound : Sound c p) (h : Named p) (hstep : Step c p p') :
    Named p' := by
  have hkeyOf : ∀ {name s key}, c.schema name = .ok s → s.primaryKey = some key →
      ([], key) ∈ s.occurrences [] := fun hs hkey =>
    Schema.mem_occurrences_of_embeddedAt? rfl (Catalog.mem_of_primaryKey hs hkey)
  cases hstep with
  | @root path s key hs hkey =>
    have hplain : s.PlainNames := hnames s (Catalog.mem_schemas_iff.2 hs)
    have hn : (p.freshRoot s).HasNames := hasNames_fresh hplain p none
    have htable : (p.rootTable s).IsNamed :=
      ⟨hplain.1 s.table List.mem_cons_self, _, rfl, hn.1⟩
    refine ⟨h.hasNames_append rfl hn, .inr ?_, h.isNamed_grow hn hplain (hkeyOf hs hkey) ?_⟩
    · rcases h.tables with ⟨-, hnil⟩ | ⟨t, ht, hnamed⟩
      · exact ⟨p.rootTable s, by simp [withRoot, hnil], htable⟩
      · exact ⟨t, by simp [withRoot, ht], hnamed⟩
    · intro j hj
      split at hj
      · cases hj
      · obtain rfl := List.mem_singleton.1 hj
        exact ⟨htable, .inl ⟨rfl, rfl⟩⟩
  | @child path parent comp target key here there join left right hparent _ _ htarget hkey _ hhere
      hthere _ hleft hright =>
    have hplain : target.PlainNames :=
      hnames target (Catalog.mem_schemas_iff.2 (Catalog.schema_schema_name htarget))
    have howner : (p.node parent).schema.PlainNames :=
      hnames _ (Catalog.mem_schemas_iff.2 (hsound.schema parent hparent))
    have hn : (p.fresh target (some (parent, comp))).HasNames := hasNames_fresh hplain p _
    have hmem : ∀ {s : Schema} {name a}, s.atomic name = .ok a → ([], a) ∈ s.occurrences [] :=
      fun ha => Schema.mem_occurrences_of_embeddedAt? rfl
        (Schema.mem_of_atomic? (Schema.atomic_eq_ok_iff.1 ha)).1
    refine ⟨h.hasNames_append rfl hn, ?_, h.isNamed_grow hn hplain (hkeyOf htarget hkey) ?_⟩
    · rcases h.tables with ⟨hnil, -⟩ | htables
      · rw [hnil] at hparent
        exact absurd hparent (Nat.not_lt_zero _)
      · exact .inr htables
    · intro j hj
      obtain rfl := List.mem_singleton.1 hj
      exact ⟨⟨hplain.1 target.table List.mem_cons_self, _, rfl, hn.1⟩,
        .inr ⟨left, right, hn.isColumn hplain (hmem hthere) hleft,
          (h.nodes parent hparent).isColumn howner (hmem hhere) hright, rfl, rfl⟩⟩
  | @map i hi =>
    refine ⟨fun j hj => ?_, ?_, h.joins⟩
    · rw [node_setMapped]
      exact h.nodes j (by simpa using hj)
    · refine h.tables.imp_left fun hnone => ⟨?_, hnone.2⟩
      rw [hnone.1] at hi
      exact absurd hi (Nat.not_lt_zero _)

/-- What is selected are columns, under names. -/
theorem selected (h : Named p) (hnames : c.PlainNames) (hsound : Sound c p)
    {columns : List (Operand × Option String)} (hcolumns : p.selectedColumns = .ok columns) :
    ∀ column ∈ columns, ∃ reference label, column = (.name reference, some label) ∧
      IsColumn reference ∧ IsName label := by
  intro column hcolumn
  obtain ⟨rfl, hreference⟩ := selectedColumns_ok hsound hcolumns
  obtain ⟨n, hn, hcolumn⟩ := List.mem_flatMap.1 hcolumn
  obtain ⟨hn, hmapped⟩ := List.mem_filter.1 hn
  obtain ⟨o, ho, rfl⟩ := List.mem_map.1 hcolumn
  have hdeep : o.2 ∈ n.schema.deepAtomics := by
    rw [← Schema.map_occurrences n.schema []]
    exact List.mem_map_of_mem ho
  obtain ⟨i, hi, rfl⟩ := mem_nodes_iff.1 hn
  have hplain : (p.node i).schema.PlainNames := hnames _ (Catalog.mem_schemas_iff.2 (hsound.schema i hi))
  exact ⟨_, _, rfl, (h.nodes i hi).isColumn hplain ho (hreference _ hn hmapped _ hdeep),
    (h.nodes i hi).isName_label (hplain.2 o ho).1⟩

/-- What a chain is compared by is a column. -/
theorem compared (h : Named p) (hnames : c.PlainNames) (hsound : Sound c p) {chain column : String}
    (hcompares : Query.Compares p chain column) : IsColumn column := by
  obtain ⟨r, hr, hcolumn⟩ := hcompares
  obtain ⟨i, hi, o, ho, hreference⟩ := column_of_columnOf hsound hr hcolumn
  exact (h.nodes i hi).isColumn (hnames _ (Catalog.mem_schemas_iff.2 (hsound.schema i hi))) ho hreference

/-- Steps keep the names of a plan. -/
theorem steps (hnames : c.PlainNames) (hsteps : Steps c {} p) : Named p := by
  induction hsteps with
  | refl => exact empty
  | tail hsteps hstep ih => exact ih.step hnames ((Sound.empty c).steps hsteps) hstep

end Named

end Planner

namespace Query

variable {c : Catalog} {q : Query} {cache cache' : PathCache} {compiled : CompiledQuery}

/-- The clauses that a query does not have stay empty, and the counts are its own. -/
theorem counts_of_compile (h : q.compile c cache = (.ok compiled, cache')) :
    compiled.select.groupBy = [] ∧ compiled.select.having = [] ∧
      compiled.select.limit = q.limit ∧ compiled.select.offset = q.offset := by
  obtain ⟨sc, rootOutputs, p, st, -, -, hbody, -⟩ := compile_eq_ok_iff.1 h
  have htrivial {σ α : Type} (act : Act σ α) (s : σ) :
      Act.Ends act s (fun _ _ => True) fun _ _ => True :=
    (Act.ends_run act s).mono (fun _ _ _ => trivial) fun _ _ _ => trivial
  have hends : Act.Ends (compileBody c q sc rootOutputs) ⟨p, cache⟩ (fun compiled _ =>
      compiled.select.groupBy = [] ∧ compiled.select.having = [] ∧
        compiled.select.limit = q.limit ∧ compiled.select.offset = q.offset) fun _ _ => True := by
    rw [ends_compileBody_iff]
    refine (htrivial _ _).mono (fun _ _ _ => ?_) fun _ _ _ => trivial
    refine (htrivial _ _).mono (fun _ _ _ => ?_) fun _ _ _ => trivial
    refine (htrivial _ _).mono (fun _ _ _ => ?_) fun _ _ _ => trivial
    exact ⟨fun _ _ => ⟨rfl, rfl, rfl, rfl⟩, fun _ _ => trivial⟩
  exact hends.of_ok hbody

/-- What a query without raw selections is compiled to, where names are plain. -/
theorem writes_of_compile (hnames : c.PlainNames) (hraw : ∀ sql label, .raw sql label ∉ q.selections)
    (h : q.compile c cache = (.ok compiled, cache')) : q.Writes compiled.select := by
  obtain ⟨p, hsteps, hroots, hdescribes⟩ := exists_of_compile h
  have hsound := (Planner.Sound.empty c).steps hsteps
  have hnamed := Planner.Named.steps hnames hsteps
  obtain ⟨hgroupBy, hhaving, hlimit, hoffset⟩ := counts_of_compile h
  refine ⟨fun column hcolumn => ?_, ?_, ?_, ?_, hgroupBy, hhaving, ?_, hlimit, hoffset⟩
  · have hnoRaw : q.rawColumns = [] := by
      refine List.filterMap_eq_nil_iff.2 fun sel hsel => ?_
      cases sel with
      | path => rfl
      | raw sql label => exact absurd hsel (hraw sql label)
    obtain ⟨columns, hcolumns, hselect⟩ := hdescribes.columns
    rw [hselect, hnoRaw, List.append_nil] at hcolumn
    exact hnamed.selected hnames hsound hcolumns column hcolumn
  · rw [hdescribes.tables]
    refine hnamed.tables.resolve_left fun ⟨hnil, _⟩ => ?_
    obtain ⟨i, hi⟩ := List.exists_mem_of_ne_nil _ hroots
    have hlt := (hsound.roots i hi).1
    rw [hnil] at hlt
    exact absurd hlt (Nat.not_lt_zero _)
  · rw [hdescribes.joins]
    exact hnamed.joins
  · refine hdescribes.conditions.imp fun f e he => ?_
    obtain ⟨column, hcolumn, rfl⟩ := he
    exact ⟨column, hnamed.compared hnames hsound hcolumn, rfl⟩
  · intro o ho
    obtain ⟨o', -, hcompared, -⟩ := exists_of_forall₂ hdescribes.orderBy.flip ho
    exact hnamed.compared hnames hsound hcompared

/-- What a query is compiled to where it is no sentence, with the tokens that it ends with. -/
theorem exists_not_sentence (hnames : c.PlainNames) (hraw : ∀ sql label, .raw sql label ∉ q.selections)
    {ending : List Token} (hends : (q.compile c {}).1.toOption.any (fun compiled =>
      ending.isSuffixOf compiled.select.tokens) = true)
    (hunfit : ¬((∀ f ∈ q.filters, f.op.takes f.value = true) ∧ (q.offset.isSome → q.limit.isSome))) :
    ∃ compiled cache', q.compile c {} = (.ok compiled, cache') ∧
      ∃ ts, lex (compiled.select.text .mysql).toList = some ts ∧ ending <:+ ts ∧ ¬Sentence ts := by
  obtain ⟨compiled, cache', h, hsuffix⟩ := exists_compiled hends
  have hwrites := writes_of_compile hnames hraw h
  exact ⟨compiled, cache', h, _, hwrites.lex_text, List.isSuffixOf_iff_suffix.1 hsuffix,
    fun hs => hunfit (hwrites.sentence_iff.1 hs)⟩

/-- **A compiled query is a sentence, where its filters fit their operators and it has no offset without a
limit.** Whatever it selects, filters and orders by, the text of a query without raw selections is read as
tokens, and these are a sentence of the grammar iff `IN` is given a list, `IS` is given null, no list is
empty, and there is a limit if there is an offset. -/
theorem sentence_iff_of_compile (hnames : c.PlainNames)
    (hraw : ∀ sql label, .raw sql label ∉ q.selections)
    (h : q.compile c cache = (.ok compiled, cache')) :
    ∃ ts, lex (compiled.select.text .mysql).toList = some ts ∧
      (Sentence ts ↔ (∀ f ∈ q.filters, f.op.takes f.value = true) ∧
        (q.offset.isSome → q.limit.isSome)) :=
  have hwrites := writes_of_compile hnames hraw h
  ⟨compiled.select.tokens, hwrites.lex_text, hwrites.sentence_iff⟩

end Query

/-- Users with their posts, and pairs of a user and any post, some at a time. -/
def Blog.page : Query where
  roots := [("u", "User"), ("p", "Post")]
  selections := [.path "u.posts", .path "p.title"]
  filters := [⟨"p.author.bio", .like, .one (.text "x%")⟩, .isIn "u.posts.id" [.int 1, .null],
    ⟨"u.name", .isNot, .one .null⟩, ⟨"u.home.city", .or, .one (.bool true)⟩]
  order := [("u.home.city", .asc), ("p", .desc)]
  limit := some 10
  offset := some 20

/-- All users. -/
def Blog.users : Query where
  root := some "User"

/-- The names of the blog are plain. -/
theorem Blog.plainNames : Blog.catalog.PlainNames := by
  decide

namespace Query

/-- A page of the blog is a sentence. -/
theorem sentence_iff_of_compile_blog : Blog.catalog.PlainNames ∧
    (∀ sql label, .raw sql label ∉ Blog.page.selections) ∧
    ∃ compiled cache', Blog.page.compile Blog.catalog {} = (.ok compiled, cache') ∧
      ∃ ts, lex (compiled.select.text .mysql).toList = some ts ∧ Sentence ts := by
  have hanswers : (Blog.page.compile Blog.catalog {}).1.toOption.any (fun _ => true) = true := by
    decide +kernel
  obtain ⟨compiled, cache', h, -⟩ := exists_compiled hanswers
  have hraw : ∀ sql label, .raw sql label ∉ Blog.page.selections := by simp [Blog.page]
  obtain ⟨ts, hts, hsentence⟩ := sentence_iff_of_compile Blog.plainNames hraw h
  exact ⟨Blog.plainNames, hraw, compiled, cache', h, ts, hts, hsentence.2 (by decide)⟩

/-- **An offset without a limit, and membership in no values, are no sentences.** All users but the first
five, and the users with none of no keys, compile to texts that end so. -/
theorem users_not_sentences : Blog.catalog.PlainNames ∧
    (∃ compiled cache', { Blog.users with offset := some 5 }.compile Blog.catalog {} =
        (.ok compiled, cache') ∧
      ∃ ts, lex (compiled.select.text .mysql).toList = some ts ∧
        [.word "OFFSET", .number "5"] <:+ ts ∧ ¬Sentence ts) ∧
    ∃ compiled cache', { Blog.users with filters := [.isIn "id" []] }.compile Blog.catalog {} =
        (.ok compiled, cache') ∧
      ∃ ts, lex (compiled.select.text .mysql).toList = some ts ∧
        [.word "IN", .symbol "(", .symbol ")"] <:+ ts ∧ ¬Sentence ts := by
  refine ⟨Blog.plainNames, ?_, ?_⟩
  · exact exists_not_sentence Blog.plainNames (by simp [Blog.users]) (by decide) (by decide)
  · exact exists_not_sentence Blog.plainNames (by simp [Blog.users]) (by decide) (by decide)

end Query

end EntityGraph
