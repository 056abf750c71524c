import EntityGraph.Proofs.Denoting
import EntityGraph.Proofs.Scoping

/-!
# Which paths share a node

A relation is joined when the first path goes along it, and later paths find it again by the text that
leads to it: the name of the root as it is written in the path, and the relations behind it. Paths that
name their root alike therefore share the nodes of all relations that they have in common, and each of
these is joined once. A root that is named by its alias in one path and by its type in another has the
relations behind it joined twice.

* `Planner.Indexed` — every node is found by exactly one text;
* `Planner.Labelled` — every node has an alias of its own, under which the statement joins it once;
* `Query.Spells` — a text that names a root, and relations that lead from it to a node;
* `Query.Shares` — which texts spell the same node;
* `Query.shares_of_compile` — the nodes of a compiled query are shared by paths that name roots alike;
* `Blog.splits` — a root that is named in two ways has a relation joined twice.
-/

namespace EntityGraph

namespace Planner

variable {c : Catalog} {p p' : Planner} {s : Schema} {n : PlanNode} {key : Atomic} {path table : String}
  {i j start : Nat} {names : List String}

/-! ### Every node is found by one text -/

/-- Every node has a text that leads to it, and no two texts lead to one node. -/
structure Indexed (p : Planner) : Prop where
  covers : ∀ i < p.nodes.length, ∃ path, (path, i) ∈ p.byPath
  nodes : (p.byPath.map (·.2)).Nodup

/-- Nothing is to be found in an empty plan. -/
theorem Indexed.empty : Indexed {} :=
  ⟨fun _ hi => absurd hi (Nat.not_lt_zero _), List.nodup_nil⟩

/-- A node that is added with its text is found by it alone. -/
theorem Indexed.grow {clauses : List JoinClause} (h : Indexed p) (hsound : Sound c p) :
    Indexed (p.grow n path clauses key) where
  covers i hi := by
    rcases lt_or_eq rfl hi with hi | rfl
    · obtain ⟨path', hpath⟩ := h.covers i hi
      exact ⟨path', List.mem_cons_of_mem _ hpath⟩
    · exact ⟨path, List.mem_cons_self⟩
  nodes := by
    refine List.nodup_cons.2 ⟨fun hmem => ?_, h.nodes⟩
    obtain ⟨x, hx, hlength⟩ := List.mem_map.1 hmem
    exact Nat.lt_irrefl _ (hlength ▸ hsound.byPath x hx)

theorem Indexed.step (h : Indexed p) (hsound : Sound c p) (hstep : Step c p p') : Indexed p' := by
  cases hstep with
  | @root path s key =>
    have hgrow : Indexed (p.grow (p.freshRoot s) path
        (if p.tables.isEmpty then [] else [⟨.cross, p.rootTable s, []⟩]) key) := h.grow hsound
    exact ⟨hgrow.covers, hgrow.nodes⟩
  | child => exact h.grow hsound
  | map hi => exact ⟨fun j hj => h.covers j (by simpa using hj), h.nodes⟩

/-- In a plan that has grown from nothing, every node is found by one text. -/
theorem indexed_of_steps (h : Steps c {} p) : Indexed p := by
  induction h with
  | refl => exact .empty
  | tail hsteps hstep ih => exact ih.step ((Sound.empty c).steps hsteps) hstep

/-- Texts that have led to a node are not forgotten. -/
theorem Steps.byPath (h : Steps c p p') : p.byPath <:+ p'.byPath := by
  induction h with
  | refl => exact List.suffix_refl _
  | tail _ hstep ih =>
    refine ih.trans ?_
    cases hstep with
    | root => exact List.suffix_cons _ _
    | child => exact List.suffix_cons _ _
    | map => exact List.suffix_refl _

/-- A text leads to one node. -/
theorem eq_of_mem_byPath (hkeys : (p.byPath.map (·.1)).Nodup) (hi : (path, i) ∈ p.byPath)
    (hj : (path, j) ∈ p.byPath) : i = j :=
  (Prod.mk.inj (List.inj_on_of_nodup_map hkeys hi hj rfl)).2

/-- A node has one text. -/
theorem Indexed.eq_of_mem {path' : String} (h : Indexed p) (hi : (path, i) ∈ p.byPath)
    (hj : (path', i) ∈ p.byPath) : path = path' :=
  (Prod.mk.inj (List.inj_on_of_nodup_map h.nodes hi hj rfl)).1

/-! ### Every node is joined once -/

/-- Nodes have aliases of their own, which are numbered below the next number, and so are the aliases of
all joins; exactly one join has the alias of a node that is not a root. -/
structure Labelled (p : Planner) : Prop where
  joins : ∀ clause ∈ p.joins, ∃ name, clause.table.asName = some name ∧ numberOf name < p.next
  nodes : ∀ i < p.nodes.length, numberOf (p.node i).tableAlias < p.next
  distinct : ∀ i < p.nodes.length, ∀ j < p.nodes.length,
    (p.node i).tableAlias = (p.node j).tableAlias → i = j
  once : ∀ i < p.nodes.length, (p.node i).parent ≠ none →
    p.joins.countP (fun clause => clause.table.asName == some (p.node i).tableAlias) = 1

/-- Aliases are numbered from the given number on. -/
theorem number_of_mem_aliasesFrom {start : Nat} {tables : List String} {x : String × String}
    (hx : x ∈ aliasesFrom start tables) :
    start ≤ numberOf x.2 ∧ numberOf x.2 < start + tables.length := by
  have hmem : numberOf x.2 ∈ ((aliasesFrom start tables).map (·.2)).map numberOf :=
    List.mem_map_of_mem (List.mem_map_of_mem hx)
  rw [map_numberOf_aliasesFrom] at hmem
  simpa using List.mem_range'_1.1 hmem

/-- The secondary tables of a fresh node are joined under numbers between that of its primary table and
the next one. -/
theorem number_secondaryJoin (hschema : n.schema = s)
    (htables : n.tables = (aliasesFrom p.next s.tables).reverse) {clause : JoinClause}
    (hclause : clause ∈ n.schema.secondary.map (secondaryJoin n key)) :
    ∃ name, clause.table.asName = some name ∧ p.next < numberOf name ∧
      numberOf name < p.next + s.tables.length := by
  obtain ⟨table, htable, rfl⟩ := List.mem_map.1 hclause
  rw [hschema] at htable
  -- the table is looked up among the secondary ones, which come first
  have hlookup : n.tables.lookup table = (aliasesFrom (p.next + 1) s.secondary).reverse.lookup table ∧
      ((aliasesFrom (p.next + 1) s.secondary).reverse.lookup table).isSome := by
    have hsome : ((aliasesFrom (p.next + 1) s.secondary).reverse.lookup table).isSome := by
      rw [Option.isSome_iff_ne_none]
      intro hnone
      have hmem : table ∈ (aliasesFrom (p.next + 1) s.secondary).map (·.1) := by simpa using htable
      obtain ⟨x, hx, rfl⟩ := List.mem_map.1 hmem
      have hno := List.lookup_eq_none_iff.1 hnone x (List.mem_reverse.2 hx)
      simp at hno
    refine ⟨?_, hsome⟩
    obtain ⟨name, hname⟩ := Option.isSome_iff_exists.1 hsome
    rw [htables, Schema.tables, aliasesFrom, List.reverse_cons, List.lookup_append, hname,
      Option.some_or]
  obtain ⟨hlookup, hsome⟩ := hlookup
  obtain ⟨name, hname⟩ := Option.isSome_iff_exists.1 hsome
  obtain ⟨l₁, l₂, hmem, -⟩ := List.lookup_eq_some_iff.1 hname
  have hx : (table, name) ∈ aliasesFrom (p.next + 1) s.secondary :=
    List.mem_reverse.1 (hmem ▸ List.mem_append_right _ List.mem_cons_self)
  obtain ⟨hlow, hhigh⟩ := number_of_mem_aliasesFrom hx
  refine ⟨name, by simp only [secondaryJoin, hlookup, hname, Option.getD_some], hlow, ?_⟩
  rw [Schema.tables, List.length_cons]
  simp only at hhigh
  omega

namespace Labelled

/-- Nothing is labelled in an empty plan. -/
theorem empty : Labelled {} where
  joins _ h := absurd h List.not_mem_nil
  nodes _ hi := absurd hi (Nat.not_lt_zero _)
  distinct _ hi := absurd hi (Nat.not_lt_zero _)
  once _ hi := absurd hi (Nat.not_lt_zero _)

/-- Joins whose aliases have other numbers are not joins of an alias. -/
theorem countP_eq_zero {joins : List JoinClause} {name : String}
    (h : ∀ clause ∈ joins, ∃ name', clause.table.asName = some name' ∧ numberOf name' ≠ numberOf name) :
    joins.countP (fun clause => clause.table.asName == some name) = 0 := by
  refine List.countP_eq_zero.2 fun clause hclause heq => ?_
  obtain ⟨name', hname', hne⟩ := h clause hclause
  rw [beq_iff_eq, hname'] at heq
  exact hne (congrArg numberOf (Option.some.inj heq))

/-- Secondary tables of a fresh node have no alias that is numbered as its primary table, or before. -/
theorem countP_secondaryJoin (hschema : n.schema = s)
    (htables : n.tables = (aliasesFrom p.next s.tables).reverse) {name : String}
    (hname : numberOf name ≤ p.next) : (n.schema.secondary.map (secondaryJoin n key)).countP
      (fun clause => clause.table.asName == some name) = 0 :=
  countP_eq_zero fun clause hclause => by
    obtain ⟨name', hname', hlow, -⟩ := number_secondaryJoin hschema htables hclause
    exact ⟨name', hname', by omega⟩

/-- A node with fresh aliases may be added, if its primary table is joined once, or it is a root. -/
theorem grow {clauses : List JoinClause} (h : Labelled p) (hschema : n.schema = s)
    (halias : n.tableAlias = aliasFor s.table p.next)
    (htables : n.tables = (aliasesFrom p.next s.tables).reverse)
    (hclauses : ∀ clause ∈ clauses, clause.table.asName = some n.tableAlias)
    (hone : n.parent ≠ none → clauses.length = 1) : Labelled (p.grow n path clauses key) := by
  have hnumber : numberOf n.tableAlias = p.next := by rw [halias, numberOf_aliasFor]
  have hpos : 0 < s.tables.length := by simp [Schema.tables]
  have hnext : (p.grow n path clauses key).next = p.next + s.tables.length := by
    rw [Planner.grow, hschema]
  have hnodes : (p.grow n path clauses key).nodes = p.nodes ++ [n] := rfl
  have hsecondary : ∀ clause ∈ n.schema.secondary.map (secondaryJoin n key), ∃ name,
      clause.table.asName = some name ∧ p.next < numberOf name ∧
        numberOf name < p.next + s.tables.length := fun clause => number_secondaryJoin hschema htables
  refine ⟨fun clause hclause => ?_, fun i hi => ?_, fun i hi j hj heq => ?_, fun i hi hparent => ?_⟩
  · rw [hnext]
    rcases List.mem_append.1 hclause with hclause | hclause
    · obtain ⟨name, hname, hlt⟩ := h.joins clause hclause
      exact ⟨name, hname, by omega⟩
    · rcases List.mem_append.1 hclause with hclause | hclause
      · exact ⟨_, hclauses clause hclause, by omega⟩
      · obtain ⟨name, hname, -, hlt⟩ := hsecondary clause hclause
        exact ⟨name, hname, hlt⟩
  · rw [hnext]
    rcases lt_or_eq hnodes hi with hi | rfl
    · rw [node_of_lt hnodes hi]
      have hlt := h.nodes i hi
      omega
    · rw [node_length hnodes]
      omega
  · rcases lt_or_eq hnodes hi with hi | rfl <;> rcases lt_or_eq hnodes hj with hj | rfl
    · rw [node_of_lt hnodes hi, node_of_lt hnodes hj] at heq
      exact h.distinct i hi j hj heq
    · rw [node_of_lt hnodes hi, node_length hnodes] at heq
      have hlt := h.nodes i hi
      rw [heq] at hlt
      omega
    · rw [node_length hnodes, node_of_lt hnodes hj] at heq
      have hlt := h.nodes j hj
      rw [← heq] at hlt
      omega
    · rfl
  · show (p.joins ++ (clauses ++ n.schema.secondary.map (secondaryJoin n key))).countP _ = 1
    rw [List.countP_append, List.countP_append]
    rcases lt_or_eq hnodes hi with hi | rfl
    · -- a node that was there keeps the join that it has
      rw [node_of_lt hnodes hi] at hparent ⊢
      have hlt := h.nodes i hi
      have hclauses₀ : clauses.countP (fun clause => clause.table.asName == some (p.node i).tableAlias) =
          0 := countP_eq_zero fun clause hclause => ⟨_, hclauses clause hclause, by omega⟩
      rw [h.once i hi hparent, hclauses₀, countP_secondaryJoin hschema htables (Nat.le_of_lt hlt)]
    · rw [node_length hnodes] at hparent ⊢
      have hbefore : p.joins.countP (fun clause => clause.table.asName == some n.tableAlias) = 0 :=
        countP_eq_zero fun clause hclause => by
          obtain ⟨name, hname, hlt⟩ := h.joins clause hclause
          exact ⟨name, hname, by omega⟩
      have hown : clauses.countP (fun clause => clause.table.asName == some n.tableAlias) = 1 := by
        rw [List.countP_eq_length.2 fun clause hclause => beq_iff_eq.2 (hclauses clause hclause)]
        exact hone hparent
      rw [hbefore, hown, countP_secondaryJoin hschema htables (Nat.le_of_eq hnumber)]

theorem step (h : Labelled p) (hstep : Step c p p') : Labelled p' := by
  cases hstep with
  | @root path s key hs hkey =>
    have hgrow : Labelled (p.grow (p.freshRoot s) path
        (if p.tables.isEmpty then [] else [⟨.cross, p.rootTable s, []⟩]) key) := by
      refine h.grow rfl rfl rfl (fun clause hclause => ?_) fun hparent => absurd rfl hparent
      split at hclause
      · cases hclause
      · rw [List.mem_singleton.1 hclause]
        rfl
    exact ⟨hgrow.joins, hgrow.nodes, hgrow.distinct, hgrow.once⟩
  | child =>
    refine h.grow rfl rfl rfl (fun clause hclause => ?_) fun _ => rfl
    rw [List.mem_singleton.1 hclause]
  | map hi =>
    refine ⟨h.joins, fun j hj => ?_, fun j hj k hk heq => ?_, fun j hj hparent => ?_⟩
    · rw [node_setMapped]
      exact h.nodes j (by simpa using hj)
    · rw [node_setMapped, node_setMapped] at heq
      exact h.distinct j (by simpa using hj) k (by simpa using hk) heq
    · rw [node_setMapped] at hparent ⊢
      exact h.once j (by simpa using hj) hparent

end Labelled

/-- In a plan that has grown from nothing, every node is joined once. -/
theorem labelled_of_steps (h : Steps c {} p) : Labelled p := by
  induction h with
  | refl => exact .empty
  | tail _ hstep ih => exact ih.step hstep

/-! ### Along relations from a root -/

/-- Relations lead from one root to a node in one way. -/
theorem JoinedAlong.unique {start' : Nat} {names' : List String} (h : JoinedAlong p start names i)
    (h' : JoinedAlong p start' names' i) (hroot : (p.node start).parent = none)
    (hroot' : (p.node start').parent = none) : start = start' ∧ names = names' := by
  induction h generalizing names' with
  | start =>
    cases h' with
    | start => exact ⟨rfl, rfl⟩
    | join _ hi => rw [hroot] at hi; cases hi
  | join _ hi ih =>
    cases h' with
    | start => rw [hroot'] at hi; cases hi
    | join h' hi' =>
      obtain ⟨rfl, rfl⟩ := Prod.mk.inj (Option.some.inj (hi.symm.trans hi'))
      obtain ⟨rfl, rfl⟩ := ih h'
      exact ⟨rfl, rfl⟩

/-- What relations lead to has a parent, if there are any. -/
theorem JoinedAlong.parent_ne_none (h : JoinedAlong p start names i) (hne : names ≠ []) :
    (p.node i).parent ≠ none := by
  cases h with
  | start => exact absurd rfl hne
  | join _ hi => rw [hi]; simp

end Planner

/-! ### What a path spells -/

/-- What a path that has reached something has gone through behind the relations. -/
def Reached.rest : Reached → List String
  | .node _ => []
  | .embedded _ path => path
  | .scalar _ path _ a => path ++ [a.name]

namespace Query

open Planner

variable {c : Catalog} {q : Query} {sc : Scope} {p p' : Planner} {start i j : Nat}
  {head head' names segments : List String} {chain : String} {r : Reached}

/-- A text that leads to a node: the name of a root, as a path has it, and relations. -/
structure Spells (q : Query) (p : Planner) (head : List String) (start : Nat) (names : List String)
    (i : Nat) : Prop where
  starts : q.Starts head start []
  segments : ∀ s ∈ head ++ names, Text.IsSegment s
  root : names = [] → i = start
  found : names ≠ [] → (".".intercalate (head ++ names), i) ∈ p.byPath

/-- A path goes along the relations that it spells, and reaches something behind them. -/
def Arrives (q : Query) (p : Planner) (chain : String) (r : Reached) : Prop :=
  ∃ head start names, head ++ names ++ r.rest <+: Text.splitDots chain ∧ q.Spells p head start names r.home

/-- Texts that lead to a node are found when more has been planned. -/
theorem Spells.steps (h : q.Spells p head start names i) (hsteps : Steps c p p') :
    q.Spells p' head start names i :=
  ⟨h.starts, h.segments, h.root, fun hne => hsteps.byPath.subset (h.found hne)⟩

/-- No text is listed twice when a relation has been joined. -/
theorem keys_of_joins {parent : Nat} {path : String} {comp : Component}
    (hjoins : Joins c p path parent comp j p') (hkeys : (p.byPath.map (·.1)).Nodup) :
    (p'.byPath.map (·.1)).Nodup := by
  cases hjoins with
  | known => exact hkeys
  | added hnew =>
    refine List.nodup_cons.2 ⟨fun hmem => ?_, hkeys⟩
    obtain ⟨x, hx, rfl⟩ := List.mem_map.1 hmem
    have hno := List.lookup_eq_none_iff.1 hnew x hx
    simp at hno

/-- Walking segments goes along relations first; the node behind the last of them is found by the text
of them all. -/
theorem spelled_of_walks {mapped : Bool} {key : String} {embeds done : List String} {s : Schema}
    (hwalks : Walks c mapped p i key embeds s segments r p') (hkeys : (p.byPath.map (·.1)).Nodup)
    (hkey : key = ".".intercalate done) (hdone : ∀ x ∈ done ++ segments, Text.IsSegment x) :
    (p'.byPath.map (·.1)).Nodup ∧ ∃ names, names ++ r.rest <+: embeds ++ segments ∧
      (names = [] → r.home = i) ∧
      (names ≠ [] → (".".intercalate (done ++ names), r.home) ∈ p'.byPath) := by
  induction hwalks generalizing done with
  | node => exact ⟨hkeys, [], List.nil_prefix, fun _ => rfl, fun hne => absurd rfl hne⟩
  | embedded =>
    exact ⟨hkeys, [], by simp [Reached.rest], fun _ => rfl, fun hne => absurd rfl hne⟩
  | scalar =>
    exact ⟨hkeys, [], by simp [Reached.rest], fun _ => rfl, fun hne => absurd rfl hne⟩
  | @through p p' i path segment embeds rest s e r _ _ _ ih =>
    have hrest : ∀ x ∈ done ++ rest, Text.IsSegment x := fun x hx =>
      hdone x (by simp only [List.mem_append, List.mem_cons] at hx ⊢; tauto)
    obtain ⟨hkeys', names, hbegins, hnames⟩ := ih hkeys hkey hrest
    exact ⟨hkeys', names, by simpa using hbegins, hnames⟩
  | @along p p₁ p' i j path comp rest r hi hcomp hjoins hrest ih =>
    have hpath := Text.pathTo_intercalate (fun x hx => hdone x (List.mem_append_left _ hx)) comp.name
    rw [← hkey] at hpath
    have hkeys₁ := keys_of_joins hjoins hkeys
    obtain ⟨hkeys', names, hbegins, hhere, hthere⟩ :=
      ih (by simpa using hkeys₁) hpath (by simpa using hdone)
    refine ⟨hkeys', comp.name :: names, by simpa using hbegins,
      fun hnil => absurd hnil (List.cons_ne_nil _ _), fun _ => ?_⟩
    by_cases hnames : names = []
    · -- the path ends behind this relation, whose node it has found
      subst hnames
      rw [hhere rfl, ← hpath]
      exact hrest.steps.byPath.subset (by simpa using hjoins.mem_byPath)
    · simpa using hthere hnames

/-- Roots of distinct aliases are found by distinct texts. -/
theorem keys_of_addRoots {l : List (String × String)} {x : Unit}
    (hrun : (l.forM fun r => do addRoot r.1 (← liftM (c.schema r.2)) : PlanM Unit).run p = .ok (x, p')) :
    p'.byPath.map (·.1) = (l.map (·.1)).reverse ++ p.byPath.map (·.1) := by
  induction l generalizing p with
  | nil =>
    obtain ⟨-, rfl⟩ := run_pure_iff.1 hrun
    rfl
  | cons r l ih =>
    obtain ⟨_, p₁, hadd, hrun⟩ := (run_bind_iff (f := fun _ => l.forM _)).1 hrun
    obtain ⟨s, -, hadd⟩ := run_liftM_bind_iff.1 hadd
    obtain ⟨key, -, rfl⟩ := run_addRoot hadd
    rw [ih hrun, List.map_cons, List.reverse_cons, List.append_assoc]
    rfl

/-- No text is listed twice when the roots have been placed. -/
theorem keys_of_plannedRoots {rootOutputs : List Output} (hscoped : Scoped c q sc)
    (hdistinct : (q.roots.map (·.1)).Nodup)
    (h : (q.plannedRoots c sc).run {} = .ok (rootOutputs, p)) : (p.byPath.map (·.1)).Nodup := by
  unfold plannedRoots at h
  cases hroot : q.root with
  | some type =>
    obtain ⟨root, hsc, -⟩ := hscoped.implicit type hroot
    simp only [hsc] at h
    obtain ⟨_, p₁, hadd, h⟩ := run_bind_iff.1 h
    obtain ⟨-, rfl⟩ := run_pure_iff.1 h
    obtain ⟨key, -, rfl⟩ := run_addRoot hadd
    exact List.nodup_singleton _
  | none =>
    simp only [hscoped.explicit hroot] at h
    obtain ⟨_, p₁, hadd, h⟩ := run_bind_iff.1 h
    obtain ⟨-, rfl⟩ := run_pure_iff.1 h
    rw [keys_of_addRoots hadd]
    simpa using hdistinct

/-- Visiting a path goes along the relations that it spells. -/
theorem knowing_arrives (hscoped : Scoped c q sc) (hbuilt : sc.Built c) :
    Knowing c sc (fun st => (Charted c q sc st.planner ∧ st.cache.Sound c) ∧
        (st.planner.byPath.map (·.1)).Nodup)
      (fun p chain r => (¬ Shadowed c q sc (Text.splitDots chain) → Finds c q sc p chain r) ∧
        q.Arrives p chain r) where
  visit st chain mapped h := by
    obtain ⟨⟨hcharted, hcache⟩, hkeys⟩ := h
    have hlookup := (Scope.resolve_eq_lookup hbuilt hcache chain).1
    have hspelled : Act.Ends (visit c sc chain mapped) st (fun r st' =>
        (st'.planner.byPath.map (·.1)).Nodup ∧ q.Arrives st'.planner chain r) fun _ _ => True := by
      refine ends_visit_of_walk fun denoted cache hresolve r p hwalk => ?_
      rw [hresolve] at hlookup
      obtain ⟨head, start, rest, hsegments, hall, hheading, -, hrun⟩ :=
        run_walk_heading hscoped hcharted hlookup.symm hwalk
      have hwalks := walks_of_walkFrom hcharted.begun.sound hheading.lt rfl hrun
      obtain ⟨hkeys', names, hbegins, hhere, hthere⟩ := spelled_of_walks hwalks hkeys rfl hall
      have hsub : head ++ names <+: head ++ rest :=
        (List.prefix_append_right_inj head).2 ((List.prefix_append _ _).trans hbegins)
      refine ⟨hkeys', head, start, names, ?_, hheading.starts, fun x hx => hall x (hsub.subset hx), hhere,
        hthere⟩
      rw [hsegments, List.append_assoc]
      exact (List.prefix_append_right_inj head).2 hbegins
    exact (((knowing_finds hscoped hbuilt).visit st chain mapped ⟨hcharted, hcache⟩).and hspelled).mono
      (fun r st' h' => ⟨⟨h'.1.1, h'.2.1⟩, h'.1.2, h'.2.2⟩) fun _ _ _ => trivial
  keep p p' chain r hr hsteps h := by
    obtain ⟨hfinds, head, start, names, hbegins, hspells⟩ := h
    exact ⟨(knowing_finds hscoped hbuilt).keep p p' chain r hr hsteps hfinds, head, start, names,
      hbegins, hspells.steps hsteps⟩

/-! ### Which texts spell the same node -/

/-- Where a path starts is a root. -/
theorem Starts.mem_roots {rest : List String} (h : q.Starts segments start rest) (hrooted : Rooted c q p) :
    start ∈ p.roots := by
  cases h with
  | implicit h =>
    obtain ⟨type, htype⟩ := Option.isSome_iff_exists.1 h
    rw [(hrooted.implicit type htype).1]
    exact List.mem_singleton_self _
  | aliased h hk =>
    obtain ⟨type, hk⟩ := hk.1
    rw [(hrooted.explicit h).1, List.mem_range]
    exact (List.getElem?_eq_some_iff.1 hk).1
  | typed h _ hk =>
    rw [(hrooted.explicit h).1, List.mem_range]
    exact (List.getElem?_eq_some_iff.1 hk).1

/-- What a path starts with is the name of a root, and the rest. -/
theorem Starts.split {rest : List String} (h : q.Starts segments start rest) :
    ∃ head, segments = head ++ rest ∧ q.Starts head start [] := by
  cases h with
  | implicit h => exact ⟨[], rfl, .implicit h⟩
  | aliased h hk => exact ⟨[_], rfl, .aliased h hk⟩
  | typed h hno hk honly => exact ⟨[_], rfl, .typed h hno hk honly⟩

/-- Which texts spell the same node of a plan: those that name the same root alike, and go along the same
relations; and which nodes are spelled: those of all relations, unless the text that found them is
shadowed. -/
structure Shares (c : Catalog) (q : Query) (sc : Scope) (p : Planner) : Prop where
  same : ∀ {head start start' names i i'}, q.Spells p head start names i →
    q.Spells p head start' names i' → i = i'
  apart : ∀ {head head' start start' names names' i i'}, q.Spells p head start names i →
    q.Spells p head' start' names' i' → p.JoinedAlong start names i → p.JoinedAlong start' names' i' →
    (i = i' ↔ start = start' ∧ names = names' ∧ (names = [] ∨ head = head'))
  all : ∀ {start names i}, start ∈ p.roots → p.JoinedAlong start names i → names ≠ [] →
    (∃ head, q.Spells p head start names i) ∨
      ∃ segments, Shadowed c q sc segments ∧ (".".intercalate segments, i) ∈ p.byPath

/-- What segments lead to is at a node that relations lead to. -/
theorem leads_along {rest : List String} {denoted : Resolution} (h : p.Leads start rest denoted r) :
    ∃ names, rest = names ++ r.rest ∧ p.JoinedAlong start names r.home := by
  cases h with
  | node h => exact ⟨_, (List.append_nil _).symm, h⟩
  | embedded h => exact ⟨_, rfl, h⟩
  | scalar h => exact ⟨_, List.append_assoc _ _ _, h⟩

/-- Roots are joined to nothing. -/
theorem Charted.parent_of_starts (h : Charted c q sc p) {rest : List String}
    (hstarts : q.Starts segments start rest) : (p.node start).parent = none :=
  (h.begun.sound.roots start (hstarts.mem_roots h.rooted)).2.2

/-- What is found under the text of relations is joined along them, unless it is a root, or the text is
shadowed. -/
theorem Charted.along (h : Charted c q sc p) (hkeys : (p.byPath.map (·.1)).Nodup)
    (hspells : q.Spells p head start names i) (hne : names ≠ []) :
    p.JoinedAlong start names i ∨ (p.node i).parent = none ∨ Shadowed c q sc (head ++ names) := by
  have hfound : p.byPath.lookup (".".intercalate (head ++ names)) = some i :=
    lookup_of_mem hkeys (hspells.found hne)
  have hsegments : head ++ names ≠ [] := by simp [hne]
  have hentry := h.entry _ i hfound
  generalize htext : ".".intercalate (head ++ names) = text at hentry
  cases hentry with
  | implicit => exact absurd htext (Text.intercalate_ne_empty hsegments hspells.segments)
  | root hnone hk =>
    have hstarts : q.Starts [_] i [] := .aliased hnone hk
    exact .inr (.inl (h.parent_of_starts hstarts))
  | joined hall hstarts hne' hi =>
    obtain hsame := Text.intercalate_inj hsegments (hstarts.ne_nil hne') hspells.segments hall htext
    obtain ⟨rfl, rfl⟩ := (hspells.starts.append names).unique (hsame ▸ hstarts)
    exact .inl hi
  | shadowed hall hshadowed =>
    rw [Text.intercalate_inj hsegments hshadowed.ne_nil hspells.segments hall htext]
    exact .inr (.inr hshadowed)

/-- A path that is not shadowed spells the relations that it goes along, and what is behind them. -/
theorem Charted.arrives (h : Charted c q sc p) (hkeys : (p.byPath.map (·.1)).Nodup)
    (hfinds : Finds c q sc p chain r) (hfree : ¬ Shadowed c q sc (Text.splitDots chain))
    (hbegins : head ++ names ++ r.rest <+: Text.splitDots chain)
    (hspells : q.Spells p head start names r.home) :
    head ++ names ++ r.rest = Text.splitDots chain ∧ p.JoinedAlong start names r.home := by
  obtain ⟨denoted, start', rest, -, hstarts, hleads⟩ := hfinds
  obtain ⟨names', rfl, halong⟩ := leads_along hleads
  obtain ⟨more, hmore⟩ := hbegins
  rw [← hmore, List.append_assoc, List.append_assoc] at hstarts
  obtain ⟨rfl, hrest⟩ := (hspells.starts.append _).unique hstarts
  rw [List.nil_append] at hrest
  have hroot := h.parent_of_starts hspells.starts
  -- both lead from the root to one node, so the relations are the same
  have hnames : names = names' := by
    by_cases hne : names = []
    · subst hne
      rw [hspells.root rfl] at halong
      exact (JoinedAlong.start.unique halong hroot hroot).2
    · rcases h.along hkeys hspells hne with hjoined | hparent | hshadowed
      · exact (hjoined.unique halong hroot hroot).2
      · have hnil : names' = [] := by
          by_contra hne'
          exact halong.parent_ne_none hne' hparent
        have hlength := congrArg List.length hrest
        simp only [hnil, List.length_append, List.length_nil] at hlength
        exact absurd (List.eq_nil_of_length_eq_zero (by omega)) hne
      · refine absurd (hshadowed.mono ?_) hfree
        rw [← hmore, List.append_assoc (head ++ names)]
        exact List.prefix_append _ _
  subst hnames
  have hnil : more = [] := by simpa using hrest
  exact ⟨by rw [← hmore, hnil, List.append_nil], halong⟩

/-- In a plan that is charted, in which no text is listed twice, nodes are shared as their texts say. -/
theorem Charted.shares (h : Charted c q sc p) (hkeys : (p.byPath.map (·.1)).Nodup)
    (hindexed : p.Indexed) : Shares c q sc p := by
  have hsame : ∀ {head : List String} {start start' : Nat} {names : List String} {i i' : Nat},
      q.Spells p head start names i → q.Spells p head start' names i' → i = i' := by
    intro head start start' names i i' hi hi'
    by_cases hne : names = []
    · rw [hi.root hne, hi'.root hne, (hi.starts.unique hi'.starts).1]
    · exact eq_of_mem_byPath hkeys (hi.found hne) (hi'.found hne)
  refine ⟨hsame, fun {head head' start start' names names' i i'} hi hi' halong halong' => ⟨?_, ?_⟩,
    fun {start names i} hstart halong hne => ?_⟩
  · rintro rfl
    obtain ⟨rfl, rfl⟩ := halong.unique halong' (h.parent_of_starts hi.starts)
      (h.parent_of_starts hi'.starts)
    refine ⟨rfl, rfl, or_iff_not_imp_left.2 fun hne => ?_⟩
    have htext := hindexed.eq_of_mem (hi.found hne) (hi'.found hne)
    have hsegments := Text.intercalate_inj (by simp [hne]) (by simp [hne]) hi.segments hi'.segments htext
    exact List.append_cancel_right hsegments
  · rintro ⟨rfl, rfl, rfl | rfl⟩
    · rw [hi.root rfl, hi'.root rfl]
    · exact hsame hi hi'
  · have hparent := halong.parent_ne_none hne
    have hlt : i < p.nodes.length := by
      obtain ⟨x, hx⟩ := Option.ne_none_iff_exists'.1 hparent
      exact lt_of_parent hx
    have hroot := (h.begun.sound.roots start hstart).2.2
    obtain ⟨text, htext⟩ := hindexed.covers i hlt
    have hentry := h.entry _ i (lookup_of_mem hkeys htext)
    cases hentry with
    | implicit hsome =>
      have hstarts : q.Starts [] 0 [] := .implicit hsome
      exact absurd (h.parent_of_starts hstarts) hparent
    | root hnone hk =>
      have hstarts : q.Starts [text] i [] := .aliased hnone hk
      exact absurd (h.parent_of_starts hstarts) hparent
    | joined hall hstarts _ hi =>
      obtain ⟨rfl, rfl⟩ := halong.unique hi hroot (h.parent_of_starts hstarts)
      obtain ⟨head, rfl, hhead⟩ := hstarts.split
      exact .inl ⟨head, hhead, hall, fun hnil => absurd hnil hne, fun _ => htext⟩
    | shadowed _ hshadowed => exact .inr ⟨_, hshadowed, htext⟩

/-! ### Compiled queries -/

/-- **Paths that name their roots alike share the nodes of their relations.** In the plan of a query with
distinct aliases, whatever a path selects, filters or orders is at the node that its relations lead to from
the root that it names. Two paths come to one node iff they go along the same relations from the same root,
and name it in the same way if there are any relations; every node that is joined is one that some text
spells so; and the statement joins it exactly once, under an alias that no other node has. Only paths that
the alias of a root shadows may go along other relations; they, too, come to one node if they are spelled
alike. -/
theorem shares_of_compile {cache cache' : PathCache} {compiled : CompiledQuery}
    (hdistinct : (q.roots.map (·.1)).Nodup) (hcache : cache.Sound c)
    (h : q.compile c cache = (.ok compiled, cache')) :
    ∃ sc p, q.scope c = .ok sc ∧ Rooted c q p ∧ p.Linked c ∧ Shares c q sc p ∧
      (∀ i < p.nodes.length, ∀ j < p.nodes.length,
        (p.node i).tableAlias = (p.node j).tableAlias → i = j) ∧
      (∀ i < p.nodes.length, (p.node i).parent ≠ none → compiled.select.joins.countP
        (fun clause => clause.table.asName == some (p.node i).tableAlias) = 1) ∧
      DescribesAs (fun p chain r => ∃ head start names,
        q.Spells p head start names r.home ∧ head ++ names ++ r.rest <+: Text.splitDots chain ∧
        (¬ Shadowed c q sc (Text.splitDots chain) →
          head ++ names ++ r.rest = Text.splitDots chain ∧ p.JoinedAlong start names r.home))
        q p compiled := by
  obtain ⟨sc, st, hsc, hsteps, -, ⟨⟨hcharted, -⟩, hkeys⟩, hdescribes⟩ := described_of_compile
    (fun sc hsc => knowing_arrives (scoped_of_scope hsc) (built_scope hsc))
    (fun sc _ p hsc hrun hbegun =>
      ⟨⟨charted_of_plannedRoots (scoped_of_scope hsc) hrun hbegun, hcache⟩,
        keys_of_plannedRoots (scoped_of_scope hsc) hdistinct hrun⟩) h
  have hlabelled := labelled_of_steps hsteps
  refine ⟨sc, st.planner, hsc, hcharted.rooted, linked_of_steps hsteps,
    hcharted.shares hkeys (indexed_of_steps hsteps), hlabelled.distinct, ?_,
    hdescribes.mono fun chain r hr => ?_⟩
  · rw [hdescribes.joins]
    exact hlabelled.once
  · obtain ⟨hfinds, head, start, names, hbegins, hspells⟩ := hr
    exact ⟨head, start, names, hspells, hbegins, fun hfree =>
      hcharted.arrives hkeys (hfinds hfree) hfree hbegins hspells⟩

/-- The paths of the blog share the nodes of their relations. -/
theorem shares_of_compile_blog : (Blog.query.roots.map (·.1)).Nodup ∧ PathCache.Sound Blog.catalog {} ∧
    ∃ compiled cache', Blog.query.compile Blog.catalog {} = (.ok compiled, cache') ∧
      ∃ sc p, Blog.query.scope Blog.catalog = .ok sc ∧ Rooted Blog.catalog Blog.query p ∧
        p.Linked Blog.catalog ∧ Shares Blog.catalog Blog.query sc p ∧
        (∀ i < p.nodes.length, ∀ j < p.nodes.length,
          (p.node i).tableAlias = (p.node j).tableAlias → i = j) ∧
        (∀ i < p.nodes.length, (p.node i).parent ≠ none → compiled.select.joins.countP
          (fun clause => clause.table.asName == some (p.node i).tableAlias) = 1) ∧
        DescribesAs (fun p chain r => ∃ head start names,
          Blog.query.Spells p head start names r.home ∧
          head ++ names ++ r.rest <+: Text.splitDots chain ∧
          (¬ Shadowed Blog.catalog Blog.query sc (Text.splitDots chain) →
            head ++ names ++ r.rest = Text.splitDots chain ∧ p.JoinedAlong start names r.home))
          Blog.query p compiled := by
  have hdistinct : (Blog.query.roots.map (·.1)).Nodup := by decide
  have hcache : PathCache.Sound Blog.catalog {} := PathCache.sound_empty _
  have hanswers : (Blog.query.compile Blog.catalog {}).1.toOption.any (fun _ => true) = true := by
    decide +kernel
  obtain ⟨compiled, cache', h, -⟩ := exists_compiled hanswers
  exact ⟨hdistinct, hcache, compiled, cache', h, shares_of_compile hdistinct hcache h⟩

end Query

/-- Users with their posts, which are filtered by their type. -/
def Blog.twice : Query where
  roots := [("u", "User")]
  selections := [.path "u.posts"]
  filters := [⟨"User.posts.title", .eq, .one (.text "x")⟩]

/-- **A root that is named in two ways has a relation joined twice.** Both paths start at the only user and
go along its posts, but the posts that are selected are not those that are filtered. -/
theorem Blog.splits : (Blog.twice.roots.map (·.1)).Nodup ∧
    Blog.twice.Starts ["u", "posts"] 0 ["posts"] ∧
    Blog.twice.Starts ["User", "posts", "title"] 0 ["posts", "title"] ∧
    ∃ compiled cache', Blog.twice.compile Blog.catalog {} = (.ok compiled, cache') ∧
      compiled.plan.nodes.map (fun n => (n.parent.map fun x => (x.1, x.2.name), n.mapped)) =
        [(none, true), (some (0, "posts"), true), (some (0, "posts"), false)] ∧
      compiled.select.joins.map (fun clause => clause.table.asName) =
        [some "pages_1", some "posts_2", some "posts_3"] ∧
      compiled.select.conditions.map (fun
        | .binary (.name column) _ _ => column
        | _ => "") = ["posts_3.title"] := by
  have hanswers : (Blog.twice.compile Blog.catalog {}).1.toOption.any (fun compiled =>
      compiled.plan.nodes.map (fun n => (n.parent.map fun x => (x.1, x.2.name), n.mapped)) ==
        [(none, true), (some (0, "posts"), true), (some (0, "posts"), false)] &&
      (compiled.select.joins.map (fun clause => clause.table.asName) ==
        [some "pages_1", some "posts_2", some "posts_3"] &&
      compiled.select.conditions.map (fun
        | .binary (.name column) _ _ => column
        | _ => "") == ["posts_3.title"])) = true := by
    decide +kernel
  obtain ⟨compiled, cache', h, hplan⟩ := Query.exists_compiled hanswers
  simp only [Bool.and_eq_true, beq_iff_eq] at hplan
  have hlatest : Query.Latest Blog.twice.roots "u" 0 :=
    ⟨⟨"User", rfl⟩, fun j r hj _ => by
      have hlt := (List.getElem?_eq_some_iff.1 hj).1
      exact Nat.le_of_lt_succ hlt⟩
  refine ⟨by decide, .aliased rfl hlatest, .typed rfl (by decide) rfl fun j r hj _ => ?_,
    compiled, cache', h, hplan⟩
  have hlt := (List.getElem?_eq_some_iff.1 hj).1
  exact Nat.lt_one_iff.1 hlt

end EntityGraph
