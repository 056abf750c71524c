import EntityGraph.Proofs.Planning
import EntityGraph.Proofs.Sides

/-!
# The atomics of joins

A relation that is resolved takes part with an atomic of either side. That these exist is established in
several places: the join column of a to-one relation and what a to-many relation refers to are checked
with the owner's type, the join column of a to-many relation and what a to-one relation refers to when the
relation is resolved, and the primary key, which stands in for what is not said, is an atomic of every type
that has one. Seen from the target, the relation that an inverse side names has the same join the other way
round.

So whoever asks for the atomics of a join finds them. Compiling a query asks for no property by any other
name: if it fails to find one, a relation was not resolved in the first place.

## Main results

* `Catalog.atomics_of_join`: both sides of a relation that is resolved have their atomics.
* `Catalog.join_of_mappedBy`: the relation that an inverse side names has the same join.
* `Query.unresolved_of_compile`: a compilation misses a property only where a relation is not resolved.
-/

namespace EntityGraph

/-! ### Both sides of a join -/

/-- What an owning to-many relation without a fault refers to is an atomic, if it says so. -/
theorem Draft.hasAtomic_of_referenced {d : Draft} {comp : Component} {column name : String}
    (h : d.componentFault? comp = none) (howning : comp.mappedBy = none)
    (hmany : comp.isToMany = true) (hcolumn : comp.joinColumn = some column)
    (hreferenced : comp.referenced = some name) : d.hasAtomic name = true := by
  unfold componentFault? at h
  split at h
  · cases h
  · simp only [howning, hcolumn, hreferenced] at h
    split at h
    · assumption
    · cases h

namespace Join

variable {s t : Schema} {comp : Component} {join : Join}

/-- What an owning to-many relation refers to is what it says, or else the primary key of the owner. -/
theorem referenced_of_toMany (h : owning s comp t = .ok join) (hmany : comp.isToMany = true) :
    comp.referenced = some join.referenced ∨
      ∃ key, s.primaryKey = some key ∧ key.name = join.referenced := by
  simp only [owning, Catalog.joinColumn_of_owning h] at h
  rw [if_pos hmany] at h
  split at h
  · cases h
  cases hreferenced : comp.referenced with
  | some name =>
    simp only [hreferenced] at h
    exact .inl (Except.ok.inj h ▸ rfl)
  | none =>
    simp only [hreferenced, pure_bind] at h
    obtain ⟨key, hkey, h⟩ := bind_eq_ok_iff.1 h
    exact .inr ⟨key, Schema.key_eq_ok_iff.1 hkey, Except.ok.inj h ▸ rfl⟩

/-- What an owning to-one relation refers to is an atomic of the target. -/
theorem referenced_of_toOne (h : owning s comp t = .ok join) (hone : comp.isToMany = false) :
    ∃ a, t.atomic? join.referenced = some a := by
  have hfound : ∀ {name : String}, (do
      let _ ← t.atomic name
      return ⟨.here, join.foreignKey, name⟩) = Except.ok join →
      ∃ a, t.atomic? join.referenced = some a := by
    intro name h
    obtain ⟨a, ha, h⟩ := bind_eq_ok_iff.1 h
    obtain rfl : name = join.referenced := congrArg Join.referenced (Except.ok.inj h)
    exact ⟨a, Schema.atomic_eq_ok_iff.1 ha⟩
  simp only [owning, Catalog.joinColumn_of_owning h] at h
  rw [if_neg (by simp [hone])] at h
  cases hreferenced : comp.referenced with
  | some name =>
    simp only [hreferenced, pure_bind] at h
    exact hfound h
  | none =>
    simp only [hreferenced] at h
    obtain ⟨key, -, h⟩ := bind_eq_ok_iff.1 h
    exact hfound h

end Join

namespace Catalog

variable {c : Catalog} {s t : Schema} {comp : Component} {join : Join}

/-- The atomics that an owning relation takes part with are declared. -/
theorem atomics_of_owning (hs : c.Known s) (hcomp : comp ∈ s.components) (howns : comp.mappedBy = none)
    (h : Join.owning s comp t = .ok join) :
    (∃ a, s.atomic? join.localAtomic = some a) ∧ ∃ a, t.atomic? join.remoteAtomic = some a := by
  have hcolumn := joinColumn_of_owning h
  cases hmany : comp.isToMany with
  | true =>
    rw [Join.localAtomic, Join.remoteAtomic, (Join.owning_side h).2 hmany]
    refine ⟨?_, atomic?_of_owning h hmany⟩
    rcases Join.referenced_of_toMany h hmany with hreferenced | ⟨key, hkey, hname⟩
    · obtain ⟨d, parts, hfinish⟩ := hs.finished
      have hfault := Draft.componentFault?_of_finish hfinish hcomp
      exact Draft.atomic?_of_hasAtomic hfinish
        (Draft.hasAtomic_of_referenced hfault howns hmany hcolumn hreferenced)
    · have hmem := mem_of_primaryKey (hs.schema_of_key hkey) hkey
      exact ⟨key, hname ▸ hs.coherent.atomic?_name hmem⟩
  | false =>
    rw [Join.localAtomic, Join.remoteAtomic, Join.here_of_owning h hmany]
    exact ⟨atomic?_of_joinColumn hs hcomp howns hmany hcolumn, Join.referenced_of_toOne h hmany⟩

/-- Both sides of a relation that is resolved have their atomics. -/
theorem atomics_of_join (hs : c.Known s) (hcomp : comp ∈ s.components) (h : c.join s comp = .ok join) :
    ∃ t, c.schema comp.target = .ok t ∧ (∃ a, s.atomic join.localAtomic = .ok a) ∧
      ∃ a, t.atomic join.remoteAtomic = .ok a := by
  simp only [Schema.atomic_eq_ok_iff]
  obtain ⟨t, ht, ⟨howns, howning⟩ | ⟨_, owning, join', -, hfound, howns, howning, rfl⟩⟩ := join_cases h
  · exact ⟨t, ht, atomics_of_owning hs hcomp howns howning⟩
  · -- an inverse side takes part with the same atomics, seen from the target
    obtain ⟨hthere, hhere⟩ := atomics_of_owning ⟨_, t, ht, .refl t⟩ (List.mem_of_find?_eq_some hfound)
      howns howning
    rw [Join.localAtomic_flipped, Join.remoteAtomic_flipped]
    exact ⟨t, ht, hhere, hthere⟩

/-- The relation that an inverse side names is resolved, to the same join the other way round. -/
theorem join_of_mappedBy {name : String} (hs : c.schema s.name = .ok s)
    (ht : c.schema comp.target = .ok t) (hinverse : comp.mappedBy = some name)
    (h : c.join s comp = .ok join) :
    ∃ owning, t.component name = .ok owning ∧ c.join t owning = .ok join.flipped := by
  simp only [Schema.component_eq_ok_iff]
  obtain ⟨t', ht', h⟩ := bind_eq_ok_iff.1 h
  obtain rfl := Except.ok.inj (ht.symm.trans ht')
  obtain ⟨owning, hfound, howns, htarget, howning⟩ := resolve_of_mappedBy hinverse h
  refine ⟨owning, hfound, bind_eq_ok_iff.2 ⟨s, by rw [htarget, hs], ?_⟩⟩
  simp only [Join.resolve, howns]
  exact howning

end Catalog

/-! ### Paths -/

/-- What is wrong with a step is so with the path, or with the type that it leads to. -/
theorem Resolution.known_of_step {c : Catalog} {path segment : String} {r : Resolution} {error : Error}
    (h : r.step c path segment = .error error) : ¬error.IsUnknownProperty := by
  cases r with
  | scalar =>
    cases h
    exact id
  | entity s =>
    simp only [step] at h
    split at h
    · next comp _ =>
      cases hs : c.schema comp.target with
      | ok t =>
        rw [hs] at h
        cases h
      | error e =>
        rw [hs] at h
        cases h
        exact (Catalog.declared_of_schema hs).not_isUnknownProperty
    · cases h
    · cases h
    · cases h
      exact id

namespace Scope

variable {c : Catalog} {sc : Scope} {error : Error}

/-- Walking a path misses no property by name. -/
theorem known_of_walk {path start : String} {walked rest : List String} {r : Resolution}
    {cache : PathCache} (h : (walk c path start walked r rest cache).1 = .error error) :
    ¬error.IsUnknownProperty := by
  induction rest generalizing walked r cache with
  | nil => cases h
  | cons segment rest ih =>
    simp only [walk] at h
    split at h
    · exact ih h
    · split at h
      · next hstep =>
        obtain rfl := Except.error.inj h
        exact Resolution.known_of_step hstep
      · exact ih h

/-- Resolving a path misses no property by name. -/
theorem known_of_resolve {path : String} {cache : PathCache}
    (h : (sc.resolve c path cache).1 = .error error) : ¬error.IsUnknownProperty := by
  simp only [resolve] at h
  split at h
  · cases h
    exact id
  · split at h
    · cases h
      exact id
    · cases h
    · split at h
      · cases h
      · exact known_of_walk h

end Scope

/-! ### Plans -/

namespace Planner

variable {c : Catalog} {p p' : Planner} {i : Nat} {path : String} {error : Error}

section run

variable {α β : Type}

/-- Work on a plan fails where one of its parts does. -/
theorem run_bind_error_iff {m : PlanM α} {f : α → PlanM β} : (m >>= f).run p = .error error ↔
    m.run p = .error error ∨ ∃ a p', m.run p = .ok (a, p') ∧ (f a).run p' = .error error := by
  rw [StateT.run_bind, bind_eq_error_iff, Prod.exists]

/-- Work on a plan fails where a computation without a plan does. -/
theorem run_liftM_bind_error_iff {x : Except Error α} {f : α → PlanM β} :
    (liftM x >>= f).run p = .error error ↔
      x = .error error ∨ ∃ a, x = .ok a ∧ (f a).run p = .error error := by
  cases x with
  | ok a =>
    refine ⟨fun h => .inr ⟨a, rfl, h⟩, ?_⟩
    rintro (h | ⟨_, ha, h⟩)
    · cases h
    · exact Except.ok.inj ha ▸ h
  | error e =>
    refine ⟨fun h => .inl (congrArg _ (Except.error.inj h)), ?_⟩
    rintro (h | ⟨_, ha, -⟩)
    · exact congrArg _ (Except.error.inj h)
    · cases ha

end run

/-- The table of a column may not be joined. -/
theorem declared_of_column {n : PlanNode} {s : Schema} {a : Atomic} (h : n.column s a = .error error) :
    error.Declared := by
  simp only [PlanNode.column] at h
  split at h <;> cases h
  trivial

/-- Secondary tables are not joined without a primary key. -/
theorem declared_of_joinSecondaries (h : (joinSecondaries i).run p = .error error) :
    error.Declared := by
  unfold joinSecondaries at h
  rw [run_get_bind] at h
  rcases run_liftM_bind_error_iff.1 h with h | ⟨_, -, h⟩
  · exact Schema.declared_of_key h
  · cases h

/-- A root is not added without a primary key. -/
theorem declared_of_addRoot {s : Schema} (h : (addRoot path s).run p = .error error) :
    error.Declared := by
  unfold addRoot at h
  rcases run_bind_error_iff.1 h with h | ⟨_, _, -, h⟩
  · cases h
  rcases run_bind_error_iff.1 h with h | ⟨_, _, -, h⟩
  · cases h
  rcases run_bind_error_iff.1 h with h | ⟨_, _, -, h⟩
  · exact declared_of_joinSecondaries h
  · cases h

/-- A component that is joined misses no atomic of the join, where it is resolved. -/
theorem unresolved_of_child {parent : Nat} {comp : Component} (hsound : Sound c p)
    (hparent : parent < p.nodes.length)
    (hcomp : (p.node parent).schema.component? comp.name = some comp)
    (h : (child c parent path comp).run p = .error error) (hunknown : error.IsUnknownProperty) :
    c.Unresolved error := by
  have hknown : c.Known (p.node parent).schema := ⟨_, _, hsound.schema parent hparent, .refl _⟩
  have hmem := List.mem_of_find?_eq_some hcomp
  have hdeclared : ¬error.Declared := fun h => h.not_isUnknownProperty hunknown
  unfold child at h
  rw [run_get_bind] at h
  split at h
  · cases h
  rw [run_get_bind] at h
  rcases run_liftM_bind_error_iff.1 h with h | ⟨target, htarget, h⟩
  · exact absurd (Catalog.declared_of_schema h) hdeclared
  rcases run_liftM_bind_error_iff.1 h with h | ⟨join, hjoin, h⟩
  · exact ⟨_, comp, hknown, hmem, h⟩
  -- both atomics of the join are declared
  obtain ⟨target', htarget', ⟨here, hhere⟩, there, hthere⟩ := Catalog.atomics_of_join hknown hmem hjoin
  obtain rfl := Except.ok.inj (htarget.symm.trans htarget')
  rcases run_liftM_bind_error_iff.1 h with h | ⟨_, -, h⟩
  · cases hhere.symm.trans h
  rcases run_liftM_bind_error_iff.1 h with h | ⟨_, -, h⟩
  · cases hthere.symm.trans h
  split at h
  · cases h
    exact hunknown.elim
  rcases run_bind_error_iff.1 h with h | ⟨_, _, -, h⟩
  · cases h
  rw [run_get_bind] at h
  rcases run_liftM_bind_error_iff.1 h with h | ⟨_, -, h⟩
  · exact absurd (declared_of_column h) hdeclared
  rcases run_liftM_bind_error_iff.1 h with h | ⟨_, -, h⟩
  · exact absurd (declared_of_column h) hdeclared
  rcases run_bind_error_iff.1 h with h | ⟨_, _, -, h⟩
  · cases h
  rcases run_bind_error_iff.1 h with h | ⟨_, _, -, h⟩
  · exact absurd (declared_of_joinSecondaries h) hdeclared
  · cases h

/-- A walk misses a property only where a relation is not resolved. -/
theorem Fails.unresolved {chain : String} (h : Fails c p chain error) (hsound : Sound c p)
    (hunknown : error.IsUnknownProperty) : c.Unresolved error := by
  rcases h with rfl | ⟨p', parent, path, comp, hsteps, hparent, hcomp, hchild⟩
  · exact hunknown.elim
  · exact unresolved_of_child (hsound.steps hsteps) hparent hcomp hchild hunknown

/-- A path is not compared where the table of its column is not joined, or where it ends at an embedded
schema. -/
theorem known_of_columnOf {chain : String} {r : Reached} (h : p.columnOf chain r = .error error) :
    ¬error.IsUnknownProperty := by
  cases r with
  | node i =>
    rcases bind_eq_error_iff.1 h with h | ⟨_, -, h⟩
    · exact (Schema.declared_of_key h).not_isUnknownProperty
    · exact (declared_of_column h).not_isUnknownProperty
  | embedded =>
    cases h
    exact id
  | scalar => exact (declared_of_column h).not_isUnknownProperty

/-- The columns of embedded schemas are selected unless those of one of them are not. -/
theorem exists_of_columnsOfEmbedded {n : PlanNode} {embeds : List String} {l : List (String × Schema)}
    (h : columnsOfEmbedded n embeds l = .error error) :
    ∃ part ∈ l, columnsOf n (embeds ++ [part.1]) part.2 = .error error := by
  induction l with
  | nil => cases h
  | cons part l ih =>
    rw [columnsOfEmbedded_cons] at h
    rcases bind_eq_error_iff.1 h with h | ⟨_, -, h⟩
    · exact ⟨part, List.mem_cons_self, h⟩
    rcases bind_eq_error_iff.1 h with h | ⟨_, -, h⟩
    · obtain ⟨part', hmem, hpart⟩ := ih h
      exact ⟨part', List.mem_cons_of_mem _ hmem, hpart⟩
    · cases h

/-- The columns of a schema are selected unless the table of one is not joined. -/
theorem declared_of_columnsOf {n : PlanNode} {embeds : List String} {s : Schema}
    (h : columnsOf n embeds s = .error error) : error.Declared := by
  induction s using Schema.induction generalizing embeds with
  | _ s ih =>
    rw [columnsOf_def] at h
    rcases bind_eq_error_iff.1 h with h | ⟨_, -, h⟩
    · obtain ⟨a, -, h⟩ := exists_of_mapM_error h
      rcases bind_eq_error_iff.1 h with h | ⟨_, -, h⟩
      · exact declared_of_column h
      · cases h
    rcases bind_eq_error_iff.1 h with h | ⟨_, -, h⟩
    · obtain ⟨part, hmem, hpart⟩ := exists_of_columnsOfEmbedded h
      exact ih part hmem hpart
    · cases h

/-- The columns of mapped nodes are selected unless the table of one is not joined. -/
theorem declared_of_selectedColumns (h : p.selectedColumns = .error error) : error.Declared := by
  rcases bind_eq_error_iff.1 h with h | ⟨_, -, h⟩
  · obtain ⟨n, -, h⟩ := exists_of_mapM_error h
    exact declared_of_columnsOf h
  · cases h

end Planner

/-! ### Compilations -/

namespace Query

variable {c : Catalog} {q : Query} {sc : Scope} {st : Progress} {error : Error}

/-- The scope of a query misses no property by name. -/
theorem known_of_scope (h : q.scope c = .error error) : ¬error.IsUnknownProperty := by
  simp only [scope] at h
  split at h
  · rcases bind_eq_error_iff.1 h with h | ⟨_, -, h⟩
    · exact (Catalog.declared_of_schema h).not_isUnknownProperty
    · cases h
  · split at h
    · cases h
      exact id
    · generalize ({} : Scope) = sc, q.roots = l at h
      induction l generalizing sc with
      | nil => cases h
      | cons r l ih =>
        rw [List.foldlM_cons] at h
        rcases bind_eq_error_iff.1 h with h | ⟨_, -, h⟩
        · rcases bind_eq_error_iff.1 h with h | ⟨_, -, h⟩
          · exact (Catalog.declared_of_schema h).not_isUnknownProperty
          · cases h
        · exact ih _ h

/-- The roots of a query miss no property by name. -/
theorem known_of_plannedRoots {p : Planner} (h : (q.plannedRoots c sc).run p = .error error) :
    ¬error.IsUnknownProperty := by
  simp only [plannedRoots] at h
  split at h
  · rcases Planner.run_bind_error_iff.1 h with h | ⟨_, _, -, h⟩
    · exact (Planner.declared_of_addRoot h).not_isUnknownProperty
    · cases h
  · rcases Planner.run_bind_error_iff.1 h with h | ⟨_, _, -, h⟩
    · clear * - h
      generalize q.roots = l at h
      induction l generalizing p with
      | nil => cases h
      | cons r l ih =>
        rcases (Planner.run_bind_error_iff (f := fun _ => l.forM _)).1 h with h | ⟨_, p', -, h⟩
        · rcases Planner.run_liftM_bind_error_iff.1 h with h | ⟨_, -, h⟩
          · exact (Catalog.declared_of_schema h).not_isUnknownProperty
          · exact (Planner.declared_of_addRoot h).not_isUnknownProperty
        · exact ih h
    · cases h

/-- A compilation goes on with a plan that has been begun, and misses a property only where a relation is
not resolved. -/
abbrev Proceeds (c : Catalog) {α : Type} (act : CompileM α) : Prop :=
  ∀ st, Begun c st.planner → Act.Ends act st (fun _ st' => Begun c st'.planner)
    fun error _ => error.IsUnknownProperty → c.Unresolved error

/-- Paths are visited. -/
theorem proceeds_visit (c : Catalog) (sc : Scope) (chain : String) (mapped : Bool) :
    Proceeds c (visit c sc chain mapped) := by
  intro st h
  rw [ends_visit_iff]
  refine fun resolved cache hresolve => ⟨fun error herror hunknown => ?_, fun denoted _ =>
    ⟨fun error hwalk => (Planner.fails_of_walk h.sound h.nodes hwalk).unresolved h.sound,
      fun r p hwalk => ?_⟩⟩
  · subst herror
    exact absurd hunknown (Scope.known_of_resolve (congrArg Prod.fst hresolve))
  · obtain ⟨i, path, segments, hwalks⟩ := Planner.walks_of_walk h.sound h.nodes hwalk
    have hgrows : st.Grows c ⟨p, cache⟩ := hwalks.steps
    exact h.grows hgrows

/-- Selections are answered. -/
theorem proceeds_compileSelection (c : Catalog) (sc : Scope) (sel : Selection) :
    Proceeds c (compileSelection c sc sel) := by
  intro st h
  cases sel with
  | path chain =>
    unfold compileSelection
    rw [Act.ends_bind]
    exact (proceeds_visit c sc chain true st h).mono (fun _ _ h' => h') fun _ _ h' => h'
  | raw => exact h

/-- Paths are compared by columns. -/
theorem proceeds_compileColumn (c : Catalog) (sc : Scope) (chain : String) :
    Proceeds c (compileColumn c sc chain) := by
  intro st h
  rw [ends_compileColumn_iff]
  exact (proceeds_visit c sc chain false st h).mono (fun r st' h' => ⟨fun _ _ => h',
    fun _ hcolumn hunknown => absurd hunknown (Planner.known_of_columnOf hcolumn)⟩) fun _ _ h' => h'

/-- Work on each element of a list goes on with the compilation. -/
theorem Proceeds.mapM {α β : Type} {l : List α} {f : α → CompileM β} (h : ∀ a, Proceeds c (f a)) :
    Proceeds c (l.mapM f) := by
  intro st hst
  refine (Act.ends_mapM_iff (R := fun st : Progress => Begun c st.planner)).2 ?_
  refine Act.ends_forM (I := fun st : Progress => Begun c st.planner) (fun a _ st' hst' => ?_) hst
  rw [Act.ends_bind]
  exact h a st' hst'

/-- The body of a query is compiled. -/
theorem proceeds_compileBody (c : Catalog) (q : Query) (sc : Scope) (outputs : List Output) :
    Proceeds c (compileBody c q sc outputs) := by
  have hfilter : ∀ f, Proceeds c (compileFilter c sc f) := fun f st h => by
    unfold compileFilter
    rw [Act.ends_bind]
    exact proceeds_compileColumn c sc f.path st h
  have horder : ∀ o : String × Direction,
      Proceeds c (do return (← compileColumn c sc o.1, o.2) : CompileM (String × Direction)) :=
    fun o st h => by
      rw [Act.ends_bind]
      exact proceeds_compileColumn c sc o.1 st h
  intro st h
  rw [ends_compileBody_iff]
  refine (Proceeds.mapM (proceeds_compileSelection c sc) st h).mono (fun _ st₁ h₁ => ?_) fun _ _ h => h
  refine (Proceeds.mapM hfilter st₁ h₁).mono (fun _ st₂ h₂ => ?_) fun _ _ h => h
  refine (Proceeds.mapM horder st₂ h₂).mono (fun _ st₃ h₃ => ?_) fun _ _ h => h
  exact ⟨fun _ _ => h₃, fun _ hcolumns hunknown =>
    absurd hunknown (Planner.declared_of_selectedColumns hcolumns).not_isUnknownProperty⟩

/-- A compilation misses a property only where a relation is not resolved. -/
theorem unresolved_of_compile {cache : PathCache} (h : (q.compile c cache).1 = .error error)
    (hunknown : error.IsUnknownProperty) : c.Unresolved error := by
  unfold compile at h
  cases hscope : q.scope c with
  | error e =>
    simp only [hscope] at h
    obtain rfl := Except.error.inj h
    exact absurd hunknown (known_of_scope hscope)
  | ok sc =>
    simp only [hscope] at h
    cases hroots : (q.plannedRoots c sc).run {} with
    | error e =>
      simp only [hroots] at h
      obtain rfl := Except.error.inj h
      exact absurd hunknown (known_of_plannedRoots hroots)
    | ok result =>
      obtain ⟨outputs, p⟩ := result
      simp only [hroots] at h
      have hbody := proceeds_compileBody c q sc outputs ⟨p, cache⟩ (begun_of_plannedRoots hscope hroots)
      cases hrun : (compileBody c q sc outputs).run ⟨p, cache⟩ with
      | ok compiled st =>
        simp only [hrun] at h
        cases h
      | error e st =>
        simp only [hrun] at h
        obtain rfl := Except.error.inj h
        exact hbody.of_error hrun hunknown

end Query

end EntityGraph
