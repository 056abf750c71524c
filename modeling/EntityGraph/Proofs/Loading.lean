import EntityGraph.Proofs.Readings

/-!
# Reading rows, step by step

Whatever rows a mapper reads, what it does to the graph comes down to few kinds of steps: an entity or an
embedded component is made, values in the form of their kinds are loaded, an entity is marked as stored,
a to-one relation is loaded, a collection is opened or gets a member. What each of these steps keeps,
reading keeps, whether it succeeds or fails.

* `Graph.ReadStep` — the steps;
* `Graph.Read` — a graph has come to another one, step by step;
* `Read.keeps` — what the steps keep.

## Main result

* `Mapper.ends_mapRows_reads` — reading rows takes such steps only, and entities that it has come to know
  are stored.
-/

namespace EntityGraph

namespace Graph

variable {c : Catalog} {g g' g'' : Graph} {e x : EntityId} {name : String} {s : Schema}

/-- A step of reading rows. -/
inductive ReadStep (c : Catalog) (g : Graph) : Graph → Prop
  | made (s : Schema) : ReadStep c g { g with entities := g.entities ++ [{ schema := s }] }
  | embedded {e : EntityId} {name : String} {s : Schema}
      (hs : (g.entity e).schema.embedded? name = some s)
      (hnew : (g.entity e).embedded.get? name = none) : ReadStep c g (g.withPart e name s)
  | loaded (e : EntityId) {values : List (String × Value)}
      (hvalues : ∀ p ∈ values, ∃ a ∈ (g.entity e).schema.atomics, a.name = p.1 ∧ a.kind.Holds p.2) :
      ReadStep c g (g.modifyEntity e fun x => values.foldl (fun x p => x.loadAtomic p.1 p.2) x)
  | marked (hwf : g.WellFormed c) (e : EntityId) : ReadStep c g (g.markStored e)
  | related {e : EntityId} (hkey : (g.entity e).schema.primaryKey.isSome) (name : String)
      (target : Option EntityId) : ReadStep c g (g.modifyEntity e (·.loadTarget name target))
  | gathered {g' : Graph} (hlength : g'.entities.length = g.entities.length)
      (hsame : ∀ x, ∃ toMany listeners, g'.entity x = { g.entity x with toMany, listeners } ∧
        (toMany = (g.entity x).toMany ∨ (g.entity x).schema.primaryKey.isSome)) :
      ReadStep c g g'

/-- Loading atomics changes nothing but their values. -/
theorem loadAtomics_eq (values : List (String × Value)) (x : Entity) :
    values.foldl (fun x p => x.loadAtomic p.1 p.2) x =
      { x with atomics := values.foldl (fun m p => m.put p.1 (.loaded p.2)) x.atomics } := by
  induction values generalizing x with
  | nil => rfl
  | cons p values ih => exact ih (x.loadAtomic p.1 p.2)

namespace ReadStep

variable (h : ReadStep c g g')

include h

/-- No entity is lost. -/
theorem length_le : g.entities.length ≤ g'.entities.length := by
  cases h with
  | made s => simp
  | embedded hs hnew => simp [length_withPart]
  | loaded e hvalues => simp
  | marked hwf e => exact Nat.le_of_eq (SameShape.markStored g e).length.symm
  | related hkey name target => simp
  | gathered hlength hsame => exact Nat.le_of_eq hlength.symm

/-- Entities keep their types, and storage has what it had. -/
theorem stays (hx : x.index < g.entities.length) : (g'.entity x).schema = (g.entity x).schema ∧
    ((g.entity x).stored = true → (g'.entity x).stored = true) := by
  cases h with
  | made s =>
    rw [entity_append, if_neg (Nat.ne_of_lt hx)]
    exact ⟨rfl, id⟩
  | @embedded e name s hs hnew =>
    have hne : x ≠ ⟨g.entities.length⟩ := by
      rintro rfl
      exact Nat.lt_irrefl _ hx
    by_cases hxe : x = e
    · subst hxe
      rw [entity_withPart_self name s hx]
      exact ⟨rfl, id⟩
    · rw [entity_withPart_of_ne hne hxe]
      exact ⟨rfl, id⟩
  | loaded e hvalues =>
    rw [view_modifyEntity (v := (·.schema)) (by rw [loadAtomics_eq]),
      view_modifyEntity (v := (·.stored)) (by rw [loadAtomics_eq])]
    exact ⟨rfl, id⟩
  | marked hwf e =>
    rcases entity_foldl_modifyEntity (f := fun x : Entity => { x with stored := true })
      (fun _ => rfl) (g.parts e) g x with heq | ⟨-, heq⟩
    all_goals rw [markStored, modifyParts, heq]
    · exact ⟨rfl, id⟩
    · exact ⟨rfl, fun _ => rfl⟩
  | related hkey name target =>
    rw [view_modifyEntity (v := (·.schema)) (Entity.view_loadTarget fun _ _ => rfl),
      view_modifyEntity (v := (·.stored)) (Entity.view_loadTarget fun _ _ => rfl)]
    exact ⟨rfl, id⟩
  | gathered hlength hsame =>
    obtain ⟨toMany, listeners, heq, -⟩ := hsame x
    rw [heq]
    exact ⟨rfl, id⟩

end ReadStep

/-- A graph has come to a well-formed one by steps of reading. -/
structure Read (c : Catalog) (g g' : Graph) : Prop where
  steps : Relation.ReflTransGen (ReadStep c) g g'
  wellFormed : WellFormed c g'

namespace Read

theorem refl (h : WellFormed c g) : Read c g g :=
  ⟨.refl, h⟩

theorem trans (h : Read c g g') (h' : Read c g' g'') : Read c g g'' :=
  ⟨h.steps.trans h'.steps, h'.wellFormed⟩

/-- What each step keeps stays. -/
theorem keeps {J : Graph → Prop} (h : Read c g g') (hstep : ∀ {g g'}, ReadStep c g g' → J g → J g')
    (hg : J g) : J g' := by
  obtain ⟨hsteps, -⟩ := h
  induction hsteps with
  | refl => exact hg
  | tail _ hlast ih => exact hstep hlast ih

/-- No entity is lost, entities keep their types, and storage has what it had. -/
theorem stays (h : Read c g g') : g.entities.length ≤ g'.entities.length ∧
    ∀ x, x.index < g.entities.length → (g'.entity x).schema = (g.entity x).schema ∧
      ((g.entity x).stored = true → (g'.entity x).stored = true) := by
  refine h.keeps (J := fun g' => g.entities.length ≤ g'.entities.length ∧
    ∀ x, x.index < g.entities.length → (g'.entity x).schema = (g.entity x).schema ∧
      ((g.entity x).stored = true → (g'.entity x).stored = true))
    (fun {g₁ g₂} hstep ⟨hlength, hsame⟩ => ⟨hlength.trans hstep.length_le, fun x hx => ?_⟩)
    ⟨Nat.le_refl _, fun _ _ => ⟨rfl, id⟩⟩
  obtain ⟨hschema, hstored⟩ := hstep.stays (Nat.lt_of_lt_of_le hx hlength)
  exact ⟨hschema.trans (hsame x hx).1, fun h => hstored ((hsame x hx).2 h)⟩

/-- An entity with a primary key keeps it. -/
theorem keyed (h : Read c g g') (hx : (g.entity x).schema.primaryKey.isSome) :
    (g'.entity x).schema.primaryKey.isSome := by
  obtain ⟨key, hkey⟩ := Option.isSome_iff_exists.1 hx
  rw [(h.stays.2 x (index_lt_of_primaryKey hkey)).1]
  exact hx

/-- Work that keeps graphs well formed, and is at most one step. -/
theorem ends {α : Type} {act : GraphM α} (h : Read c g g') (hkept : WellFormed.Kept c act)
    (hact : act.Ends g' (fun _ g'' => g'' = g' ∨ ReadStep c g' g'')
      (fun _ g'' => g'' = g' ∨ ReadStep c g' g'')) :
    act.Ends g' (fun _ => Read c g) (fun _ => Read c g) := by
  have hread : ∀ {g''}, WellFormed c g'' → g'' = g' ∨ ReadStep c g' g'' → Read c g g'' := by
    rintro g'' hwf (rfl | hstep)
    · exact h
    · exact h.trans ⟨.single hstep, hwf⟩
  exact ((hkept g' h.wellFormed).and hact).mono (fun _ _ h => hread h.1 h.2)
    fun _ _ h => hread h.1 h.2

/-- An entity of a known schema is made. -/
theorem newEntity (h : Read c g g') (hs : c.Known s) :
    Read c g { g' with entities := g'.entities ++ [{ schema := s }] } :=
  h.trans ⟨.single (.made s), h.wellFormed.newEntity hs⟩

/-- The collection of a name is there or is made, if there can be one. -/
theorem ends_many (h : Read c g g') (hkey : (g'.entity e).schema.primaryKey.isSome) (name : String) :
    (Graph.many c e name).Ends g' (fun _ => Read c g) (fun _ => Read c g) := by
  refine h.ends (WellFormed.many name) ?_
  unfold Graph.many
  rw [Act.ends_bind, Act.ends_get, Act.ends_bind, Act.ends_ofExcept]
  refine ⟨fun comp hcomp => ?_, fun _ _ => .inl rfl⟩
  split
  · exact .inl rfl
  · simp only [Act.ends_bind, Act.ends_ofExcept]
    refine ⟨fun join _ => .inr (.gathered (length_modifyEntity _ _ _) fun x => ?_), fun _ _ => .inl trivial⟩
    rcases entity_modifyEntity_cases
      { g' with collections := g'.collections ++ [{ owner := e, component := comp, join }] } x e
      (fun x => { x with toMany := x.toMany.put comp.name ⟨g'.collections.length⟩ }) with hx | ⟨rfl, -, hx⟩
    · exact ⟨_, _, hx, .inl rfl⟩
    · exact ⟨_, _, hx, .inr hkey⟩

/-- A collection gets a member, unless it has it. -/
theorem ends_append (h : Read c g g') (i : CollectionId) (x : EntityId) :
    (Graph.append i x).Ends g' (fun _ => Read c g) (fun _ => Read c g) := by
  refine h.ends (WellFormed.append i x) ?_
  unfold Graph.append
  simp only [Act.ends_bind, Act.ends_get]
  split
  · simp only [Act.ends_ite, Act.ends_pure, Act.ends_bind, Act.ends_modify]
    exact ⟨fun _ => .inl trivial, fun _ => .inr (.gathered rfl fun y => ⟨_, _, rfl, .inl rfl⟩)⟩
  · simp only [Act.ends_ite, Act.ends_pure, Act.ends_bind, Act.ends_modify, addListener]
    refine ⟨fun _ => .inl trivial, fun _ => .inr (.gathered (length_modifyEntity _ _ _) fun y => ?_)⟩
    rcases entity_modifyEntity_cases (g'.modifyCollection i fun C => { C with members := C.members ++ [x] })
      y x (fun z => { z with listeners := z.listeners ++ [.collection i] }) with hy | ⟨-, -, hy⟩
    · exact ⟨_, _, hy, .inl rfl⟩
    · exact ⟨_, _, hy, .inl rfl⟩

/-- An embedded component is there or is made, and is of the type that is embedded. -/
theorem ends_embedded (h : Read c g g') (e : EntityId) (name : String) :
    (Graph.embedded e name).Ends g' (fun x g'' => Read c g g'' ∧ Read c g' g'' ∧
      (∀ s, (g'.entity e).schema.embedded? name = some s →
        x.index < g''.entities.length ∧ (g''.entity x).schema = s)) (fun _ => Read c g) := by
  cases hpart : (g'.entity e).embedded.get? name with
  | some part =>
    obtain ⟨hlt, hs⟩ := h.wellFormed.embedded e name part hpart
    unfold Graph.embedded
    simp only [Act.ends_bind, Act.ends_get, hpart, Act.ends_pure]
    exact ⟨h, .refl h.wellFormed, fun s hs' => ⟨hlt, Option.some.inj (hs.symm.trans hs')⟩⟩
  | none =>
    cases hs : (g'.entity e).schema.embedded? name with
    | none =>
      unfold Graph.embedded
      simp only [Act.ends_bind, Act.ends_get, hpart, hs, Act.ends_throw]
      exact h
    | some s =>
      have hkept := WellFormed.makeEmbedded (e := e) name g' h.wellFormed
      rw [Act.Ends, embedded_eq hs hpart] at hkept ⊢
      have hmade : Read c g' (g'.withPart e name s) := ⟨.single (.embedded hs hpart), hkept⟩
      refine ⟨h.trans hmade, hmade, fun s' hs' => ?_⟩
      obtain rfl := Option.some.inj hs'
      have hlt := index_lt_of_embedded? hs
      rw [length_withPart, entity_withPart_new name s hlt]
      exact ⟨Nat.lt_succ_self _, rfl⟩

/-- Embedded components at the end of a path are there or are made. -/
theorem ends_embeddedAt (h : Read c g g') (e : EntityId) (path : List String) :
    (Graph.embeddedAt e path).Ends g' (fun _ => Read c g) (fun _ => Read c g) := by
  induction path generalizing g' e with
  | nil => exact h
  | cons name path ih =>
    rw [embeddedAt, Act.ends_bind]
    exact (h.ends_embedded e name).mono (fun part _ h₁ => ih h₁.1 part) fun _ _ h => h

end Read

end Graph

open EntityGraph.Graph

variable {c : Catalog} {g g' : Graph} {e : EntityId} {n : PlanNode} {row : Row} {p : Plan}
  {m m₀ : Mapping} {current : List (Option EntityId)}

namespace Mapper

/-! ### The entities of a row -/

/-- Cells are read as values in the form of the kinds of their atomics. -/
theorem ends_cells_hold (n : PlanNode) (row : Row) (path : List String) (s : Schema) (g : Graph) :
    (s.atomics.mapM fun a => do
      return (a.name, ← Act.ofExcept (cell s a row (n.label path a.name)))).Ends g
      (fun values g' => g' = g ∧ ∀ p ∈ values, ∃ a ∈ s.atomics, a.name = p.1 ∧ a.kind.Holds p.2)
      (fun _ g' => g' = g) := by
  refine (Act.ends_mapM (R := fun g g' => g' = g) (E := fun _ g' => g' = g)
    (Q := fun (a : Atomic) (p : String × Value) _ => a ∈ s.atomics ∧ a.name = p.1 ∧ a.kind.Holds p.2)
    (fun _ => rfl) (fun _ _ _ h h' => h'.trans h) (fun _ _ _ _ _ h => h) fun a ha t ht => ?_).mono
    (fun values t ht => ⟨ht.1, fun p hp => ?_⟩) fun _ _ h => h
  · simp only [Act.ends_bind, Act.ends_ofExcept, Act.ends_pure]
    refine ⟨fun v hv => ⟨trivial, ha, trivial, ?_⟩, fun _ _ => ht⟩
    unfold cell Atomic.coerce at hv
    split at hv
    · next w hw => exact Except.ok.inj hv ▸ AtomicKind.coerce?_holds hw
    · cases hv
  · obtain ⟨i, hi, rfl⟩ := List.mem_iff_getElem.1 hp
    have hlt : i < s.atomics.length := ht.2.length_eq ▸ hi
    exact ⟨_, ht.2.get hlt hi⟩

/-- Embedded components are made and loaded one after the other. -/
theorem ends_loadEmbedded_read {s : Schema} {path : List String} {l : List (String × Schema)}
    (hl : ∀ q ∈ l, s.embedded? q.1 = some q.2 ∧ ∀ (path : List String) e g', Graph.Read c g g' →
      e.index < g'.entities.length → (g'.entity e).schema = q.2 →
        (loadPart n row path q.2 e).Ends g' (fun _ => Graph.Read c g') (fun _ => Graph.Read c g'))
    (h : Graph.Read c g g') (he : e.index < g'.entities.length) (hs : (g'.entity e).schema = s) :
    (loadEmbedded n row path l e).Ends g' (fun _ => Graph.Read c g) (fun _ => Graph.Read c g) := by
  induction l generalizing g' with
  | nil => exact h
  | cons q l ih =>
    obtain ⟨hfound, hload⟩ := hl q List.mem_cons_self
    rw [loadEmbedded]
    simp only [Act.ends_bind]
    refine (h.ends_embedded e q.1).mono (fun part g₁ h₁ => ?_) fun _ _ h => h
    obtain ⟨hread, hmade, hpart⟩ := h₁
    obtain ⟨hlt, hschema⟩ := hpart q.2 (hs ▸ hfound)
    refine (hload _ part g₁ hread hlt hschema).mono (fun _ g₂ h₂ => ?_) fun _ _ h => hread.trans h
    have hafter := hmade.trans h₂
    refine ih (fun q' hq' => hl q' (List.mem_cons_of_mem _ hq')) (h.trans hafter) ?_ ?_
    · exact Nat.lt_of_lt_of_le he hafter.stays.1
    · rw [(hafter.stays.2 e he).1, hs]

/-- An entity, or a component, is loaded as what it is. -/
theorem ends_loadPart_read (n : PlanNode) (row : Row) (path : List String) {s : Schema}
    (h : Graph.Read c g g') (he : e.index < g'.entities.length) (hs : (g'.entity e).schema = s) :
    (loadPart n row path s e).Ends g' (fun _ => Graph.Read c g) (fun _ => Graph.Read c g) := by
  induction s using Schema.induction generalizing path g g' e with
  | _ s ih =>
    rw [loadPart_eq, Act.ends_bind]
    refine (ends_cells_hold n row path s g').mono (fun values g₁ h₁ => ?_) fun _ _ heq => heq ▸ h
    obtain ⟨rfl, hvalues⟩ := h₁
    have hstep : Graph.ReadStep c g₁ (g₁.modifyEntity e fun x =>
        values.foldl (fun x p => x.loadAtomic p.1 p.2) x) := .loaded e (hs ▸ hvalues)
    have hwf := WellFormed.loadAtomics (e := e) values g₁ h.wellFormed
    rw [Graph.loadAtomics, Act.ends_modify] at hwf
    rw [Act.ends_bind, Graph.loadAtomics, Act.ends_modify]
    have hcoherent := (hs ▸ h.wellFormed.known e he : c.Known s).coherent
    refine ends_loadEmbedded_read (s := s) (fun q hq => ⟨hcoherent.embedded?_name hq,
      fun path e g' hg' he hs => ?_⟩) (h.trans ⟨.single hstep, hwf⟩) ?_ ?_
    · exact ih q hq path (.refl hg'.wellFormed) he hs
    · exact Nat.lt_of_lt_of_le he hstep.length_le
    · rw [(hstep.stays he).1, hs]

/-- The collections that a node asks for are opened. -/
theorem ends_openCollections_read (h : Graph.Read c g g')
    (hkey : (g'.entity e).schema.primaryKey.isSome) (n : PlanNode) :
    (openCollections c n e).Ends g' (fun _ => Graph.Read c g) (fun _ => Graph.Read c g) := by
  refine (Act.ends_forM (I := Graph.Read c g') (fun name _ g'' h' => ?_) (.refl h.wellFormed)).mono
    (fun _ _ h' => h.trans h') fun _ _ h' => h.trans h'
  simp only [Act.ends_bind, Act.ends_pure]
  exact h'.ends_many (h'.keyed hkey) name

end Mapper

/-- A mapper has read on. The graph has come to another one by steps of reading, what the mapper knows has
a primary key, and what it has come to know is stored. -/
structure Mapping.Reads (c : Catalog) (m m' : Mapping) : Prop where
  graph : Graph.Read c m.graph m'.graph
  keyed : ∀ who x, m'.mapper.identity.get? who = some x →
    (m'.graph.entity x).schema.primaryKey.isSome
  stored : ∀ who x, m'.mapper.identity.get? who = some x →
    m.mapper.identity.get? who = some x ∨ (m'.graph.entity x).stored = true
  plan : m'.mapper.plan = m.mapper.plan

namespace Mapping.Reads

theorem refl (h : WellFormed c m.graph) (hknows : m.graph.Knows c m.mapper.identity) : Reads c m m := by
  refine ⟨.refl h, fun who x hx => ?_, fun _ _ hx => .inl hx, rfl⟩
  obtain ⟨key, hkey, -⟩ := Catalog.key_of_schema (hknows who x hx).2
  rw [hkey]
  rfl

/-- Work on the graph is part of reading. -/
theorem onGraph (h : Reads c m₀ m) (hg : Graph.Read c m.graph g) :
    Reads c m₀ { m with graph := g } := by
  refine ⟨h.graph.trans hg, fun who x hx => hg.keyed (h.keyed who x hx),
    fun who x hx => (h.stored who x hx).imp_right fun hstored => ?_, h.plan⟩
  have hlt : x.index < m.graph.entities.length := by
    refine index_lt_of_ne (v := (·.stored)) ?_
    rw [hstored]
    exact Bool.noConfusion
  exact (hg.stays.2 x hlt).2 hstored

/-- Work on the graph that takes steps of reading is part of reading. -/
theorem ends_onGraph (h : Reads c m₀ m) {α : Type} {act : GraphM α}
    (hact : act.Ends m.graph (fun _ => Graph.Read c m.graph) (fun _ => Graph.Read c m.graph)) :
    (Mapper.onGraph act).Ends m (fun _ => Reads c m₀) (fun _ => Reads c m₀) := by
  rw [Mapper.onGraph, Act.ends_onPart]
  exact hact.mono (fun _ _ hg => h.onGraph hg) fun _ _ hg => h.onGraph hg

end Mapping.Reads

namespace Mapper

/-- A new entity is made, loaded and stored where a row shows one that is not known. -/
theorem ends_appear_read (hs : c.schema n.schema.name = .ok n.schema) (h : WellFormed c g) :
    Act.Ends (do
      let e ← Graph.newEntity n.schema
      loadPart n row [] n.schema e
      modify (·.markStored e)
      openCollections c n e
      return e) g (fun e g' => Graph.Read c g g' ∧ (g'.entity e).schema.primaryKey.isSome ∧
        (g'.entity e).stored = true) (fun _ => Graph.Read c g) := by
  obtain ⟨key, hkey, -⟩ := Catalog.key_of_schema hs
  have hmade := (Read.refl h).newEntity (s := n.schema) ⟨_, _, hs, .refl _⟩
  have hunread := Unread.newEntity g n.schema
  rw [Act.ends_bind, Act.Ends, newEntity_eq]
  show Act.Ends _ ({ g with entities := g.entities ++ [{ schema := n.schema }] } : Graph) _ _
  generalize ({ g with entities := g.entities ++ [{ schema := n.schema }] } : Graph) = g₁ at *
  generalize (⟨g.entities.length⟩ : EntityId) = e at *
  rw [Act.ends_bind]
  refine (ends_loadPart_read n row [] (.refl hmade.wellFormed) hunread.lt hunread.schema).mono
    (fun _ g₂ h₂ => ?_) fun _ _ hg => hmade.trans hg
  have hlt : e.index < g₂.entities.length := Nat.lt_of_lt_of_le hunread.lt h₂.stays.1
  have hstored : ((g₂.markStored e).entity e).stored = true := by
    rw [markStored, modifyParts,
      entity_foldl_modifyEntity_of_mem (f := fun x : Entity => { x with stored := true })
        (fun _ => rfl) (mem_parts_self g₂ e) hlt]
  have hmarked : Graph.Read c g₂ (g₂.markStored e) :=
    ⟨.single (.marked h₂.wellFormed e), h₂.wellFormed.markStored e⟩
  have hread := (hmade.trans h₂).trans hmarked
  have hkeyed : ((g₂.markStored e).entity e).schema.primaryKey.isSome :=
    (h₂.trans hmarked).keyed (by rw [hunread.schema, hkey]; rfl)
  rw [Act.ends_bind, Act.ends_modify, Act.ends_bind]
  refine (ends_openCollections_read (.refl hmarked.wellFormed) hkeyed n).mono (fun _ g₃ h₃ => ?_)
    fun _ _ hg => hread.trans hg
  rw [Act.ends_pure]
  exact ⟨hread.trans h₃, h₃.keyed hkeyed, (h₃.stays.2 e (Nat.lt_of_lt_of_le hlt hmarked.stays.1)).2 hstored⟩

/-- The entities that nodes have have primary keys. -/
def AllKeyed (g : Graph) (current : List (Option EntityId)) : Prop :=
  ∀ o ∈ current, ∀ x ∈ o, (g.entity x).schema.primaryKey.isSome

/-- The entity of a node is one that has a primary key. -/
theorem AllKeyed.entityOf (h : AllKeyed g current) {i : Nat} (he : entityOf current i = some e) :
    (g.entity e).schema.primaryKey.isSome := by
  obtain ⟨o, ho, hid⟩ := Option.bind_eq_some_iff.1 he
  exact h o (List.mem_of_getElem? ho) e hid

/-- Entities keep their primary keys. -/
theorem AllKeyed.read (h : AllKeyed g current) (hg : Graph.Read c g g') : AllKeyed g' current :=
  fun o ho x hx => hg.keyed (h o ho x hx)

/-- The entity of a node is known, or is made. -/
theorem ends_entityAt_reads (hs : c.schema n.schema.name = .ok n.schema) (h : Mapping.Reads c m₀ m) :
    (entityAt c n row).Ends m (fun o m' => Mapping.Reads c m₀ m' ∧ Graph.Read c m.graph m'.graph ∧
      AllKeyed m'.graph [o]) (fun _ => Mapping.Reads c m₀) := by
  unfold entityAt
  simp only [Act.ends_bind]
  rw [Act.ends_ofExcept]
  refine ⟨fun a _ => ?_, fun _ _ => h⟩
  rw [Act.ends_ofExcept]
  refine ⟨fun v _ => ?_, fun _ _ => h⟩
  rw [Act.ends_ite]
  have hsingle : ∀ {g : Graph} {x : EntityId}, (g.entity x).schema.primaryKey.isSome →
      AllKeyed g [some x] := fun hx o ho y hy => by
    obtain rfl := List.mem_singleton.1 ho
    obtain rfl := Option.some.inj hy
    exact hx
  refine ⟨fun _ => ⟨h, .refl h.graph.wellFormed, fun o ho y hy => ?_⟩, fun _ => ?_⟩
  · rw [List.mem_singleton.1 ho] at hy
    cases hy
  simp only [Act.ends_bind, Act.ends_get]
  split
  · next x hx =>
    have hkey := h.keyed _ x hx
    rw [Act.ends_bind, onGraph, Act.ends_onPart]
    refine (ends_openCollections_read (.refl h.graph.wellFormed) hkey n).mono (fun _ g hg => ?_)
      fun _ _ hg => h.onGraph hg
    rw [Act.ends_pure]
    exact ⟨h.onGraph hg, hg, hsingle (hg.keyed hkey)⟩
  · rw [Act.ends_bind, onGraph, Act.ends_onPart]
    refine (ends_appear_read hs h.graph.wellFormed).mono (fun x g hg => ?_) fun _ _ hg => h.onGraph hg
    obtain ⟨hg, hkey, hstored⟩ := hg
    have hread := h.onGraph hg
    simp only [Act.ends_bind, Act.ends_modify, Act.ends_pure]
    refine ⟨⟨hread.graph, fun who y hy => ?_, fun who y hy => ?_, hread.plan⟩, hg, hsingle hkey⟩
    · rcases Assoc.get?_put_cases hy with ⟨rfl, rfl⟩ | hold
      · exact hkey
      · exact hread.keyed who y hold.2
    · rcases Assoc.get?_put_cases hy with ⟨rfl, rfl⟩ | hold
      · exact .inr hstored
      · exact hread.stored who y hold.2

/-- The entities of a row are known, or are made. -/
theorem ends_entitiesAt_reads {nodes : List PlanNode}
    (hs : ∀ n ∈ nodes, c.schema n.schema.name = .ok n.schema) (h : Mapping.Reads c m₀ m)
    (hcurrent : AllKeyed m.graph current) :
    (entitiesAt c row nodes current).Ends m
      (fun current' m' => Mapping.Reads c m₀ m' ∧ AllKeyed m'.graph current') (fun _ => Mapping.Reads c m₀) := by
  induction nodes generalizing current m with
  | nil => exact ⟨h, hcurrent⟩
  | cons n nodes ih =>
    have hrest : ∀ {o m'}, Mapping.Reads c m₀ m' → Graph.Read c m.graph m'.graph → AllKeyed m'.graph [o] →
        (entitiesAt c row nodes (current ++ [o])).Ends m'
          (fun current' m' => Mapping.Reads c m₀ m' ∧ AllKeyed m'.graph current') (fun _ => Mapping.Reads c m₀) :=
      fun h' hread ho => ih (fun n hn => hs n (List.mem_cons_of_mem _ hn)) h'
        (List.forall_mem_append.2 ⟨hcurrent.read hread, ho⟩)
    rw [entitiesAt, Act.ends_ite]
    refine ⟨fun _ => ?_, fun _ => hrest h (.refl h.graph.wellFormed) fun o ho y hy => ?_⟩
    · rw [Act.ends_bind]
      exact (ends_entityAt_reads (hs n List.mem_cons_self) h).mono
        (fun _ _ h' => hrest h'.1 h'.2.1 h'.2.2) fun _ _ h => h
    · rw [List.mem_singleton.1 ho] at hy
      cases hy

/-! ### Rows -/

/-- The entities of a row are connected. -/
theorem ends_connect_read (h : Graph.Read c g g') (hcurrent : AllKeyed g' current) (n : PlanNode)
    (e : Option EntityId) :
    (connect c current n e).Ends g' (fun _ => Graph.Read c g) (fun _ => Graph.Read c g) := by
  unfold connect
  split
  · exact h
  · next parent comp hparent =>
    split
    · next owner _ howner =>
      have hkey := hcurrent.entityOf howner
      split
      · rw [Act.ends_bind]
        refine (h.ends_many hkey comp.name).mono (fun id g₁ h₁ => ?_) fun _ _ h => h
        cases e with
        | none => exact h₁
        | some x =>
          simp only [Act.ends_bind, Act.ends_pure]
          exact h₁.ends_append id x
      · have hwf := WellFormed.loadOne (e := owner) comp.name e g' h.wellFormed
        rw [loadOne_eq, Act.ends_modify] at hwf ⊢
        exact h.trans ⟨.single (.related hkey comp.name e), hwf⟩
    · exact h

/-- What an output stands for is there or is made. -/
theorem ends_itemAt_read (h : Graph.Read c g g') (hcurrent : AllKeyed g' current) (row : Row)
    (o : Output) :
    (itemAt c current row o).Ends g' (fun _ => Graph.Read c g) (fun _ => Graph.Read c g) := by
  cases o with
  | entity _ i => exact h
  | raw _ label => exact h
  | collection _ i name =>
    rw [itemAt]
    cases howner : entityOf current i with
    | none => exact h
    | some owner =>
      simp only [Act.ends_bind, Act.ends_pure]
      exact h.ends_many (hcurrent.entityOf howner) name
  | embedded _ i path =>
    rw [itemAt]
    cases entityOf current i with
    | none => exact h
    | some owner =>
      simp only [Act.ends_bind, Act.ends_pure]
      exact h.ends_embeddedAt owner path
  | scalar _ i path atomic =>
    rw [itemAt]
    cases entityOf current i with
    | none => exact h
    | some owner =>
      simp only [Act.ends_bind, Act.ends_get, Act.ends_pure]
      refine (h.ends_embeddedAt owner path).mono (fun x g₁ h₁ => ?_) fun _ _ h => h
      rw [Act.ends_ofExcept]
      exact ⟨fun _ _ => h₁, fun _ _ => h₁⟩

/-- A row is read by steps of reading, whatever comes of it. -/
theorem ends_mapRow_reads (hp : m.mapper.plan.Sound c) (h : Mapping.Reads c m₀ m) (row : Row) :
    (mapRow c row).Ends m (fun _ => Mapping.Reads c m₀) (fun _ => Mapping.Reads c m₀) := by
  unfold mapRow
  rw [Act.ends_bind, Act.ends_get, Act.ends_bind]
  have hnone : AllKeyed m.graph [] := fun _ ho => absurd ho List.not_mem_nil
  refine (ends_entitiesAt_reads hp.schema h hnone).mono (fun current m₁ h₁ => ?_) fun _ _ h => h
  obtain ⟨h₁, hcurrent⟩ := h₁
  rw [Act.ends_bind, onGraph, Act.ends_onPart]
  refine (Act.ends_forM (I := Graph.Read c m₁.graph) (fun q _ g hg => ?_) (.refl h₁.graph.wellFormed)).mono
    (fun _ g₂ hg₂ => ?_) fun _ _ hg => h₁.onGraph hg
  · exact ends_connect_read hg (hcurrent.read hg) q.1 q.2
  · have h₂ := h₁.onGraph hg₂
    simp only [Act.ends_bind, Act.ends_get, Act.ends_set]
    rw [Act.ends_ite]
    have hread : ∀ roots, Mapping.Reads c m₀ ⟨{ m₁.mapper with lastRoots := roots }, g₂⟩ :=
      fun _ => ⟨h₂.graph, h₂.keyed, h₂.stored, h₂.plan⟩
    refine ⟨fun _ => ?_, fun _ => hread _⟩
    rw [Act.ends_bind]
    refine ((hread _).ends_onGraph ?_).mono (fun _ _ h => h) fun _ _ h => h
    rw [Act.ends_mapM_iff]
    refine Act.ends_forM (fun o _ g hg => ?_) (.refl h₂.graph.wellFormed)
    simp only [Act.ends_bind, Act.ends_pure]
    exact ends_itemAt_read hg ((hcurrent.read hg₂).read hg) row o

/-- Rows are read by steps of reading, whatever comes of it. -/
theorem ends_mapRows_reads (hp : m₀.mapper.plan.Sound c) (h : Mapping.Reads c m₀ m) (rows : List Row) :
    (mapRows c rows).Ends m (fun _ => Mapping.Reads c m₀) (fun _ => Mapping.Reads c m₀) := by
  induction rows generalizing m with
  | nil => exact h
  | cons row rows ih =>
    rw [mapRows]
    simp only [Act.ends_bind, Act.ends_pure]
    exact (ends_mapRow_reads (h.plan ▸ hp) h row).mono (fun _ _ h => ih h) fun _ _ h => h

end Mapper

end EntityGraph
