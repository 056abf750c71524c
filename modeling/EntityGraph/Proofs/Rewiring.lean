import EntityGraph.Proofs.Detaching

/-!
# Foreign keys and the atomics that are none

Relations write foreign keys: assigning one, adding and removing members, and releasing what refers to
deleted rows do, and so does a key that reaches what waits for it. Which atomics of a type are foreign
keys, the catalog says. Any other atomic keeps its value while foreign keys are written.

* `Catalog.Refers` — an atomic is the foreign key of some relation;
* `Catalog.OwnsKey` — the primary key of a type is none, so that no relation writes it;
* `Catalog.ownsKey_of_joinColumns` — it is none if it is not named like a join column;
* `Graph.Rewired` — at most foreign keys have changed;
* `Graph.Rewired.key?` — a key that is no foreign key stays.
-/

namespace EntityGraph

namespace Catalog

variable (c : Catalog)

/-- The relation of a name leads from one type to another. -/
def Leads (s : Schema) (name : String) (t : Schema) : Prop :=
  ∃ comp, s.component? name = some comp ∧ c.schema comp.target = .ok t

/-- A deletion may take an entity of the second type for one of the first: the types are the same, or
the entity was found by the name of a relation that another relation of the type has, too. -/
inductive TakenFor : Schema → Schema → Prop
  | self (s : Schema) : TakenFor s s
  | next {s s' t t' : Schema} {comp : Component} : TakenFor s s' → comp ∈ s.components →
      c.schema comp.target = .ok t → c.Leads s' comp.name t' → TakenFor t t'

/-- An atomic of a type is the foreign key of a relation that the type has or is the target of. -/
def Refers (t : Schema) (f : String) : Prop :=
  ∃ s comp join, c.Known s ∧ comp ∈ s.components ∧ c.join s comp = .ok join ∧ join.foreignKey = f ∧
    (join.side = .here ∧ s = t ∨
      (join.side = .there ∨ comp.isToMany = true) ∧ ∃ s', c.TakenFor s s' ∧ c.Leads s' comp.name t)

/-- The primary key of a type is not the foreign key of a relation. -/
def OwnsKey (s : Schema) : Prop :=
  ∀ key, s.primaryKey = some key → ¬c.Refers s key.name

/-! ### Keys that no relation writes -/

/-- The atomics that relations are declared to hold foreign keys in. -/
def joinColumns : List String :=
  c.definitions.flatMap fun d => d.steps.filterMap fun step =>
    match step with
    | .component comp => comp.joinColumn
    | _ => none

variable {c} {s t : Schema} {comp : Component}

/-- A relation of a known schema is declared. -/
theorem declared_of_known (h : c.Known s) (hcomp : comp ∈ s.components) :
    ∃ d ∈ c.definitions, .component comp ∈ d.steps := by
  have hsteps : ∀ {d : Definition} {name : String} (draft : Draft), c.definition? name = some d →
      draft.components = [] → comp ∈ (draft.setUp d.steps).components →
        ∃ d ∈ c.definitions, .component comp ∈ d.steps := by
    intro d name draft hd hnil hmem
    rcases Draft.components_setUp _ _ hmem with hmem | hmem
    · rw [hnil] at hmem
      cases hmem
    · exact ⟨d, List.mem_of_find?_eq_some hd, hmem⟩
  rcases h.cases with hs | ⟨table, hs⟩
  · obtain ⟨d, hd, ⟨parts, hfinish⟩, -⟩ := builtAs_of_schema hs
    obtain ⟨-, -, -, -, rfl⟩ := Draft.finish_eq_ok_iff.1 hfinish
    exact hsteps _ (Option.filter_eq_some_iff.1 hd).1 rfl hcomp
  · obtain ⟨d, hd, hcomponents⟩ := hs.type
    rw [hcomponents] at hcomp
    exact hsteps (Draft.embeddableIn d.name table) (Option.filter_eq_some_iff.1 hd).1 rfl hcomp

/-- An owning relation has its foreign key in the join column. -/
theorem joinColumn_of_owning {join : Join} (h : Join.owning s comp t = .ok join) :
    comp.joinColumn = some join.foreignKey := by
  unfold Join.owning at h
  split at h
  · cases h
  · next column hcolumn =>
    rw [hcolumn]
    have hhere : ∀ name, (do
        let _ ← t.atomic name
        return ⟨.here, column, name⟩) = Except.ok join → column = join.foreignKey := by
      intro name hname
      obtain ⟨_, -, hname⟩ := bind_eq_ok_iff.1 hname
      exact Except.ok.inj hname ▸ rfl
    congr 1
    -- whatever is referred to, the join column is what refers to it
    split at h
    · split at h
      · cases h
      · cases hreferenced : comp.referenced with
        | some name =>
          simp only [hreferenced] at h
          exact Except.ok.inj h ▸ rfl
        | none =>
          simp only [hreferenced] at h
          obtain ⟨_, -, h⟩ := bind_eq_ok_iff.1 h
          exact Except.ok.inj h ▸ rfl
    · cases hreferenced : comp.referenced with
      | some name =>
        simp only [hreferenced] at h
        exact hhere name h
      | none =>
        simp only [hreferenced] at h
        obtain ⟨key, -, h⟩ := bind_eq_ok_iff.1 h
        exact hhere key.name h

/-- An inverse side that is resolved names a relation of the target that owns the foreign key and leads
back. Seen from there, the join is the other way round. -/
theorem resolve_of_mappedBy {join : Join} {name : String} (hinverse : comp.mappedBy = some name)
    (h : Join.resolve s comp t = .ok join) : ∃ owning, t.component? name = some owning ∧
      owning.mappedBy = none ∧ owning.target = s.name ∧ Join.owning t owning s = .ok join.flipped := by
  unfold Join.resolve at h
  simp only [hinverse] at h
  split at h
  · cases h
  next owning howning =>
  split at h
  · cases h
  next hnot =>
  split at h
  · cases h
  next htarget =>
  cases hresolved : Join.owning t owning s with
  | error e =>
    rw [hresolved] at h
    cases h
  | ok join' =>
    rw [hresolved] at h
    obtain rfl := Except.ok.inj h
    exact ⟨owning, howning, by simpa [Component.isInverse] using hnot, not_not.1 htarget,
      by rw [Join.flipped_flipped, hresolved]⟩

/-- A relation that is resolved owns its foreign key, or names the relation of its target that does. -/
theorem join_cases {join : Join} (h : c.join s comp = .ok join) :
    ∃ t, c.schema comp.target = .ok t ∧
      (comp.mappedBy = none ∧ Join.owning s comp t = .ok join ∨
        ∃ name owning join', comp.mappedBy = some name ∧ t.component? name = some owning ∧
          owning.mappedBy = none ∧ Join.owning t owning s = .ok join' ∧ join = join'.flipped) := by
  obtain ⟨t, ht, h⟩ := bind_eq_ok_iff.1 h
  refine ⟨t, ht, ?_⟩
  cases hmapped : comp.mappedBy with
  | none =>
    simp only [Join.resolve, hmapped] at h
    exact .inl ⟨rfl, h⟩
  | some name =>
    obtain ⟨owning, hfound, howns, -, howning⟩ := resolve_of_mappedBy hmapped h
    exact .inr ⟨name, owning, join.flipped, rfl, hfound, howns, howning, join.flipped_flipped.symm⟩

/-- A foreign key is the join column of a relation that is declared. -/
theorem Refers.mem_joinColumns {f : String} (h : c.Refers t f) : f ∈ c.joinColumns := by
  obtain ⟨s, comp, join, hs, hcomp, hjoin, rfl, -⟩ := h
  have hdeclared : ∀ {s comp f}, c.Known s → comp ∈ s.components → comp.joinColumn = some f →
      f ∈ c.joinColumns := by
    intro s comp f hs hcomp hcolumn
    obtain ⟨d, hd, hstep⟩ := declared_of_known hs hcomp
    exact List.mem_flatMap.2 ⟨d, hd, List.mem_filterMap.2 ⟨_, hstep, hcolumn⟩⟩
  obtain ⟨target, htarget, ⟨-, howning⟩ | ⟨_, owning, join', -, hfound, -, howning, rfl⟩⟩ :=
    join_cases hjoin
  · exact hdeclared hs hcomp (joinColumn_of_owning howning)
  · -- an inverse side has the foreign key of the relation that it names
    have hcolumn := joinColumn_of_owning howning
    exact hdeclared ⟨_, target, htarget, .refl target⟩ (List.mem_of_find?_eq_some hfound) hcolumn

/-- A type whose key is not named like a join column has a key that no relation writes. -/
theorem ownsKey_of_joinColumns (h : ∀ name ∈ s.keyName?, name ∉ c.joinColumns) : c.OwnsKey s :=
  fun key hkey hrefers => h key.name (by simp [Schema.keyName?, hkey]) hrefers.mem_joinColumns

end Catalog

namespace Graph

variable {c : Catalog} {g g' g'' : Graph} {e x : EntityId} {f name : String}

/-- At most foreign keys have changed, and there may be more listeners. -/
structure Rewired (c : Catalog) (g g' : Graph) : Prop where
  shape : g.SameShape g'
  collections : g'.collections = g.collections
  stored : ∀ x, (g'.entity x).stored = (g.entity x).stored
  listeners : ∀ x, (g.entity x).listeners ⊆ (g'.entity x).listeners
  spared : ∀ x f, ¬c.Refers (g.entity x).schema f → Spared x f g g'

/-- Collections that are the same are found the same. -/
theorem collection_congr (h : g'.collections = g.collections) (i : CollectionId) :
    g'.collection i = g.collection i := by
  rw [collection, h, ← collection]

/-- Values that are spared make the same key. -/
theorem key?_of_spared (hschema : (g'.entity x).schema = (g.entity x).schema)
    (hspared : ∀ key, (g.entity x).schema.primaryKey = some key → Spared x key.name g g') :
    g'.key? x = g.key? x := by
  cases hkey : (g.entity x).schema.primaryKey with
  | none => simp [Graph.key?, Entity.key?, Schema.keyName?, hschema, hkey]
  | some key => rw [key?_eq hkey, key?_eq (hschema ▸ hkey), (hspared key hkey).slot]

namespace Rewired

theorem refl (c : Catalog) (g : Graph) : Rewired c g g :=
  ⟨.refl g, rfl, fun _ => rfl, fun _ => List.Subset.refl _, fun x f _ => .refl x f g⟩

theorem trans (h : Rewired c g g') (h' : Rewired c g' g'') : Rewired c g g'' where
  shape := h.shape.trans h'.shape
  collections := h'.collections.trans h.collections
  stored x := (h'.stored x).trans (h.stored x)
  listeners x := List.Subset.trans (h.listeners x) (h'.listeners x)
  spared x f hf := (h.spared x f hf).trans (h'.spared x f (h.shape.schema x ▸ hf))

/-- A key that is not a foreign key stays. -/
theorem key? (h : Rewired c g g') (hown : c.OwnsKey (g.entity x).schema) : g'.key? x = g.key? x :=
  key?_of_spared (h.shape.schema x) fun key hkey => h.spared x key.name (hown key hkey)

/-- A change of an entity that keeps its relations, its mark and its listeners. -/
theorem modifyEntity (g : Graph) (e : EntityId) {u : Entity → Entity}
    (hu : ∀ x : Entity, (u x).schema = x.schema ∧ (u x).embedded = x.embedded ∧
      (u x).toOne = x.toOne ∧ (u x).toMany = x.toMany ∧ (u x).stored = x.stored ∧
      x.listeners ⊆ (u x).listeners)
    (hspared : ∀ f, ¬c.Refers (g.entity e).schema f → Spared e f g (g.modifyEntity e u)) :
    Rewired c g (g.modifyEntity e u) where
  shape := .modifyEntity g e fun x => by
    obtain ⟨hschema, hembedded, htoOne, htoMany, -⟩ := hu x
    exact ⟨hschema, hembedded, htoMany, fun _ => by rw [htoOne]⟩
  collections := rfl
  stored _ := view_modifyEntity (v := (·.stored)) (hu _).2.2.2.2.1
  listeners x := by
    rcases entity_modifyEntity_cases g x e u with hx | ⟨-, -, hx⟩ <;> rw [hx]
    · exact List.Subset.refl _
    · exact (hu _).2.2.2.2.2
  spared x f hf := by
    by_cases hx : x = e
    · subst hx
      exact hspared f hf
    · exact .modifyEntity g e (fun h => absurd h hx) fun h => absurd h hx

/-- A foreign key takes a value. -/
theorem receive (hrefers : c.Refers (g.entity e).schema name) (v : Value) :
    Rewired c g (g.modifyEntity e (·.receive name v)) := by
  have hne : ∀ f, ¬c.Refers (g.entity e).schema f → ¬(e = e ∧ name = f) := by
    rintro f hf ⟨-, rfl⟩
    exact hf hrefers
  refine modifyEntity g e (fun x => ?_) fun f hf => .receive (hne f hf) g v
  obtain ⟨hschema, hembedded, hlisteners, htoOne, htoMany, hstored⟩ := receive_frame x name v
  exact ⟨hschema, hembedded, htoOne, htoMany, hstored, hlisteners ▸ List.Subset.refl _⟩

/-- A foreign key that storage has nulled is nulled. -/
theorem cleared (hrefers : c.Refers (g.entity e).schema name) : Rewired c g (g.cleared e name) := by
  refine modifyEntity g e (fun _ => ⟨rfl, rfl, rfl, rfl, rfl, List.Subset.refl _⟩) fun f hf => ?_
  have hne : ¬(e = e ∧ name = f) := by
    rintro ⟨-, rfl⟩
    exact hf hrefers
  exact .cleared hne g

end Rewired

/-- Writing a foreign key changes nothing else, whether it succeeds or fails. -/
theorem ends_writeForeignKey_rewired (hrefers : c.Refers (g.entity e).schema name) (v : Value) :
    (writeForeignKey e name v).Ends g (fun _ => Rewired c g) (fun _ => Rewired c g) :=
  ends_writeForeignKey (fun _ w _ _ => .receive hrefers w) fun _ => .refl c g

/-- Linking a foreign key changes nothing else, apart from a listener. -/
theorem ends_link_rewired (hrefers : c.Refers (g.entity e).schema name) (source : EntityId)
    (referenced : String) :
    (link e name source referenced).Ends g (fun _ => Rewired c g) (fun _ => Rewired c g) := by
  unfold link
  simp only [Act.ends_bind, Act.ends_get, Act.ends_ofExcept, Act.ends_ite, Act.ends_throw,
    Act.ends_modify, addListener]
  refine ⟨fun v _ => ⟨fun _ => ends_writeForeignKey_rewired hrefers v,
    fun _ => ⟨fun _ => .refl c g, fun _ => ?_⟩⟩, fun _ _ => .refl c g⟩
  have hwaits : Rewired c g (g.modifyEntity e fun x =>
      { x with pending := x.pending.put name source }) := by
    refine .modifyEntity g e (fun _ => ⟨rfl, rfl, rfl, rfl, rfl, List.Subset.refl _⟩) fun f hf => ?_
    exact .modifyEntity g e (fun _ _ => rfl) fun _ _ =>
      Assoc.get?_put_of_ne _ _ fun heq => hf (heq ▸ hrefers)
  refine hwaits.trans (.modifyEntity _ source (fun x => ⟨rfl, rfl, rfl, rfl, rfl, ?_⟩) fun f _ => ?_)
  · exact List.subset_append_left _ _
  · exact .modifyEntity _ source (fun _ _ => rfl) fun _ _ => rfl

/-- A to-one relation writes foreign keys only: its own, or those of the targets before and after. -/
theorem ends_relink_rewired {join : Join} (before target : Option EntityId)
    (hhere : join.side = .here → c.Refers (g.entity e).schema join.foreignKey)
    (hthere : join.side = .there → ∀ t, before = some t ∨ target = some t →
      c.Refers (g.entity t).schema join.foreignKey) :
    (relink e join before target).Ends g (fun _ => Rewired c g) (fun _ => Rewired c g) := by
  unfold relink
  cases hside : join.side with
  | here =>
    cases target with
    | none => exact ends_writeForeignKey_rewired (hhere hside) .null
    | some t => exact ends_link_rewired (hhere hside) t _
  | there =>
    have hlink : ∀ g₁, Rewired c g g₁ → ∀ t, target = some t →
        (link t join.foreignKey e join.referenced).Ends g₁ (fun _ => Rewired c g)
          (fun _ => Rewired c g) := by
      intro g₁ h₁ t ht
      have hrefers := hthere hside t (.inr ht)
      rw [← h₁.shape.schema] at hrefers
      exact (ends_link_rewired hrefers e _).mono (fun _ _ h => h₁.trans h) fun _ _ h => h₁.trans h
    cases before with
    | none =>
      cases target with
      | none => exact .refl c g
      | some t => exact hlink g (.refl c g) t rfl
    | some b =>
      simp only [Act.ends_bind, Act.ends_ite]
      refine ⟨fun _ => (ends_writeForeignKey_rewired (hthere hside b (.inl rfl)) .null).mono
        (fun _ g₁ h₁ => ?_) fun _ _ h => h, fun heq => ?_⟩
      · cases target with
        | none => exact h₁
        | some t => exact hlink g₁ h₁ t rfl
      · obtain rfl := not_not.1 heq
        exact hlink g (.refl c g) b rfl

/-- Releasing members clears foreign keys only. -/
theorem ends_releaseMembers_rewired {i : CollectionId}
    (hrefers : ∀ m ∈ (g.collection i).members,
      c.Refers (g.entity m).schema (g.collection i).join.foreignKey) :
    (releaseMembers i).Ends g (fun _ => Rewired c g) (fun _ => Rewired c g) := by
  unfold releaseMembers
  simp only [Act.ends_bind, Act.ends_get]
  refine Act.ends_forM (fun m hm g₁ h₁ => ?_) (.refl c g)
  refine h₁.trans (.cleared ?_)
  rw [h₁.shape.schema]
  exact hrefers m hm

end Graph

end EntityGraph
