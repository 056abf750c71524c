import EntityGraph.Proofs.Persistent
import EntityGraph.Proofs.Walk
import Mathlib.Tactic.IntervalCases

/-!
# Cascading saves of new entities

A save that leads to new entities only follows a tour of the graph in which it starts: it inserts an
entity where the tour passes it, if the entity comes after all that it waits for, and fails there
otherwise. So it succeeds iff all entities come in order.

* `Graph.arrives_assignGeneratedKey` — a key that the database makes comes to all foreign keys that wait
  for it;
* `Graph.Insertable` — what a save of new entities needs, apart from their order;
* `Save.Follows` — how far a save has come, measured by a tour;
* `Save.Passing.pass` — inserting an entity is one step of the tour;
* `Save.tracks_saveFrom` — a save follows the tour to its end, by induction on the depth;
* `Session.save_succeeds_iff_inOrder` — when a save succeeds.
-/

namespace EntityGraph

namespace Graph

variable {c : Catalog} {g g' : Graph} {e : EntityId}

/-! ### Arrival of a key -/

/-- Every foreign key that waits for an entity can take a value. -/
def Takes (g : Graph) (e : EntityId) (w : Value) : Prop :=
  ∀ x name, (g.entity x).pending.get? name = some e →
    ∃ a u, (g.entity x).schema.atomic? name = some a ∧ a.coerce (g.entity x).schema.name w = .ok u

/-- The key that an entity has taken over can be read. -/
theorem Announced.value {key : Atomic} {w : Value} (h : Announced e key.name w g g')
    (hwf : g.WellFormed c) (hkey : (g.entity e).schema.primaryKey = some key) :
    g'.value e key.name = .ok w := by
  have hmem := Catalog.mem_of_primaryKey (hwf.schema_of_primaryKey hkey) hkey
  have hfound := (hwf.known e (index_lt_of_primaryKey hkey)).coherent.atomic?_name hmem
  unfold Graph.value Entity.atomic
  simp only [h.shape.schema e, hfound]
  show Except.ok ((g'.entity e).atomicValue key.name) = _
  rw [h.atomicValue]

/-- Where a foreign key does not wait for an entity, it does not when another one takes a value. -/
theorem pending_receive_ne {x holder : EntityId} {name other : String} {v : Value}
    (h : (g.entity x).pending.get? name ≠ some e) :
    ((g.modifyEntity holder (·.receive other v)).entity x).pending.get? name ≠ some e := by
  rcases entity_modifyEntity_cases g x holder (·.receive other v) with hx | ⟨rfl, -, hx⟩ <;> rw [hx]
  · exact h
  · rw [pending_receive]
    by_cases hname : name = other
    · subst hname
      simp
    · rwa [Assoc.get?_erase_of_ne _ hname]

/-- A foreign key takes the key that it waits for, if it can. -/
theorem arrives_writeForeignKey {key : Atomic} {w : Value} {holder : EntityId} {name : String}
    (h : Announced e key.name w g g') (hpending : (g.entity e).pending = []) (htakes : g.Takes e w)
    (hheard : g.Heard e holder name) (hwaits : (g'.entity holder).pending.get? name = some e) :
    (writeForeignKey holder name w).Ends g'
      (fun _ g'' => Announced e key.name w g g'' ∧
        (g''.entity holder).pending.get? name ≠ some e ∧
        ∀ x other, (g'.entity x).pending.get? other ≠ some e →
          (g''.entity x).pending.get? other ≠ some e)
      (fun _ _ => False) := by
  obtain ⟨-, hwaited, -⟩ := h.still_waits hpending hwaits
  obtain ⟨a, u, ha, hu⟩ := htakes holder name hwaited
  rw [← h.shape.schema] at ha hu
  rw [← Schema.atomic_eq_ok_iff] at ha
  unfold writeForeignKey
  simp only [Act.ends_bind, Act.ends_get, Act.ends_modify]
  rw [ha, Act.ends_ofExcept_ok, hu, Act.ends_ofExcept_ok]
  refine ⟨h.receive hpending hheard hwaits ha hu, ?_, fun _ _ => pending_receive_ne⟩
  rw [entity_modifyEntity_self _ (index_lt_of_pending hwaits), pending_receive, Assoc.get?_erase_self]
  exact (Option.some_ne_none e).symm

/-- A listener passes the key of its entity on, and nothing comes to wait. -/
theorem arrives_hear {key : Atomic} {w : Value} {l : KeyListener} (hwf : g.WellFormed c)
    (hkey : (g.entity e).schema.primaryKey = some key) (hpending : (g.entity e).pending = [])
    (htakes : g.Takes e w) (h : Announced e key.name w g g') (hl : l ∈ (g.entity e).listeners) :
    (hear e l).Ends g'
      (fun _ g'' => Announced e key.name w g g'' ∧
        (∀ x name referenced, l = .foreignKey x name referenced →
          (g''.entity x).pending.get? name ≠ some e) ∧
        ∀ x name, (g'.entity x).pending.get? name ≠ some e →
          (g''.entity x).pending.get? name ≠ some e)
      (fun _ _ => False) := by
  cases l with
  | foreignKey holder name referenced =>
    obtain rfl : key.name = referenced := by
      simpa [Schema.keyName?, hkey] using hwf.listeners e holder name referenced hl
    unfold hear
    simp only [Act.ends_bind, Act.ends_get, Act.ends_ite]
    refine ⟨fun hwaits => ?_, fun hwaits => ⟨h, fun x n r heq => ?_, fun _ _ hne => hne⟩⟩
    · rw [h.value hwf hkey, Act.ends_ofExcept_ok]
      refine (arrives_writeForeignKey h hpending htakes ⟨_, hl⟩ hwaits).mono
        (fun _ g'' hg => ⟨hg.1, fun x n r heq => ?_, hg.2.2⟩) fun _ _ hfalse => hfalse
      obtain ⟨rfl, rfl, -⟩ := KeyListener.foreignKey.inj heq
      exact hg.2.1
    · obtain ⟨rfl, rfl, -⟩ := KeyListener.foreignKey.inj heq
      exact hwaits
  | collection i =>
    unfold hear indexMember
    rw [Act.ends_modify]
    split
    · exact ⟨h.index i fun _ => rfl, (by rintro _ _ _ ⟨⟩), fun _ _ hne => hne⟩
    · exact ⟨h, (by rintro _ _ _ ⟨⟩), fun _ _ hne => hne⟩

/-- Where all foreign keys can take it, a key that the database has made comes to all of those that
wait for it and that its entity has a listener for. -/
theorem arrives_assignGeneratedKey {key : Atomic} {v w : Value} (hwf : g.WellFormed c)
    (hkey : (g.entity e).schema.primaryKey = some key) (hpending : (g.entity e).pending = [])
    (hv : key.coerce (g.entity e).schema.name v = .ok w) (htakes : g.Takes e w) :
    (assignGeneratedKey e v).Ends g
      (fun _ g' => Announced e key.name w g g' ∧
        ∀ x name, g.Heard e x name → (g'.entity x).pending.get? name ≠ some e)
      (fun _ _ => False) := by
  unfold assignGeneratedKey announceKey
  simp only [Act.ends_bind, Act.ends_get, Act.ends_modify]
  rw [Schema.key_eq_ok_iff.2 hkey, Act.ends_ofExcept_ok, hv, Act.ends_ofExcept_ok, takeKey_eq,
    view_modifyEntity (v := (·.listeners)) rfl]
  have hheard := Act.ends_forM_all (f := hear e) (I := Announced e key.name w g)
    (Q := fun l g' => ∀ x name referenced, l = .foreignKey x name referenced →
      (g'.entity x).pending.get? name ≠ some e)
    (fun l hl g' h => (arrives_hear hwf hkey hpending htakes h hl).mono
      (fun _ g'' hg => ⟨hg.1, hg.2.1, fun _ hQ x n r heq => hg.2.2 x n (hQ x n r heq)⟩)
      fun _ _ hfalse => hfalse) (.takeKey (index_lt_of_primaryKey hkey))
  refine (Act.ends_forAll_of_forM hheard).mono (fun _ g' h => ⟨h.1, fun x name hheard => ?_⟩)
    fun _ _ hfail => hfail.elim fun _ hfalse => hfalse
  obtain ⟨referenced, hmem⟩ := hheard
  exact h.2 _ hmem x name referenced rfl

/-! ### What a save of new entities needs -/

/-- A value that the database may make the primary key of an entity. -/
def MayBeKey (g : Graph) (Made : Value → Prop) (x : EntityId) (v : Value) : Prop :=
  ∃ key k, (g.entity x).schema.primaryKey = some key ∧ Made k ∧
    key.coerce (g.entity x).schema.name k = .ok v

/-- A value that an atomic of a part of an entity may have when the entity is inserted: the one that it
has, or the key that it waits for. -/
def MayHold (g : Graph) (Made : Value → Prop) (x part : EntityId) (a : Atomic) (v : Value) : Prop :=
  v = (g.entity part).atomicValue a.name ∧
      (part = x → (g.entity part).pending.get? a.name = none) ∨
    ∃ source k, (g.entity part).pending.get? a.name = some source ∧ g.MayBeKey Made source k ∧
      a.coerce (g.entity part).schema.name k = .ok v

/-- An entity leads to new entities only, whose keys the database makes, and nothing that a save does
violates a constraint, whichever of some keys the database makes. -/
structure Insertable (ses : Session) (Made : Value → Prop) (g : Graph) (e : EntityId) : Prop where
  generated : ∀ x, g.LeadsTo e x →
    ∃ key, (g.entity x).schema.primaryKey = some key ∧ key.generated = true
  unset : ∀ x, g.LeadsTo e x → g.key? x = none
  new : ∀ x, g.LeadsTo e x → (g.entity x).stored = false
  /-- Loaded relations resolve. -/
  joins : ∀ x, g.LeadsTo e x → ∀ r ∈ g.loadedRelations x,
    ∃ join, ses.catalog.join (g.entity x).schema r.1 = .ok join
  /-- What the database makes can be a key. -/
  keys : ∀ x key k, g.LeadsTo e x → (g.entity x).schema.primaryKey = some key → Made k →
    ∃ v, key.coerce (g.entity x).schema.name k = .ok v ∧ v ≠ .null
  /-- A key can be taken by the foreign keys that wait for it. -/
  takes : ∀ x v, g.LeadsTo e x → g.MayBeKey Made x v → g.Takes x v
  /-- No primary key waits for the key of another entity. -/
  apart : ∀ x name source, g.LeadsTo e x → (g.entity x).pending.get? name = some source →
    (g.entity x).schema.keyName? ≠ some name
  /-- Values keep their constraints. -/
  checks : ses.config.validate = true → ∀ x, g.LeadsTo e x → ∀ part ∈ g.parts x,
    ∀ a ∈ (g.entity part).schema.atomics, (a.primaryKey && a.generated) = false →
    ∀ v, g.MayHold Made x part a v → a.check (g.entity x).schema.name v = .ok ()

end Graph

/-- An entity that is saved exists. -/
theorem Graph.Insertable.index_lt {ses : Session} {Made : Value → Prop} {g : Graph} {e x : EntityId}
    (h : g.Insertable ses Made e) (hx : g.LeadsTo e x) : x.index < g.entities.length := by
  obtain ⟨key, hkey, -⟩ := h.generated x hx
  exact Graph.index_lt_of_primaryKey hkey

/-- A connection gives every row that is inserted one of some keys. -/
def Connection.Generates (σ : Type) [Connection σ] (Made : Value → Prop) : Prop :=
  ∀ (i : Insert) (link : σ), ∃ v, (Connection.insert i link).1 = .ok (some v) ∧ Made v

namespace Save

open Traversal

variable {σ : Type} {ses : Session} {c : Catalog} {Made : Value → Prop} {g₀ : Graph} {e y : EntityId}
  {t t' : Traversal EntityId σ} {p : Tour}

/-! ### A save follows a tour -/

/-- A save that started in a graph has come as far as a tour of that graph. -/
structure Follows (c : Catalog) (Made : Value → Prop) (g₀ : Graph) (e : EntityId)
    (t : Traversal EntityId σ) (p : Tour) : Prop where
  entered : t.entered = p.entered
  passed : p.passed ⊆ p.entered
  steady : Steady c g₀ t.world.graph
  stored : ∀ x, g₀.LeadsTo e x → ((t.world.graph.entity x).stored = true ↔ x ∈ p.passed)
  keyed : ∀ x, g₀.LeadsTo e x → ((t.world.graph.key? x).isSome ↔ x ∈ p.passed)
  waits : ∀ x name source, (t.world.graph.entity x).pending.get? name = some source ↔
    (g₀.entity x).pending.get? name = some source ∧ ¬(source ∈ p.passed ∧ g₀.Heard source x name)
  values : ∀ x, ∀ a ∈ (g₀.entity x).schema.atomics, (g₀.entity x).schema.keyName? ≠ some a.name →
    ((t.world.graph.entity x).pending.get? a.name = (g₀.entity x).pending.get? a.name ∧
      (t.world.graph.entity x).atomicValue a.name = (g₀.entity x).atomicValue a.name) ∨
    ∃ source k, (g₀.entity x).pending.get? a.name = some source ∧ g₀.MayBeKey Made source k ∧
      a.coerce (g₀.entity x).schema.name k = .ok ((t.world.graph.entity x).atomicValue a.name)
  listeners : ∀ x, x ∉ p.passed → (t.world.graph.entity x).listeners = (g₀.entity x).listeners
  inserted : ∀ x ∈ p.passed, ∃ i, (x, .insert i) ∈ t.journal
  inOrder : g₀.InOrder p.passed

namespace Follows

/-- A save starts where a tour starts. -/
theorem start {w : World σ} (hwf : w.graph.WellFormed ses.catalog)
    (h : w.graph.Insertable ses Made e) :
    Follows ses.catalog Made w.graph e ({ world := w } : Traversal EntityId σ) {} where
  entered := rfl
  passed := List.Subset.refl _
  steady := ⟨.refl _, hwf⟩
  stored x hx := by simp [h.new x hx]
  keyed x hx := by simp [h.unset x hx]
  waits x name source := by simp
  values x a _ _ := .inl ⟨rfl, rfl⟩
  listeners x _ := rfl
  inserted x hx := absurd hx List.not_mem_nil
  inOrder := Graph.inOrder_nil _

/-- An entity is entered. -/
theorem enter (h : Follows c Made g₀ e t p) (x : EntityId) :
    Follows c Made g₀ e { t with entered := x :: t.entered } { p with entered := x :: p.entered } where
  entered := congrArg (x :: ·) h.entered
  passed := fun _ hy => List.mem_cons_of_mem _ (h.passed hy)
  steady := h.steady
  stored := h.stored
  keyed := h.keyed
  waits := h.waits
  values := h.values
  listeners := h.listeners
  inserted := h.inserted
  inOrder := h.inOrder

/-- An entity waits for nothing iff all that it has been waiting for is there. -/
theorem pending_eq_nil_iff (h : Follows c Made g₀ e t p) (x : EntityId) :
    (t.world.graph.entity x).pending = [] ↔ g₀.ReadyAfter p.passed x := by
  constructor
  · intro hnil name source hwaits
    by_contra hnot
    have hpending := (h.waits x name source).2 ⟨hwaits, hnot⟩
    rw [hnil] at hpending
    cases hpending
  · intro hready
    refine List.eq_nil_iff_forall_not_mem.2 fun q hq => ?_
    obtain ⟨source, hsource⟩ := Assoc.exists_get?_of_mem hq
    obtain ⟨hwaits, hnot⟩ := (h.waits x q.1 source).1 hsource
    exact hnot (hready q.1 source hwaits)

/-- An atomic of a part that is not a generated key is no key. -/
theorem keyName_ne {key a : Atomic} {part : EntityId} (h : Follows c Made g₀ e t p)
    (hkey : (g₀.entity y).schema.primaryKey = some key) (hgenerated : key.generated = true)
    (hpart : part ∈ g₀.parts y) (ha : a ∈ (g₀.entity part).schema.atomics)
    (hother : (a.primaryKey && a.generated) = false) :
    (g₀.entity part).schema.keyName? ≠ some a.name := by
  intro hname
  obtain ⟨key', hkey', heq⟩ := Option.map_eq_some_iff.1 hname
  have hlt := Graph.index_lt_of_primaryKey hkey'
  have hknown := h.steady.wellFormed.known part (h.steady.shape.length ▸ hlt)
  rw [h.steady.shape.schema] at hknown
  have hself : part = y := by
    by_contra hne
    rw [← h.steady.shape.parts_eq] at hpart
    have hnone := h.steady.wellFormed.noKey_of_part hpart hne
    rw [h.steady.shape.schema, hkey'] at hnone
    cases hnone
  subst hself
  obtain rfl := Option.some.inj (hkey.symm.trans hkey')
  have hbuilt := hknown.schema_of_key hkey
  obtain rfl : a = key := by
    have hfound := hknown.coherent.atomic?_name ha
    rw [← heq, hknown.coherent.atomic?_name (Catalog.mem_of_primaryKey hbuilt hkey)] at hfound
    exact (Option.some.inj hfound).symm
  rw [(Catalog.primaryKey_iff hbuilt hkey ha).2 rfl, hgenerated] at hother
  cases hother

/-- Every foreign key that still waits for an entity can take its key. -/
theorem takes {w : Value} (h : Follows c Made g₀ e t p) (hins : g₀.Insertable ses Made e)
    (hy : g₀.LeadsTo e y) (hw : g₀.MayBeKey Made y w) : t.world.graph.Takes y w := by
  intro x name hwaits
  rw [h.steady.shape.schema]
  exact hins.takes y w hy hw x name ((h.waits x name y).1 hwaits).1

/-- Where it waits for nothing, an entity that has not been passed may be inserted. -/
theorem checkInsert_eq_ok (h : Follows c Made g₀ e t p) (hins : g₀.Insertable ses Made e)
    (hy : g₀.LeadsTo e y) (hnew : y ∉ p.passed) (hnil : (t.world.graph.entity y).pending = []) :
    checkInsert ses t.world.graph y = .ok () := by
  obtain ⟨key, hkey, hgenerated⟩ := hins.generated y hy
  have hschema := h.steady.shape.schema y
  have hkeyt : (t.world.graph.entity y).schema.key = .ok key :=
    Schema.key_eq_ok_iff.2 (hschema ▸ hkey)
  have hvalues : ses.config.validate = true →
      checkAll (t.world.graph.entity y).schema.name ((t.world.graph.allAtomics y).filter
        fun q => !(q.1.primaryKey && q.1.generated)) = .ok () := by
    intro hvalidate
    refine checkAll_eq_ok_iff.2 fun q hq => ?_
    obtain ⟨hmem, hfilter⟩ := List.mem_filter.1 hq
    obtain ⟨part, hpart, hmem⟩ := List.mem_flatMap.1 hmem
    obtain ⟨a, ha, rfl⟩ := List.mem_map.1 hmem
    have hfilter : (a.primaryKey && a.generated) = false := by
      rw [← Bool.not_eq_true']
      exact hfilter
    rw [h.steady.shape.parts_eq] at hpart
    rw [h.steady.shape.schema] at ha
    rw [hschema]
    refine hins.checks hvalidate y hy part hpart a ha hfilter _ ?_
    have hname : (g₀.entity part).schema.keyName? ≠ some a.name :=
      h.keyName_ne hkey hgenerated hpart ha hfilter
    rcases h.values part a ha hname with ⟨hsame, hvalue⟩ | htook
    · refine .inl ⟨hvalue, fun hself => ?_⟩
      rw [← hsame, hself, hnil]
      rfl
    · exact .inr htook
  have hunset : t.world.graph.key? y = none := by
    rw [← Option.not_isSome_iff_eq_none, h.keyed y hy]
    exact hnew
  unfold checkInsert
  refine bind_eq_ok_iff.2 ⟨(), checkPending_eq_ok_iff.2 hnil, bind_eq_ok_iff.2 ⟨key, hkeyt, ?_⟩⟩
  rw [hunset, hgenerated]
  by_cases hvalidate : ses.config.validate = true
  · rw [if_pos hvalidate]
    exact bind_eq_ok_iff.2 ⟨(), hvalues hvalidate, rfl⟩
  · rw [if_neg hvalidate]
    rfl

end Follows

/-- An entity is about to be passed: it has taken over the key that the database has made, and has
announced it to the foreign keys that can take it. -/
structure Passing (ses : Session) (Made : Value → Prop) (g₀ : Graph) (e y : EntityId) (key : Atomic)
    (w : Value) (t : Traversal EntityId σ) (p : Tour) (g : Graph) : Prop where
  insertable : g₀.Insertable ses Made e
  follows : Follows ses.catalog Made g₀ e t p
  reached : g₀.LeadsTo e y
  entered : y ∈ p.entered
  ready : g₀.ReadyAfter p.passed y
  new : y ∉ p.passed
  isKey : (g₀.entity y).schema.primaryKey = some key
  made : g₀.MayBeKey Made y w
  ne_null : w ≠ .null
  announced : Graph.Announced y key.name w t.world.graph g
  wellFormed : g.WellFormed ses.catalog
  arrived : ∀ x name, t.world.graph.Heard y x name → (g.entity x).pending.get? name ≠ some y

namespace Passing

variable {key a : Atomic} {w : Value} {g : Graph} {x : EntityId}

theorem sameShape (h : Passing ses Made g₀ e y key w t p g) : g₀.SameShape g :=
  h.follows.steady.shape.trans h.announced.shape

theorem index_lt (h : Passing ses Made g₀ e y key w t p g) : y.index < g.entities.length :=
  h.sameShape.length ▸ Graph.index_lt_of_primaryKey h.isKey

/-- Another entity that is saved is no part of this one. -/
theorem not_mem_parts (h : Passing ses Made g₀ e y key w t p g) (hx : g₀.LeadsTo e x) (hne : x ≠ y) :
    x ∉ g.parts y := by
  intro hmem
  obtain ⟨key', hkey', -⟩ := h.insertable.generated x hx
  have hnone := h.wellFormed.noKey_of_part hmem hne
  rw [h.sameShape.schema, hkey'] at hnone
  cases hnone

/-- The entity, and no other one, comes to be stored. -/
theorem stored (h : Passing ses Made g₀ e y key w t p g) (hx : g₀.LeadsTo e x) :
    (((g.markClean y).markStored y).entity x).stored = true ↔ x ∈ p.passed ++ [y] := by
  rw [Graph.entity_marked h.wellFormed h.index_lt]
  by_cases hxy : x = y
  · rw [if_pos (hxy ▸ Graph.mem_parts_self g y)]
    exact iff_of_true rfl (by simp [hxy])
  · rw [if_neg (h.not_mem_parts hx hxy), h.announced.stored, h.follows.stored x hx]
    simp [hxy]

/-- The entity, and no other one, comes to have a key. -/
theorem keyed (h : Passing ses Made g₀ e y key w t p g) (hx : g₀.LeadsTo e x) :
    (((g.markClean y).markStored y).key? x).isSome ↔ x ∈ p.passed ++ [y] := by
  rw [Graph.key?_marked h.wellFormed h.index_lt]
  by_cases hxy : x = y
  · subst hxy
    rw [h.announced.key?_self ((h.follows.steady.shape.schema x).symm ▸ h.isKey),
      if_neg (by simpa using h.ne_null)]
    exact iff_of_true rfl (by simp)
  suffices hsame : g.key? x = t.world.graph.key? x by simp [hsame, h.follows.keyed x hx, hxy]
  unfold Graph.key? Entity.key?
  rw [h.announced.shape.schema]
  cases hkeyname : (t.world.graph.entity x).schema.keyName? with
  | none => rfl
  | some name =>
    rcases h.announced.other x name hxy with ⟨-, hslot⟩ | htook
    · simp [hslot]
    · -- no key waits for another entity
      rw [h.follows.steady.shape.schema] at hkeyname
      have hwaited := ((h.follows.waits x name y).1 htook.waited).1
      exact absurd hkeyname (h.insertable.apart x name y hx hwaited)

/-- The listeners of the entity are those that it has had. -/
theorem heard_iff (h : Passing ses Made g₀ e y key w t p g) {name : String} :
    t.world.graph.Heard y x name ↔ g₀.Heard y x name := by
  unfold Graph.Heard
  rw [h.follows.listeners y h.new]

/-- Foreign keys wait on for all that has not been passed, and for what cannot tell them. -/
theorem waits (h : Passing ses Made g₀ e y key w t p g) {name : String} {source : EntityId} :
    (g.entity x).pending.get? name = some source ↔
      (g₀.entity x).pending.get? name = some source ∧
        ¬(source ∈ p.passed ++ [y] ∧ g₀.Heard source x name) := by
  by_cases hxy : x = y
  · subst hxy
    rw [h.announced.self]
    refine iff_of_false (fun hsome => ?_) fun hwaits => ?_
    · have hsome : (t.world.graph.entity x).pending.get? name = some source := hsome
      rw [(h.follows.pending_eq_nil_iff x).2 h.ready] at hsome
      cases hsome
    · obtain ⟨hsource, hheard⟩ := h.ready name source hwaits.1
      exact hwaits.2 ⟨List.mem_append_left _ hsource, hheard⟩
  rcases h.announced.other x name hxy with ⟨hsame, -⟩ | htook
  · rw [hsame, h.follows.waits]
    refine and_congr_right fun hsource => not_congr ⟨fun hpassed => ?_, fun hpassed => ?_⟩
    · exact ⟨List.mem_append_left _ hpassed.1, hpassed.2⟩
    refine ⟨(List.mem_append.1 hpassed.1).resolve_right fun hmem => ?_, hpassed.2⟩
    obtain rfl := List.mem_singleton.1 hmem
    -- the entity would have announced its key to this foreign key
    have hstill := (h.follows.waits x name source).2 ⟨hsource, fun hold => h.new hold.1⟩
    exact h.arrived x name (h.heard_iff.2 hpassed.2) (hsame.trans hstill)
  · rw [htook.settled]
    refine iff_of_false (Option.some_ne_none source).symm fun hwaits => hwaits.2 ?_
    obtain rfl := Option.some.inj (hwaits.1.symm.trans ((h.follows.waits x name y).1 htook.waited).1)
    refine ⟨by simp, h.heard_iff.1 ?_⟩
    by_contra hunheard
    have hkept := h.announced.unheard x name hxy hunheard
    rw [htook.settled, htook.waited] at hkept
    cases hkept

/-- Values stay as they are, or are keys that have come. -/
theorem values (h : Passing ses Made g₀ e y key w t p g) (ha : a ∈ (g₀.entity x).schema.atomics)
    (hname : (g₀.entity x).schema.keyName? ≠ some a.name) :
    ((g.entity x).pending.get? a.name = (g₀.entity x).pending.get? a.name ∧
        (g.entity x).atomicValue a.name = (g₀.entity x).atomicValue a.name) ∨
      ∃ source k, (g₀.entity x).pending.get? a.name = some source ∧ g₀.MayBeKey Made source k ∧
        a.coerce (g₀.entity x).schema.name k = .ok ((g.entity x).atomicValue a.name) := by
  have hold := h.follows.values x a ha hname
  by_cases hxy : x = y
  · subst hxy
    have hother : a.name ≠ key.name := by
      intro heq
      refine hname ?_
      rw [heq]
      simp [Schema.keyName?, h.isKey]
    have hself : (g.entity x).atomicValue a.name = (t.world.graph.entity x).atomicValue a.name := by
      rw [h.announced.self]
      simp [Entity.atomicValue, Entity.loadAtomic, Assoc.get?_put_of_ne _ _ hother]
    rw [hself, h.announced.self]
    exact hold
  rcases h.announced.other x a.name hxy with ⟨hsame, hslot⟩ | ⟨hwaited, -, a', v, ha', hv, hslot⟩
  · have hself : (g.entity x).atomicValue a.name = (t.world.graph.entity x).atomicValue a.name := by
      unfold Entity.atomicValue
      rw [hslot]
    rw [hself, hsame]
    exact hold
  · have hwaits := ((h.follows.waits x a.name y).1 hwaited).1
    refine .inr ⟨y, w, hwaits, h.made, ?_⟩
    rw [h.follows.steady.shape.schema] at ha' hv
    obtain rfl : a = a' := by
      have hknown := h.follows.steady.wellFormed.known x (Graph.index_lt_of_pending hwaited)
      rw [h.follows.steady.shape.schema] at hknown
      have hfound := hknown.coherent.atomic?_name ha
      exact Option.some.inj (hfound.symm.trans (Schema.atomic_eq_ok_iff.1 ha'))
    have hself : (g.entity x).atomicValue a.name = v := by
      unfold Entity.atomicValue
      rw [hslot]
      split <;> rfl
    rw [hself]
    exact hv

/-- Once it has been marked, the entity counts as passed. -/
theorem pass (h : Passing ses Made g₀ e y key w t p g)
    (hgraph : t'.world.graph = (g.markClean y).markStored y) (hsame : t'.entered = t.entered)
    (hjournal : ∃ i rest, t'.journal = t.journal ++ (y, .insert i) :: rest) :
    Follows ses.catalog Made g₀ e t' { p with passed := p.passed ++ [y] } where
  entered := hsame.trans h.follows.entered
  passed x hx := by
    rcases List.mem_append.1 hx with hx | hx
    · exact h.follows.passed hx
    · exact List.mem_singleton.1 hx ▸ h.entered
  steady := by
    rw [hgraph]
    exact ⟨h.sameShape.trans ((Graph.SameShape.markClean g y).trans (.markStored _ y)),
      (h.wellFormed.markClean y).markStored y⟩
  stored x hx := hgraph ▸ h.stored hx
  keyed x hx := hgraph ▸ h.keyed hx
  waits x name source := by
    rw [hgraph, Graph.pending_marked h.wellFormed h.index_lt]
    exact h.waits
  values x a ha hname := by
    rw [hgraph, Graph.pending_marked h.wellFormed h.index_lt,
      Graph.view_marked (v := (·.atomicValue a.name)) (·.atomicValue_persist _) h.wellFormed h.index_lt]
    exact h.values ha hname
  listeners x hx := by
    rw [List.mem_append, not_or, List.mem_singleton] at hx
    rw [hgraph, Graph.view_marked (v := (·.listeners)) (fun _ => rfl) h.wellFormed h.index_lt,
      h.announced.listeners x hx.2]
    exact h.follows.listeners x hx.1
  inserted x hx := by
    obtain ⟨i, rest, hrest⟩ := hjournal
    rw [hrest]
    rcases List.mem_append.1 hx with hx | hx
    · obtain ⟨i', hi'⟩ := h.follows.inserted x hx
      exact ⟨i', List.mem_append_left _ hi'⟩
    · obtain rfl := List.mem_singleton.1 hx
      exact ⟨i, List.mem_append_right _ List.mem_cons_self⟩
  inOrder := Graph.inOrder_append_singleton_iff.2 ⟨h.follows.inOrder, h.ready⟩

end Passing

variable [Connection σ]

/-- A connection that always makes a key refuses nothing. -/
theorem accepts_of_generates (h : Connection.Generates σ Made) : ¬Refused σ := by
  rintro ⟨i, link, message, hrefused⟩
  obtain ⟨v, hmade, -⟩ := h i link
  rw [hmade] at hrefused
  cases hrefused

/-- Inserting an entity ends well iff it comes in order, and then it counts as passed. -/
theorem ends_insertRows_follows (hconn : Connection.Generates σ Made) (h : Follows ses.catalog Made g₀ e t p)
    (hins : g₀.Insertable ses Made e) (hy : g₀.LeadsTo e y) (hentered : y ∈ p.entered)
    (hnew : y ∉ p.passed) :
    (insertRows ses y).Ends t
      (fun _ t' => Follows ses.catalog Made g₀ e t' { p with passed := p.passed ++ [y] })
      (fun _ _ => ¬g₀.InOrder (p.passed ++ [y])) := by
  have hwf := h.steady.wellFormed
  have hschema := h.steady.shape.schema y
  refine ends_insertRows (fun error herror hall => ?_) fun key s values hs hkey _ hok => ?_
  · have hready := (Graph.inOrder_append_singleton_iff.1 hall).2
    rw [h.checkInsert_eq_ok hins hy hnew ((h.pending_eq_nil_iff y).2 hready)] at herror
    cases herror
  have hnil := (of_checkInsert hok).1
  have hready := (h.pending_eq_nil_iff y).1 hnil
  subst hs
  have hunset : t.world.graph.key? y = none := by
    rw [← Option.not_isSome_iff_eq_none, h.keyed y hy]
    exact hnew
  have haccepts := accepts_of_generates hconn
  refine ends_insertFirst (fun t' _ hset => ?_) (fun t' k hsent _ hmade => ?_)
    fun error t' _ hbad => ?_
  · rw [hunset] at hset
    cases hset
  · obtain ⟨k', hk', hMade⟩ := hconn (Insert.single _ _) t.world.wire.link
    obtain rfl : k = k' := by
      rw [hmade] at hk'
      exact Option.some.inj (Except.ok.inj hk')
    have hkey₀ : (g₀.entity y).schema.primaryKey = some key := hschema ▸ hkey
    obtain ⟨w, hw, hne⟩ := hins.keys y key k hy hkey₀ hMade
    have hmay : g₀.MayBeKey Made y w := ⟨key, k, hkey₀, hMade, hw⟩
    refine ((Graph.arrives_assignGeneratedKey hwf hkey hnil (hschema.symm ▸ hw)
      (h.takes hins hy hmay)).and
      (Graph.WellFormed.assignGeneratedKey k _ hwf)).mono (fun _ g hg => ?_) fun _ _ hfalse => hfalse.1.elim
    obtain ⟨⟨hann, harrived⟩, hwf'⟩ := hg
    refine ⟨fun hnone => ?_, fun v hv => ?_⟩
    · have hnone : g.key? y = none := hnone
      rw [hann.key?_self hkey, if_neg (by simpa using hne)] at hnone
      cases hnone
    · refine ends_insertRest (fun t'' hrest => ?_) fun _ _ _ hrefused _ _ => absurd hrefused haccepts
      have hpassing : Passing ses Made g₀ e y key w t p g :=
        ⟨hins, h, hy, hentered, hready, hnew, hkey₀, hmay, hne, hann, hwf', harrived⟩
      refine hpassing.pass ?_ ?_ ?_
      · show (t''.world.graph.markClean y).markStored y = _
        rw [hrest.graph]
      · exact hrest.entered.trans hsent.entered
      · refine ⟨Insert.single (t.world.graph.entity y).schema.table
          (columnsIn (t.world.graph.entity y).schema values (t.world.graph.entity y).schema.table),
          ((restColumns (t.world.graph.entity y).schema values).map fun x =>
            .insert (restInsert key v x)).map (y, ·), hrest.journal.trans ?_⟩
        show t'.journal ++ _ = _
        rw [hsent.journal, List.append_assoc]
        rfl
  · rcases hbad with hrefused | ⟨link, hnone⟩
    · exact absurd hrefused haccepts
    · obtain ⟨v, hmade, -⟩ := hconn (Insert.single _ _) link
      rw [hnone] at hmade
      cases hmade

omit [Connection σ] in
/-- Work for one item after another follows one step of a tour after another. -/
theorem ends_forM_follows {β : Type} {l : List β} {f : β → SaveM σ Unit} {step : Tour → β → Tour}
    {I : Traversal EntityId σ → Tour → Prop} (hextends : ∀ p b, p.passed <+: (step p b).passed)
    (hf : ∀ b ∈ l, ∀ t p, I t p → (f b).Ends t (fun _ t' => I t' (step p b))
      (fun _ _ => ¬g₀.InOrder (step p b).passed))
    (h : I t p) : (l.forM f).Ends t (fun _ t' => I t' (l.foldl step p))
      (fun _ _ => ¬g₀.InOrder (l.foldl step p).passed) := by
  have hfold : ∀ (l : List β) p, p.passed <+: (l.foldl step p).passed := by
    intro l
    induction l with
    | nil => exact fun p => List.prefix_refl _
    | cons b l ih => exact fun p => (hextends p b).trans (ih _)
  induction l generalizing t p with
  | nil => exact h
  | cons b l ih =>
    rw [Act.ends_forM_cons]
    refine (hf b List.mem_cons_self t p h).mono (fun _ t' ht' => ?_) fun _ _ hnot hall => ?_
    · exact ih (fun b' hb' => hf b' (List.mem_cons_of_mem _ hb')) ht'
    · exact hnot (hall.of_prefix (hfold l _))

/-- A save and a tour are as far as each other, with depth left for what remains. -/
def Abreast (ses : Session) (Made : Value → Prop) (g₀ : Graph) (e : EntityId) (depth : Nat)
    (t : Traversal EntityId σ) (p : Tour) : Prop :=
  Follows ses.catalog Made g₀ e t p ∧ Fits g₀.entities.length depth p.entered

/-- A save of an entity goes where a tour from it goes, and fails only where that is out of order. -/
def Tracks (ses : Session) (Made : Value → Prop) (g₀ : Graph) (e : EntityId) (depth : Nat)
    (save : EntityId → SaveM σ Unit) : Prop :=
  ∀ y t p, g₀.LeadsTo e y → Abreast ses Made g₀ e depth t p →
    (save y).Ends t
      (fun _ t' => Abreast ses Made g₀ e depth t'
        (g₀.tour ses.catalog depth y p))
      (fun _ _ => ¬g₀.InOrder
        (g₀.tour ses.catalog depth y p).passed)

section loops

variable {depth : Nat} {save : EntityId → SaveM σ Unit}

omit [Connection σ] in
/-- Saving owned targets goes where a tour goes first. -/
theorem ends_saveOwnedTargets_tracks (hsave : Tracks ses Made g₀ e depth save)
    (hins : g₀.Insertable ses Made e) (hy : g₀.LeadsTo e y) (h : Abreast ses Made g₀ e depth t p) :
    (saveOwnedTargets ses.catalog save y).Ends t
      (fun _ t' => Abreast ses Made g₀ e depth t' ((g₀.ownedTargets ses.catalog y).foldl
        (fun p x => g₀.tour ses.catalog depth x p) p))
      (fun _ _ => ¬g₀.InOrder ((g₀.ownedTargets ses.catalog y).foldl
        (fun p x => g₀.tour ses.catalog depth x p) p).passed) := by
  unfold saveOwnedTargets
  rw [Act.ends_bind, ends_graph, h.1.steady.shape.loadedRelations_eq, h.1.steady.shape.schema]
  unfold Graph.ownedTargets
  rw [List.foldl_filterMap]
  refine ends_forM_follows (fun p r => ?_) (fun r hr t p h => ?_) h
  · split
    · exact (Tour.extends_visit _ _ _ _ _).passed
    · exact List.prefix_refl _
  by_cases hone : ∃ target, r.2 = .one (some target)
  · obtain ⟨target, hone⟩ := hone
    obtain ⟨join, hjoin⟩ := hins.joins y hy r hr
    have hx : g₀.LeadsTo e target :=
      hy.tail (List.mem_flatMap.2 ⟨r, hr, by rw [hone]; exact List.mem_cons_self⟩)
    rw [Graph.ownedTarget?_eq_of_one hone hjoin, hone]
    simp only [hjoin, Act.ends_bind, ends_graph, Act.ends_ite, Act.ends_ofExcept_ok]
    by_cases hhere : join.side = .here
    · simp only [if_pos hhere]
      refine ⟨fun hstored => ?_, fun _ => ⟨fun _ => hsave target t p hx h, fun hnot => absurd hhere hnot⟩⟩
      -- the tour has been at a target that storage has
      have hmem := h.1.passed ((h.1.stored target hx).1 hstored)
      show Abreast ses Made g₀ e depth t (Tour.visit _ _ depth target p)
      rw [Tour.visit_of_mem hmem]
      exact h
    · simp only [if_neg hhere]
      exact ⟨fun _ => h, fun _ => ⟨fun hnot => absurd hnot hhere, fun _ => h⟩⟩
  · have hother : ∀ target, r.2 ≠ .one (some target) := fun target heq => hone ⟨target, heq⟩
    rw [Graph.ownedTarget?_eq_none hother]
    split
    · next target heq => exact absurd heq (hother target)
    · exact h

omit [Connection σ] in
/-- Saving everything that loaded relations lead to goes where a tour goes next. -/
theorem ends_saveRelations_tracks (hsave : Tracks ses Made g₀ e depth save) (hy : g₀.LeadsTo e y)
    (h : Abreast ses Made g₀ e depth t p) :
    (saveRelations save y).Ends t
      (fun _ t' => Abreast ses Made g₀ e depth t' ((g₀.successors y).foldl
        (fun p x => g₀.tour ses.catalog depth x p) p))
      (fun _ _ => ¬g₀.InOrder ((g₀.successors y).foldl
        (fun p x => g₀.tour ses.catalog depth x p) p).passed) := by
  have hextends : ∀ (p : Tour) (x : EntityId), p.passed <+: (g₀.tour ses.catalog depth x p).passed :=
    fun p x => (Tour.extends_visit _ _ _ _ _).passed
  unfold saveRelations
  rw [Act.ends_bind, ends_graph, h.1.steady.shape.loadedRelations_eq]
  unfold Graph.successors
  rw [List.foldl_flatMap]
  refine ends_forM_follows (fun p r => ?_) (fun r hr t p h => ?_) h
  · exact (Tour.extends_foldl (fun x p => Tour.extends_visit _ _ _ x p) p).passed
  · rw [Act.ends_bind, ends_graph, h.1.steady.shape.targets_eq]
    exact ends_forM_follows hextends (fun x hx t p h =>
      hsave x t p (hy.tail (List.mem_flatMap.2 ⟨r, hr, hx⟩)) h) h

omit [Connection σ] in
/-- Coming back to an entity does nothing. -/
theorem ends_visit_of_mem {rows : SaveM σ Unit} {P : Unit → Traversal EntityId σ → Prop}
    {E : Error → Traversal EntityId σ → Prop} (hmem : y ∈ t.entered) (h : P () t) :
    (visit ses save y rows).Ends t P E := by
  unfold visit
  rw [Act.ends_bind, Act.Ends, enter_of_mem hmem]
  exact h

/-- The visit of an entity that the tour has not entered goes where the tour goes. -/
theorem ends_visit_tracks (hsave : Tracks ses Made g₀ e depth save)
    (hconn : Connection.Generates σ Made) (hcascade : ses.config.cascade = true)
    (hins : g₀.Insertable ses Made e) (hy : g₀.LeadsTo e y)
    (h : Abreast ses Made g₀ e (depth + 1) t p) (hnew : y ∉ p.entered) :
    (visit ses save y (insertRows ses y)).Ends t
      (fun _ t' => Abreast ses Made g₀ e (depth + 1) t' (g₀.tour ses.catalog (depth + 1) y p))
      (fun _ _ => ¬g₀.InOrder (g₀.tour ses.catalog (depth + 1) y p).passed) := by
  have hlt := hins.index_lt hy
  have hentered : Abreast ses Made g₀ e depth { t with entered := y :: t.entered }
      { p with entered := y :: p.entered } := ⟨h.1.enter y, h.2.enter hnew hlt⟩
  have htour : g₀.tour ses.catalog (depth + 1) y p = _ := Tour.visit_of_not_mem hnew
  have hin : Tour.Extends { p with entered := y :: p.entered } ((g₀.ownedTargets ses.catalog y).foldl
      (fun p x => g₀.tour ses.catalog depth x p) { p with entered := y :: p.entered }) :=
    Tour.extends_foldl (fun x p => Tour.extends_visit _ _ _ x p) _
  rw [htour]
  set before := (g₀.ownedTargets ses.catalog y).foldl
    (fun p x => g₀.tour ses.catalog depth x p) { p with entered := y :: p.entered } with hbefore
  have hout : Tour.Extends { before with passed := before.passed ++ [y] } ((g₀.successors y).foldl
      (fun p x => g₀.tour ses.catalog depth x p) { before with passed := before.passed ++ [y] }) :=
    Tour.extends_foldl (fun x p => Tour.extends_visit _ _ _ x p) _
  have hnotPassed : y ∉ before.passed := by
    intro hpassed
    rcases hin.back y hpassed with hold | ⟨-, hnot⟩
    · exact hnew (h.1.passed hold)
    · exact hnot List.mem_cons_self
  have hnew' : y ∉ t.entered := h.1.entered ▸ hnew
  unfold visit
  rw [Act.ends_bind, Act.Ends, enter_of_not_mem hnew']
  simp only [Bool.not_true, Bool.false_eq_true, if_false, if_pos hcascade]
  rw [Act.ends_bind]
  refine (ends_saveOwnedTargets_tracks hsave hins hy hentered).mono (fun _ t₁ h₁ => ?_)
    fun _ _ hnot hall => ?_
  · rw [← hbefore] at h₁
    rw [Act.ends_bind]
    refine (ends_insertRows_follows hconn h₁.1 hins hy (hin.entered List.mem_cons_self)
      hnotPassed).mono (fun _ t₂ h₂ => ?_) fun _ _ hnot hall => ?_
    · refine (ends_saveRelations_tracks hsave hy ⟨h₂, h₁.2⟩).mono (fun _ t₃ h₃ => ?_)
        fun _ _ hnot => hnot
      exact ⟨h₃.1, h₃.2.succ⟩
    · exact hnot (hall.of_prefix hout.passed)
  · rw [← hbefore] at hnot
    exact hnot (hall.of_prefix ((List.prefix_append _ _).trans hout.passed))

end loops

/-- A save goes where a tour goes, and fails only where that is out of order. -/
theorem tracks_saveFrom (hconn : Connection.Generates σ Made) (hcascade : ses.config.cascade = true)
    (hins : g₀.Insertable ses Made e) (depth : Nat) :
    Tracks ses Made g₀ e depth (saveFrom (σ := σ) ses depth) := by
  induction depth with
  | zero => exact fun y t p _ h => absurd h.2.depth_pos (Nat.lt_irrefl 0)
  | succ depth ih =>
    intro y t p hy h
    obtain ⟨key, hkey, hgenerated⟩ := hins.generated y hy
    have hkeyt : (t.world.graph.entity y).schema.key = .ok key :=
      Schema.key_eq_ok_iff.2 (h.1.steady.shape.schema y ▸ hkey)
    have hpassed := h.1.keyed y hy
    have hstored := h.1.stored y hy
    -- both for an insert and for an update, the visit begins by asking whether it is the first
    have hback : y ∈ p.entered → ∀ rows : SaveM σ Unit, (visit ses (saveFrom ses depth) y rows).Ends t
        (fun _ t' => Abreast ses Made g₀ e (depth + 1) t' (g₀.tour ses.catalog (depth + 1) y p))
        (fun _ _ => ¬g₀.InOrder (g₀.tour ses.catalog (depth + 1) y p).passed) := by
      intro hmem rows
      refine ends_visit_of_mem (h.1.entered.symm ▸ hmem) ?_
      show Abreast ses Made g₀ e (depth + 1) t (Tour.visit _ _ (depth + 1) y p)
      rw [Tour.visit_of_mem hmem]
      exact h
    unfold saveFrom
    rw [Act.ends_bind, ends_graph, Act.ends_bind, hkeyt, Act.ends_ofExcept_ok, Act.ends_ite]
    simp only [hgenerated, if_true]
    refine ⟨fun hsome => ?_, fun hnone => ?_⟩
    · have hmem := hpassed.1 hsome
      unfold updateWith
      rw [Act.ends_bind, ends_graph, Act.ends_ite]
      refine ⟨fun hunset => ?_, fun _ => hback (h.1.passed hmem) _⟩
      have hset := hpassed.2 hmem
      rw [Option.isNone_iff_eq_none.1 hunset] at hset
      cases hset
    · have hnotPassed : y ∉ p.passed := fun hmem => hnone (hpassed.2 hmem)
      unfold insertWith
      rw [Act.ends_bind, ends_graph, Act.ends_ite]
      refine ⟨fun hold => absurd (hstored.1 hold) hnotPassed, fun _ => ?_⟩
      by_cases hmem : y ∈ p.entered
      · exact hback hmem _
      · exact ends_visit_tracks ih hconn hcascade hins hy h hmem

end Save

namespace Session

open Save

variable {σ : Type} [Connection σ] {ses : Session} {e : EntityId} {w : World σ}
  {Made : Value → Prop}

/-- A save with cascading from an entity that leads to new entities succeeds iff the order in which it
writes them is one in which every entity comes after all that its foreign keys wait for; and then it
inserts all of them. -/
theorem save_succeeds_iff_inOrder (hbuilt : Graph.Built ses.catalog w.graph)
    (hcascade : ses.config.cascade = true) (hconn : Connection.Generates σ Made)
    (hins : w.graph.Insertable ses Made e) :
    ((∃ w', ses.save e w = .ok () w') ↔ w.graph.InOrder (w.graph.writeOrder ses.catalog e)) ∧
      ∀ w', ses.save e w = .ok () w' → ∀ x, w.graph.LeadsTo e x →
        (w'.graph.entity x).stored = true ∧ ∃ i, (x, .insert i) ∈ (ses.saveTrace e w).journal := by
  have hends := tracks_saveFrom hconn hcascade hins (depthBound w.graph) e { world := w } {} .refl
    ⟨.start hbuilt.wellFormed hins, Fits.start w.graph⟩
  have hexist : ∀ x, w.graph.LeadsTo e x → x.index < w.graph.entities.length := by
    intro x hx
    obtain ⟨key, hkey, -⟩ := hins.generated x hx
    refine Graph.index_lt_of_ne (v := (·.schema.primaryKey)) ?_
    rw [hkey]
    exact Option.some_ne_none key
  cases hrun : saveFrom ses (depthBound w.graph) e { world := w } with
  | ok _ t =>
    have hfollows := (hends.of_ok hrun).1
    have hsave : ses.save e w = .ok () t.world := run_eq_ok_iff.2 ⟨t, hrun, rfl⟩
    refine ⟨iff_of_true ⟨t.world, hsave⟩ hfollows.inOrder, fun w' hsave' x hx => ?_⟩
    obtain rfl : t.world = w' := by
      rw [hsave] at hsave'
      cases hsave'
      rfl
    have hpassed : x ∈ w.graph.writeOrder ses.catalog e := (Graph.mem_writeOrder_iff hexist).2 hx
    have htrace : ses.saveTrace e w = t := by
      unfold saveTrace Act.final
      rw [hrun]
    exact ⟨(hfollows.stored x hx).2 hpassed, htrace ▸ hfollows.inserted x hpassed⟩
  | error error t =>
    have hfails : ∀ w', ses.save e w ≠ .ok () w' := by
      intro w' hsave
      obtain ⟨t', hok, -⟩ := run_eq_ok_iff.1 hsave
      rw [hrun] at hok
      cases hok
    exact ⟨iff_of_false (fun ⟨w', hsave⟩ => hfails w' hsave) (hends.of_error hrun),
      fun w' hsave => absurd hsave (hfails w')⟩

end Session

/-! ### Orders, customers and invoices -/

namespace Shop

open EntityGraph.Graph

/-- A whole number. -/
def IsInt (v : Value) : Prop :=
  ∃ n, v = .int n

/-- A counter makes whole numbers. -/
theorem generates_counter : Connection.Generates Counter IsInt :=
  fun _ link => ⟨.int (Int64.ofNat link.next), rfl, _, rfl⟩

/-- What is decided by going through the entities of a graph of the shop. -/
theorem insertable {g : Graph} {e : EntityId} {S : List EntityId} (he : e ∈ S)
    (hclosed : ∀ x ∈ S, ∀ y ∈ g.successors x, y ∈ S)
    (hkey : ∀ x ∈ S, (g.entity x).schema.primaryKey = some key)
    (hnew : ∀ x ∈ S, g.key? x = none ∧ (g.entity x).stored = false)
    (hjoins : ∀ x ∈ S, ∀ r ∈ g.loadedRelations x,
      (catalog.join (g.entity x).schema r.1).isOk = true)
    (hwaits : ∀ x ∈ g.entities, ∀ q ∈ x.pending, x.schema.atomic? q.1 = some (reference q.1) ∧
      x.schema.keyName? ≠ some q.1)
    (hfree : ∀ x ∈ S, ∀ part ∈ g.parts x, ∀ a ∈ (g.entity part).schema.atomics,
      a.constraints = {}) :
    g.Insertable session IsInt e := by
  have hmem : ∀ x, g.LeadsTo e x → x ∈ S := fun x hx => hx.mem_of_closed he hclosed
  have hwaits' : ∀ x, ∀ q ∈ (g.entity x).pending,
      (g.entity x).schema.atomic? q.1 = some (reference q.1) ∧
        (g.entity x).schema.keyName? ≠ some q.1 :=
    forall_entity (p := fun x => ∀ q ∈ x.pending, x.schema.atomic? q.1 = some (reference q.1) ∧
      x.schema.keyName? ≠ some q.1) hwaits fun _ hq => absurd hq List.not_mem_nil
  refine ⟨fun x hx => ⟨key, hkey x (hmem x hx), rfl⟩, fun x hx => (hnew x (hmem x hx)).1,
    fun x hx => (hnew x (hmem x hx)).2, fun x hx r hr => ?_, fun x k v hx hk hv => ?_,
    fun x v hx hv holder name hpending => ?_, fun x name source hx hpending => ?_,
    fun _ x hx part hpart a ha _ v _ => ?_⟩
  · have hok := hjoins x (hmem x hx) r hr
    cases hjoin : catalog.join (g.entity x).schema r.1 with
    | ok join => exact ⟨join, hjoin⟩
    | error error =>
      rw [hjoin] at hok
      cases hok
  · obtain ⟨n, rfl⟩ := hv
    obtain rfl := Option.some.inj ((hkey x (hmem x hx)).symm.trans hk)
    exact ⟨.int n, rfl, Value.noConfusion⟩
  · obtain ⟨k, u, hk, ⟨n, rfl⟩, hu⟩ := hv
    obtain rfl := Option.some.inj ((hkey x (hmem x hx)).symm.trans hk)
    obtain rfl : Value.int n = v := Except.ok.inj hu
    exact ⟨reference name, .int n, (hwaits' holder _ (Assoc.mem_of_get? hpending)).1, rfl⟩
  · exact (hwaits' x _ (Assoc.mem_of_get? hpending)).2
  · unfold Atomic.check
    rw [hfree x (hmem x hx) part hpart a ha]
    cases v <;> rfl

/-- An order whose customer has an invoice for it. -/
def diamond : Graph :=
  Operation.runAll catalog
    [.create "Order", .create "Customer", .create "Invoice", .assignOne ⟨0⟩ "customer" (some ⟨1⟩),
      .many ⟨1⟩ "invoices", .push ⟨0⟩ ⟨2⟩, .assignOne ⟨2⟩ "order" (some ⟨0⟩)] {}

end Shop

namespace Session

/-- An order and its customer are saved in order, both of them. -/
theorem save_succeeds_iff_inOrder_orders :
    Shop.orders.InOrder (Shop.orders.writeOrder Shop.catalog ⟨0⟩) ∧
      ∃ w', Shop.session.save ⟨0⟩ (Shop.world Shop.orders) = .ok () w' ∧
        ∀ x, Shop.orders.LeadsTo ⟨0⟩ x → (w'.graph.entity x).stored = true ∧
          ∃ i, (x, .insert i) ∈ (Shop.session.saveTrace ⟨0⟩ (Shop.world Shop.orders)).journal := by
  have hins : Shop.orders.Insertable Shop.session Shop.IsInt ⟨0⟩ := by
    refine Shop.insertable (S := [⟨0⟩, ⟨1⟩]) ?_ ?_ ?_ ?_ ?_ ?_ ?_ <;> decide
  have hbuilt : Shop.orders.Built Shop.session.catalog := .runAll _ .empty
  have h := save_succeeds_iff_inOrder (w := Shop.world Shop.orders) hbuilt rfl
    Shop.generates_counter hins
  obtain ⟨_, w', hsave⟩ := Act.exists_of_succeeds
    (show (Shop.session.save ⟨0⟩).succeeds (Shop.world Shop.orders) = true by decide +kernel)
  exact ⟨h.1.1 ⟨w', hsave⟩, w', hsave, h.2 w' hsave⟩

/-- It is not enough that all foreign keys wait for entities that are saved and that they do not wait in
a circle: the invoice of a customer is written before the order that it is for, when the save starts
at the order. -/
theorem save_fails_diamond :
    Shop.diamond.Built Shop.catalog ∧ Shop.session.config.cascade = true ∧
      Connection.Generates Counter Shop.IsInt ∧
      Shop.diamond.Insertable Shop.session Shop.IsInt ⟨0⟩ ∧
      (∀ x y, Shop.diamond.WaitsFor x y → Shop.diamond.LeadsTo ⟨0⟩ y) ∧
      (∀ x, ¬Relation.TransGen Shop.diamond.WaitsFor x x) ∧
      ¬∃ w', Shop.session.save ⟨0⟩ (Shop.world Shop.diamond) = .ok () w' := by
  have hlength : Shop.diamond.entities.length = 3 := by decide
  -- the customer can be written first, then the order, and the invoice last
  have hrank : ∀ x ∈ [EntityId.mk 0, ⟨1⟩, ⟨2⟩], ∀ q ∈ (Shop.diamond.entity x).pending,
      [1, 0, 2].getD q.2.index 0 < [1, 0, 2].getD x.index 0 ∧ q.2 ∈ [EntityId.mk 0, ⟨1⟩] := by
    decide
  have hwaits : ∀ x y, Shop.diamond.WaitsFor x y →
      [1, 0, 2].getD y.index 0 < [1, 0, 2].getD x.index 0 ∧ y ∈ [EntityId.mk 0, ⟨1⟩] := by
    rintro ⟨i⟩ y ⟨name, hname⟩
    have hlt : i < Shop.diamond.entities.length := by
      refine Graph.index_lt_of_ne (e := ⟨i⟩) (v := fun x => x.pending.get? name) ?_
      rw [hname]
      exact Option.some_ne_none y
    have hi : EntityId.mk i ∈ [EntityId.mk 0, ⟨1⟩, ⟨2⟩] := by
      rw [hlength] at hlt
      interval_cases i <;> decide
    exact hrank ⟨i⟩ hi (name, y) (Assoc.mem_of_get? hname)
  have hdescends : ∀ x y, Relation.TransGen Shop.diamond.WaitsFor x y →
      [1, 0, 2].getD y.index 0 < [1, 0, 2].getD x.index 0 := by
    intro x y h
    induction h with
    | single h => exact (hwaits _ _ h).1
    | tail _ h ih => exact (hwaits _ _ h).1.trans ih
  have hins : Shop.diamond.Insertable Shop.session Shop.IsInt ⟨0⟩ := by
    refine Shop.insertable (S := [⟨0⟩, ⟨1⟩, ⟨2⟩]) ?_ ?_ ?_ ?_ ?_ ?_ ?_ <;> decide
  refine ⟨.runAll _ .empty, rfl, Shop.generates_counter, hins, fun x y h => ?_,
    fun x h => Nat.lt_irrefl _ (hdescends x x h), ?_⟩
  · have hy := (hwaits x y h).2
    simp only [List.mem_cons, List.not_mem_nil, or_false] at hy
    rcases hy with rfl | rfl
    · exact .refl
    · have hcustomer : EntityId.mk 1 ∈ Shop.diamond.successors ⟨0⟩ := by decide
      exact .single hcustomer
  · rintro ⟨w', hsave⟩
    obtain ⟨error, w'', hfails⟩ := Act.exists_of_not_succeeds
      (show (Shop.session.save ⟨0⟩).succeeds (Shop.world Shop.diamond) = false by decide)
    rw [hsave] at hfails
    cases hfails

end Session

end EntityGraph
