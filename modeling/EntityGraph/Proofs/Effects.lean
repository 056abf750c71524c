import EntityGraph.Proofs.Keying
import EntityGraph.Proofs.Typing

/-!
# What operations come to

Whatever is done to a graph comes down to a few kinds of changes. Foreign keys are written; entities
and collections are new; relations and collections get what they lead to; values are loaded into
entities that are new; an entity without a key is given one; marks change. `Graph.Effect` lists them,
each with what is known when it happens, so that what every effect keeps is kept by every chain of
effects. Two operations are more than that: assigning an atomic may replace a key, and removing a
member lets a collection shrink.

## Main results

* `Effect.key?` — no effect takes a key away, or changes one, that is not a foreign key;
* `WellTyped.effects` — operations that fit come to effects;
* `WellTyped.altered`, `WellTyped.removed` — what the two others come to;
* `WellTyped.operation` — every operation that fits keeps graphs well typed.
-/

namespace EntityGraph.Graph

variable {c : Catalog} {V : EntityId → Value → Prop} {g g' g'' : Graph} {e x m s : EntityId}
  {i : CollectionId} {f name : String} {a : Atomic} {k v : Value} {slot : Slot Value}

/-- An entity exists and is of the target type of a collection. -/
def Admits (c : Catalog) (g : Graph) (i : CollectionId) (m : EntityId) : Prop :=
  m.index < g.entities.length ∧ c.schema (g.collection i).component.target = .ok (g.entity m).schema

/-- Members that are there, and an admitted one that comes last. -/
theorem Admits.of_mem_append (hm : g.Admits c i m) (hx : x ∈ (g.collection i).members ++ [m]) :
    x ∈ (g.collection i).members ∨ g.Admits c i x := by
  rcases List.mem_append.1 hx with hold | hnew
  · exact .inl hold
  · exact .inr (List.mem_singleton.1 hnew ▸ hm)

/-- What values may be loaded into: an embedded component, or an entity that is new. -/
def Unloaded (g : Graph) (e : EntityId) : Prop :=
  (g.entity e).schema.primaryKey = none ∨
    g.key? e = none ∧ (g.entity e).stored = false ∧ ∀ i, e ∉ (g.collection i).members

/-- A member comes last, and is indexed by its key. -/
def joined (g : Graph) (i : CollectionId) (m : EntityId) (k : Value) : Graph :=
  g.modifyCollection i fun x =>
    { x with members := x.members ++ [m], index := x.index.put k x.members.length }

/-- A member comes last, and the collection listens for its key. -/
def listed (g : Graph) (i : CollectionId) (m : EntityId) : Graph :=
  (g.modifyCollection i fun x => { x with members := x.members ++ [m] }).modifyEntity m fun x =>
    { x with listeners := x.listeners ++ [.collection i] }

/-- A member is gone, and those that are left are indexed anew. -/
def parted (g : Graph) (i : CollectionId) (m : EntityId) : Graph :=
  g.modifyCollection i fun x =>
    { x with
      members := (g.collection i).members.erase m
      index := g.keyIndex ((g.collection i).members.erase m) }

/-- One change of a graph. `V` says which keys an entity may be given. -/
inductive Effect (c : Catalog) (V : EntityId → Value → Prop) (g : Graph) : Graph → Prop
  | rewired {g' : Graph} (h : Rewired c g g') : Effect c V g g'
  | enlarged {g' : Graph} (h : Enlarged g g') : Effect c V g g'
  | remarked {g' : Graph} (h : Remarked c g g') : Effect c V g g'
  | opened {e : EntityId} {comp : Component} {join : Join} (he : e.index < g.entities.length)
      (hcomp : (g.entity e).schema.component? comp.name = some comp)
      (hjoin : c.join (g.entity e).schema comp = .ok join) (hmany : comp.isToMany = true) :
      Effect c V g (g.withCollection e comp join)
  | related {e : EntityId} {u : Entity → Entity} (hu : ∀ x, ∃ toOne, u x = { x with toOne })
      (ht : ∀ name slot t, (u (g.entity e)).toOne.get? name = some slot → slot.value = some t →
        (g.entity e).toOne.get? name = some slot ∨
          t.index < g.entities.length ∧ c.Leads (g.entity e).schema name (g.entity t).schema) :
      Effect c V g (g.modifyEntity e u)
  | joined {i : CollectionId} {m : EntityId} {k : Value} (hm : g.Admits c i m)
      (hk : g.key? m = some k) (hnew : (g.collection i).index.contains k = false) :
      Effect c V g (g.joined i m k)
  | listed {i : CollectionId} {m : EntityId} (hm : g.Admits c i m) (hk : g.key? m = none)
      (hnew : m ∉ (g.collection i).members) : Effect c V g (g.listed i m)
  | loaded {e : EntityId} (values : List (String × Value)) (he : g.Unloaded e) :
      Effect c V g (g.modifyEntity e fun x => values.foldl (fun x p => x.loadAtomic p.1 p.2) x)
  | given {e : EntityId} {a : Atomic} {v w : Value} {g' : Graph} (hv : V e v)
      (hnone : g.key? e = none) (hkey : (g.entity e).schema.primaryKey = some a)
      (hw : a.coerce (g.entity e).schema.name v = .ok w) (h : Keyed e a.name (.loaded w) g g') :
      Effect c V g g'

/-- What some work does to a graph, effect by effect. -/
abbrev Effects (c : Catalog) (V : EntityId → Value → Prop) : Graph → Graph → Prop :=
  Relation.ReflTransGen (Effect c V)

/-! ### Keys -/

namespace Keyed

variable (h : Consistent c g) (hk : Keyed s name slot g g')

include h hk

/-- What is no foreign key is spared when another atomic gets a key. -/
theorem spared (hne : ¬(x = s ∧ f = name)) (hf : ¬c.Refers (g.entity x).schema f) :
    Spared x f g g' := by
  rcases hk.other x f hne with ⟨hpending, hslot⟩ | ⟨hwaits, -⟩
  · exact ⟨hslot, hpending⟩
  · exact absurd (h.waiting x f s hwaits.pending) hf

/-- The keys of others stay, unless they are foreign keys. -/
theorem key?_of_ne (hne : x ≠ s) (hown : c.OwnsKey (g.entity x).schema) : g'.key? x = g.key? x :=
  key?_of_spared (hk.shape.schema x) fun key hkey =>
    hk.spared h (fun heq => hne heq.1) (hown key hkey)

/-- A graph stays consistent if an entity that storage has keeps having a key. -/
theorem consistent (hfixed : (g.entity s).stored = true → (g.entity s).schema.primaryKey.isSome →
      c.OwnsKey (g.entity s).schema → (g'.key? s).isSome) : Consistent c g' := by
  refine h.of_shape hk.shape hk.count (fun i => ?_) (fun x f t hf ht => ?_)
    fun x hstored hsome hown => ?_
  · obtain ⟨index, hindex⟩ := hk.collections i
    rw [hindex]
    exact ⟨rfl, rfl, rfl⟩
  · by_cases heq : x = s ∧ f = name
    · rw [heq.1, heq.2, hk.settled] at ht
      cases ht
    · rwa [(hk.spared h heq hf).pending] at ht
  · rw [(hk.marks x).2] at hstored
    by_cases hxs : x = s
    · subst hxs
      exact hfixed hstored hsome hown
    · rw [hk.key?_of_ne h hxs hown]
      exact h.keyed x hstored hsome hown

end Keyed

/-- The key of an entity is the value of its primary key, unless that is null. -/
theorem key?_of_value (hkey : (g.entity e).schema.primaryKey = some a)
    (h : (g.slot e a.name).map (·.value) = some v) :
    g.key? e = if v.isNull then none else some v := by
  obtain ⟨slot, hslot, rfl⟩ := Option.map_eq_some_iff.1 h
  rw [key?_eq hkey, hslot]
  rfl

/-! ### What effects keep -/

/-- Loading values changes nothing but atomics. -/
theorem view_loaded {α : Type} {v : Entity → α} (hv : ∀ x atomics, v { x with atomics } = v x)
    (values : List (String × Value)) (x : Entity) :
    v (values.foldl (fun x p => x.loadAtomic p.1 p.2) x) = v x := by
  induction values generalizing x with
  | nil => rfl
  | cons p values ih => exact (ih _).trans (hv x _)

/-- Values are loaded into what has no key. -/
theorem Unloaded.key?_eq_none (he : g.Unloaded e) : g.key? e = none := by
  rcases he with hkey | ⟨hnone, -⟩
  · simp [Graph.key?, Entity.key?, Schema.keyName?, hkey]
  · exact hnone

namespace Effect

/-- Entities are not lost. -/
theorem length_le (he : Effect c V g g') : g.entities.length ≤ g'.entities.length := by
  cases he with
  | rewired h => exact Nat.le_of_eq h.shape.length.symm
  | enlarged h => exact h.length
  | remarked h => exact Nat.le_of_eq h.shape.length.symm
  | opened => simp [withCollection]
  | related => simp
  | joined => exact Nat.le_refl _
  | listed => simp [Graph.listed, Graph.modifyCollection]
  | loaded => simp
  | given _ _ _ _ h => exact Nat.le_of_eq h.shape.length.symm

/-- Entities keep their types. -/
theorem schema (he : Effect c V g g') (hx : x.index < g.entities.length) :
    (g'.entity x).schema = (g.entity x).schema := by
  cases he with
  | rewired h => exact h.shape.schema x
  | enlarged h => rw [h.old x hx]
  | remarked h => exact h.shape.schema x
  | opened => exact view_withCollection (v := (·.schema)) (fun _ _ => rfl) _ _ x
  | @related e u hu ht =>
    obtain ⟨toOne, heq⟩ := hu (g.entity e)
    exact view_modifyEntity (v := (·.schema)) (by rw [heq])
  | joined => rfl
  | listed => exact view_modifyEntity (v := (·.schema)) rfl
  | loaded values => exact view_modifyEntity (v := (·.schema)) (view_loaded (fun _ _ => rfl) values _)
  | given _ _ _ _ h => exact h.shape.schema x

/-- A key that is not a foreign key stays. -/
theorem key? (h : Consistent c g) (he : Effect c V g g') (hown : c.OwnsKey (g.entity x).schema)
    (hk : g.key? x = some k) : g'.key? x = some k := by
  cases he with
  | rewired h => rw [h.key? hown, hk]
  | enlarged h =>
    rw [Graph.key?, h.old x (of_key?_isSome (by rw [hk]; rfl)).1]
    exact hk
  | remarked h => rw [h.key? x, hk]
  | opened => exact (view_withCollection (v := Entity.key?) (fun _ _ => rfl) _ _ x).trans hk
  | @related e u hu ht =>
    obtain ⟨toOne, heq⟩ := hu (g.entity e)
    exact (view_modifyEntity (v := Entity.key?) (by rw [heq]; rfl)).trans hk
  | joined => exact hk
  | listed => exact (view_modifyEntity (v := Entity.key?) rfl).trans hk
  | @loaded e values he =>
    have hne : x ≠ e := by
      rintro rfl
      rw [he.key?_eq_none] at hk
      cases hk
    rw [Graph.key?, entity_modifyEntity_of_ne _ hne]
    exact hk
  | @given e a v w g' hv hnone hkey hw hkeyed =>
    have hne : x ≠ e := by
      rintro rfl
      rw [hnone] at hk
      cases hk
    rw [hkeyed.key?_of_ne h hne hown, hk]

/-- A graph stays consistent. -/
theorem consistent (h : Consistent c g) (he : Effect c V g g') : Consistent c g' := by
  cases he with
  | rewired hrewired => exact h.rewired hrewired
  | enlarged henlarged => exact h.enlarged henlarged
  | remarked hremarked => exact h.remarked hremarked
  | opened he hcomp hjoin hmany => exact h.withCollection he hcomp hjoin hmany
  | related hu ht => exact h.related hu ht
  | joined hm _ _ =>
    exact h.modifyCollection (fun _ => ⟨rfl, rfl, rfl⟩) fun _ hx => hm.of_mem_append hx
  | @listed i m hm _ _ =>
    have hjoined := h.modifyCollection (i := i) (u := fun x => { x with members := x.members ++ [m] })
      (fun _ => ⟨rfl, rfl, rfl⟩) fun _ hx => hm.of_mem_append hx
    refine hjoined.rewired (.modifyEntity _ m (fun x => ⟨rfl, rfl, rfl, rfl, rfl, ?_⟩) fun f _ => ?_)
    · exact List.subset_append_left _ _
    · exact .modifyEntity _ m (fun _ _ => rfl) fun _ _ => rfl
  | @loaded e values he =>
    have hview : ∀ {α : Type} {v : Entity → α}, (∀ x atomics, v { x with atomics } = v x) → ∀ x,
        v ((g.modifyEntity e fun x => values.foldl (fun x p => x.loadAtomic p.1 p.2) x).entity x) =
          v (g.entity x) := fun hv x => view_modifyEntity (view_loaded hv values _)
    refine h.of_shape (.modifyEntity g e fun x => ⟨view_loaded (fun _ _ => rfl) values x,
      view_loaded (fun _ _ => rfl) values x, view_loaded (fun _ _ => rfl) values x, fun name => ?_⟩)
      rfl (fun _ => ⟨rfl, rfl, rfl⟩) (fun x f t _ ht => ?_) fun x hstored hsome hown => ?_
    · rw [view_loaded (v := (·.toOne)) fun _ _ => rfl]
    · rwa [hview (v := (·.pending)) fun _ _ => rfl] at ht
    · rw [hview (v := (·.stored)) fun _ _ => rfl] at hstored
      have hne : x ≠ e := by
        rintro rfl
        rcases he with hkey | ⟨-, hnew, -⟩
        · rw [hkey] at hsome
          cases hsome
        · rw [hnew] at hstored
          cases hstored
      rw [Graph.key?, entity_modifyEntity_of_ne _ hne]
      exact h.keyed x hstored hsome hown
  | given _ hnone _ _ hkeyed =>
    refine hkeyed.consistent h fun hstored hsome hown => ?_
    have hhas := h.keyed _ hstored hsome hown
    rw [hnone] at hhas
    cases hhas

end Effect

namespace Effects

theorem consistent (he : Effects c V g g') (h : Consistent c g) : Consistent c g' := by
  induction he with
  | refl => exact h
  | tail _ hstep ih => exact hstep.consistent ih

theorem length_le (he : Effects c V g g') : g.entities.length ≤ g'.entities.length := by
  induction he with
  | refl => exact Nat.le_refl _
  | tail _ hstep ih => exact Nat.le_trans ih hstep.length_le

theorem schema (he : Effects c V g g') (hx : x.index < g.entities.length) :
    (g'.entity x).schema = (g.entity x).schema := by
  induction he with
  | refl => rfl
  | tail hsteps hstep ih => exact (hstep.schema (Nat.lt_of_lt_of_le hx (length_le hsteps))).trans ih

/-- A key that is not a foreign key stays. -/
theorem key? (he : Effects c V g g') (h : Consistent c g) (hown : c.OwnsKey (g.entity x).schema)
    (hk : g.key? x = some k) : g'.key? x = some k := by
  have hx := (of_key?_isSome (by rw [hk]; rfl)).1
  induction he with
  | refl => exact hk
  | tail hsteps hstep ih =>
    exact hstep.key? (consistent hsteps h) (by rwa [schema hsteps hx]) ih

end Effects

/-! ### Operations -/

/-- What an operation needs of the graph that it is made in: assigned and added entities exist; members
are of the target type of the collection, and loaded targets of that of the relation; only foreign keys
are cleared; values are loaded into what is new; only an entity without a key is given one; and only an
entity with a key is marked as stored, unless the key is a foreign key. -/
def Operation.Fits (c : Catalog) (V : EntityId → Value → Prop) (g : Graph) : Operation → Prop
  | .assignOne _ _ target => ∀ t ∈ target, t.index < g.entities.length
  | .push _ m => m.index < g.entities.length
  | .clearForeignKey e name => c.Refers (g.entity e).schema name
  | .append i m => g.Admits c i m
  | .loadOne e name target => ∀ t ∈ target, t.index < g.entities.length ∧
      c.Leads (g.entity e).schema name (g.entity t).schema
  | .loadAtomics e _ => g.Unloaded e
  | .assignGeneratedKey e v => V e v ∧ g.key? e = none ∧ (g.entity e).pending = []
  | .markStored e => (g.entity e).schema.primaryKey.isSome → c.OwnsKey (g.entity e).schema →
      (g.key? e).isSome
  | _ => True

/-- Whether an operation is one that comes to effects. -/
def Operation.quiet : Operation → Bool
  | .assign _ _ _ | .remove _ _ => false
  | _ => true

/-- Assigning a to-one relation writes foreign keys and the relation. -/
theorem WellTyped.ends_assignOne_effects (h : WellTyped c g) {target : Option EntityId}
    (htarget : ∀ t ∈ target, t.index < g.entities.length) :
    (assignOne c e name target).Ends g (fun _ => Effects c V g) (fun _ => Effects c V g) := by
  unfold assignOne
  simp only [Act.ends_bind, Act.ends_get]
  rw [Act.ends_ofExcept]
  refine ⟨fun comp hrelation => ?_, fun _ _ => .refl⟩
  obtain ⟨hcomp, rfl, -⟩ := component?_of_relation hrelation
  have hmem := List.mem_of_find?_eq_some hcomp
  have hrest : ∀ join, c.join (g.entity e).schema comp = .ok join →
      (∀ t, target = some t → c.Leads (g.entity e).schema comp.name (g.entity t).schema) →
      (relink e join (((g.entity e).toOne.get? comp.name).bind (·.value)) target).Ends g
        (fun _ g' => Effects c V g (g'.modifyEntity e fun x =>
          { x with toOne := x.toOne.put comp.name (.dirty target) })) (fun _ => Effects c V g) := by
    intro join hjoin hleads
    have hrelink := ends_relink_rewired (e := e)
      (((g.entity e).toOne.get? comp.name).bind (·.value)) target
      (fun hside => h.toWellFormed.refers_here hmem hjoin hside) fun hside t ht => by
        refine h.toWellFormed.refers_there hmem hjoin hside ?_
        rcases ht with hbefore | hafter
        · obtain ⟨slot, hslot, hvalue⟩ := Option.bind_eq_some_iff.1 hbefore
          exact (h.one e comp.name slot t hslot hvalue).2
        · exact hleads t hafter
    refine hrelink.mono (fun _ g' hg' => ?_) fun _ g' hg' => .single (.rewired hg')
    refine .tail (.single (.rewired hg')) (.related (fun _ => ⟨_, rfl⟩) fun other slot t hslot ht => ?_)
    rcases Assoc.get?_put_cases hslot with ⟨rfl, rfl⟩ | hold
    · rw [hg'.shape.length, hg'.shape.schema, hg'.shape.schema]
      exact .inr ⟨htarget t ht, hleads t ht⟩
    · exact .inl hold.2
  cases target with
  | none =>
    simp only [Act.ends_bind, Act.ends_ofExcept, Act.ends_modify]
    exact ⟨fun join hjoin => hrest join hjoin (by rintro _ ⟨⟩), fun _ _ => .refl⟩
  | some t =>
    simp only [Act.ends_bind, Act.ends_ofExcept, Act.ends_modify]
    refine ⟨fun _ hcheck => ⟨fun join hjoin => hrest join hjoin ?_, fun _ _ => .refl⟩, fun _ _ => .refl⟩
    rintro _ ⟨⟩
    obtain ⟨s, hs, -⟩ := bind_eq_ok_iff.1 hjoin
    exact ⟨comp, hcomp, h.toWellFormed.schema_of_checkTarget (htarget t rfl) hs hcheck⟩

/-- The collection of a relation is there or is made. -/
theorem ends_many_effects (c : Catalog) (V : EntityId → Value → Prop) (g : Graph) (e : EntityId)
    (name : String) :
    (many c e name).Ends g (fun _ => Effects c V g) (fun _ => Effects c V g) := by
  unfold many
  simp only [Act.ends_bind, Act.ends_get]
  rw [Act.ends_ofExcept]
  refine ⟨fun comp hrelation => ?_, fun _ _ => .refl⟩
  obtain ⟨hcomp, rfl, hmany⟩ := component?_of_relation hrelation
  split
  · exact .refl
  · simp only [Act.ends_bind, Act.ends_ofExcept]
    exact ⟨fun join hjoin => .single (.opened (index_lt_of_component? hcomp) hcomp hjoin hmany),
      fun _ _ => .refl⟩

/-- A collection that admits an entity takes it, unless it is a member already. -/
theorem ends_append_effects (hm : g.Admits c i m) :
    (append i m).Ends g (fun _ => Effects c V g) (fun _ _ => False) := by
  unfold append
  simp only [Act.ends_bind, Act.ends_get]
  split
  · next k hk =>
    simp only [Act.ends_ite, Act.ends_pure, Act.ends_bind, Act.ends_modify]
    exact ⟨fun _ => .refl, fun hnew => .single (.joined hm hk (by simpa using hnew))⟩
  · next hk =>
    simp only [Act.ends_ite, Act.ends_pure, Act.ends_bind, Act.ends_modify, addListener]
    exact ⟨fun _ => .refl, fun hnew => .single (.listed hm hk (by simpa using hnew))⟩

/-- Adding a member writes its foreign key. -/
theorem WellTyped.ends_push_effects (h : WellTyped c g) (hi : i.index < g.collections.length)
    (hm : m.index < g.entities.length) :
    (push i m).Ends g (fun _ => Effects c V g) (fun _ => Effects c V g) := by
  unfold push
  simp only [Act.ends_bind, Act.ends_get, Act.ends_ofExcept, Act.ends_ite, Act.ends_pure]
  refine ⟨fun _ hcheck => ?_, fun _ _ => .refl⟩
  obtain ⟨t, ht⟩ := h.collections i hi
  have htype := h.toWellFormed.schema_of_checkTarget hm ht hcheck
  refine (ends_append_effects (V := V) ⟨hm, htype⟩).mono (fun _ g₁ h₁ => ⟨fun _ => ?_, fun _ => h₁⟩)
    fun _ _ hno => hno.elim
  have hrefers := h.toConsistent.refers_of_member h.toWellFormed hi htype
  rw [← Effects.schema h₁ hm] at hrefers
  exact (ends_link_rewired hrefers _ _).mono (fun _ _ hg' => h₁.tail (.rewired hg'))
    fun _ _ hg' => h₁.tail (.rewired hg')

/-- Operations that fit come to effects, apart from assigning an atomic and removing a member. -/
theorem WellTyped.effects (h : WellTyped c g) {op : Operation} (hop : op.Fits c V g)
    (hquiet : op.quiet = true) : Effects c V g ((op.run c).final g) := by
  rw [← Act.ends_final_iff (R := Effects c V g)]
  cases op with
  | create type =>
    simp only [Operation.run, Act.ends_bind, Act.ends_ofExcept]
    exact ⟨fun s _ => .single (.enlarged (.newEntity g s)), fun _ _ => .refl⟩
  | assign e name v => cases hquiet
  | assignOne e name target => exact h.ends_assignOne_effects hop
  | many e name =>
    simp only [Operation.run, Act.ends_bind, Act.ends_pure]
    exact ends_many_effects c V g e name
  | embedded e name =>
    simp only [Operation.run, Act.ends_bind, Act.ends_pure]
    exact (ends_embedded_enlarged h.toWellFormed e name).mono
      (fun _ _ hg' => .single (.enlarged hg'.1)) fun _ _ heq => heq ▸ .refl
  | push i m =>
    simp only [Operation.run, Act.ends_bind, Act.ends_get, Act.ends_ite, Act.ends_pure]
    exact ⟨fun hi => h.ends_push_effects hi hop, fun _ => .refl⟩
  | remove i m => cases hquiet
  | releaseMembers i =>
    exact (ends_releaseMembers_rewired fun m hm => h.toConsistent.refers_of_member h.toWellFormed
      (index_lt_of_member hm) (h.members i m hm).2).mono (fun _ _ hg' => .single (.rewired hg'))
        fun _ _ hg' => .single (.rewired hg')
  | clearForeignKey e name => exact .single (.rewired (.cleared hop))
  | append i m =>
    simp only [Operation.run, Act.ends_bind, Act.ends_pure]
    exact (ends_append_effects hop).mono (fun _ _ hg' => hg') fun _ _ hno => hno.elim
  | loadOne e name target =>
    refine .single (.related (fun x => ?_) fun other slot t hslot ht => ?_)
    · split <;> exact ⟨_, rfl⟩
    · split at hslot
      · exact .inl hslot
      · rcases Assoc.get?_put_cases hslot with ⟨rfl, rfl⟩ | hold
        · exact .inr (hop t ht)
        · exact .inl hold.2
  | loadAtomics e values => exact .single (.loaded values hop)
  | assignGeneratedKey e v =>
    obtain ⟨hv, hnone, hpending⟩ := hop
    refine (keyed_assignGeneratedKey h.toWellFormed hpending v).mono (fun _ g' hg' => ?_)
      fun _ g' hg' => ?_
    · obtain ⟨a, w, hkey, hw, hkeyed⟩ := hg'
      exact .single (.given hv hnone hkey hw hkeyed)
    · rcases hg' with rfl | ⟨a, w, hkey, hw, hkeyed⟩
      · exact .refl
      · exact .single (.given hv hnone hkey hw hkeyed)
  | markClean e => exact .single (.remarked (.markClean c g e))
  | markStored e => exact .single (.remarked (.markStored h.toWellFormed hop))
  | markDeleted e => exact .single (.remarked (.markDeleted c g e))

/-! ### Assigning an atomic -/

/-- A foreign key that is assigned does not wait. -/
theorem Consistent.settle (h : Consistent c g) (e : EntityId)
    (name : String) : Rewired c g (g.modifyEntity e (·.settle name)) := by
  refine .modifyEntity g e (fun _ => ⟨rfl, rfl, rfl, rfl, rfl, List.Subset.refl _⟩) fun f hf => ?_
  refine ⟨by rw [Graph.slot, atomics_settle, Graph.slot], ?_⟩
  by_cases hname : f = name
  · subst hname
    rw [pending_settle_self]
    cases hwaits : (g.entity e).pending.get? f with
    | none => rfl
    | some s => exact absurd (h.waiting e f s hwaits) hf
  · exact pending_settle_of_ne fun heq => hname heq.2

/-- An atomic of an entity has been assigned, if it can be. The key of an entity that storage has stays.
Where an entity has got a key, everything that listens has been told; where nothing has been told, the
entity has kept its key or lost it. Keys that are foreign keys are left out of account. -/
structure Altered (c : Catalog) (e : EntityId) (g g' : Graph) : Prop where
  shape : g.SameShape g'
  consistent : Consistent c g'
  others : ∀ x, x ≠ e → c.OwnsKey (g.entity x).schema → g'.key? x = g.key? x
  fixed : (g.entity e).stored = true → c.OwnsKey (g.entity e).schema → g'.key? e = g.key? e
  told : (g'.collections = g.collections ∧ (∀ x, (g.entity x).listeners ⊆ (g'.entity x).listeners) ∧
      (c.OwnsKey (g.entity e).schema → g'.key? e = g.key? e ∨ g'.key? e = none)) ∨
    ∃ a slot, (g.entity e).schema.primaryKey = some a ∧ slot.value ≠ .null ∧ Keyed e a.name slot g g'

namespace Altered

/-- At most foreign keys have been written. -/
theorem of_rewired (h : Consistent c g) (hg' : Rewired c g g') (e : EntityId) : Altered c e g g' where
  shape := hg'.shape
  consistent := h.rewired hg'
  others _ _ hown := hg'.key? hown
  fixed _ hown := hg'.key? hown
  told := .inl ⟨hg'.collections, hg'.listeners, fun hown => .inl (hg'.key? hown)⟩

/-- After foreign keys, an atomic has got a value that is not a key. -/
theorem put (h : Consistent c g) (hg' : Rewired c g g')
    (hkey : c.OwnsKey (g.entity e).schema → (g'.put e name slot).key? e = g.key? e ∨
      (g.entity e).stored = false ∧ (g'.put e name slot).key? e = none) :
    Altered c e g (g'.put e name slot) := by
  have hshape := hg'.shape.trans (sameShape_put g' e name slot)
  have hothers : ∀ x, x ≠ e → c.OwnsKey (g.entity x).schema →
      (g'.put e name slot).key? x = g.key? x := fun x hx hown => by
    rw [Graph.key?, Graph.put, entity_modifyEntity_of_ne _ hx, ← Graph.key?, hg'.key? hown]
  have hfixed : (g.entity e).stored = true → c.OwnsKey (g.entity e).schema →
      (g'.put e name slot).key? e = g.key? e := fun hstored hown =>
    (hkey hown).resolve_right fun hno => by rw [hno.1] at hstored; cases hstored
  have hconsistent := h.rewired hg'
  refine ⟨hshape, ?_, hothers, hfixed, .inl ⟨hg'.collections, fun x => ?_, fun hown =>
    (hkey hown).imp_right (·.2)⟩⟩
  · refine hconsistent.of_shape (sameShape_put g' e name slot) rfl (fun _ => ⟨rfl, rfl, rfl⟩)
      (fun x f s _ hs => ?_) fun x hstored hsome hown => ?_
    · rwa [pending_put] at hs
    · rw [Graph.put, view_modifyEntity (v := (·.stored)) rfl, hg'.stored] at hstored
      rw [hg'.shape.schema] at hsome hown
      have hsame : (g'.put e name slot).key? x = g.key? x := by
        by_cases hx : x = e
        · subst hx
          exact hfixed hstored hown
        · exact hothers x hx hown
      rw [hsame]
      exact h.keyed x hstored hsome hown
  · rw [listeners_put]
    exact hg'.listeners x

/-- The entity has got a key. -/
theorem keyed (h : Consistent c g) (hkey : (g.entity e).schema.primaryKey = some a)
    (hnull : slot.value ≠ .null) (hk : Keyed e a.name slot g g')
    (hfixed : (g.entity e).stored = true → (g.slot e a.name).map (·.value) = some slot.value) :
    Altered c e g g' := by
  have hself := hk.key?_self hkey rfl
  rw [if_neg (by simpa using hnull)] at hself
  refine ⟨hk.shape, hk.consistent h fun _ _ _ => by rw [hself]; rfl, fun x hx hown =>
    hk.key?_of_ne h hx hown, fun hstored _ => ?_, .inr ⟨a, slot, hkey, hnull, hk⟩⟩
  rw [hself, key?_of_value hkey (hfixed hstored), if_neg (by simpa using hnull)]

end Altered

/-- A value that is no key leaves the key as it is, or takes it from an entity that storage does not
have. -/
theorem WellFormed.key?_put_dirty (hwf : g.WellFormed c) (hfound : (g.entity e).schema.atomic? a.name = some a)
    (hno : ¬(a.primaryKey = true ∧ v ≠ .null))
    (hfixed : a.primaryKey = true → (g.entity e).stored = true →
      (g.slot e a.name).map (·.value) = some v)
    (hg' : Rewired c g g') (hown : c.OwnsKey (g.entity e).schema) :
    (g'.put e a.name (.dirty v)).key? e = g.key? e ∨
      (g.entity e).stored = false ∧ (g'.put e a.name (.dirty v)).key? e = none := by
  have hschema : ((g'.put e a.name (.dirty v)).entity e).schema = (g.entity e).schema :=
    schema_put.trans (hg'.shape.schema e)
  cases hkey : (g.entity e).schema.primaryKey with
  | none => exact .inl (by simp [Graph.key?, Entity.key?, Schema.keyName?, hschema, hkey])
  | some key =>
    by_cases hname : a.name = key.name
    · -- the value is null then
      have hmem := (Schema.mem_of_atomic? hfound).1
      have hprimary := hwf.primaryKey_of_name (a := a) (by simp [Schema.keyName?, hkey, hname]) hmem
      have hmarked := (Catalog.primaryKey_iff (hwf.schema_of_primaryKey hprimary) hprimary hmem).2 rfl
      have hnull : v = .null := by_contra fun hne => hno ⟨hmarked, hne⟩
      have hafter : (g'.put e a.name (.dirty v)).key? e = none := by
        have hlt : e.index < g'.entities.length := hg'.shape.length ▸ index_lt_of_primaryKey hkey
        rw [key?_of_value (v := v) (hschema.symm ▸ hprimary) (by rw [slot_put_self hlt]; rfl), hnull]
        rfl
      by_cases hstored : (g.entity e).stored = true
      · refine .inl (hafter.trans ?_)
        rw [key?_of_value hprimary (hfixed hmarked hstored), hnull]
        rfl
      · exact .inr ⟨by simpa using hstored, hafter⟩
    · refine .inl ?_
      rw [key?_eq (hschema.symm ▸ hkey), key?_eq hkey, slot_put_of_ne fun heq => hname heq.2.symm,
        (hg'.spared e key.name (hown key hkey)).slot]

/-- Assigning an atomic, whatever comes of it. -/
theorem WellTyped.ends_assign (h : WellTyped c g) (e : EntityId) (name : String) (v : Value) :
    (assign e name v).Ends g (fun _ => Altered c e g) (fun _ => Altered c e g) := by
  have hkeyed : ∀ {g' a w}, (g.entity e).schema.atomic? name = some a → a.name = name →
      (a.primaryKey = true → (g.entity e).stored = true → (g.slot e name).map (·.value) = some w) →
      a.primaryKey = true → w ≠ .null → Keyed e name (.dirty w) g g' → Altered c e g g' := by
    rintro g' a w hfound rfl hfixed hmarked hnull hk
    have hlt : e.index < g.entities.length := index_lt_of_atomic? hfound
    exact .keyed h.toConsistent ((h.known e hlt).primaryKey_eq (Schema.mem_of_atomic? hfound).1 hmarked)
      hnull hk (hfixed hmarked)
  refine (keyed_assign h.toWellFormed e name v).mono (fun _ g' hg' => ?_) fun _ g' hg' => ?_
  · obtain ⟨a, w, hfound, rfl, -, hfixed, hcases⟩ := hg'
    have hsettled := h.toConsistent.settle e a.name
    obtain ⟨-, rfl⟩ | ⟨hno, rfl⟩ | ⟨hmarked, hnull, hk⟩ := hcases
    · exact .of_rewired h.toConsistent hsettled e
    · exact .put h.toConsistent hsettled (h.toWellFormed.key?_put_dirty hfound hno hfixed hsettled)
    · exact hkeyed hfound rfl hfixed hmarked hnull hk
  · rcases hg' with rfl | ⟨a, w, hfound, hname, -, hfixed, hmarked, hnull, -, hk⟩
    · exact .of_rewired h.toConsistent (.refl c g') e
    · exact hkeyed hfound hname hfixed hmarked hnull hk

theorem WellTyped.altered (h : WellTyped c g) (e : EntityId) (name : String) (v : Value) :
    Altered c e g ((Operation.run c (.assign e name v)).final g) :=
  Act.ends_final_iff.1 (h.ends_assign e name v)

/-! ### Removing a member -/

/-- A graph in which a member is gone is consistent. -/
theorem Consistent.parted (h : Consistent c g) (i : CollectionId) (m : EntityId) :
    Consistent c (g.parted i m) :=
  h.modifyCollection (fun _ => ⟨rfl, rfl, rfl⟩) fun _ hx => .inl (List.mem_of_mem_erase hx)

/-- A removal does nothing, or takes a member away and writes foreign keys. -/
inductive Removed (c : Catalog) (i : CollectionId) (m : EntityId) (g : Graph) : Graph → Prop
  | nothing : Removed c i m g g
  | parted {g' : Graph} (hg' : Rewired c (g.parted i m) g') : Removed c i m g g'

namespace Removed

variable (h : Removed c i m g g')

include h

theorem consistent (hg : Consistent c g) : Consistent c g' := by
  cases h with
  | nothing => exact hg
  | parted hg' => exact (hg.parted i m).rewired hg'

theorem length : g'.entities.length = g.entities.length := by
  cases h with
  | nothing => rfl
  | parted hg' => exact hg'.shape.length

theorem schema (x : EntityId) : (g'.entity x).schema = (g.entity x).schema := by
  cases h with
  | nothing => rfl
  | parted hg' => exact hg'.shape.schema x

/-- A key that is not a foreign key stays. -/
theorem key? (hown : c.OwnsKey (g.entity x).schema) : g'.key? x = g.key? x := by
  cases h with
  | nothing => rfl
  | parted hg' => exact hg'.key? hown

end Removed

/-- Removing a member, whatever comes of it. -/
theorem WellTyped.removed (h : WellTyped c g) (i : CollectionId) (m : EntityId) :
    Removed c i m g ((Operation.run c (.remove i m)).final g) := by
  rw [← Act.ends_final_iff (R := Removed c i m g)]
  simp only [Operation.run, remove, Act.ends_bind, Act.ends_get, Act.ends_ite, Act.ends_modify,
    Act.ends_pure]
  refine ⟨fun hm => ?_, fun _ => .nothing⟩
  have hm : m ∈ (g.collection i).members := by simpa using hm
  have hrefers : c.Refers ((g.parted i m).entity m).schema (g.collection i).join.foreignKey :=
    h.toConsistent.refers_of_member h.toWellFormed (index_lt_of_member hm) (h.members i m hm).2
  exact (ends_writeForeignKey_rewired hrefers .null).mono (fun _ _ => .parted) fun _ _ => .parted

/-- Every operation that fits keeps graphs well typed. -/
theorem WellTyped.operation (h : WellTyped c g) {op : Operation} (hop : op.Fits c V g) :
    WellTyped c ((op.run c).final g) := by
  refine ⟨Act.ends_final_iff.1 (WellFormed.operation op g h.toWellFormed), ?_⟩
  cases op with
  | assign e name v => exact (h.altered e name v).consistent
  | remove i m => exact (h.removed i m).consistent h.toConsistent
  | _ => exact (h.effects hop rfl).consistent h.toConsistent

end EntityGraph.Graph
