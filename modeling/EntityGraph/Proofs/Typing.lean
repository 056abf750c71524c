import EntityGraph.Proofs.Mirrored
import EntityGraph.Proofs.Rewiring

/-!
# Well-typed graphs

Whatever callers and sessions do, relations lead to entities of their target types, collections have
the relation and the join that their owner's type declares, only foreign keys wait for the keys of
others, and an entity that storage has has its primary key, unless that is the foreign key of some
relation. Each kind of change keeps that, as far as it concerns what is changed.

* `Graph.Consistent` — what relations, collections, foreign keys and marks are like;
* `Graph.WellTyped` — the same of a well-formed graph;
* `Consistent.of_shape` — a change that keeps the shape and at most lets foreign keys wait;
* `Consistent.related`, `Consistent.modifyCollection` — relations and collections get what they lead to;
* `Consistent.enlarged`, `Consistent.withCollection` — new entities and collections.
-/

namespace EntityGraph.Graph

variable {c : Catalog} {g g' : Graph} {e m : EntityId} {i : CollectionId} {comp : Component}
  {join : Join} {s t : Schema}

/-- What relations, collections, foreign keys and marks are like. -/
structure Consistent (c : Catalog) (g : Graph) : Prop where
  one : ∀ x name slot t, (g.entity x).toOne.get? name = some slot → slot.value = some t →
    t.index < g.entities.length ∧ c.Leads (g.entity x).schema name (g.entity t).schema
  many : ∀ x name i, (g.entity x).toMany.get? name = some i → i.index < g.collections.length ∧
    (g.collection i).owner = x ∧ (g.collection i).component.name = name
  collection : ∀ i, i.index < g.collections.length →
    (g.collection i).owner.index < g.entities.length ∧
    (g.entity (g.collection i).owner).schema.component? (g.collection i).component.name =
      some (g.collection i).component ∧
    c.join (g.entity (g.collection i).owner).schema (g.collection i).component =
      .ok (g.collection i).join ∧
    (g.collection i).component.isToMany = true
  members : ∀ i m, m ∈ (g.collection i).members → m.index < g.entities.length ∧
    c.schema (g.collection i).component.target = .ok (g.entity m).schema
  waiting : ∀ x f s, (g.entity x).pending.get? f = some s → c.Refers (g.entity x).schema f
  keyed : ∀ x, (g.entity x).stored = true → (g.entity x).schema.primaryKey.isSome →
    c.OwnsKey (g.entity x).schema → (g.key? x).isSome

/-- What every operation that fits keeps. -/
structure WellTyped (c : Catalog) (g : Graph) : Prop extends WellFormed c g, Consistent c g

/-! ### Relations have foreign keys -/

/-- Members of a collection have its foreign key. -/
theorem Consistent.refers_of_member (h : Consistent c g) (hwf : g.WellFormed c)
    (hi : i.index < g.collections.length) (hm : c.schema (g.collection i).component.target = .ok t) :
    c.Refers t (g.collection i).join.foreignKey := by
  obtain ⟨howner, hcomp, hjoin, hmany⟩ := h.collection i hi
  exact ⟨_, _, _, hwf.known _ howner, List.mem_of_find?_eq_some hcomp, hjoin, rfl,
    .inr ⟨.inr hmany, _, .self _, _, hcomp, hm⟩⟩

/-- A to-one relation whose foreign key is on this side has it among the atomics of the type. -/
theorem WellFormed.refers_here (hwf : g.WellFormed c) (hcomp : comp ∈ (g.entity e).schema.components)
    (hjoin : c.join (g.entity e).schema comp = .ok join) (hside : join.side = .here) :
    c.Refers (g.entity e).schema join.foreignKey := by
  exact ⟨_, comp, join, hwf.known_of_component hcomp, hcomp, hjoin, rfl, .inl ⟨hside, rfl⟩⟩

/-- A relation whose foreign key is on the other side has it among the atomics of what it leads to. -/
theorem WellFormed.refers_there (hwf : g.WellFormed c) (hcomp : comp ∈ (g.entity e).schema.components)
    (hjoin : c.join (g.entity e).schema comp = .ok join) (hside : join.side = .there)
    (hleads : c.Leads (g.entity e).schema comp.name t) : c.Refers t join.foreignKey := by
  exact ⟨_, comp, join, hwf.known_of_component hcomp, hcomp, hjoin, rfl,
    .inr ⟨.inl hside, _, .self _, hleads⟩⟩

/-- An entity that a relation takes is of its target type. -/
theorem WellFormed.schema_of_checkTarget (hwf : g.WellFormed c) (ht : m.index < g.entities.length)
    (htarget : c.schema comp.target = .ok t) (hcheck : checkTarget s comp (g.entity m).schema = .ok ()) :
    c.schema comp.target = .ok (g.entity m).schema := by
  unfold checkTarget at hcheck
  split at hcheck
  · next hname =>
    rcases (hwf.known m ht).cases with hs | ⟨table, hs⟩
    · rwa [hname] at hs
    · obtain ⟨d, hd, -⟩ := hs.type
      obtain ⟨d', hd', -⟩ := Catalog.builtAs_of_schema htarget
      exact absurd hd' (hname ▸ Catalog.not_entity_of_embeddable hd)
  · cases hcheck

/-! ### Marks -/

/-- At most marks have changed: what storage has now it had before, or has its key. -/
structure Remarked (c : Catalog) (g g' : Graph) : Prop where
  shape : g.SameShape g'
  collections : g'.collections = g.collections
  pending : ∀ x, (g'.entity x).pending = (g.entity x).pending
  listeners : ∀ x, (g'.entity x).listeners = (g.entity x).listeners
  key? : ∀ x, g'.key? x = g.key? x
  stored : ∀ x, (g'.entity x).stored = true → (g.entity x).stored = true ∨
    ((g.entity x).schema.primaryKey.isSome → c.OwnsKey (g.entity x).schema → (g.key? x).isSome)

/-- Parts of an entity are marked. -/
theorem Remarked.modifyParts {u : Entity → Entity} (hshape : g.SameShape (g.modifyParts e u))
    (hu : ∀ x, (u x).pending = x.pending ∧ (u x).listeners = x.listeners ∧ (u x).key? = x.key?)
    (hstored : ∀ x, ((g.modifyParts e u).entity x).stored = true → (g.entity x).stored = true ∨
      ((g.entity x).schema.primaryKey.isSome → c.OwnsKey (g.entity x).schema → (g.key? x).isSome)) :
    Remarked c g (g.modifyParts e u) where
  shape := hshape
  collections := collections_modifyParts g e u
  pending := view_modifyParts (v := (·.pending)) (fun x => (hu x).1) g e
  listeners := view_modifyParts (v := (·.listeners)) (fun x => (hu x).2.1) g e
  key? := view_modifyParts (v := Entity.key?) (fun x => (hu x).2.2) g e
  stored := hstored

/-- Values become clean. -/
theorem Remarked.markClean (c : Catalog) (g : Graph) (e : EntityId) : Remarked c g (g.markClean e) := by
  refine .modifyParts (.markClean g e) (fun x => ⟨rfl, rfl, x.key?_markClean⟩) fun x hx => .inl ?_
  rwa [view_modifyParts (v := (·.stored)) (f := Entity.markClean) fun _ => rfl] at hx

/-- Storage has an entity that has its key. -/
theorem Remarked.markStored (hwf : g.WellFormed c)
    (hkey : (g.entity e).schema.primaryKey.isSome → c.OwnsKey (g.entity e).schema →
      (g.key? e).isSome) :
    Remarked c g (g.markStored e) := by
  refine .modifyParts (.markStored g e) (fun _ => ⟨rfl, rfl, rfl⟩) fun x hx => ?_
  rcases entity_foldl_modifyEntity (f := fun x : Entity => { x with stored := true }) (fun _ => rfl)
    (g.parts e) g x with heq | ⟨hmem, -⟩
  · rw [Graph.modifyParts, heq] at hx
    exact .inl hx
  · by_cases hxe : x = e
    · exact .inr (hxe ▸ hkey)
    · -- the components of an entity have no keys
      refine .inr fun hsome _ => ?_
      rw [hwf.noKey_of_part hmem hxe] at hsome
      cases hsome

/-- Storage has an entity no more. -/
theorem Remarked.markDeleted (c : Catalog) (g : Graph) (e : EntityId) :
    Remarked c g (g.markDeleted e) := by
  refine .modifyParts (.markDeleted g e) (fun x => ⟨rfl, rfl, x.key?_markDeleted⟩) fun x hx => ?_
  rcases entity_foldl_modifyEntity (f := Entity.markDeleted) markDeleted_markDeleted
    (g.parts e) g x with heq | ⟨-, heq⟩ <;> rw [Graph.modifyParts, heq] at hx
  · exact .inl hx
  · cases hx

/-! ### What keeps a graph consistent -/

namespace Consistent

theorem empty (c : Catalog) : Consistent c {} where
  one _ _ _ _ h := by cases h
  many _ _ _ h := by cases h
  collection i hi := absurd hi (Nat.not_lt_zero _)
  members _ _ h := by cases h
  waiting _ _ _ h := by cases h
  keyed _ h := by cases h

variable (h : Consistent c g)

include h

/-- A graph of the same shape with collections for the same relations, in which at most foreign keys
wait that did not, and in which what storage has has a key. -/
theorem of_shape (hshape : g.SameShape g') (hcount : g'.collections.length = g.collections.length)
    (hcollections : ∀ i, (g'.collection i).owner = (g.collection i).owner ∧
      (g'.collection i).component = (g.collection i).component ∧
      (g'.collection i).join = (g.collection i).join)
    (hwaiting : ∀ x f s, ¬c.Refers (g.entity x).schema f →
      (g'.entity x).pending.get? f = some s → (g.entity x).pending.get? f = some s)
    (hkeyed : ∀ x, (g'.entity x).stored = true → (g.entity x).schema.primaryKey.isSome →
      c.OwnsKey (g.entity x).schema → (g'.key? x).isSome) : Consistent c g' where
  one x name slot t hslot ht := by
    have hsame := hshape.toOne x name
    rw [hslot] at hsame
    obtain ⟨slot', hslot', hvalue⟩ := Option.map_eq_some_iff.1 hsame.symm
    rw [hshape.length, hshape.schema, hshape.schema]
    exact h.one x name slot' t hslot' (hvalue.trans ht)
  many x name i hi := by
    rw [hcount, (hcollections i).1, (hcollections i).2.1]
    exact h.many x name i (hshape.toMany x ▸ hi)
  collection i hi := by
    obtain ⟨howner, hcomponent, hjoin⟩ := hcollections i
    rw [howner, hcomponent, hjoin, hshape.length, hshape.schema]
    exact h.collection i (hcount ▸ hi)
  members i m hm := by
    rw [(hcollections i).2.1, hshape.length, hshape.schema]
    exact h.members i m (hshape.members i ▸ hm)
  waiting x f s hs := by
    rw [hshape.schema]
    by_contra hnot
    exact hnot (h.waiting x f s (hwaiting x f s hnot hs))
  keyed x hstored hkey hown := by
    rw [hshape.schema] at hkey hown
    exact hkeyed x hstored hkey hown

/-- Writing foreign keys keeps a graph consistent. -/
theorem rewired (hrewired : Rewired c g g') : Consistent c g' := by
  have hcollection := collection_congr hrewired.collections
  refine h.of_shape hrewired.shape (by rw [hrewired.collections])
    (fun i => by rw [hcollection]; exact ⟨rfl, rfl, rfl⟩) (fun x f s hf hs => ?_)
    fun x hstored hkey hown => ?_
  · rwa [(hrewired.spared x f hf).pending] at hs
  · rw [hrewired.key? hown]
    exact h.keyed x (hrewired.stored x ▸ hstored) hkey hown

/-- Marks keep a graph consistent. -/
theorem remarked (hremarked : Remarked c g g') : Consistent c g' := by
  have hcollection := collection_congr hremarked.collections
  refine h.of_shape hremarked.shape (by rw [hremarked.collections])
    (fun i => by rw [hcollection]; exact ⟨rfl, rfl, rfl⟩) (fun x f s _ hs => ?_)
    fun x hstored hkey hown => ?_
  · rwa [hremarked.pending] at hs
  · rw [hremarked.key?]
    exact (hremarked.stored x hstored).elim (fun hold => h.keyed x hold hkey hown) fun hk => hk hkey hown

/-- To-one relations of an entity get targets of their target types, or none. -/
theorem related {u : Entity → Entity} (hu : ∀ x, ∃ toOne, u x = { x with toOne })
    (ht : ∀ name slot t, (u (g.entity e)).toOne.get? name = some slot → slot.value = some t →
      (g.entity e).toOne.get? name = some slot ∨
        t.index < g.entities.length ∧ c.Leads (g.entity e).schema name (g.entity t).schema) :
    Consistent c (g.modifyEntity e u) := by
  have hview : ∀ {α : Type} {v : Entity → α}, (∀ x toOne, v { x with toOne } = v x) → ∀ x,
      v ((g.modifyEntity e u).entity x) = v (g.entity x) := by
    intro α v hv x
    obtain ⟨toOne, heq⟩ := hu (g.entity e)
    exact view_modifyEntity (by rw [heq, hv])
  have hschema := hview (v := (·.schema)) fun _ _ => rfl
  have hkey := hview (v := Entity.key?) fun _ _ => rfl
  refine ⟨fun x other slot t hslot htarget => ?_, fun x other i hi => ?_, fun i hi => ?_,
    fun i m hm => ?_, fun x f s hs => ?_, fun x hmarked hsome hown => ?_⟩
  · rw [length_modifyEntity, hschema, hschema]
    rcases entity_modifyEntity_cases g x e u with hx | ⟨rfl, -, hx⟩ <;> rw [hx] at hslot
    · exact h.one x other slot t hslot htarget
    · exact (ht other slot t hslot htarget).elim (fun hold => h.one x other slot t hold htarget) id
  · exact h.many x other i (hview (v := (·.toMany)) (fun _ _ => rfl) x ▸ hi)
  · rw [length_modifyEntity, hschema]
    exact h.collection i hi
  · rw [length_modifyEntity, hschema]
    exact h.members i m hm
  · rw [hschema]
    exact h.waiting x f s (hview (v := (·.pending)) (fun _ _ => rfl) x ▸ hs)
  · rw [hschema] at hsome hown
    rw [Graph.key?, hkey x]
    exact h.keyed x (hview (v := (·.stored)) (fun _ _ => rfl) x ▸ hmarked) hsome hown

/-- A collection gets members of its target type. -/
theorem modifyCollection {u : Collection → Collection}
    (hu : ∀ C : Collection, (u C).owner = C.owner ∧ (u C).component = C.component ∧
      (u C).join = C.join)
    (hmembers : ∀ m ∈ (u (g.collection i)).members, m ∈ (g.collection i).members ∨
      (m.index < g.entities.length ∧
        c.schema (g.collection i).component.target = .ok (g.entity m).schema)) :
    Consistent c (g.modifyCollection i u) := by
  have hview : ∀ j, ((g.modifyCollection i u).collection j).owner = (g.collection j).owner ∧
      ((g.modifyCollection i u).collection j).component = (g.collection j).component ∧
      ((g.modifyCollection i u).collection j).join = (g.collection j).join := fun j =>
    ⟨view_modifyCollection (v := (·.owner)) fun C => (hu C).1,
      view_modifyCollection (v := (·.component)) fun C => (hu C).2.1,
      view_modifyCollection (v := (·.join)) fun C => (hu C).2.2⟩
  refine ⟨h.one, fun x other j hj => ?_, fun j hj => ?_, fun j m hm => ?_, h.waiting, h.keyed⟩
  · rw [length_modifyCollection, (hview j).1, (hview j).2.1]
    exact h.many x other j hj
  · rw [(hview j).1, (hview j).2.1, (hview j).2.2]
    exact h.collection j (length_modifyCollection i u ▸ hj)
  · rw [(hview j).2.1]
    by_cases hji : j = i
    · subst hji
      rcases collection_modifyCollection_cases g j j u with heq | heq <;> rw [heq] at hm
      · exact h.members j m hm
      · exact (hmembers m hm).elim (h.members j m) fun hnew => hnew
    · rw [collection_modifyCollection_of_ne u hji] at hm
      exact h.members j m hm

end Consistent

/-! ### New entities and collections -/

/-- Some entities are new: nothing is known of them, and those that storage has have no primary key.
The others are as they were, apart from embedded components. -/
structure Enlarged (g g' : Graph) : Prop where
  length : g.entities.length ≤ g'.entities.length
  old : ∀ x, x.index < g.entities.length →
    g'.entity x = { g.entity x with embedded := (g'.entity x).embedded }
  new : ∀ x, g.entities.length ≤ x.index → (g'.entity x).toOne = [] ∧ (g'.entity x).toMany = [] ∧
    (g'.entity x).pending = [] ∧
    ((g'.entity x).stored = true → (g'.entity x).schema.primaryKey = none)
  collections : g'.collections = g.collections

theorem Enlarged.refl (g : Graph) : Enlarged g g where
  length := Nat.le_refl _
  old _ _ := rfl
  new x hx := by
    rw [entity_of_length_le hx]
    exact ⟨rfl, rfl, rfl, fun hno => by cases hno⟩
  collections := rfl

/-- A new entity. -/
theorem Enlarged.newEntity (g : Graph) (s : Schema) :
    Enlarged g { g with entities := g.entities ++ [{ schema := s }] } where
  length := by simp
  old x hx := by rw [entity_append, if_neg (Nat.ne_of_lt hx)]
  new x hx := by
    rw [entity_append]
    split
    · exact ⟨rfl, rfl, rfl, fun hno => by cases hno⟩
    · rw [entity_of_length_le hx]
      exact ⟨rfl, rfl, rfl, fun hno => by cases hno⟩
  collections := rfl

/-- A new embedded component, which has no primary key. -/
theorem ends_embedded_enlarged (hwf : g.WellFormed c) (e : EntityId) (name : String) :
    (Graph.embedded e name).Ends g
      (fun part g' => Enlarged g g' ∧ (g'.entity part).schema.primaryKey = none)
      (fun _ g' => g' = g) := by
  cases hold : (g.entity e).embedded.get? name with
  | some part =>
    unfold Graph.embedded
    simp only [Act.ends_bind, Act.ends_get, hold, Act.ends_pure]
    obtain ⟨-, hschema⟩ := hwf.embedded e name part hold
    exact ⟨.refl g, (hwf.known_of_embedded hold).noKey_of_embedded (Schema.mem_of_embedded? hschema)⟩
  | none =>
    cases hs : (g.entity e).schema.embedded? name with
    | none =>
      unfold Graph.embedded
      simp only [Act.ends_bind, Act.ends_get, hold, hs, Act.ends_throw]
    | some s =>
      have he := index_lt_of_embedded? hs
      have hkey : s.primaryKey = none :=
        (hwf.known e he).noKey_of_embedded (Schema.mem_of_embedded? hs)
      have hnew := entity_withPart_new name s he
      rw [Act.Ends, embedded_eq hs hold]
      refine ⟨⟨by rw [length_withPart]; omega, fun x hx => ?_, fun x hx => ?_, rfl⟩,
        by rw [hnew]; exact hkey⟩
      · by_cases hxe : x = e
        · rw [hxe, entity_withPart_self name s he]
        · rw [entity_withPart_of_ne (by rintro rfl; exact Nat.lt_irrefl _ hx) hxe]
      · by_cases hxnew : x = ⟨g.entities.length⟩
        · rw [hxnew, hnew]
          exact ⟨rfl, rfl, rfl, fun _ => hkey⟩
        · rw [entity_withPart_of_ne hxnew (by rintro rfl; omega), entity_of_length_le hx]
          exact ⟨rfl, rfl, rfl, fun hno => by cases hno⟩

section new

variable (h : Consistent c g)

include h

/-- New entities keep a graph consistent. -/
theorem Consistent.enlarged (hg' : Enlarged g g') : Consistent c g' := by
  have hcollection := collection_congr hg'.collections
  have hschema : ∀ x, x.index < g.entities.length → (g'.entity x).schema = (g.entity x).schema :=
    fun x hx => by rw [hg'.old x hx]
  have hlt : ∀ {x : EntityId}, x.index < g.entities.length → x.index < g'.entities.length :=
    fun hx => Nat.lt_of_lt_of_le hx hg'.length
  -- what holds of an entity that is new holds because it has no relations and waits for nothing
  constructor
  case one =>
    intro x other slot t hslot ht
    by_cases hx : x.index < g.entities.length
    · rw [hg'.old x hx] at hslot
      obtain ⟨htlt, hleads⟩ := h.one x other slot t hslot ht
      exact ⟨hlt htlt, by rwa [hschema x hx, hschema t htlt]⟩
    · rw [(hg'.new x (Nat.le_of_not_lt hx)).1] at hslot
      cases hslot
  case many =>
    intro x other i hi
    by_cases hx : x.index < g.entities.length
    · rw [hg'.old x hx] at hi
      rw [hcollection, hg'.collections]
      exact h.many x other i hi
    · rw [(hg'.new x (Nat.le_of_not_lt hx)).2.1] at hi
      cases hi
  case collection =>
    intro i hi
    rw [hg'.collections] at hi
    obtain ⟨howner, hcomp⟩ := h.collection i hi
    rw [hcollection, hschema _ howner]
    exact ⟨hlt howner, hcomp⟩
  case members =>
    intro i m hm
    rw [hcollection] at hm ⊢
    obtain ⟨hmlt, htype⟩ := h.members i m hm
    exact ⟨hlt hmlt, by rwa [hschema m hmlt]⟩
  case waiting =>
    intro x f s hs
    by_cases hx : x.index < g.entities.length
    · rw [hg'.old x hx] at hs
      rw [hschema x hx]
      exact h.waiting x f s hs
    · rw [(hg'.new x (Nat.le_of_not_lt hx)).2.2.1] at hs
      cases hs
  case keyed =>
    intro x hstored hkey hown
    by_cases hx : x.index < g.entities.length
    · have hsame : g'.key? x = g.key? x := by
        rw [Graph.key?, hg'.old x hx]
        rfl
      rw [hg'.old x hx] at hstored hkey hown
      rw [hsame]
      exact h.keyed x hstored hkey hown
    · rw [(hg'.new x (Nat.le_of_not_lt hx)).2.2.2 hstored] at hkey
      cases hkey

/-- A new collection for a to-many relation keeps a graph consistent. -/
theorem Consistent.withCollection (he : e.index < g.entities.length)
    (hcomp : (g.entity e).schema.component? comp.name = some comp)
    (hjoin : c.join (g.entity e).schema comp = .ok join) (hmany : comp.isToMany = true) :
    Consistent c (g.withCollection e comp join) := by
  have hview : ∀ {α : Type} {v : Entity → α}, (∀ x m, v { x with toMany := m } = v x) → ∀ x,
      v ((g.withCollection e comp join).entity x) = v (g.entity x) := fun hv x =>
    view_withCollection hv comp join x
  have hschema := hview (v := (·.schema)) fun _ _ => rfl
  have hlength : (g.withCollection e comp join).entities.length = g.entities.length := by
    simp [Graph.withCollection]
  have hcount : (g.withCollection e comp join).collections.length = g.collections.length + 1 := by
    rw [collections_withCollection, List.length_append, List.length_singleton]
  have hcases : ∀ i : CollectionId, i.index < g.collections.length + 1 →
      i.index < g.collections.length ∨ i = ⟨g.collections.length⟩ := fun i hi =>
    (Nat.lt_succ_iff_lt_or_eq.1 hi).imp_right fun heq => by cases i; simp_all
  constructor
  case one =>
    intro x other slot t hslot ht
    rw [hlength, hschema, hschema]
    exact h.one x other slot t (hview (v := (·.toOne)) (fun _ _ => rfl) x ▸ hslot) ht
  case many =>
    intro x other i hi
    rw [toMany_withCollection he] at hi
    rw [hcount]
    split at hi
    · next heq =>
      obtain rfl := Option.some.inj hi
      rw [collection_withCollection_new]
      exact ⟨Nat.lt_succ_self _, heq.1.symm, heq.2.symm⟩
    · obtain ⟨hlt, howner, hname⟩ := h.many x other i hi
      rw [collection_withCollection e comp join hlt]
      exact ⟨Nat.lt_succ_of_lt hlt, howner, hname⟩
  case collection =>
    intro i hi
    rw [hlength, hschema]
    rcases hcases i (hcount ▸ hi) with hlt | rfl
    · rw [collection_withCollection e comp join hlt]
      exact h.collection i hlt
    · rw [collection_withCollection_new]
      exact ⟨he, hcomp, hjoin, hmany⟩
  case members =>
    intro i m hm
    rw [hlength, hschema]
    rcases hcases i (hcount ▸ index_lt_of_member hm) with hlt | rfl
    · rw [collection_withCollection e comp join hlt] at hm ⊢
      exact h.members i m hm
    · rw [collection_withCollection_new] at hm
      cases hm
  case waiting =>
    intro x f s hs
    rw [hschema]
    exact h.waiting x f s (hview (v := (·.pending)) (fun _ _ => rfl) x ▸ hs)
  case keyed =>
    intro x hmarked hsome hown
    rw [hschema] at hsome hown
    have hsame : (g.withCollection e comp join).key? x = g.key? x :=
      hview (v := Entity.key?) (fun _ _ => rfl) x
    rw [hsame]
    exact h.keyed x (hview (v := (·.stored)) (fun _ _ => rfl) x ▸ hmarked) hsome hown

end new

end EntityGraph.Graph
