import EntityGraph.Graph.Assign
import EntityGraph.Proofs.Accepted

/-!
# What a change of the graph leaves alone

Most changes of a graph touch one field of one entity. A *view* of an entity that a change does not
affect reads the same afterwards, for every entity: this one fact, `view_modifyEntity`, serves for the
schema, the relations, the keys and whatever else the later modules look at.

The parts of an entity are the entity itself and its embedded components. They are found by schemas
and embedded components alone, so a change that keeps both keeps the parts (`partsOf_congr`).
-/

namespace EntityGraph.Graph

variable {g g' : Graph} {d e : EntityId} {f : Entity → Entity} {α : Type}

/-- An identity that no entity has reads as the default entity. -/
theorem entity_of_length_le (h : g.entities.length ≤ e.index) : g.entity e = default := by
  simp [entity, List.getD_eq_getElem?_getD, h]

/-- An entity that differs from the default one exists. -/
theorem index_lt_of_ne {v : Entity → α} (h : v (g.entity e) ≠ v default) :
    e.index < g.entities.length := by
  refine Nat.lt_of_not_le fun hle => h ?_
  rw [entity_of_length_le hle]

/-- An entity that has something which the default one lacks exists. -/
theorem index_lt_of_some {v : Entity → Option α} {a : α} (h : v (g.entity e) = some a)
    (hdefault : v default = none) : e.index < g.entities.length := by
  refine index_lt_of_ne (v := v) ?_
  rw [h, hdefault]
  exact Option.some_ne_none a

/-- An entity that has something in a list which is empty in the default one exists. -/
theorem index_lt_of_mem {v : Entity → List α} {a : α} (h : a ∈ v (g.entity e))
    (hdefault : v default = []) : e.index < g.entities.length := by
  refine index_lt_of_ne (v := v) ?_
  rw [hdefault]
  exact List.ne_nil_of_mem h

/-- An entity with a primary key exists. -/
theorem index_lt_of_primaryKey {key : Atomic} (h : (g.entity e).schema.primaryKey = some key) :
    e.index < g.entities.length :=
  index_lt_of_some (v := (·.schema.primaryKey)) h rfl

/-- An entity that has a key exists, and its schema has a primary key. -/
theorem of_key?_isSome (h : (g.key? e).isSome) :
    e.index < g.entities.length ∧ (g.entity e).schema.primaryKey.isSome := by
  unfold key? Entity.key? Schema.keyName? at h
  cases hkey : (g.entity e).schema.primaryKey with
  | none => simp [hkey] at h
  | some _ => exact ⟨index_lt_of_primaryKey hkey, rfl⟩

/-- An entity that waits for another one exists. -/
theorem index_lt_of_pending {name : String} (h : (g.entity e).pending.get? name = some d) :
    e.index < g.entities.length :=
  index_lt_of_some (v := fun x => x.pending.get? name) h rfl

/-- An entity that embeds a schema exists. -/
theorem index_lt_of_embedded? {name : String} {s : Schema}
    (h : (g.entity e).schema.embedded? name = some s) : e.index < g.entities.length :=
  index_lt_of_some (v := (·.schema.embedded? name)) h rfl

/-- An entity whose schema has an atomic exists. -/
theorem index_lt_of_atomic? {name : String} {a : Atomic}
    (h : (g.entity e).schema.atomic? name = some a) : e.index < g.entities.length :=
  index_lt_of_some (v := (·.schema.atomic? name)) h rfl

/-- An entity that has a relation exists. -/
theorem index_lt_of_component? {name : String} {comp : Component}
    (h : (g.entity e).schema.component? name = some comp) : e.index < g.entities.length :=
  index_lt_of_some (v := (·.schema.component? name)) h rfl

/-- The relation of a name is a component of that name. -/
theorem component?_of_relation {s : Schema} {name : String} {toMany : Bool} {comp : Component}
    (h : Entity.relation s name toMany = .ok comp) :
    s.component? name = some comp ∧ comp.name = name ∧ comp.isToMany = toMany := by
  unfold Entity.relation at h
  simp only at h
  split at h
  · next comp' hcomp =>
    split at h
    · next hmany =>
      obtain rfl := Except.ok.inj h
      exact ⟨hcomp, Schema.name_of_component? hcomp, hmany⟩
    · cases h
  · cases h

/-- What holds of all entities in memory, and of the default one, holds of any entity. -/
theorem forall_entity {p : Entity → Prop} (h : ∀ x ∈ g.entities, p x) (hdefault : p default)
    (e : EntityId) : p (g.entity e) := by
  by_cases hlt : e.index < g.entities.length
  · have hmem : g.entity e = g.entities[e.index] := by
      simp [entity, List.getD_eq_getElem?_getD, hlt]
    exact hmem ▸ h _ (List.getElem_mem hlt)
  · rw [entity_of_length_le (Nat.le_of_not_lt hlt)]
    exact hdefault

/-- A changed graph has as many entities as before. -/
@[simp] theorem length_modifyEntity (g : Graph) (e : EntityId) (f : Entity → Entity) :
    (g.modifyEntity e f).entities.length = g.entities.length := by
  simp [modifyEntity]

/-- Changing a collection leaves the entities alone. -/
@[simp] theorem entity_modifyCollection (g : Graph) (c : CollectionId)
    (f : Collection → Collection) : (g.modifyCollection c f).entity e = g.entity e := rfl

/-- A change touches at most the entity that it is made to. -/
theorem entity_modifyEntity_cases (g : Graph) (d e : EntityId) (f : Entity → Entity) :
    (g.modifyEntity e f).entity d = g.entity d ∨
      (d = e ∧ e.index < g.entities.length ∧ (g.modifyEntity e f).entity d = f (g.entity d)) := by
  by_cases hde : d = e
  · subst hde
    by_cases hlt : d.index < g.entities.length
    · exact .inr ⟨rfl, hlt, entity_modifyEntity_self f hlt⟩
    · refine .inl ?_
      rw [entity_of_length_le (by simpa using hlt), entity_of_length_le (by simpa using hlt)]
  · exact .inl (entity_modifyEntity_of_ne f hde)

/-- A view that a change does not affect reads the same afterwards. -/
theorem view_modifyEntity {v : Entity → α} (h : v (f (g.entity e)) = v (g.entity e)) :
    v ((g.modifyEntity e f).entity d) = v (g.entity d) := by
  rcases entity_modifyEntity_cases g d e f with hd | ⟨rfl, -, hd⟩
  · rw [hd]
  · rw [hd, h]

/-- A property of all entities that a change keeps. -/
theorem forall_modifyEntity {p : Entity → Prop} (h : p (g.entity d))
    (hf : d = e → p (f (g.entity d))) : p ((g.modifyEntity e f).entity d) := by
  rcases entity_modifyEntity_cases g d e f with hd | ⟨rfl, -, hd⟩
  · rwa [hd]
  · rw [hd]
    exact hf rfl

/-- A collection that has members exists. -/
theorem index_lt_of_member {i : CollectionId} (h : e ∈ (g.collection i).members) :
    i.index < g.collections.length := by
  by_contra hge
  have hdefault : g.collection i = default := by
    simp [collection, List.getD_eq_getElem?_getD, Nat.le_of_not_lt hge]
  rw [hdefault] at h
  cases h

/-- Changing a collection leaves their number alone. -/
theorem length_modifyCollection (id : CollectionId) (f : Collection → Collection) :
    (g.modifyCollection id f).collections.length = g.collections.length :=
  List.length_modify _ _ _

/-- A changed collection is what the change makes of it. -/
theorem collection_modifyCollection_self {cid : CollectionId} (f : Collection → Collection)
    (hlt : cid.index < g.collections.length) :
    (g.modifyCollection cid f).collection cid = f (g.collection cid) := by
  simp [collection, modifyCollection, List.getD_eq_getElem?_getD, hlt]

/-- Changing one collection leaves another one alone. -/
theorem collection_modifyCollection_of_ne {cid other : CollectionId} (f : Collection → Collection)
    (hne : other ≠ cid) : (g.modifyCollection cid f).collection other = g.collection other := by
  have hindex : cid.index ≠ other.index := fun h => hne (by cases cid; cases other; simp_all)
  simp [collection, modifyCollection, List.getD_eq_getElem?_getD, hindex]

/-- Changing one collection leaves the others alone. -/
theorem collection_modifyCollection_cases (g : Graph) (c d : CollectionId)
    (f : Collection → Collection) :
    (g.modifyCollection c f).collection d = g.collection d ∨
      (g.modifyCollection c f).collection d = f (g.collection d) := by
  unfold collection modifyCollection
  by_cases hlt : d.index < g.collections.length
  · by_cases hcd : c.index = d.index
    · exact .inr (by simp [List.getD_eq_getElem?_getD, hcd, hlt])
    · exact .inl (by simp [List.getD_eq_getElem?_getD, hcd])
  · exact .inl (by simp [List.getD_eq_getElem?_getD, Nat.le_of_not_lt hlt])

/-- A view that a change of a collection does not affect reads the same afterwards. -/
theorem view_modifyCollection {v : Collection → α} {c d : CollectionId}
    {f : Collection → Collection} (h : ∀ x, v (f x) = v x) :
    v ((g.modifyCollection c f).collection d) = v (g.collection d) := by
  rcases collection_modifyCollection_cases g c d f with hd | hd
  · rw [hd]
  · rw [hd, h]

/-! ### A foreign key takes a value -/

section receive

variable (x : Entity) (name : String) (v : Value)

/-- What a foreign key that takes a value leaves alone. -/
theorem receive_frame : (x.receive name v).schema = x.schema ∧
    (x.receive name v).embedded = x.embedded ∧ (x.receive name v).listeners = x.listeners ∧
    (x.receive name v).toOne = x.toOne ∧ (x.receive name v).toMany = x.toMany ∧
    (x.receive name v).stored = x.stored := by
  unfold Entity.receive
  simp only
  split <;> exact ⟨rfl, rfl, rfl, rfl, rfl, rfl⟩

/-- A foreign key that takes a value no longer waits, and no other one is affected. -/
@[simp] theorem pending_receive : (x.receive name v).pending = x.pending.erase name := by
  unfold Entity.receive
  simp only
  split <;> rfl

/-- A foreign key that has the value in storage keeps it there, and any other one differs from storage
now. -/
theorem atomics_receive : (x.receive name v).atomics.get? name =
    some (if x.atomics.get? name = some (.loaded v) then .loaded v else .dirty v) := by
  have hiff : (x.settle name).isStoredValue name v = true ↔
      x.atomics.get? name = some (.loaded v) := by
    unfold Entity.isStoredValue Entity.settle
    cases hslot : x.atomics.get? name with
    | none => simp
    | some slot => cases slot; simp [Slot.loaded, and_comm]
  unfold Entity.receive
  simp only
  by_cases h : (x.settle name).isStoredValue name v = true
  · rw [if_pos h, if_pos (hiff.1 h)]
    exact hiff.1 h
  · rw [if_neg h, if_neg fun hslot => h (hiff.2 hslot)]
    exact Assoc.get?_put_self _ _ _

/-- The other atomics stay as they are. -/
theorem atomics_receive_of_ne {other : String} (h : other ≠ name) :
    (x.receive name v).atomics.get? other = x.atomics.get? other := by
  unfold Entity.receive
  simp only
  split
  · rfl
  · exact Assoc.get?_put_of_ne _ _ h

end receive

/-- Writing a foreign key fails and changes nothing, or its holder takes the coerced value. -/
theorem ends_writeForeignKey {name : String} {v : Value} {P : Unit → Graph → Prop}
    {E : Error → Graph → Prop}
    (hok : ∀ a w, (g.entity e).schema.atomic name = .ok a →
      a.coerce (g.entity e).schema.name v = .ok w → P () (g.modifyEntity e (·.receive name w)))
    (herr : ∀ error, E error g) : (writeForeignKey e name v).Ends g P E := by
  unfold writeForeignKey
  simp only [Act.ends_bind, Act.ends_get, Act.ends_ofExcept, Act.ends_modify]
  exact ⟨fun a ha => ⟨fun w hw => hok a w ha hw, fun error _ => herr error⟩,
    fun error _ => herr error⟩

/-! ### New entities -/

/-- The graph with one more entity. -/
theorem newEntity_eq (s : Schema) (g : Graph) :
    newEntity s g =
      .ok ⟨g.entities.length⟩ { g with entities := g.entities ++ [{ schema := s }] } := rfl

/-- A new entity has only its schema, and the entities before it stay as they are. -/
theorem entity_append (g : Graph) (s : Schema) (d : EntityId) :
    ({ g with entities := g.entities ++ [{ schema := s }] } : Graph).entity d =
      if d.index = g.entities.length then { schema := s } else g.entity d := by
  unfold entity
  rcases Nat.lt_trichotomy d.index g.entities.length with h | h | h
  · simp [List.getD_eq_getElem?_getD, List.getElem?_append_left h, Nat.ne_of_lt h]
  · simp [List.getD_eq_getElem?_getD, h]
  · have hlen : (g.entities ++ [({ schema := s } : Entity)]).length ≤ d.index := by
      rw [List.length_append]
      exact h
    simp [List.getD_eq_getElem?_getD, List.getElem?_eq_none hlen,
      List.getElem?_eq_none (Nat.le_of_lt h), Nat.ne_of_gt h]

/-- The graph in which an entity has got a new embedded component. -/
def withPart (g : Graph) (e : EntityId) (name : String) (s : Schema) : Graph :=
  (({ g with entities := g.entities ++ [{ schema := s }] } : Graph).modifyEntity
    ⟨g.entities.length⟩ fun p => { p with stored := (g.entity e).stored }).modifyEntity e
      fun x => { x with embedded := x.embedded.put name ⟨g.entities.length⟩ }

section part

variable {name : String} {s : Schema}

/-- An embedded component that has not been used is made. -/
theorem embedded_eq (hs : (g.entity e).schema.embedded? name = some s)
    (hnew : (g.entity e).embedded.get? name = none) :
    embedded e name g = .ok ⟨g.entities.length⟩ (g.withPart e name s) := by
  unfold embedded
  simp only [bind, EStateM.bind, Act.get_apply, hnew, hs, newEntity_eq]
  rfl

/-- There is one entity more. -/
theorem length_withPart (g : Graph) (e : EntityId) (name : String) (s : Schema) :
    (g.withPart e name s).entities.length = g.entities.length + 1 := by
  simp [withPart]

/-- The new component has its schema, and is stored if its owner is. -/
theorem entity_withPart_new (name : String) (s : Schema) (he : e.index < g.entities.length) :
    (g.withPart e name s).entity ⟨g.entities.length⟩ =
      { schema := s, stored := (g.entity e).stored } := by
  have hne : (⟨g.entities.length⟩ : EntityId) ≠ e := by
    rintro rfl
    exact Nat.lt_irrefl _ he
  unfold withPart
  rw [entity_modifyEntity_of_ne _ hne, entity_modifyEntity_self _ (by simp), entity_append,
    if_pos rfl]

/-- The owner has got the component. -/
theorem entity_withPart_self (name : String) (s : Schema) (he : e.index < g.entities.length) :
    (g.withPart e name s).entity e =
      { g.entity e with embedded := (g.entity e).embedded.put name ⟨g.entities.length⟩ } := by
  have hne : e ≠ ⟨g.entities.length⟩ := by
    rintro rfl
    exact Nat.lt_irrefl _ he
  unfold withPart
  rw [entity_modifyEntity_self _ (by simpa using Nat.lt_succ_of_lt he),
    entity_modifyEntity_of_ne _ hne, entity_append, if_neg (Nat.ne_of_lt he)]

/-- Other entities stay as they are. -/
theorem entity_withPart_of_ne (hnew : d ≠ ⟨g.entities.length⟩) (hne : d ≠ e) :
    (g.withPart e name s).entity d = g.entity d := by
  have hindex : d.index ≠ g.entities.length := by
    intro hindex
    exact hnew (by rw [← hindex])
  unfold withPart
  rw [entity_modifyEntity_of_ne _ hne, entity_modifyEntity_of_ne _ hnew, entity_append,
    if_neg hindex]

end part

/-! ### Parts -/

/-- The parts for a list of embedded schemas, one schema after the other. -/
theorem embeddedPartsOf_eq (g : Graph) (l : List (String × Schema)) (e : EntityId) :
    g.embeddedPartsOf l e = l.flatMap fun p =>
      ((g.entity e).embedded.get? p.1).toList.flatMap (g.partsOf p.2) := by
  induction l with
  | nil => simp [embeddedPartsOf]
  | cons p l ih =>
    rw [embeddedPartsOf, ih, List.flatMap_cons]
    cases (g.entity e).embedded.get? p.1 <;> simp

/-- The parts of an entity are itself and the parts of its embedded components. -/
theorem partsOf_eq (g : Graph) (s : Schema) (e : EntityId) :
    g.partsOf s e = e :: s.embedded.flatMap fun p =>
      ((g.entity e).embedded.get? p.1).toList.flatMap (g.partsOf p.2) := by
  rw [← embeddedPartsOf_eq]
  cases s
  rw [partsOf]

/-- A part is the entity itself, or a part of an embedded component. -/
theorem mem_partsOf_iff {g : Graph} {s : Schema} {e y : EntityId} :
    y ∈ g.partsOf s e ↔ y = e ∨
      ∃ p ∈ s.embedded, ∃ x, (g.entity e).embedded.get? p.1 = some x ∧ y ∈ g.partsOf p.2 x := by
  rw [partsOf_eq]
  simp

/-- An entity is a part of itself. -/
@[simp] theorem mem_parts_self (g : Graph) (e : EntityId) : e ∈ g.parts e := by
  unfold parts
  rw [partsOf_eq]
  exact List.mem_cons_self

/-- A part is the entity itself, or an embedded component of some entity. -/
theorem embedded_of_mem_partsOf {g : Graph} {s : Schema} {e y : EntityId}
    (h : y ∈ g.partsOf s e) : y = e ∨ ∃ x n, (g.entity x).embedded.get? n = some y := by
  induction s using Schema.induction generalizing e with
  | _ s ih =>
    rcases mem_partsOf_iff.1 h with rfl | ⟨p, hp, x, hx, hy⟩
    · exact .inl rfl
    · rcases ih p hp hy with rfl | h
      · exact .inr ⟨e, p.1, hx⟩
      · exact .inr h

/-- Graphs with the same embedded components have the same parts. -/
theorem partsOf_congr (h : ∀ x, (g'.entity x).embedded = (g.entity x).embedded) (s : Schema)
    (e : EntityId) : g'.partsOf s e = g.partsOf s e := by
  induction s using Schema.induction generalizing e with
  | _ s ih =>
    rw [partsOf_eq, partsOf_eq, h e]
    congr 1
    refine List.flatMap_congr fun p hp => ?_
    rw [funext (ih p hp)]

/-- Changing some entities, one after the other, changes each of them, if the change is the same
when it is made twice. -/
theorem entity_foldl_modifyEntity (hf : ∀ x, f (f x) = f x) (l : List EntityId) (g : Graph)
    (d : EntityId) :
    (l.foldl (fun g x => g.modifyEntity x f) g).entity d = g.entity d ∨
      (d ∈ l ∧ (l.foldl (fun g x => g.modifyEntity x f) g).entity d = f (g.entity d)) := by
  induction l generalizing g with
  | nil => exact .inl rfl
  | cons e l ih =>
    rw [List.foldl_cons]
    rcases ih (g.modifyEntity e f) with h | ⟨hmem, h⟩
    all_goals rcases entity_modifyEntity_cases g d e f with hd | ⟨rfl, -, hd⟩
    · exact .inl (h.trans hd)
    · exact .inr ⟨List.mem_cons_self, h.trans hd⟩
    · exact .inr ⟨List.mem_cons_of_mem _ hmem, by rw [h, hd]⟩
    · exact .inr ⟨List.mem_cons_self, by rw [h, hd, hf]⟩

/-- Every existing member of the list is changed. -/
theorem entity_foldl_modifyEntity_of_mem (hf : ∀ x, f (f x) = f x) {l : List EntityId} {g : Graph}
    (hd : d ∈ l) (hlt : d.index < g.entities.length) :
    (l.foldl (fun g x => g.modifyEntity x f) g).entity d = f (g.entity d) := by
  induction l generalizing g with
  | nil => cases hd
  | cons e l ih =>
    rw [List.foldl_cons]
    by_cases hde : d = e
    · subst hde
      have hself := entity_modifyEntity_self f hlt
      rcases entity_foldl_modifyEntity hf l (g.modifyEntity d f) d with h | ⟨-, h⟩
      · rw [h, hself]
      · rw [h, hself, hf]
    · have hmem := (List.mem_cons.1 hd).resolve_left hde
      rw [ih hmem (by simpa using hlt), entity_modifyEntity_of_ne f hde]

end EntityGraph.Graph
