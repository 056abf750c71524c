import EntityGraph.Proofs.Frame

/-!
# The shape of a graph

Saving changes values, keys and marks. What it leaves alone is the *shape* of the graph: which
entities there are, of which schemas, with which components, and where their loaded relations lead.

* `SameShape.loadedRelations_eq`, `SameShape.parts_eq` — graphs of the same shape have the same loaded
  relations and the same parts;
* `successors` — the entities that the loaded relations of an entity lead to, as the shape tells.
-/

namespace EntityGraph.Graph

/-- Two graphs differ in values, keys and marks only. -/
structure SameShape (g g' : Graph) : Prop where
  length : g'.entities.length = g.entities.length
  schema : ∀ x, (g'.entity x).schema = (g.entity x).schema
  embedded : ∀ x, (g'.entity x).embedded = (g.entity x).embedded
  toMany : ∀ x, (g'.entity x).toMany = (g.entity x).toMany
  toOne : ∀ x name,
    ((g'.entity x).toOne.get? name).map (·.value) = ((g.entity x).toOne.get? name).map (·.value)
  members : ∀ i, (g'.collection i).members = (g.collection i).members

/-- Changing parts leaves the collections alone. -/
@[simp] theorem collections_modifyParts (g : Graph) (e : EntityId) (f : Entity → Entity) :
    (g.modifyParts e f).collections = g.collections := by
  unfold modifyParts
  generalize g.parts e = l
  induction l generalizing g with
  | nil => rfl
  | cons x l ih => exact ih (g.modifyEntity x f)

/-- What a change does not affect in an entity reads the same after parts have been changed. -/
theorem view_modifyParts {α : Type} {v : Entity → α} {f : Entity → Entity} (hf : ∀ x, v (f x) = v x)
    (g : Graph) (e x : EntityId) : v ((g.modifyParts e f).entity x) = v (g.entity x) := by
  unfold modifyParts
  generalize g.parts e = l
  induction l generalizing g with
  | nil => rfl
  | cons y l ih => exact (ih (g.modifyEntity y f)).trans (view_modifyEntity (hf _))

/-- Marking twice is marking once. -/
theorem markDeleted_markDeleted (x : Entity) : x.markDeleted.markDeleted = x.markDeleted := by
  simp [Entity.markDeleted, Assoc.mapValues, Function.comp_def]

/-- Loaded relations are relations of the type. -/
theorem component_mem {g : Graph} {e : EntityId} {r : Component × Loaded} (h : r ∈ g.loadedRelations e) :
    r.1 ∈ (g.entity e).schema.components := by
  obtain ⟨comp, hcomp, hr⟩ := List.mem_filterMap.1 h
  split at hr <;> cases hr <;> exact hcomp

namespace SameShape

variable {g g' g'' : Graph} {e : EntityId} {f : Entity → Entity}

theorem refl (g : Graph) : SameShape g g :=
  ⟨rfl, fun _ => rfl, fun _ => rfl, fun _ => rfl, fun _ _ => rfl, fun _ => rfl⟩

theorem trans (h : SameShape g g') (h' : SameShape g' g'') : SameShape g g'' where
  length := h'.length.trans h.length
  schema x := (h'.schema x).trans (h.schema x)
  embedded x := (h'.embedded x).trans (h.embedded x)
  toMany x := (h'.toMany x).trans (h.toMany x)
  toOne x name := (h'.toOne x name).trans (h.toOne x name)
  members i := (h'.members i).trans (h.members i)

/-- A change of an entity that keeps schema, components and relations. -/
theorem modifyEntity (g : Graph) (e : EntityId) (hf : ∀ x : Entity, (f x).schema = x.schema ∧
      (f x).embedded = x.embedded ∧ (f x).toMany = x.toMany ∧
      ∀ name, ((f x).toOne.get? name).map (·.value) = (x.toOne.get? name).map (·.value)) :
    SameShape g (g.modifyEntity e f) where
  length := length_modifyEntity g e f
  schema _ := view_modifyEntity (v := (·.schema)) (hf _).1
  embedded _ := view_modifyEntity (v := (·.embedded)) (hf _).2.1
  toMany _ := view_modifyEntity (v := (·.toMany)) (hf _).2.2.1
  toOne _ name :=
    view_modifyEntity (v := fun x => (x.toOne.get? name).map (·.value)) ((hf _).2.2.2 name)
  members _ := rfl

/-- A change of the same sort to some entities. -/
theorem foldl_modifyEntity (g : Graph) (l : List EntityId)
    (hf : ∀ x : Entity, (f x).schema = x.schema ∧
      (f x).embedded = x.embedded ∧ (f x).toMany = x.toMany ∧
      ∀ name, ((f x).toOne.get? name).map (·.value) = (x.toOne.get? name).map (·.value)) :
    SameShape g (l.foldl (fun g x => g.modifyEntity x f) g) := by
  induction l generalizing g with
  | nil => exact refl g
  | cons x l ih => exact (modifyEntity g x hf).trans (ih _)

/-- A change of the index of a collection. -/
theorem modifyCollection (g : Graph) (i : CollectionId) {f : Collection → Collection}
    (hf : ∀ x, (f x).members = x.members) : SameShape g (g.modifyCollection i f) where
  length := rfl
  schema _ := rfl
  embedded _ := rfl
  toMany _ := rfl
  toOne _ _ := rfl
  members _ := view_modifyCollection (v := (·.members)) hf

theorem receive (g : Graph) (e : EntityId) (name : String) (v : Value) :
    SameShape g (g.modifyEntity e (·.receive name v)) := by
  refine modifyEntity g e fun x => ?_
  obtain ⟨hschema, hembedded, -, htoOne, htoMany, -⟩ := receive_frame x name v
  exact ⟨hschema, hembedded, htoMany, fun _ => by rw [htoOne]⟩

theorem markClean (g : Graph) (e : EntityId) : SameShape g (g.markClean e) := by
  refine foldl_modifyEntity g _ fun x => ⟨rfl, rfl, rfl, fun name => ?_⟩
  simp [Entity.markClean, Assoc.get?_mapValues, Function.comp_def]

theorem markStored (g : Graph) (e : EntityId) : SameShape g (g.markStored e) :=
  foldl_modifyEntity g _ fun _ => ⟨rfl, rfl, rfl, fun _ => rfl⟩

theorem markDeleted (g : Graph) (e : EntityId) : SameShape g (g.markDeleted e) :=
  foldl_modifyEntity g _ fun _ => ⟨rfl, rfl, rfl, fun _ => rfl⟩

/-- Graphs of the same shape have the same parts. -/
theorem parts_eq (h : SameShape g g') (e : EntityId) : g'.parts e = g.parts e := by
  unfold parts
  rw [h.schema, partsOf_congr h.embedded]

/-- Graphs of the same shape have the same loaded relations. -/
theorem loadedRelations_eq (h : SameShape g g') (e : EntityId) :
    g'.loadedRelations e = g.loadedRelations e := by
  unfold loadedRelations
  simp only
  rw [h.schema, h.toMany]
  refine List.filterMap_congr fun c _ => ?_
  have hone := h.toOne e c.name
  cases (g.entity e).toMany.get? c.name with
  | some _ => rfl
  | none =>
    cases h₁ : (g.entity e).toOne.get? c.name <;> cases h₂ : (g'.entity e).toOne.get? c.name <;>
      simp_all

/-- Loaded relations lead to the same entities in graphs of the same shape. -/
theorem targets_eq (h : SameShape g g') (r : Loaded) : g'.targets r = g.targets r := by
  cases r with
  | one _ => rfl
  | many i => exact h.members i

/-- Relations of one name lead to the same entities in graphs of the same shape. -/
theorem targetsOf_eq (h : SameShape g g') (e : EntityId) (name : String) :
    g'.targetsOf e name = g.targetsOf e name := by
  unfold targetsOf
  rw [h.loadedRelations_eq]
  exact List.flatMap_congr fun r _ => h.targets_eq r.2

end SameShape

/-- The entities that the loaded relations of an entity lead to. -/
def successors (g : Graph) (e : EntityId) : List EntityId :=
  (g.loadedRelations e).flatMap fun r => g.targets r.2

/-- Graphs of the same shape lead to the same entities. -/
theorem SameShape.successors_eq {g g' : Graph} (h : SameShape g g') (e : EntityId) :
    g'.successors e = g.successors e := by
  unfold successors
  rw [h.loadedRelations_eq]
  exact List.flatMap_congr fun r _ => h.targets_eq r.2

end EntityGraph.Graph
