import EntityGraph.Proofs.Writing

/-!
# Entities that storage has

An entity is *settled* when storage has it under a key with all values of all its parts, and none of
its foreign keys waits. What a save does to other entities leaves a settled entity settled: only
entities that wait hear of a key, and marks only bring parts into agreement with storage.

* `Settled.announced`, `Settled.marked` — a settled entity stays settled;
* `settled_marked` — an entity that waits for nothing is settled once it has a key and is marked.
-/

namespace EntityGraph

namespace Entity

/-- Storage has the entity and all its values. -/
def persist (x : Entity) : Entity :=
  { x.markClean with stored := true }

/-- Marked values agree with storage. -/
theorem atomics_persist (x : Entity) (name : String) : x.persist.atomics.get? name =
    (x.atomics.get? name).map fun s => { s with clean := true } := by
  unfold persist markClean
  rw [Assoc.get?_mapValues]

/-- Marks do not change values. -/
@[simp] theorem atomicValue_persist (x : Entity) (name : String) :
    x.persist.atomicValue name = x.atomicValue name := by
  unfold atomicValue
  rw [atomics_persist]
  cases x.atomics.get? name <;> rfl

/-- Marks do not change keys. -/
@[simp] theorem key?_persist (x : Entity) : x.persist.key? = x.key? := by
  unfold key? persist markClean
  simp only [Assoc.get?_mapValues]
  cases x.schema.keyName? with
  | none => rfl
  | some name => cases h : x.atomics.get? name <;> simp [h]

/-- What agrees with storage has the key that it had. -/
@[simp] theorem key?_markClean (x : Entity) : x.markClean.key? = x.key? :=
  x.key?_persist

/-- A deleted entity has the values that it had. -/
@[simp] theorem atomicValue_markDeleted (x : Entity) (name : String) :
    x.markDeleted.atomicValue name = x.atomicValue name := by
  unfold atomicValue markDeleted
  cases hslot : x.atomics.get? name <;> simp [Assoc.get?_mapValues, hslot]

/-- A deleted entity has the key that it had. -/
@[simp] theorem key?_markDeleted (x : Entity) : x.markDeleted.key? = x.key? := by
  unfold key? markDeleted
  cases x.schema.keyName? with
  | none => rfl
  | some name => cases hslot : x.atomics.get? name <;> simp [Assoc.get?_mapValues, hslot]

/-- Where a foreign key is cleared, the key stays, or it was the foreign key and is lost. -/
theorem key?_of_cleared {x : Entity} {name : String} {k : Value}
    (h : ((x.settle name).loadAtomic name .null).key? = some k) : x.key? = some k := by
  unfold key? at h ⊢
  simp only [loadAtomic, settle] at h
  cases hkeyName : x.schema.keyName? with
  | none => simp [hkeyName] at h
  | some keyName =>
    by_cases heq : keyName = name
    · simp [hkeyName, heq, Slot.loaded, Value.isNull] at h
    · simpa [hkeyName, Assoc.get?_put_of_ne _ _ heq] using h

/-- Values that agree with storage already need no mark. -/
@[simp] theorem markClean_persist (x : Entity) : x.persist.markClean = x.persist := by
  unfold persist markClean Assoc.mapValues
  simp only [List.map_map]
  rfl

/-- An entity that storage has with all its values needs no mark. -/
theorem persist_eq_self {x : Entity} (hclean : x.markClean = x) (hstored : x.stored = true) :
    x.persist = x := by
  unfold persist
  rw [hclean, ← hstored]

/-- An entity that needs no mark has no value that differs from storage. -/
theorem hasDirtyAtomic_of_clean {x : Entity} (h : x.markClean = x) : x.hasDirtyAtomic = false := by
  rw [← h]
  unfold hasDirtyAtomic markClean Assoc.mapValues
  simp

/-- An entity that needs no mark has nothing to update. -/
theorem dirtyAtomics_of_clean {x : Entity} (h : x.markClean = x) : x.dirtyAtomics = [] := by
  unfold dirtyAtomics
  rw [List.filterMap_eq_nil_iff]
  intro a _
  rw [← h]
  unfold markClean
  rw [Assoc.get?_mapValues]
  cases x.atomics.get? a.name <;> simp

end Entity

namespace Graph

variable {c : Catalog} {g g' : Graph} {e x y : EntityId}

/-- A primary key is not null. -/
theorem ne_null_of_key? {k : Value} (h : g.key? x = some k) : k ≠ .null := by
  unfold key? Entity.key? at h
  simp only [Option.bind_eq_bind, Option.bind_eq_some_iff] at h
  obtain ⟨name, -, slot, -, h⟩ := h
  rintro rfl
  split at h
  · cases h
  · next hnull =>
    obtain hvalue := Option.some.inj h
    exact hnull (by rw [hvalue]; rfl)

/-- Parts of an entity that exists exist. -/
theorem WellFormed.mem_parts_lt (hwf : g.WellFormed c) (hlt : e.index < g.entities.length)
    (hy : y ∈ g.parts e) : y.index < g.entities.length := by
  rcases embedded_of_mem_partsOf hy with rfl | ⟨z, name, hz⟩
  · exact hlt
  · exact (hwf.embedded z name y hz).1

/-- Marking an entity marks its parts, and nothing else. -/
theorem entity_marked (hwf : g.WellFormed c) (hlt : e.index < g.entities.length) (d : EntityId) :
    ((g.markClean e).markStored e).entity d =
      if d ∈ g.parts e then (g.entity d).persist else g.entity d := by
  have hclean : ∀ x : Entity, x.markClean.markClean = x.markClean := by
    intro x
    unfold Entity.markClean Assoc.mapValues
    simp only [List.map_map]
    rfl
  have hstored : ∀ x : Entity, { { x with stored := true } with stored := true } =
      { x with stored := true } := fun _ => rfl
  have hparts : (g.markClean e).parts e = g.parts e := (SameShape.markClean g e).parts_eq e
  unfold markStored modifyParts
  rw [hparts]
  split
  · next hd =>
    have hdlt := hwf.mem_parts_lt hlt hd
    have hdlt' : d.index < (g.markClean e).entities.length :=
      (SameShape.markClean g e).length ▸ hdlt
    rw [entity_foldl_modifyEntity_of_mem (f := fun x => { x with stored := true }) hstored hd hdlt']
    unfold markClean modifyParts Entity.persist
    rw [entity_foldl_modifyEntity_of_mem hclean hd hdlt]
  · next hd =>
    rcases entity_foldl_modifyEntity (f := fun x => { x with stored := true }) hstored (g.parts e)
      (g.markClean e) d with h | ⟨hmem, -⟩
    · rcases entity_foldl_modifyEntity hclean (g.parts e) g d with h' | ⟨hmem, -⟩
      · exact h.trans h'
      · exact absurd hmem hd
    · exact absurd hmem hd

/-- Marks do not change what an entity that persists keeps. -/
theorem view_marked {β : Type} {v : Entity → β} (hv : ∀ x : Entity, v x.persist = v x)
    (hwf : g.WellFormed c) (hlt : e.index < g.entities.length) (x : EntityId) :
    v (((g.markClean e).markStored e).entity x) = v (g.entity x) := by
  rw [entity_marked hwf hlt]
  split
  · exact hv _
  · rfl

/-- Marks do not change keys. -/
theorem key?_marked (hwf : g.WellFormed c) (hlt : e.index < g.entities.length) (x : EntityId) :
    ((g.markClean e).markStored e).key? x = g.key? x :=
  view_marked (v := Entity.key?) Entity.key?_persist hwf hlt x

/-- A deletion does not change keys. -/
theorem key?_markDeleted (g : Graph) (e x : EntityId) : (g.markDeleted e).key? x = g.key? x :=
  view_modifyParts (v := Entity.key?) Entity.key?_markDeleted g e x

/-- Marks make no foreign key wait, and none arrive. -/
theorem pending_marked (hwf : g.WellFormed c) (hlt : e.index < g.entities.length) (x : EntityId) :
    (((g.markClean e).markStored e).entity x).pending = (g.entity x).pending :=
  view_marked (v := (·.pending)) (fun _ => rfl) hwf hlt x

/-- Storage has an entity under a key, with all values of its parts, and none of its foreign keys
waits. -/
structure Settled (g : Graph) (x : EntityId) : Prop where
  key : (g.key? x).isSome
  pending : (g.entity x).pending = []
  stored : ∀ y ∈ g.parts x, (g.entity y).stored = true
  clean : ∀ y ∈ g.parts x, (g.entity y).markClean = g.entity y

/-- No value of a settled entity differs from storage. -/
theorem Settled.isPersistent (h : Settled g x) : g.isPersistent x = true := by
  unfold Graph.isPersistent
  rw [h.stored x (mem_parts_self g x), Bool.true_and, Bool.not_eq_true']
  unfold Graph.isDirty
  rw [List.any_eq_false]
  intro y hy
  rw [Entity.hasDirtyAtomic_of_clean (h.clean y hy)]
  exact Bool.false_ne_true

/-- A settled entity has nothing to update. -/
theorem Settled.dirtyAtomics_eq_nil (h : Settled g x) : g.dirtyAtomics x = [] := by
  unfold dirtyAtomics
  rw [List.flatMap_eq_nil_iff]
  exact fun y hy => Entity.dirtyAtomics_of_clean (h.clean y hy)

/-- Changing an entity to what it is changes nothing. -/
theorem modifyEntity_eq_self {f : Entity → Entity} (h : f (g.entity e) = g.entity e) :
    g.modifyEntity e f = g := by
  unfold modifyEntity entity at *
  have hentities : g.entities.modify e.index f = g.entities := by
    refine List.ext_getElem? fun i => ?_
    rw [List.getElem?_modify]
    by_cases hi : e.index = i
    · subst hi
      cases hget : g.entities[e.index]? with
      | none => simp
      | some x =>
        have hx : f x = x := by simpa [List.getD_eq_getElem?_getD, hget] using h
        simp [hx]
    · simp [hi]
  rw [hentities]

/-- Changing some entities to what they are changes nothing. -/
theorem foldl_modifyEntity_eq_self {f : Entity → Entity} {l : List EntityId}
    (h : ∀ y ∈ l, f (g.entity y) = g.entity y) :
    l.foldl (fun g y => g.modifyEntity y f) g = g := by
  induction l with
  | nil => rfl
  | cons y l ih =>
    rw [List.foldl_cons, modifyEntity_eq_self (h y List.mem_cons_self)]
    exact ih fun z hz => h z (List.mem_cons_of_mem _ hz)

/-- Marking a settled entity changes nothing. -/
theorem Settled.marked_eq_self (h : Settled g x) : (g.markClean x).markStored x = g := by
  have hclean : g.markClean x = g := foldl_modifyEntity_eq_self h.clean
  rw [hclean]
  refine foldl_modifyEntity_eq_self fun y hy => ?_
  rw [← h.stored y hy]

/-- A settled entity whose parts have not changed is settled. -/
theorem Settled.congr (h : Settled g x) (hshape : g.SameShape g')
    (heq : ∀ y ∈ g.parts x, g'.entity y = g.entity y) : Settled g' x := by
  have hx := heq x (mem_parts_self g x)
  refine ⟨?_, hx ▸ h.pending, fun y hy => ?_, fun y hy => ?_⟩
  · unfold key?
    rw [hx]
    exact h.key
  all_goals rw [hshape.parts_eq] at hy; rw [heq y hy]
  · exact h.stored y hy
  · exact h.clean y hy

/-- A settled entity stays settled when another one takes over a key: no part of it waits. -/
theorem Settled.announced {key : String} {w : Value} (hwf : g.WellFormed c) (hc : c.Plain)
    (h : Settled g x) (hann : Announced e key w g g') (hne : x ≠ e)
    (hkey : (g.entity e).schema.primaryKey.isSome) : Settled g' x := by
  refine h.congr hann.shape fun y hy => hann.settled y ?_ (hwf.pending_of_part hc h.pending hy)
  rintro rfl
  rw [hwf.noKey_of_part hy (Ne.symm hne)] at hkey
  cases hkey

/-- A settled entity stays settled when another one is marked. -/
theorem Settled.marked (hwf : g.WellFormed c) (hlt : e.index < g.entities.length)
    (h : Settled g x) : Settled ((g.markClean e).markStored e) x := by
  have hshape : g.SameShape ((g.markClean e).markStored e) :=
    (SameShape.markClean g e).trans (.markStored _ e)
  refine h.congr hshape fun y hy => ?_
  rw [entity_marked hwf hlt]
  split
  · exact Entity.persist_eq_self (h.clean y hy) (h.stored y hy)
  · rfl

/-- An entity that has a key and waits for nothing is settled once it is marked. -/
theorem settled_marked (hwf : g.WellFormed c) (hkey : (g.key? e).isSome)
    (hpending : (g.entity e).pending = []) : Settled ((g.markClean e).markStored e) e := by
  have hlt := (of_key?_isSome hkey).1
  have hshape : g.SameShape ((g.markClean e).markStored e) :=
    (SameShape.markClean g e).trans (.markStored _ e)
  refine ⟨?_, ?_, fun y hy => ?_, fun y hy => ?_⟩
  · rw [key?_marked hwf hlt]
    exact hkey
  · rw [entity_marked hwf hlt, if_pos (mem_parts_self g e)]
    exact hpending
  all_goals rw [hshape.parts_eq] at hy; rw [entity_marked hwf hlt, if_pos hy]
  · rfl
  · exact Entity.markClean_persist _

end Graph

end EntityGraph
