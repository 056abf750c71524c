import EntityGraph.Proofs.Joined
import EntityGraph.Proofs.Lasting

/-!
# Foreign keys that wait are declared

A foreign key waits for the key of another entity where a relation ties the two by it, and keeps waiting
until it is assigned or the key is announced. In between, the entity keeps its type. So what waits is an
atomic of the type, as far as the relation takes part with atomics that exist. That fails for a to-many
relation that is crossed: it makes members wait for an atomic of the owner.

Apart from that, what listens for a key finds its atomic, and a save misses a property by name only where
a relation is not resolved.

* `Entity.Awaits`, `Entity.lasting_awaits` — foreign keys wait by which relations tie entities;
* `Catalog.declared_of_ties` — these are atomics unless some to-many relation is crossed;
* `Graph.ends_assignGeneratedKey_missed` — then announcing a key misses none of them.

## Main result

* `Call.unresolved_or_crossed_of_run`: why a call that writes an entity misses a property.
-/

namespace EntityGraph

/-! ### What waits -/

/-- Foreign keys wait by which relations tie entities of the type. -/
def Entity.Awaits (c : Catalog) (x : Entity) : Prop :=
  ∀ name source, x.pending.get? name = some source → c.Ties x.schema name

/-- Whatever happens to an entity, foreign keys wait by which relations tie it. -/
theorem Entity.lasting_awaits (c : Catalog) : Entity.Lasting c (Entity.Awaits c) where
  new _ := fun _ _ h => nomatch h
  put _ h _ := h
  mapValues h _ := h
  settle {x} name h other source hwaits := by
    by_cases hname : other = name
    · subst hname
      rw [Entity.settle, Assoc.get?_erase_self] at hwaits
      cases hwaits
    · rw [Entity.settle, Assoc.get?_erase_of_ne _ hname] at hwaits
      exact h other source hwaits
  wait source h hties other source' hwaits := by
    rcases Assoc.get?_put_cases hwaits with ⟨rfl, -⟩ | hold
    · exact hties
    · exact h other source' hold.2
  aside h hschema _ hpending other source hwaits := by
    rw [hschema]
    exact h other source (hpending ▸ hwaits)

namespace Catalog

variable {c : Catalog} {t : Schema} {f : String}

/-- Some to-many relation of a known type is crossed. -/
def HasCrossed (c : Catalog) : Prop :=
  ∃ s comp, c.Known s ∧ comp ∈ s.components ∧ comp.isToMany = true ∧ c.Crossed comp

/-- A foreign key by which a relation ties entities is an atomic of their type, unless some to-many
relation is crossed. -/
theorem declared_of_ties (h : c.Ties t f) : (∃ a, t.atomic f = .ok a) ∨ c.HasCrossed := by
  obtain ⟨s, comp, join, hs, hcomp, hjoin, rfl, hends⟩ := h
  obtain ⟨t', ht', hhere, hthere⟩ := atomics_of_join hs hcomp hjoin
  rw [Join.localAtomic] at hhere
  rw [Join.remoteAtomic] at hthere
  cases hside : join.side with
  | here =>
    rw [hside] at hhere
    rcases hends with ⟨-, rfl⟩ | ⟨hno | hmany, -⟩
    · exact .inl hhere
    · rw [hside] at hno
      cases hno
    · obtain ⟨hno, -⟩ | ⟨-, hcrossed, -⟩ := side_or_crossed hjoin hmany
      · rw [hside] at hno
        cases hno
      · exact .inr ⟨s, comp, hs, hcomp, hmany, hcrossed⟩
  | there =>
    rw [hside] at hthere
    rcases hends with ⟨hno, -⟩ | ⟨-, ht⟩
    · rw [hside] at hno
      cases hno
    · obtain rfl := Except.ok.inj (ht.symm.trans ht')
      exact .inl hthere

end Catalog

/-! ### Announcing a key -/

/-- A value that is not converted is of the wrong kind. -/
theorem Atomic.known_of_coerce {entity : String} {a : Atomic} {v : Value} {error : Error}
    (h : a.coerce entity v = .error error) : ¬error.IsUnknownProperty := by
  simp only [coerce] at h
  split at h <;> cases h
  exact id

namespace Graph

variable {c : Catalog} {g : Graph} {e : EntityId} {error : Error}

/-- The value of an atomic that is declared is answered. -/
theorem value_of_atomic? {name : String} {a : Atomic}
    (h : (g.entity e).schema.atomic? name = some a) : ∃ v, g.value e name = .ok v := by
  simp only [value, Entity.atomic, h]
  exact ⟨_, rfl⟩

/-- A key that is asked for may be missing, but not its atomic. -/
theorem known_of_requireKey (h : g.requireKey e = .error error) : ¬error.IsUnknownProperty := by
  simp only [requireKey] at h
  split at h <;> cases h
  exact id

/-- What a relation ties by its foreign key misses that only where some to-many relation is crossed. -/
theorem ends_writeForeignKey_missed {name : String} (v : Value)
    (h : c.Ties (g.entity e).schema name) :
    (writeForeignKey e name v).Ends g (fun _ _ => True)
      (fun error _ => error.IsUnknownProperty → c.HasCrossed) := by
  unfold writeForeignKey
  simp only [Act.ends_bind, Act.ends_get, Act.ends_ofExcept, Act.ends_modify]
  refine ⟨fun a ha => ⟨fun _ _ => trivial, fun error herror hunknown => ?_⟩, fun error herror _ => ?_⟩
  · exact absurd hunknown (Atomic.known_of_coerce herror)
  · rcases Catalog.declared_of_ties h with ⟨a, ha⟩ | hcrossed
    · cases ha.symm.trans herror
    · exact hcrossed

/-- What listens for a key that can be read misses its foreign key only where some to-many relation is
crossed. -/
theorem ends_announceKey_missed (h : g.Everywhere (Entity.Awaits c))
    (hread : ∀ holder name referenced,
      .foreignKey holder name referenced ∈ (g.entity e).listeners →
        ∃ a, (g.entity e).schema.atomic? referenced = some a) :
    (announceKey e).Ends g (fun _ _ => True)
      (fun error _ => error.IsUnknownProperty → c.HasCrossed) := by
  have hP := Entity.lasting_awaits c
  unfold announceKey
  simp only [Act.ends_bind, Act.ends_get, Act.ends_modify]
  refine (Act.ends_forAll_of_forM (Act.ends_forM (I := fun g' => g'.Everywhere (Entity.Awaits c) ∧
      (g'.entity e).schema = (g.entity e).schema)
    (E := fun error _ => error.IsUnknownProperty → c.HasCrossed) (fun l hl g' hg' => ?_)
    ⟨hP.beside (f := fun x => { x with listeners := [] }) h fun _ => ⟨rfl, rfl, rfl⟩,
      view_modifyEntity (v := (·.schema)) rfl⟩)).mono
    (fun _ _ _ => trivial) fun _ _ herror => herror.elim fun _ h => h
  obtain ⟨hawaits, hschema⟩ := hg'
  cases l with
  | collection i =>
    unfold hear indexMember
    rw [Act.ends_modify]
    split <;> exact ⟨hawaits, hschema⟩
  | foreignKey holder name referenced =>
    unfold hear
    simp only [Act.ends_bind, Act.ends_get, Act.ends_ite, Act.ends_ofExcept]
    refine ⟨fun hwaits => ⟨fun v _ => ?_, fun error herror => ?_⟩, fun _ => ⟨hawaits, hschema⟩⟩
    · have hkept : (writeForeignKey holder name v).Ends g'
          (fun _ g₁ => (g₁.entity e).schema = (g'.entity e).schema) (fun _ _ => True) :=
        ends_writeForeignKey (fun a w _ _ => view_modifyEntity (v := (·.schema))
          (receive_frame _ _ _).1) fun _ => trivial
      refine (((hP.writeForeignKey holder name v g' hawaits).and hkept).and
        (ends_writeForeignKey_missed v (hawaits holder name e hwaits))).mono
        (fun _ g₁ h₁ => ⟨h₁.1.1, h₁.1.2.trans hschema⟩) fun _ _ h₁ => h₁.2
    · -- the listener reads an atomic that the entity has
      obtain ⟨a, ha⟩ := hread holder name referenced hl
      obtain ⟨v, hv⟩ := value_of_atomic? (g := g') (e := e) (hschema.symm ▸ ha)
      cases hv.symm.trans herror

/-- An entity takes over a key that is made, and what listens for it misses its foreign key only where
some to-many relation is crossed. -/
theorem ends_assignGeneratedKey_missed (hwf : g.WellFormed c) (h : g.Everywhere (Entity.Awaits c))
    (e : EntityId) (v : Value) :
    (assignGeneratedKey e v).Ends g (fun _ _ => True)
      (fun error _ => error.IsUnknownProperty → c.HasCrossed) := by
  unfold assignGeneratedKey
  simp only [Act.ends_bind, Act.ends_get, Act.ends_ofExcept, Act.ends_modify]
  refine ⟨fun a ha => ⟨fun w _ => ?_, fun error herror hunknown => ?_⟩, fun error herror hunknown => ?_⟩
  · have hkey := Schema.key_eq_ok_iff.1 ha
    have hs := hwf.schema_of_primaryKey hkey
    refine ends_announceKey_missed (h.modifyEntity fun hx => hx) fun holder name referenced hl => ?_
    rw [view_modifyEntity (v := (·.listeners)) rfl] at hl
    have hreferenced := hwf.listeners e holder name referenced hl
    obtain rfl : a.name = referenced := by simpa [Schema.keyName?, hkey] using hreferenced
    rw [view_modifyEntity (v := (·.schema)) rfl]
    exact ⟨a, (Catalog.coherent_of_within hs (.refl _)).atomic?_name
      (Catalog.mem_of_primaryKey hs hkey)⟩
  · exact absurd hunknown (Atomic.known_of_coerce herror)
  · exact absurd hunknown (Schema.declared_of_key herror).not_isUnknownProperty

end Graph

/-! ### Saves -/

namespace Save

open Act Traversal

variable {σ : Type} [Connection σ] {ses : Session} {e : EntityId} {g : Graph} {error : Error}
  {t : Traversal EntityId σ}

/-- A check of values finds constraints that are broken. -/
theorem known_of_checkAll {entity : String} {values : List (Atomic × Value)}
    (h : checkAll entity values = .error error) : ¬error.IsUnknownProperty := by
  obtain ⟨_, _, _, _, rfl⟩ := exists_of_checkAll h
  exact id

/-- A check of what waits finds what still waits. -/
theorem known_of_checkPending (h : checkPending g e = .error error) : ¬error.IsUnknownProperty := by
  simp only [checkPending] at h
  split at h <;> cases h
  exact id

/-- The checks before an insert miss no property by name. -/
theorem known_of_checkInsert (h : checkInsert ses g e = .error error) : ¬error.IsUnknownProperty := by
  simp only [checkInsert] at h
  rcases bind_eq_error_iff.1 h with h | ⟨_, -, h⟩
  · exact known_of_checkPending h
  rcases bind_eq_error_iff.1 h with h | ⟨key, -, h⟩
  · exact (Schema.declared_of_key h).not_isUnknownProperty
  have hkey : ∀ {error : Error}, (if ((g.key? e).isNone && !key.generated) = true then
      throw (.violation (g.entity e).schema.name key.name .keyNotAssigned)
      else pure PUnit.unit : Except Error PUnit) = .error error → ¬error.IsUnknownProperty := by
    intro error h
    split at h <;> cases h
    exact id
  split at h
  · rcases bind_eq_error_iff.1 h with h | ⟨_, -, h⟩
    · exact known_of_checkAll h
    · exact hkey h
  · exact hkey h

/-- The row of the primary table is inserted, and what listens for the key that is made misses its foreign
key only where some to-many relation is crossed. -/
theorem ends_insertFirst_missed (hwf : t.world.graph.WellFormed ses.catalog)
    (h : t.world.graph.Everywhere (Entity.Awaits ses.catalog)) (table : String)
    (columns : List (String × Value)) :
    (insertFirst e table columns).Ends t (fun _ _ => True)
      (fun error _ => error.IsUnknownProperty → ses.catalog.HasCrossed) := by
  have hstatement : ∀ error : Error, error.OfStatement → error.IsUnknownProperty →
      ses.catalog.HasCrossed := fun _ h hunknown => absurd hunknown h.not_isUnknownProperty
  have hsent : (onWire e (Insert.single table columns).execute : SaveM σ _).Ends t
      (fun _ t' => t'.world.graph = t.world.graph) (fun _ _ => True) :=
    ends_onWire_insert (fun _ _ _ hsent => hsent.graph) fun _ _ _ _ _ => trivial
  unfold insertFirst
  rw [ends_bind]
  refine (hsent.and (fails_iff_ends.1 (Fails.onWire (fails_insert _)) t)).mono
    (fun made t' ht' => ?_) fun _ _ herror => hstatement _ herror.2
  rw [ends_bind, ends_graph, ends_ite, ht'.1]
  refine ⟨fun _ => ?_, fun _ => trivial⟩
  cases made with
  | none => exact hstatement (.malformedStatement _) trivial
  | some v =>
    rw [ends_onGraph, ht'.1]
    exact Graph.ends_assignGeneratedKey_missed hwf h e v

/-- Inserting the rows of an entity misses a property only where some to-many relation is crossed. -/
theorem ends_insertRows_missed (hwf : t.world.graph.WellFormed ses.catalog)
    (h : t.world.graph.Everywhere (Entity.Awaits ses.catalog)) :
    (insertRows ses e).Ends t (fun _ _ => True)
      (fun error _ => error.IsUnknownProperty → ses.catalog.HasCrossed) := by
  simp only [insertRows]
  rw [ends_bind, ends_graph, ends_bind, ends_ofExcept]
  refine ⟨fun _ _ => ?_, fun _ herror hunknown => absurd hunknown (known_of_checkInsert herror)⟩
  rw [ends_bind, ends_ofExcept]
  refine ⟨fun key _ => ?_, fun _ herror hunknown =>
    absurd hunknown (Schema.declared_of_key herror).not_isUnknownProperty⟩
  rw [columnsByTable_eq, ends_bind]
  refine (ends_insertFirst_missed hwf h _ _).mono (fun _ t' _ => ?_) fun _ _ herror => herror
  -- the rows after the first are no matter of listeners
  refine Act.Ends.mono (E := fun error _ => ¬error.IsUnknownProperty)
    (fails_iff_ends.1 (fails_graph.bind fun g' => ?_) t') (fun _ _ _ => trivial)
    fun _ _ hknown hunknown => absurd hunknown hknown
  refine (fails_ofExcept fun _ herror => Graph.known_of_requireKey herror).bind fun v => ?_
  exact ((fails_insertRest _ _ _ _).mono fun _ => Error.OfStatement.not_isUnknownProperty).bind
    fun _ => Fails.onGraph (fails_modify _)

/-- Updating the rows of an entity misses no property by name. -/
theorem fails_updateRows_known :
    Fails (fun error => ¬error.IsUnknownProperty) (updateRows ses e : SaveM σ Unit) := by
  simp only [updateRows]
  refine fails_graph.bind fun g =>
    (fails_ofExcept fun _ herror => known_of_checkPending herror).bind fun _ => ?_
  have hwrites : Fails (fun error => ¬error.IsUnknownProperty) (do
      let key ← Act.ofExcept (g.entity e).schema.key
      let v ← Act.ofExcept (g.requireKey e)
      updateTables e key v (columnsByTable (g.entity e).schema (changes g e))
      onGraph (modify fun g => (g.markClean e).markStored e) : SaveM σ Unit) := by
    refine (fails_ofExcept fun _ herror =>
      (Schema.declared_of_key herror).not_isUnknownProperty).bind fun key => ?_
    refine (fails_ofExcept fun _ herror => Graph.known_of_requireKey herror).bind fun v => ?_
    exact ((fails_updateTables _ _ _ _).mono fun _ => Error.OfStatement.not_isUnknownProperty).bind
      fun _ => Fails.onGraph (fails_modify _)
  refine .ite (.ite ?_ hwrites) (Fails.onGraph (fails_modify _))
  exact (fails_ofExcept fun _ herror => known_of_checkAll herror).bind fun _ => hwrites

/-- A save misses a property only where a relation is not resolved, or a to-many one is crossed. -/
theorem missed_events (ses : Session) (g₀ : Graph) (bound : Nat) :
    Events (σ := σ) ses g₀ bound (fun _ => True)
      (fun _ t => t.world.graph.Everywhere (Entity.Awaits ses.catalog))
      (fun error _ => error.IsUnknownProperty →
        ses.catalog.Unresolved error ∨ ses.catalog.HasCrossed) where
  fail _ _ _ _ h hunknown := by
    rcases h with hdeclared | hunresolved
    · exact absurd hunknown hdeclared.not_isUnknownProperty
    · exact .inl hunresolved
  exhausted _ _ _ _ hno := hno.elim
  skip _ _ _ _ _ _ _ := trivial
  enter _ _ _ _ h _ _ _ := h
  insert trail t e h hsteady :=
    (((lasting_rules (Entity.lasting_awaits _) g₀).insert trail t e h hsteady).and
      (ends_insertRows_missed hsteady.wellFormed h)).mono (fun _ _ ht => ht.1)
        fun _ _ herror hunknown => .inr (herror.2 hunknown)
  update trail t e h hsteady hlt :=
    (((lasting_rules (Entity.lasting_awaits _) g₀).update trail t e h hsteady hlt).and
      (fails_iff_ends.1 fails_updateRows_known t)).mono (fun _ _ ht => ht.1)
        fun _ _ herror hunknown => absurd hunknown herror.2
  leave _ _ _ h _ _ := h

end Save

/-- A call that writes an entity misses a property only where a relation is not resolved, or a to-many one
is crossed. -/
theorem Call.unresolved_or_crossed_of_run {σ : Type} [Connection σ] (ses : Session) {w w' : World σ}
    {e : EntityId} {call : Call} {error : Error} (hwf : w.graph.WellFormed ses.catalog)
    (h : w.graph.Everywhere (Entity.Awaits ses.catalog)) (hrun : call.run ses e w = .error error w')
    (hunknown : error.IsUnknownProperty) :
    ses.catalog.Unresolved error ∨ ses.catalog.HasCrossed := by
  refine (call.ends_events (t := { world := w }) (Save.missed_events ses w.graph _)
    (fun _ _ _ hdeclared hunknown => ?_) h ⟨.refl _, hwf⟩).of_error
      (call.traverse_of_error hrun).1 hunknown
  exact absurd hunknown hdeclared.not_isUnknownProperty

end EntityGraph
