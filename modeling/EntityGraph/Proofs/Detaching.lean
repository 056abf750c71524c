import EntityGraph.Proofs.Deleting
import EntityGraph.Proofs.Integrity
import EntityGraph.Proofs.Ledger

/-!
# What detaching leaves of a foreign key

Three operations take entities away from another one: assigning its to-one relation, where the foreign
key is on the target; removing a member from one of its collections; and deleting it, where a policy
empties the foreign keys that refer to it. All of them go by what the relation lists. They leave a
foreign key alone, its value, its mark and what it waits for, unless the relation lists its holder. A
holder that is listed loses its foreign key, also one that refers to another entity by now.

## Main results

* `Detachment.spared_or_cleared`: a foreign key stays as it is, or its holder was listed;
* `Detachment.clears_current_owner`: a foreign key that refers to another owner can be lost.
-/

namespace EntityGraph

namespace Graph

variable {g g' g'' : Graph} {e h : EntityId} {f name : String} {p q : Prop}

/-- A foreign key has the value, the mark and the state of waiting that it had before. -/
structure Spared (h : EntityId) (f : String) (g g' : Graph) : Prop where
  slot : g'.slot h f = g.slot h f
  pending : (g'.entity h).pending.get? f = (g.entity h).pending.get? f

/-- A foreign key is null, and waits for nothing. -/
structure Cleared (h : EntityId) (f : String) (g : Graph) : Prop where
  value : (g.entity h).atomicValue f = .null
  pending : (g.entity h).pending.get? f = none

/-- A foreign key is as before, or under a condition is null. -/
def SparedOr (p : Prop) (h : EntityId) (f : String) (g g' : Graph) : Prop :=
  Spared h f g g' ∨ p ∧ Cleared h f g'

namespace Spared

theorem refl (h : EntityId) (f : String) (g : Graph) : Spared h f g g :=
  ⟨rfl, rfl⟩

theorem trans (hs : Spared h f g g') (hs' : Spared h f g' g'') : Spared h f g g'' :=
  ⟨hs'.slot.trans hs.slot, hs'.pending.trans hs.pending⟩

/-- A change of an entity that keeps the foreign key and what it waits for. -/
theorem modifyEntity (g : Graph) (e : EntityId) {u : Entity → Entity}
    (hslot : h = e → ∀ x, (u x).atomics.get? f = x.atomics.get? f)
    (hpending : h = e → ∀ x, (u x).pending.get? f = x.pending.get? f) :
    Spared h f g (g.modifyEntity e u) := by
  rcases entity_modifyEntity_cases g h e u with heq | ⟨rfl, -, heq⟩
  · exact ⟨by rw [Graph.slot, Graph.slot, heq], by rw [heq]⟩
  · exact ⟨by rw [Graph.slot, Graph.slot, heq, hslot rfl], by rw [heq, hpending rfl]⟩

/-- A foreign key that takes a value spares every other one. -/
theorem receive (hne : ¬(e = h ∧ name = f)) (g : Graph) (v : Value) :
    Spared h f g (g.modifyEntity e (·.receive name v)) := by
  have hname : h = e → f ≠ name := fun he hf => hne ⟨he.symm, hf.symm⟩
  refine modifyEntity g e (fun he x => atomics_receive_of_ne x name v (hname he)) fun he x => ?_
  rw [pending_receive, Assoc.get?_erase_of_ne _ (hname he)]

/-- A foreign key that is cleared spares every other one. -/
theorem cleared (hne : ¬(e = h ∧ name = f)) (g : Graph) : Spared h f g (g.cleared e name) := by
  have hname : h = e → f ≠ name := fun he hf => hne ⟨he.symm, hf.symm⟩
  exact modifyEntity g e (fun he x => Assoc.get?_put_of_ne _ _ (hname he))
    fun he x => Assoc.get?_erase_of_ne _ (hname he)

/-- An entity that is marked as deleted spares what is not one of its parts. -/
theorem markDeleted (hne : h ∉ g.parts e) : Spared h f g (g.markDeleted e) := by
  have hself : (g.markDeleted e).entity h = g.entity h :=
    (entity_foldl_modifyEntity markDeleted_markDeleted (g.parts e) g h).resolve_right
      fun hmem => hne hmem.1
  exact ⟨by rw [Graph.slot, Graph.slot, hself], by rw [hself]⟩

end Spared

/-- A null foreign key that is spared stays null. -/
theorem Cleared.of_spared (hc : Cleared h f g) (hs : Spared h f g g') : Cleared h f g' :=
  ⟨(atomicValue_eq_of_slot hs.slot).trans hc.value, hs.pending.trans hc.pending⟩

/-- A foreign key that takes null is null. -/
theorem Cleared.receive (g : Graph) (h : EntityId) (f : String) :
    Cleared h f (g.modifyEntity h (·.receive f .null)) := by
  rcases entity_modifyEntity_cases g h h (·.receive f .null) with heq | ⟨-, -, heq⟩
  · -- an identity that no entity has reads as null
    by_cases hlt : h.index < g.entities.length
    · rw [entity_modifyEntity_self _ hlt] at heq
      constructor
      all_goals rw [entity_modifyEntity_self _ hlt]
      · rw [Entity.atomicValue, atomics_receive]
        split <;> rfl
      · rw [pending_receive, Assoc.get?_erase_self]
    · have hdefault := entity_of_length_le (g := g) (Nat.le_of_not_lt hlt)
      exact ⟨by rw [heq, hdefault]; rfl, by rw [heq, hdefault]; rfl⟩
  · constructor
    all_goals rw [heq]
    · rw [Entity.atomicValue, atomics_receive]
      split <;> rfl
    · rw [pending_receive, Assoc.get?_erase_self]

/-- A foreign key that storage has nulled is null. -/
theorem Cleared.cleared (g : Graph) (h : EntityId) (f : String) : Cleared h f (g.cleared h f) := by
  by_cases hlt : h.index < g.entities.length
  · constructor
    all_goals unfold Graph.cleared
    all_goals rw [entity_modifyEntity_self _ hlt]
    · simp [Entity.atomicValue, Entity.loadAtomic, Slot.loaded]
    · exact Assoc.get?_erase_self _ _
  · have hdefault : (g.cleared h f).entity h = default :=
      entity_of_length_le (by simpa [Graph.cleared] using hlt)
    exact ⟨by rw [hdefault]; rfl, by rw [hdefault]; rfl⟩

namespace SparedOr

theorem refl (p : Prop) (h : EntityId) (f : String) (g : Graph) : SparedOr p h f g g :=
  .inl (.refl h f g)

/-- What is spared afterwards stays so, or stays null. -/
theorem trans_spared (hs : SparedOr p h f g g') (hs' : Spared h f g' g'') : SparedOr p h f g g'' :=
  hs.imp (·.trans hs') fun hc => ⟨hc.1, hc.2.of_spared hs'⟩

end SparedOr

/-! ### Writing, linking, assigning a relation, removing a member -/

/-- Writing null to a foreign key spares every other one, and clears it if the write succeeds. -/
theorem ends_writeForeignKey_spared (g : Graph) (e : EntityId) (name : String) (h : EntityId)
    (f : String) : (writeForeignKey e name .null).Ends g
      (fun _ g' => SparedOr (e = h ∧ name = f) h f g g' ∧ (e = h ∧ name = f → Cleared h f g'))
      (fun _ => Spared h f g) := by
  refine ends_writeForeignKey (fun a w _ hw => ?_) fun _ => .refl h f g
  rw [Atomic.coerce_eq_ok_iff, AtomicKind.coerce?_null] at hw
  obtain rfl := Option.some.inj hw
  by_cases heq : e = h ∧ name = f
  · obtain ⟨rfl, rfl⟩ := heq
    exact ⟨.inr ⟨⟨rfl, rfl⟩, .receive g e name⟩, fun _ => .receive g e name⟩
  · exact ⟨.inl (.receive heq g .null), fun he => absurd he heq⟩

/-- Linking a foreign key spares every other one. -/
theorem ends_link_spared (hne : ¬(e = h ∧ name = f)) (g : Graph) (source : EntityId)
    (referenced : String) :
    (link e name source referenced).Ends g (fun _ => Spared h f g) (fun _ => Spared h f g) := by
  have hname : h = e → f ≠ name := fun he hf => hne ⟨he.symm, hf.symm⟩
  unfold link
  simp only [Act.ends_bind, Act.ends_get, Act.ends_ofExcept, Act.ends_ite, Act.ends_throw,
    Act.ends_modify, addListener]
  refine ⟨fun v _ => ⟨fun _ => ?_, fun _ => ⟨fun _ => .refl h f g, fun _ => ?_⟩⟩, fun _ _ => .refl h f g⟩
  · exact ends_writeForeignKey (fun _ w _ _ => .receive hne g w) fun _ => .refl h f g
  · have hwaits : Spared h f g (g.modifyEntity e fun x =>
        { x with pending := x.pending.put name source }) :=
      .modifyEntity g e (fun _ _ => rfl) fun he _ => Assoc.get?_put_of_ne _ _ (hname he)
    exact hwaits.trans (.modifyEntity _ source (fun _ _ => rfl) fun _ _ => rfl)

/-- Writing the foreign key of a to-one relation that has it here spares every other one. -/
theorem ends_relink_here_spared (g : Graph) {join : Join} (before target : Option EntityId)
    (hside : join.side = .here) (hne : ¬(e = h ∧ join.foreignKey = f)) :
    (relink e join before target).Ends g (fun _ => Spared h f g) (fun _ => Spared h f g) := by
  unfold relink
  simp only [hside]
  cases target with
  | none => exact ends_writeForeignKey (fun _ w _ _ => .receive hne g w) fun _ => .refl h f g
  | some t => exact ends_link_spared hne g t _

/-- Writing the foreign key of a to-one relation that has it on the target clears that of the target
before, if that is another one. -/
theorem ends_relink_there_spared (g : Graph) {join : Join} (before target : Option EntityId)
    (hside : join.side = .there) (hne : ¬(target = some h ∧ join.foreignKey = f)) :
    (relink e join before target).Ends g
      (fun _ g' => SparedOr (join.foreignKey = f ∧ before = some h) h f g g' ∧
        (join.foreignKey = f → before = some h → Cleared h f g'))
      (fun _ => SparedOr (join.foreignKey = f ∧ before = some h) h f g) := by
  have hlink : ∀ g₁ t, target = some t →
      SparedOr (join.foreignKey = f ∧ before = some h) h f g g₁ ∧
        (join.foreignKey = f → before = some h → Cleared h f g₁) →
      (link t join.foreignKey e join.referenced).Ends g₁
        (fun _ g' => SparedOr (join.foreignKey = f ∧ before = some h) h f g g' ∧
          (join.foreignKey = f → before = some h → Cleared h f g'))
        (fun _ => SparedOr (join.foreignKey = f ∧ before = some h) h f g) := by
    rintro g₁ t rfl ⟨hor, hcleared⟩
    refine (ends_link_spared (fun ⟨ht, hf⟩ => hne ⟨congrArg some ht, hf⟩) g₁ e _).mono
      (fun _ g' hs => ⟨hor.trans_spared hs, fun hf hb => ?_⟩) fun _ _ hs => hor.trans_spared hs
    exact (hcleared hf hb).of_spared hs
  unfold relink
  simp only [hside]
  cases before with
  | none =>
    have hstart : SparedOr (join.foreignKey = f ∧ none = some h) h f g g ∧
        (join.foreignKey = f → none = some h → Cleared h f g) := ⟨.refl _ h f g, fun _ hb => by cases hb⟩
    cases target with
    | none => exact hstart
    | some t => exact hlink g t rfl hstart
  | some b =>
    simp only [Act.ends_bind, Act.ends_ite]
    refine ⟨fun _ => ?_, fun heq => ?_⟩
    · refine (ends_writeForeignKey_spared g b join.foreignKey h f).mono (fun _ g₁ h₁ => ?_)
        fun _ _ hs => .inl hs
      have h₁ : SparedOr (join.foreignKey = f ∧ some b = some h) h f g g₁ ∧
          (join.foreignKey = f → some b = some h → Cleared h f g₁) :=
        ⟨h₁.1.imp_right fun hc => ⟨⟨hc.1.2, congrArg some hc.1.1⟩, hc.2⟩,
          fun hf hb => h₁.2 ⟨Option.some.inj hb, hf⟩⟩
      cases target with
      | none => exact h₁
      | some t => exact hlink g₁ t rfl h₁
    · -- the target stays, and is not the entity in question
      obtain rfl := not_not.1 heq
      have hstart : SparedOr (join.foreignKey = f ∧ some b = some h) h f g g ∧
          (join.foreignKey = f → some b = some h → Cleared h f g) :=
        ⟨.refl _ h f g, fun hf hb => absurd ⟨hb, hf⟩ hne⟩
      exact hlink g b rfl hstart

/-- Writing the foreign key of a to-one relation clears that of the target before, if it is another one
and that is where the foreign key is. It spares what it does not write. -/
theorem ends_relink_spared (g : Graph) (join : Join) (before target : Option EntityId)
    (hhere : join.side = .here → ¬(e = h ∧ join.foreignKey = f))
    (hthere : join.side = .there → ¬(target = some h ∧ join.foreignKey = f)) :
    (relink e join before target).Ends g
      (fun _ g' =>
        SparedOr (join.side = .there ∧ join.foreignKey = f ∧ before = some h) h f g g' ∧
        (join.side = .there → join.foreignKey = f → before = some h → Cleared h f g'))
      (fun _ => SparedOr (join.side = .there ∧ join.foreignKey = f ∧ before = some h) h f g) := by
  cases hside : join.side with
  | here =>
    exact (ends_relink_here_spared g before target hside (hhere hside)).mono
      (fun _ _ hs => ⟨.inl hs, fun hno => by cases hno⟩) fun _ _ hs => .inl hs
  | there =>
    simpa only [true_and, forall_const] using
      ends_relink_there_spared g before target hside (hthere hside)

end Graph

/-! ### Detachments -/

/-- An operation that can take entities away from another one. -/
inductive Detachment where
  /-- The to-one relation of an entity is assigned. -/
  | assignOne (o : EntityId) (name : String) (target : Option EntityId)
  /-- A member is removed from a collection. -/
  | remove (i : CollectionId) (member : EntityId)
  /-- An entity is deleted. -/
  | delete (o : EntityId)

/-- The deletion of an entity leads to another one, which is deleted as one of a type. -/
inductive Graph.Dooms (c : Catalog) (g : Graph) (o : EntityId) : Schema → EntityId → Prop
  | self : Dooms c g o (g.entity o).schema o
  | next {s target : Schema} {comp : Component} {x y : EntityId} : Dooms c g o s x →
      comp ∈ s.components → comp.onDelete = .cascade → c.schema comp.target = .ok target →
      y ∈ g.targetsOf x comp.name → Dooms c g o target y

namespace Detachment

variable {σ : Type} [Connection σ]

/-- What a detachment does. -/
def run (ses : Session) : Detachment → SessionM σ Unit
  | assignOne o name target => SessionM.onGraph (Graph.assignOne ses.catalog o name target)
  | remove i member => SessionM.onGraph do let _ ← Graph.remove i member
  | delete o => ses.delete o

/-- The relation that a detachment is about lists an entity, with a foreign key of the entity's. -/
def Lists (c : Catalog) (g : Graph) (h : EntityId) (f : String) : Detachment → Prop
  | assignOne o name _ => ∃ comp join, Entity.relation (g.entity o).schema name false = .ok comp ∧
      c.join (g.entity o).schema comp = .ok join ∧ join.side = .there ∧ join.foreignKey = f ∧
      ((g.entity o).toOne.get? comp.name).bind (·.value) = some h
  | remove i member => member = h ∧ h ∈ (g.collection i).members ∧ (g.collection i).join.foreignKey = f
  | delete o => ∃ s x comp join, g.Dooms c o s x ∧ comp ∈ s.components ∧ comp.onDelete = .setNull ∧
      c.join s comp = .ok join ∧ join.side = .there ∧ g.Lists x comp join h f

/-- A detachment is about a foreign key itself: it assigns the relation that has the foreign key, from
one side or the other, or deletes what the foreign key is part of. -/
def Writes (c : Catalog) (g : Graph) (h : EntityId) (f : String) : Detachment → Prop
  | assignOne o name target => ∃ comp join, Entity.relation (g.entity o).schema name false = .ok comp ∧
      c.join (g.entity o).schema comp = .ok join ∧ join.foreignKey = f ∧
      (join.side = .here ∧ o = h ∨ join.side = .there ∧ target = some h)
  | remove _ _ => False
  | delete o => ∃ s x, g.Dooms c o s x ∧ h ∈ g.parts x

variable {c : Catalog} {ses : Session} {w : World σ} {g g' : Graph} {o h : EntityId} {f : String}

open EntityGraph.Graph

/-- Assigning a to-one relation clears the foreign key of the target before, if it was listed. -/
theorem ends_assignOne_spared {name : String} {target : Option EntityId}
    (hwrites : ¬(assignOne o name target).Writes c g h f) :
    (Graph.assignOne c o name target).Ends g
      (fun _ g' => SparedOr ((assignOne o name target).Lists c g h f) h f g g' ∧
        ((assignOne o name target).Lists c g h f → Cleared h f g'))
      (fun _ => SparedOr ((assignOne o name target).Lists c g h f) h f g) := by
  unfold Graph.assignOne
  simp only [Act.ends_bind, Act.ends_get]
  rw [Act.ends_ofExcept]
  refine ⟨fun comp hcomp => ?_, fun _ _ => .refl _ h f g⟩
  have hrest : ∀ join, c.join (g.entity o).schema comp = .ok join →
      (relink o join (((g.entity o).toOne.get? comp.name).bind (·.value)) target).Ends g
        (fun _ g' =>
          let g'' := g'.modifyEntity o fun x => { x with toOne := x.toOne.put comp.name (.dirty target) }
          SparedOr ((assignOne o name target).Lists c g h f) h f g g'' ∧
            ((assignOne o name target).Lists c g h f → Cleared h f g''))
        (fun _ => SparedOr ((assignOne o name target).Lists c g h f) h f g) := by
    intro join hjoin
    have hor : ∀ {g'}, SparedOr (join.side = .there ∧ join.foreignKey = f ∧
        ((g.entity o).toOne.get? comp.name).bind (·.value) = some h) h f g g' →
        SparedOr ((assignOne o name target).Lists c g h f) h f g g' := fun hs =>
      hs.imp_right fun hc => ⟨⟨comp, join, hcomp, hjoin, hc.1.1, hc.1.2.1, hc.1.2.2⟩, hc.2⟩
    refine (ends_relink_spared g join _ target (fun hside heq => ?_) fun hside heq => ?_).mono
      (fun _ g' hs => ?_) fun _ _ hs => hor hs
    · exact hwrites ⟨comp, join, hcomp, hjoin, heq.2, .inl ⟨hside, heq.1⟩⟩
    · exact hwrites ⟨comp, join, hcomp, hjoin, heq.2, .inr ⟨hside, heq.1⟩⟩
    · have hkept := Spared.modifyEntity (h := h) (f := f) g' o (u := fun x =>
        { x with toOne := x.toOne.put comp.name (.dirty target) }) (fun _ _ => rfl) fun _ _ => rfl
      refine ⟨(hor hs.1).trans_spared hkept, ?_⟩
      rintro ⟨comp', join', hcomp', hjoin', hside, hf, hbefore⟩
      obtain rfl := Except.ok.inj (hcomp.symm.trans hcomp')
      obtain rfl := Except.ok.inj (hjoin.symm.trans hjoin')
      exact (hs.2 hside hf hbefore).of_spared hkept
  cases target with
  | none =>
    simp only [Act.ends_bind, Act.ends_modify]
    rw [Act.ends_ofExcept]
    exact ⟨hrest, fun _ _ => .refl _ h f g⟩
  | some t =>
    simp only [Act.ends_bind, Act.ends_modify]
    rw [Act.ends_ofExcept]
    refine ⟨fun _ _ => ?_, fun _ _ => .refl _ h f g⟩
    rw [Act.ends_ofExcept]
    exact ⟨hrest, fun _ _ => .refl _ h f g⟩

/-- Removing a member clears its foreign key. -/
theorem ends_remove_spared (g : Graph) (i : CollectionId) (member : EntityId) :
    (Graph.remove i member).Ends g
      (fun _ g' => SparedOr ((remove i member).Lists c g h f) h f g g' ∧
        ((remove i member).Lists c g h f → Cleared h f g'))
      (fun _ => SparedOr ((remove i member).Lists c g h f) h f g) := by
  unfold Graph.remove
  simp only [Act.ends_bind, Act.ends_get, Act.ends_ite, Act.ends_modify, Act.ends_pure]
  refine ⟨fun hmem => ?_, fun hmem => ⟨.refl _ h f g, ?_⟩⟩
  · refine (ends_writeForeignKey_spared _ member _ h f).mono (fun _ g' hs => ⟨?_, ?_⟩)
      fun _ _ hs => .inl ⟨hs.slot, hs.pending⟩
    · refine hs.1.imp (fun hs => ⟨hs.slot, hs.pending⟩) ?_
      rintro ⟨⟨rfl, hf⟩, hc⟩
      exact ⟨⟨rfl, by simpa using hmem, hf⟩, hc⟩
    · exact fun hlists => hs.2 ⟨hlists.1, hlists.2.2⟩
  · rintro ⟨rfl, hmember, -⟩
    exact absurd (by simpa using hmember) hmem

/-- The graph in the course of a deletion: of its shape, and of a foreign key that is spared unless its
holder is listed. -/
structure Deleting (c : Catalog) (o h : EntityId) (f : String) (g g' : Graph) : Prop where
  shape : g.SameShape g'
  collections : g'.collections = g.collections
  spared : SparedOr ((delete o).Lists c g h f) h f g g'

theorem Deleting.refl (c : Catalog) (o h : EntityId) (f : String) (g : Graph) :
    Deleting c o h f g g :=
  ⟨.refl g, rfl, .refl _ h f g⟩

/-- Clearing what a set-null policy releases. -/
theorem Deleting.cleared (hdel : Deleting c o h f g g') {s : Schema} {x y : EntityId}
    {comp : Component} {join : Join} {f' : String} (hx : g.Dooms c o s x)
    (hcomp : comp ∈ s.components) (hpolicy : comp.onDelete = .setNull)
    (hjoin : c.join s comp = .ok join) (hside : join.side = .there)
    (hlists : g.Lists x comp join y f') : Deleting c o h f g (g'.cleared y f') where
  shape := hdel.shape.trans (.modifyEntity g' y fun _ => ⟨rfl, rfl, rfl, fun _ => rfl⟩)
  collections := hdel.collections
  spared := by
    by_cases heq : y = h ∧ f' = f
    · obtain ⟨rfl, rfl⟩ := heq
      exact .inr ⟨⟨s, x, comp, join, hx, hcomp, hpolicy, hjoin, hside, hlists⟩, .cleared g' y f'⟩
    · exact hdel.spared.trans_spared (.cleared heq g')

/-- Marking as deleted what the foreign key is no part of. -/
theorem Deleting.markDeleted (hdel : Deleting c o h f g g') {x : EntityId} (hne : h ∉ g.parts x) :
    Deleting c o h f g (g'.markDeleted x) where
  shape := hdel.shape.trans (.markDeleted g' x)
  collections := (collections_modifyParts g' x _).trans hdel.collections
  spared := hdel.spared.trans_spared (.markDeleted (hdel.shape.parts_eq x ▸ hne))

omit [Connection σ] in
/-- What each step of a deletion leaves. -/
theorem deleting_rules (hwrites : ¬(delete o).Writes c g h f) :
    Deletion.Rules c (fun d => ∀ x ∈ d.loaded, g.Dooms c o d.schema x)
      (fun t : Traversal (String × Value) σ => Deleting c o h f g t.world.graph)
      fun _ t => Deleting c o h f g t.world.graph where
  fail _ _ hdel _ := hdel
  enter _ _ _ hdel := hdel
  ask _ _ _ _ _ hdel hsent := hsent.graph ▸ hdel
  empty _ _ _ _ _ hdel hsent := hsent.graph ▸ hdel
  delete _ _ _ _ _ _ _ hdel hsent := hsent.graph ▸ hdel
  release d x comp join t hdoomed hloaded hcomp hpolicy hjoin hside hdel := by
    rw [Traversal.ends_onGraph]
    exact ends_release_keeps (J := Deleting c o h f g) hdel.shape (fun _ h' => h'.collections)
      (fun y f' hlists _ h' =>
        h'.cleared (hdoomed x hloaded) hcomp hpolicy hjoin hside hlists) hdel
  mark d x t hdoomed hloaded hdel :=
    hdel.markDeleted fun hmem => hwrites ⟨d.schema, x, hdoomed x hloaded, hmem⟩
  next d comp target t v hdoomed hcomp hpolicy htarget hdel _ _ := by
    refine ⟨fun _ hx => (nomatch hx), fun x hx y hy => ?_⟩
    obtain rfl := Option.some.inj hy
    unfold Deletion.known at hx
    split at hx
    · next z hloaded =>
      exact .next (hdoomed z hloaded) hcomp hpolicy htarget (hdel.shape.targetsOf_eq z _ ▸ hx)
    · cases hx

/-- Deleting clears listed foreign keys at most. -/
theorem ends_delete_spared (hwrites : ¬(delete o).Writes ses.catalog w.graph h f) :
    (ses.delete o).Ends w (fun _ w' => Deleting ses.catalog o h f w.graph w'.graph)
      (fun _ w' => Deleting ses.catalog o h f w.graph w'.graph) := by
  have hstart := Deleting.refl ses.catalog o h f w.graph
  unfold Session.delete Deletion.run
  simp only [Act.ends_bind, Act.ends_get, Act.ends_ite, Act.ends_pure, Act.ends_ofExcept]
  refine ⟨fun _ => ⟨fun k _ => ?_, fun _ _ => hstart⟩, fun _ => hstart⟩
  rw [Traversal.ends_run_iff]
  refine Deletion.ends_deleteFrom (deleting_rules hwrites) _ _ _ (fun x hx => ?_) hstart
  obtain rfl := Option.some.inj hx
  exact .self

/-- **What a detachment leaves.** A foreign key that a detachment is not about itself keeps its value,
its mark and what it waits for, whatever becomes of the detachment, unless the relation that the
detachment is about lists the holder. Then it stays so or is cleared; and where the relation of an
entity is assigned or a member is removed, it is cleared, whatever it refers to. -/
theorem spared_or_cleared (ses : Session) (d : Detachment) (w : World σ) (h : EntityId) (f : String)
    (hwrites : ¬d.Writes ses.catalog w.graph h f) :
    (Spared h f w.graph ((d.run ses).final w).graph ∨
      d.Lists ses.catalog w.graph h f ∧ Cleared h f ((d.run ses).final w).graph) ∧
    ((∀ o, d ≠ .delete o) → d.Lists ses.catalog w.graph h f → (d.run ses).succeeds w = true →
      Cleared h f ((d.run ses).final w).graph) := by
  have hends : (d.run ses).Ends w
      (fun _ w' => SparedOr (d.Lists ses.catalog w.graph h f) h f w.graph w'.graph ∧
        ((∀ o, d ≠ .delete o) → d.Lists ses.catalog w.graph h f → Cleared h f w'.graph))
      (fun _ w' => SparedOr (d.Lists ses.catalog w.graph h f) h f w.graph w'.graph) := by
    cases d with
    | assignOne o name target =>
      exact Act.ends_onPart.2 ((ends_assignOne_spared hwrites).mono
        (fun _ _ hs => ⟨hs.1, fun _ => hs.2⟩) fun _ _ hs => hs)
    | remove i member =>
      refine Act.ends_onPart.2 ?_
      simp only [Act.ends_bind, Act.ends_pure]
      exact (ends_remove_spared w.graph i member).mono (fun _ _ hs => ⟨hs.1, fun _ => hs.2⟩)
        fun _ _ hs => hs
    | delete o =>
      exact (ends_delete_spared hwrites).mono
        (fun _ _ hs => ⟨hs.spared, fun hno => absurd rfl (hno o)⟩) fun _ _ hs => hs.spared
  refine ⟨Act.ends_final_iff.1 (hends.mono (fun _ _ hs => hs.1) fun _ _ hs => hs),
    fun hno hlists hsucceeds => ?_⟩
  obtain ⟨a, w', hrun⟩ := Act.exists_of_succeeds hsucceeds
  rw [Act.final_of_ok hrun]
  exact (hends.of_ok hrun).2 hno hlists

end Detachment

namespace Press

/-- Three authors are saved, the third as a pupil of the first, and then of the second. -/
def moving : SessionM Database Unit := do
  let first ← session.create "Author"
  let second ← session.create "Author"
  let pupil ← session.create "Author"
  SessionM.onGraph (Graph.assign first "id" (.int 1))
  SessionM.onGraph (Graph.assign second "id" (.int 2))
  SessionM.onGraph (Graph.assign pupil "id" (.int 3))
  let before ← SessionM.onGraph (Graph.many catalog first "pupils")
  SessionM.onGraph (Graph.push before pupil)
  session.save first
  let after ← SessionM.onGraph (Graph.many catalog second "pupils")
  SessionM.onGraph (Graph.push after pupil)
  session.save second

/-- The pupil has the second author as mentor, in memory and in the database. -/
def moved : World Database :=
  moving.final { wire := ⟨{ dialect := .mysql }, []⟩ }

end Press

namespace Detachment

open EntityGraph.Graph

/-- A pupil that is removed from the pupils of an earlier mentor has no mentor. -/
theorem spared_or_cleared_pupil :
    Cleared ⟨2⟩ "mentor" (((remove ⟨0⟩ ⟨2⟩).run Press.session).final Press.moved).graph :=
  (spared_or_cleared Press.session (remove ⟨0⟩ ⟨2⟩) Press.moved ⟨2⟩ "mentor" fun hno => hno).2
    (fun _ hno => nomatch hno) ⟨rfl, by decide +kernel, by decide +kernel⟩ (by decide +kernel)

/-- A foreign key that refers to another owner can be lost. The pupil has the second author as mentor,
and the first one still lists it. Removing it there makes the foreign key null; so does deleting the
first author, after which null counts as stored although the row in the database has the second one. -/
theorem clears_current_owner :
    Press.moving.succeeds { wire := ⟨{ dialect := .mysql }, []⟩ } = true ∧
      Press.moved.graph.key? ⟨0⟩ = some (.int 1) ∧ Press.moved.graph.key? ⟨1⟩ = some (.int 2) ∧
      Press.moved.graph.slot ⟨2⟩ "mentor" = some (.loaded (.int 2)) ∧
      ((remove ⟨0⟩ ⟨2⟩).run Press.session).succeeds Press.moved = true ∧
      (((remove ⟨0⟩ ⟨2⟩).run Press.session).final Press.moved).graph.slot ⟨2⟩ "mentor" =
        some (.dirty .null) ∧
      ((delete ⟨0⟩).run Press.session).succeeds Press.moved = true ∧
      (((delete ⟨0⟩).run Press.session).final Press.moved).graph.slot ⟨2⟩ "mentor" =
        some (.loaded .null) ∧
      (⟨"Author", [("id", .int 3), ("mentor", .int 2)]⟩ : StoredRow) ∈
        (((delete ⟨0⟩).run Press.session).final Press.moved).wire.link.rows := by
  decide +kernel

end Detachment

end EntityGraph
