import EntityGraph.Proofs.Client
import EntityGraph.Proofs.Loading

/-!
# What lasts of every entity

To one entity, little happens whatever callers and sessions do. It is made without values. Atomics get
values that they can have: a caller assigns them, relations write foreign keys, at once or when the key
that they wait for is announced, the database makes keys, rows are read, and storage nulls foreign keys.
A foreign key waits for the key of another entity, or no longer does. All else concerns relations, marks
and listeners. So what these changes keep holds of every entity in every state.

* `Schema.Takes` — a value that an atomic of a type can have;
* `Catalog.Ties` — an atomic by which a relation ties entities of a type to others;
* `Entity.Lasting` — what the changes of an entity keep;
* `Lasting.operation`, `Lasting.readStep` — operations and steps of reading keep it;
* `Save.lasting_rules`, `Deletion.lasting_rules` — so do saves and deletions.

## Main result

* `Client.Reached.lasts` — in every reached state, what lasts holds of every entity.
-/

namespace EntityGraph

/-- An atomic of a type can have a value: null, or one in the form of its kind. -/
def Schema.Takes (s : Schema) (name : String) (v : Value) : Prop :=
  v = .null ∨ ∃ a ∈ s.atomics, a.name = name ∧ a.kind.Holds v

/-- A coerced value is one that the atomic can have. -/
theorem Schema.takes_of_coerce {s : Schema} {a : Atomic} (ha : a ∈ s.atomics) {entity : String}
    {v w : Value} (hw : a.coerce entity v = .ok w) : s.Takes a.name w := by
  unfold Atomic.coerce at hw
  split at hw
  · next w' hw' => exact .inr ⟨a, ha, rfl, Except.ok.inj hw ▸ AtomicKind.coerce?_holds hw'⟩
  · cases hw

/-- An atomic is the foreign key by which a relation ties entities of a type to others: a relation that
the type has, or one that it is the target of. Of a to-many relation, that is the foreign key which
members get. -/
def Catalog.Ties (c : Catalog) (t : Schema) (f : String) : Prop :=
  ∃ s comp join, c.Known s ∧ comp ∈ s.components ∧ c.join s comp = .ok join ∧ join.foreignKey = f ∧
    (join.side = .here ∧ s = t ∨
      (join.side = .there ∨ comp.isToMany = true) ∧ c.schema comp.target = .ok t)

/-- A property of entities that lasts: a new one has it, and changes of values, of what waits, and of all
else keep it. -/
structure Entity.Lasting (c : Catalog) (P : Entity → Prop) : Prop where
  new : ∀ s, P { schema := s }
  put : ∀ {x : Entity} {name : String} (slot : Slot Value), P x → x.schema.Takes name slot.value →
    P { x with atomics := x.atomics.put name slot }
  mapValues : ∀ {x : Entity} {f : Slot Value → Slot Value}, P x → (∀ s, (f s).value = s.value) →
    P { x with atomics := x.atomics.mapValues f }
  settle : ∀ {x : Entity} (name : String), P x → P (x.settle name)
  wait : ∀ {x : Entity} {name : String} (source : EntityId), P x → c.Ties x.schema name →
    P { x with pending := x.pending.put name source }
  aside : ∀ {x x' : Entity}, P x → x'.schema = x.schema → x'.atomics = x.atomics →
    x'.pending = x.pending → P x'

namespace Entity.Lasting

variable {c : Catalog} {P : Entity → Prop} {x : Entity} {name : String} {v : Value}
  (hP : Lasting c P)

include hP

/-- A foreign key takes a value that it can have. -/
theorem receive (h : P x) (hv : x.schema.Takes name v) : P (x.receive name v) := by
  unfold Entity.receive
  simp only
  split
  · exact hP.settle name h
  · exact hP.put (x := x.settle name) (.dirty v) (hP.settle name h) hv

/-- Atomics are loaded with values in the form of their kinds. -/
theorem loadAtomics {values : List (String × Value)} (h : P x)
    (hvalues : ∀ p ∈ values, ∃ a ∈ x.schema.atomics, a.name = p.1 ∧ a.kind.Holds p.2) :
    P (values.foldl (fun x p => x.loadAtomic p.1 p.2) x) := by
  induction values generalizing x with
  | nil => exact h
  | cons p values ih =>
    exact ih (hP.put (.loaded p.2) h (.inr (hvalues p List.mem_cons_self)))
      fun q hq => hvalues q (List.mem_cons_of_mem _ hq)

end Entity.Lasting

namespace Graph

variable {c : Catalog} {g g' : Graph} {e m : EntityId} {i : CollectionId} {name : String} {v : Value}

/-! ### Tied foreign keys -/

/-- A relation whose foreign key is on this side ties its owner by it. -/
theorem WellFormed.ties_here {comp : Component} {join : Join} (hwf : g.WellFormed c)
    (hcomp : comp ∈ (g.entity e).schema.components)
    (hjoin : c.join (g.entity e).schema comp = .ok join) (hside : join.side = .here) :
    c.Ties (g.entity e).schema join.foreignKey :=
  ⟨_, comp, join, hwf.known_of_component hcomp, hcomp, hjoin, rfl, .inl ⟨hside, rfl⟩⟩

/-- A relation whose foreign key is on the other side ties its targets by it. -/
theorem WellFormed.ties_there {comp : Component} {join : Join} {t : Schema} (hwf : g.WellFormed c)
    (hcomp : comp ∈ (g.entity e).schema.components)
    (hjoin : c.join (g.entity e).schema comp = .ok join) (hside : join.side = .there)
    (ht : c.schema comp.target = .ok t) : c.Ties t join.foreignKey :=
  ⟨_, comp, join, hwf.known_of_component hcomp, hcomp, hjoin, rfl, .inr ⟨.inl hside, ht⟩⟩

/-- A collection ties its members by its foreign key. -/
theorem WellTyped.ties_member {t : Schema} (h : WellTyped c g) (hi : i.index < g.collections.length)
    (ht : c.schema (g.collection i).component.target = .ok t) :
    c.Ties t (g.collection i).join.foreignKey := by
  obtain ⟨howner, hcomp, hjoin, hmany⟩ := h.collection i hi
  exact ⟨_, _, _, h.known _ howner, List.mem_of_find?_eq_some hcomp, hjoin, rfl,
    .inr ⟨.inr hmany, ht⟩⟩

/-! ### Every entity -/

/-- Something holds of every entity. -/
def Everywhere (P : Entity → Prop) (g : Graph) : Prop :=
  ∀ e, P (g.entity e)

variable {P : Entity → Prop}

namespace Everywhere

/-- A change that keeps what holds of the entity which it is made to. -/
theorem modifyEntity {f : Entity → Entity} (h : Everywhere P g)
    (hf : P (g.entity e) → P (f (g.entity e))) : Everywhere P (g.modifyEntity e f) :=
  fun x => forall_modifyEntity (h x) fun hxe => by
    subst hxe
    exact hf (h x)

/-- Parts of an entity are marked. -/
theorem modifyParts {f : Entity → Entity} (h : Everywhere P g) (hf : ∀ x, P x → P (f x))
    (e : EntityId) : Everywhere P (g.modifyParts e f) := by
  unfold Graph.modifyParts
  generalize g.parts e = l
  induction l generalizing g with
  | nil => exact h
  | cons x l ih => exact ih (h.modifyEntity (hf _))

/-- Work that keeps what holds of every entity, whatever comes of it. -/
def Kept (P : Entity → Prop) {α : Type} (act : GraphM α) : Prop :=
  ∀ g, Everywhere P g → act.Ends g (fun _ => Everywhere P) (fun _ => Everywhere P)

end Everywhere

end Graph

namespace Entity.Lasting

open EntityGraph.Graph

variable {c : Catalog} {P : Entity → Prop} {g g' : Graph} {e m : EntityId} {i : CollectionId}
  {name : String} {v : Value} (hP : Lasting c P)

include hP

/-- An empty graph has no entity. -/
theorem empty : Everywhere P {} :=
  fun _ => hP.new default

/-- A change that touches neither types nor values nor what waits. -/
theorem of_eq (h : Everywhere P g) (heq : ∀ x, (g'.entity x).schema = (g.entity x).schema ∧
      (g'.entity x).atomics = (g.entity x).atomics ∧ (g'.entity x).pending = (g.entity x).pending) :
    Everywhere P g' := fun x => by
  obtain ⟨hschema, hatomics, hpending⟩ := heq x
  exact hP.aside (h x) hschema hatomics hpending

/-- A change of relations, marks and listeners. -/
theorem beside {f : Entity → Entity} (h : Everywhere P g)
    (hf : ∀ x, (f x).schema = x.schema ∧ (f x).atomics = x.atomics ∧ (f x).pending = x.pending) :
    Everywhere P (g.modifyEntity e f) :=
  h.modifyEntity fun hx => hP.aside hx (hf _).1 (hf _).2.1 (hf _).2.2

/-- A new entity has no values. -/
theorem newEntity (h : Everywhere P g) (s : Schema) :
    Everywhere P { g with entities := g.entities ++ [{ schema := s }] } := fun x => by
  rw [entity_append]
  split
  · exact hP.new s
  · exact h x

/-- A new embedded component has no values. -/
theorem withPart (h : Everywhere P g) (e : EntityId) (name : String) (s : Schema) :
    Everywhere P (g.withPart e name s) :=
  hP.beside (hP.beside (f := fun p => { p with stored := (g.entity e).stored }) (hP.newEntity h s)
    fun _ => ⟨rfl, rfl, rfl⟩) fun _ => ⟨rfl, rfl, rfl⟩

theorem markClean (h : Everywhere P g) (e : EntityId) : Everywhere P (g.markClean e) :=
  h.modifyParts (f := Entity.markClean) (fun _ hx => hP.aside
    (hP.mapValues (f := fun s => { s with clean := true }) hx fun _ => rfl) rfl rfl rfl) e

theorem markStored (h : Everywhere P g) (e : EntityId) : Everywhere P (g.markStored e) :=
  h.modifyParts (f := fun x => { x with stored := true }) (fun _ hx => hP.aside hx rfl rfl rfl) e

theorem markDeleted (h : Everywhere P g) (e : EntityId) : Everywhere P (g.markDeleted e) :=
  h.modifyParts (f := Entity.markDeleted) (fun _ hx => hP.aside
    (hP.mapValues (f := fun s => { s with clean := false }) hx fun _ => rfl) rfl rfl rfl) e

/-- A foreign key that storage has nulled is null. -/
theorem cleared (h : Everywhere P g) (e : EntityId) (name : String) :
    Everywhere P (g.cleared e name) :=
  h.modifyEntity fun hx => hP.put (x := (g.entity e).settle name) (.loaded .null)
    (hP.settle name hx) (.inl rfl)

/-! ### Operations -/

/-- A foreign key takes a value that has been coerced. -/
theorem writeForeignKey (e : EntityId) (name : String) (v : Value) :
    Everywhere.Kept P (Graph.writeForeignKey e name v) := by
  intro g h
  refine ends_writeForeignKey (fun a w ha hw => h.modifyEntity fun hx => hP.receive hx ?_) fun _ => h
  obtain ⟨hmem, rfl⟩ := Schema.mem_of_atomic? (Schema.atomic_eq_ok_iff.1 ha)
  exact Schema.takes_of_coerce hmem hw

/-- Listeners write foreign keys. -/
theorem hear (e : EntityId) (l : KeyListener) : Everywhere.Kept P (Graph.hear e l) := by
  intro g h
  cases l with
  | foreignKey holder name referenced =>
    unfold Graph.hear
    simp only [Act.ends_bind, Act.ends_get, Act.ends_ite, Act.ends_ofExcept]
    exact ⟨fun _ => ⟨fun v _ => hP.writeForeignKey holder name v g h, fun _ _ => h⟩, fun _ => h⟩
  | collection i =>
    unfold Graph.hear indexMember
    rw [Act.ends_modify]
    split <;> exact h

/-- A key is announced to everything that listens. -/
theorem announceKey (e : EntityId) : Everywhere.Kept P (Graph.announceKey e) := by
  intro g h
  unfold Graph.announceKey
  simp only [Act.ends_bind, Act.ends_get, Act.ends_modify]
  exact Act.ends_forAll (fun l _ g h => hP.hear e l g h) (hP.beside h fun _ => ⟨rfl, rfl, rfl⟩)

/-- An assigned value has been coerced. -/
theorem assign (e : EntityId) (name : String) (v : Value) :
    Everywhere.Kept P (Graph.assign e name v) := by
  intro g h
  unfold Graph.assign
  simp only [Act.ends_bind, Act.ends_get, Act.ends_ofExcept, Act.ends_modify, Act.ends_ite,
    Act.ends_throw, Act.ends_pure]
  refine ⟨fun a ha => ⟨fun w hw => ⟨fun _ => h, fun _ => ?_⟩, fun _ _ => h⟩, fun _ _ => h⟩
  have hmem := (Schema.mem_of_atomic? (atomic?_of_atomic ha).1).1
  have hsettled : Everywhere P (g.modifyEntity e (·.settle a.name)) :=
    h.modifyEntity fun hx => hP.settle a.name hx
  have hwritten := hsettled.modifyEntity (e := e) (f := (·.writeAtomic a.name w)) fun hx =>
    hP.put (.dirty w) hx (by
      rw [view_modifyEntity (v := (·.schema)) rfl]
      exact Schema.takes_of_coerce hmem hw)
  exact ⟨fun _ => hsettled, fun _ => ⟨fun _ => hP.announceKey e _ hwritten, fun _ => hwritten⟩⟩

/-- A key that the database has made has been coerced. -/
theorem ends_assignGeneratedKey (h : Everywhere P g) (hwf : g.WellFormed c) (e : EntityId) (v : Value) :
    (Graph.assignGeneratedKey e v).Ends g (fun _ => Everywhere P) (fun _ => Everywhere P) := by
  unfold Graph.assignGeneratedKey
  simp only [Act.ends_bind, Act.ends_get, Act.ends_ofExcept, Act.ends_modify]
  refine ⟨fun a ha => ⟨fun w hw => hP.announceKey e _ (h.modifyEntity fun hx => ?_), fun _ _ => h⟩,
    fun _ _ => h⟩
  have hkey := Schema.key_eq_ok_iff.1 ha
  have hmem := Catalog.mem_of_primaryKey (hwf.schema_of_primaryKey hkey) hkey
  exact hP.put (.loaded w) hx (Schema.takes_of_coerce hmem hw)

/-- Linking writes a foreign key, or lets it wait. -/
theorem ends_link (h : Everywhere P g) {holder : EntityId} (hties : c.Ties (g.entity holder).schema name)
    (source : EntityId) (referenced : String) :
    (Graph.link holder name source referenced).Ends g (fun _ => Everywhere P)
      (fun _ => Everywhere P) := by
  unfold Graph.link
  simp only [Act.ends_bind, Act.ends_get, Act.ends_ofExcept, Act.ends_modify, Act.ends_ite,
    Act.ends_throw, addListener]
  refine ⟨fun v _ => ⟨fun _ => hP.writeForeignKey holder name v g h, fun _ => ⟨fun _ => h, fun _ => ?_⟩⟩,
    fun _ _ => h⟩
  exact hP.beside (h.modifyEntity fun hx => hP.wait source hx hties) fun _ => ⟨rfl, rfl, rfl⟩

/-- Assigning a relation writes foreign keys on either side. -/
theorem ends_relink (h : Everywhere P g) {join : Join} (before target : Option EntityId)
    (hhere : join.side = .here → c.Ties (g.entity e).schema join.foreignKey)
    (hthere : join.side = .there → ∀ t ∈ target, c.Ties (g.entity t).schema join.foreignKey) :
    (Graph.relink e join before target).Ends g (fun _ => Everywhere P) (fun _ => Everywhere P) := by
  unfold Graph.relink
  cases hside : join.side with
  | here =>
    cases target with
    | none => exact hP.writeForeignKey _ _ _ g h
    | some t => exact hP.ends_link h (hhere hside) _ _
  | there =>
    cases target with
    | none =>
      cases before with
      | none => exact h
      | some b =>
        simp only [Act.ends_bind, Act.ends_ite]
        exact ⟨fun _ => hP.writeForeignKey _ _ _ g h, fun _ => h⟩
    | some t =>
      have hties := hthere hside t rfl
      cases before with
      | none => exact hP.ends_link h hties _ _
      | some b =>
        simp only [Act.ends_bind, Act.ends_ite]
        refine ⟨fun _ => ?_, fun _ => hP.ends_link h hties _ _⟩
        -- the target before loses its foreign key, and the new one keeps its type
        have hschema : (Graph.writeForeignKey b join.foreignKey .null).Ends g
            (fun _ g₁ => (g₁.entity t).schema = (g.entity t).schema) (fun _ _ => True) :=
          ends_writeForeignKey (fun a w _ _ => view_modifyEntity (v := (·.schema))
            (receive_frame _ _ _).1) fun _ => trivial
        refine ((hP.writeForeignKey b join.foreignKey .null g h).and hschema).mono
          (fun _ g₁ h₁ => ?_) fun _ _ h₁ => h₁.1
        exact hP.ends_link h₁.1 (h₁.2.symm ▸ hties) _ _

theorem ends_assignOne (h : Everywhere P g) (hwf : g.WellFormed c) {target : Option EntityId}
    (htarget : ∀ t ∈ target, t.index < g.entities.length) :
    (Graph.assignOne c e name target).Ends g (fun _ => Everywhere P) (fun _ => Everywhere P) := by
  have hrest : ∀ comp ∈ (g.entity e).schema.components,
      (∀ s, c.schema comp.target = .ok s → ∀ t ∈ target, s = (g.entity t).schema) → Act.Ends (do
      let join ← Act.ofExcept (c.join (g.entity e).schema comp)
      Graph.relink e join (((g.entity e).toOne.get? comp.name).bind (·.value)) target
      modify fun g => g.modifyEntity e fun x =>
        { x with toOne := x.toOne.put comp.name (.dirty target) }) g (fun _ => Everywhere P)
        (fun _ => Everywhere P) := by
    intro comp hcomp htype
    simp only [Act.ends_bind, Act.ends_ofExcept, Act.ends_modify]
    refine ⟨fun join hjoin => ?_, fun _ _ => h⟩
    refine (hP.ends_relink h _ target (hwf.ties_here hcomp hjoin) fun hside t ht => ?_).mono
      (fun _ _ h' => hP.beside h' fun _ => ⟨rfl, rfl, rfl⟩) fun _ _ h' => h'
    obtain ⟨s, hs, -⟩ := bind_eq_ok_iff.1 hjoin
    exact hwf.ties_there hcomp hjoin hside (htype s hs t ht ▸ hs)
  unfold Graph.assignOne
  rw [Act.ends_bind, Act.ends_get]
  rw [Act.ends_bind, Act.ends_ofExcept]
  refine ⟨fun comp hrelation => ?_, fun _ _ => h⟩
  have hcomp := List.mem_of_find?_eq_some (component?_of_relation hrelation).1
  cases target with
  | none => exact hrest comp hcomp (by rintro _ _ _ ⟨⟩)
  | some t =>
    rw [Act.ends_bind, Act.ends_ofExcept]
    refine ⟨fun _ hcheck => hrest comp hcomp ?_, fun _ _ => h⟩
    rintro s hs _ ⟨⟩
    exact Except.ok.inj (hs.symm.trans (hwf.schema_of_checkTarget (htarget t rfl) hs hcheck))

theorem many (e : EntityId) (name : String) : Everywhere.Kept P (Graph.many c e name) := by
  intro g h
  unfold Graph.many
  simp only [Act.ends_bind, Act.ends_get]
  rw [Act.ends_ofExcept]
  refine ⟨fun comp _ => ?_, fun _ _ => h⟩
  split
  · exact h
  · simp only [Act.ends_bind, Act.ends_ofExcept]
    refine ⟨fun join _ => ?_, fun _ _ => h⟩
    have hnew : Everywhere P { g with collections := g.collections ++
        [{ owner := e, component := comp, join }] } := h
    exact hP.beside hnew fun _ => ⟨rfl, rfl, rfl⟩

theorem embedded (e : EntityId) (name : String) : Everywhere.Kept P (Graph.embedded e name) := by
  intro g h
  cases hpart : (g.entity e).embedded.get? name with
  | some part =>
    unfold Graph.embedded
    simp only [Act.ends_bind, Act.ends_get, hpart, Act.ends_pure]
    exact h
  | none =>
    cases hs : (g.entity e).schema.embedded? name with
    | none =>
      unfold Graph.embedded
      simp only [Act.ends_bind, Act.ends_get, hpart, hs, Act.ends_throw]
      exact h
    | some s =>
      rw [Act.Ends, embedded_eq hs hpart]
      exact hP.withPart h e name s

theorem append (i : CollectionId) (m : EntityId) : Everywhere.Kept P (Graph.append i m) := by
  intro g h
  unfold Graph.append
  simp only [Act.ends_bind, Act.ends_get]
  split
  · simp only [Act.ends_ite, Act.ends_pure, Act.ends_bind, Act.ends_modify]
    exact ⟨fun _ => h, fun _ => h⟩
  · simp only [Act.ends_ite, Act.ends_pure, Act.ends_bind, Act.ends_modify, addListener]
    have hmember : Everywhere P (g.modifyCollection i fun x => { x with members := x.members ++ [m] }) := h
    exact ⟨fun _ => h, fun _ => hP.beside hmember fun _ => ⟨rfl, rfl, rfl⟩⟩

theorem ends_push (h : Everywhere P g) (htyped : WellTyped c g) (hi : i.index < g.collections.length)
    (hm : m.index < g.entities.length) :
    (Graph.push i m).Ends g (fun _ => Everywhere P) (fun _ => Everywhere P) := by
  unfold Graph.push
  simp only [Act.ends_bind, Act.ends_get, Act.ends_ofExcept, Act.ends_ite, Act.ends_pure]
  refine ⟨fun _ hcheck => ?_, fun _ _ => h⟩
  obtain ⟨t, ht⟩ := htyped.collections i hi
  have htype := htyped.toWellFormed.schema_of_checkTarget hm ht hcheck
  have hties := htyped.ties_member hi htype
  refine ((hP.append i m g h).and (ends_append_effects (V := fun _ _ => True) ⟨hm, htype⟩)).mono
    (fun _ g₁ h₁ => ⟨fun _ => hP.ends_link h₁.1 ?_ _ _, fun _ => h₁.1⟩) fun _ _ h₁ => h₁.1
  rwa [Effects.schema h₁.2 hm]

theorem remove (i : CollectionId) (m : EntityId) : Everywhere.Kept P (Graph.remove i m) := by
  intro g h
  unfold Graph.remove
  simp only [Act.ends_bind, Act.ends_get, Act.ends_ite, Act.ends_modify, Act.ends_pure]
  exact ⟨fun _ => hP.writeForeignKey _ _ _ _ h, fun _ => h⟩

theorem releaseMembers (i : CollectionId) : Everywhere.Kept P (Graph.releaseMembers i) := by
  intro g h
  unfold Graph.releaseMembers
  simp only [Act.ends_bind, Act.ends_get]
  exact Act.ends_forM (fun m _ g h => hP.cleared h m _) h

/-- Operations that callers can do keep it. -/
theorem operation {σ : Type} (h : Everywhere P g) (htyped : WellTyped c g) {op : Operation}
    (hop : (Deed.operate op : Deed σ).possible g = true) : Everywhere P ((op.run c).final g) := by
  have hfits := Operation.fits_of_possible (c := c) (V := fun _ _ => True) hop
  rw [← Act.ends_final_iff (R := Everywhere P)]
  cases op with
  | create type =>
    simp only [Operation.run, Act.ends_bind, Act.ends_ofExcept]
    exact ⟨fun s _ => hP.newEntity h s, fun _ _ => h⟩
  | assign e name v => exact hP.assign e name v g h
  | assignOne e name target => exact hP.ends_assignOne h htyped.toWellFormed hfits
  | many e name =>
    simp only [Operation.run, Act.ends_bind, Act.ends_pure]
    exact hP.many e name g h
  | embedded e name =>
    simp only [Operation.run, Act.ends_bind, Act.ends_pure]
    exact hP.embedded e name g h
  | push i m =>
    simp only [Operation.run, Act.ends_bind, Act.ends_get, Act.ends_ite, Act.ends_pure]
    exact ⟨fun hi => hP.ends_push h htyped hi hfits, fun _ => h⟩
  | remove i m =>
    simp only [Operation.run, Act.ends_bind, Act.ends_pure]
    exact hP.remove i m g h
  | releaseMembers i => exact hP.releaseMembers i g h
  | _ => cases hop

/-! ### Reading -/

/-- Each step of reading keeps it. -/
theorem readStep (hstep : ReadStep c g g') (h : Everywhere P g) : Everywhere P g' := by
  cases hstep with
  | made s => exact hP.newEntity h s
  | embedded hs hnew => exact hP.withPart h _ _ _
  | loaded e hvalues => exact h.modifyEntity fun hx => hP.loadAtomics hx hvalues
  | marked hwf e => exact hP.markStored h e
  | related hkey name target =>
    exact hP.beside h fun x => ⟨Entity.view_loadTarget fun _ _ => rfl,
      Entity.view_loadTarget fun _ _ => rfl, Entity.view_loadTarget fun _ _ => rfl⟩
  | gathered hlength hsame =>
    refine hP.of_eq h fun x => ?_
    obtain ⟨toMany, listeners, heq, -⟩ := hsame x
    rw [heq]
    exact ⟨rfl, rfl, rfl⟩

end Entity.Lasting

open EntityGraph.Graph Traversal

/-! ### Saves -/

namespace Save

variable {σ : Type} [Connection σ] {ses : Session} {P : Entity → Prop} {g₀ : Graph}

/-- What happens in a save keeps it. -/
theorem lasting_rules (hP : Entity.Lasting ses.catalog P) (g₀ : Graph) :
    Rules ses g₀ (fun _ => True) (fun _ (t : Traversal EntityId σ) => t.world.graph.Everywhere P)
      (fun t => t.world.graph.Everywhere P) where
  fail _ _ h := h
  skip _ _ _ _ _ _ _ := trivial
  enter _ _ _ _ h _ _ := h
  insert trail t e h hsteady := by
    have hmarked : ∀ {t' : Traversal EntityId σ}, t'.world.graph.Everywhere P →
        (marked e t').world.graph.Everywhere P := fun h' => hP.markStored (hP.markClean h' e) e
    have hrest : ∀ {key s values k} {t' : Traversal EntityId σ}, t'.world.graph.Everywhere P →
        (insertRest e key k (restColumns s values)).Ends t'
          (fun _ t'' => (marked e t'').world.graph.Everywhere P)
          (fun _ t'' => t''.world.graph.Everywhere P) :=
      fun h' => ends_insertRest (fun _ hsent => hmarked (hsent.graph ▸ h'))
        fun _ _ _ _ _ hsent => hsent.graph ▸ h'
    refine ends_insertRows (fun _ _ => h) fun key s values _ _ _ _ => ?_
    refine ends_insertFirst (fun t' hsent _ => ?_) (fun t' v hsent _ _ => ?_) fun _ _ hsent _ =>
      hsent.graph ▸ h
    · have h' : t'.world.graph.Everywhere P := hsent.graph ▸ h
      exact ⟨fun _ _ => h', fun _ _ => hrest h'⟩
    · exact (hP.ends_assignGeneratedKey h hsteady.wellFormed e v).mono
        (fun _ _ hg => ⟨fun _ _ => hg, fun _ _ => hrest hg⟩) fun _ _ hg => hg
  update trail t e h _ _ := by
    have hmarked : ∀ {t' : Traversal EntityId σ}, t'.world.graph.Everywhere P →
        (marked e t').world.graph.Everywhere P := fun h' => hP.markStored (hP.markClean h' e) e
    refine ends_updateRows (fun _ _ => h) (fun _ _ => hmarked h) fun _ _ _ _ _ _ _ _ => ?_
    exact ends_updateTables (fun _ hsent => hmarked (hsent.graph ▸ h)) fun _ _ _ _ hsent => hsent.graph ▸ h
  leave _ _ _ h _ _ := h

end Save

/-- A call that writes an entity keeps it, whatever comes of it. -/
theorem Call.everywhere_run {σ : Type} [Connection σ] (ses : Session) {P : Entity → Prop}
    (hP : Entity.Lasting ses.catalog P) {w : World σ} (hwf : w.graph.WellFormed ses.catalog)
    (h : w.graph.Everywhere P) (e : EntityId) (call : Call) :
    ((call.run ses e).final w).graph.Everywhere P := by
  rw [Call.final_run, trace,
    ← Act.ends_final_iff (R := fun t : Traversal EntityId σ => t.world.graph.Everywhere P)]
  exact (call.ends_traverse (Save.lasting_rules hP w.graph) e _ (t := { world := w }) h
    ⟨.refl _, hwf⟩).mono (fun _ _ ht => ht.holds) fun _ _ ht => ht

/-! ### Deletions -/

namespace Deletion

variable {σ : Type} {c : Catalog} {P : Entity → Prop}

/-- What happens in a deletion keeps it. -/
theorem lasting_rules (hP : Entity.Lasting c P) :
    Rules (σ := σ) c (fun _ => True) (fun t => t.world.graph.Everywhere P)
      (fun _ t => t.world.graph.Everywhere P) where
  fail _ _ h _ := h
  enter _ _ _ h := h
  ask _ _ _ _ _ h hsent := hsent.graph ▸ h
  empty _ _ _ _ _ h hsent := hsent.graph ▸ h
  delete _ _ _ _ _ _ _ h hsent := hsent.graph ▸ h
  release d x comp join t _ _ _ _ _ _ h := by
    rw [ends_onGraph]
    refine (ends_release_keeps (g := t.world.graph) (E := fun _ _ => False)
      (J := fun g => g.Everywhere P ∧ g.collections = t.world.graph.collections) (.refl _)
      (fun _ hg => hg.2) (fun y f _ g hg => ⟨hP.cleared hg.1 y f, hg.2⟩) ⟨h, rfl⟩).mono
        (fun _ _ hg => hg.1) fun _ _ hno => hno.elim
  mark _ x _ _ _ h := hP.markDeleted h x
  next _ _ _ _ _ _ _ _ _ _ _ _ := ⟨trivial, fun _ _ => trivial⟩

/-- A run of a deletion keeps it, whatever comes of it. -/
theorem ends_run_everywhere [Connection σ] (hP : Entity.Lasting c P) {w : World σ}
    (h : w.graph.Everywhere P) (d : Doomed) :
    (Deletion.run c d).Ends w (fun _ w' => w'.graph.Everywhere P)
      (fun _ w' => w'.graph.Everywhere P) := by
  unfold Deletion.run
  rw [Act.ends_bind, Act.ends_get, Traversal.ends_run_iff]
  exact ends_deleteFrom (lasting_rules hP) _ d { world := w } trivial h

end Deletion

/-! ### Deeds -/

namespace Session

variable {σ : Type} {c : Catalog} {P : Entity → Prop} {w : World σ} (hP : Entity.Lasting c P)

include hP

/-- Reading rows with a new mapper of a compiled query keeps it. -/
theorem ends_readRows_everywhere (hwf : w.graph.WellFormed c) (h : w.graph.Everywhere P)
    {compiled : CompiledQuery} (hp : compiled.plan.Sound c) (rows : List Row) :
    (readRows { catalog := c } compiled rows : SessionM σ _).Ends w
      (fun _ w' => w'.graph.Everywhere P) (fun _ w' => w'.graph.Everywhere P) := by
  have hstart : Mapping.Reads c ⟨compiled.mapper, w.graph⟩ ⟨compiled.mapper, w.graph⟩ :=
    .refl hwf fun _ _ hx => by cases hx
  have hreads := Mapper.ends_mapRows_reads hp hstart rows
  unfold Act.Ends at hreads ⊢
  simp only [readRows, mapRows]
  cases hrun : Mapper.mapRows c rows ⟨compiled.mapper, w.graph⟩ with
  | ok tuples m => exact (hrun ▸ hreads).graph.keeps hP.readStep h
  | error e m => exact (hrun ▸ hreads).graph.keeps hP.readStep h

variable [Connection σ]

/-- Fetching keeps it, whatever comes of it. -/
theorem ends_fetch_everywhere (hwf : w.graph.WellFormed c) (h : w.graph.Everywhere P) (q : Query) :
    (fetch { catalog := c } q : SessionM σ _).Ends w (fun _ w' => w'.graph.Everywhere P)
      (fun _ w' => w'.graph.Everywhere P) := by
  unfold fetch
  simp only [Act.ends_bind]
  refine (ends_compile q w).mono (fun compiled w₁ h₁ => ?_) fun _ _ heq => heq ▸ h
  obtain ⟨hgraph, hp⟩ := h₁
  rw [SessionM.onWire, Act.ends_onPart]
  refine Act.Ends.mono (P := fun _ _ => True) (E := fun _ _ => True)
    (Act.ends_final_iff.2 trivial) (fun rows wire _ => ?_) fun _ _ _ => hgraph ▸ h
  exact ends_readRows_everywhere hP (w := { w₁ with wire }) (hgraph ▸ hwf) (hgraph ▸ h) hp rows

/-- Finding an entity keeps it, whatever comes of it. -/
theorem ends_find_everywhere (hwf : w.graph.WellFormed c) (h : w.graph.Everywhere P) (type : String)
    (key : Value) :
    (find { catalog := c } type key : SessionM σ _).Ends w (fun _ w' => w'.graph.Everywhere P)
      (fun _ w' => w'.graph.Everywhere P) := by
  unfold find fetchEntities
  simp only [Act.ends_bind, Act.ends_ofExcept, Act.ends_pure]
  exact ⟨fun _ _ => ⟨fun _ _ => ends_fetch_everywhere hP hwf h _, fun _ _ => h⟩, fun _ _ => h⟩

/-- Deleting an entity keeps it, whatever comes of it. -/
theorem ends_delete_everywhere (h : w.graph.Everywhere P) (e : EntityId) :
    (Session.delete { catalog := c } e).Ends w (fun _ w' => w'.graph.Everywhere P)
      (fun _ w' => w'.graph.Everywhere P) := by
  unfold delete
  simp only [Act.ends_bind, Act.ends_get, Act.ends_ite, Act.ends_pure]
  refine ⟨fun _ => ?_, fun _ => h⟩
  rw [Act.ends_ofExcept]
  exact ⟨fun _ _ => Deletion.ends_run_everywhere hP h _, fun _ _ => h⟩

/-- Deleting rows by their key keeps it, whatever comes of it. -/
theorem ends_deleteByKey_everywhere (h : w.graph.Everywhere P) (type : String) (key : Value) :
    (Session.deleteByKey { catalog := c } type key).Ends w (fun _ w' => w'.graph.Everywhere P)
      (fun _ w' => w'.graph.Everywhere P) := by
  unfold deleteByKey
  simp only [Act.ends_bind, Act.ends_ofExcept]
  exact ⟨fun _ _ => ⟨fun _ _ => ⟨fun _ _ => Deletion.ends_run_everywhere hP h _, fun _ _ => h⟩,
    fun _ _ => h⟩, fun _ _ => h⟩

end Session

namespace Client

variable {σ : Type} [Connection σ] {c : Catalog} {P : Entity → Prop} {cl : Client σ}
  {K : Graph → Graph → Prop} (hP : Entity.Lasting c P)

include hP

/-- What is done keeps it. -/
theorem everywhere_after (hsound : Sound c cl) (h : cl.world.graph.Everywhere P) {d : Deed σ}
    (hd : d.possible cl.world.graph = true) : (d.after c cl).world.graph.Everywhere P := by
  have hwf := hsound.typed.toWellFormed
  rw [Deed.after, ← Act.ends_final_iff (R := fun cl' : Client σ => cl'.world.graph.Everywhere P)]
  cases d with
  | operate op =>
    simp only [Deed.run, onWorld, SessionM.onGraph, Act.ends_onPart]
    exact (Act.ends_final_iff (R := Everywhere P)).2 (hP.operation h hsound.typed hd)
  | write config call e =>
    rw [Deed.run, onWorld, Act.ends_onPart,
      Act.ends_final_iff (R := fun w : World σ => w.graph.Everywhere P)]
    exact Call.everywhere_run ⟨c, config⟩ hP hwf h e call
  | delete e =>
    rw [Deed.run, onWorld, Act.ends_onPart]
    exact Session.ends_delete_everywhere hP h e
  | deleteByKey type key =>
    rw [Deed.run, onWorld, Act.ends_onPart]
    exact Session.ends_deleteByKey_everywhere hP h type key
  | fetch q =>
    simp only [Deed.run, onWorld, Act.ends_bind, Act.ends_pure, Act.ends_onPart]
    exact Session.ends_fetch_everywhere hP hwf h q
  | find type key =>
    simp only [Deed.run, onWorld, Act.ends_bind, Act.ends_pure, Act.ends_onPart]
    exact Session.ends_find_everywhere hP hwf h type key
  | compile q =>
    simp only [Deed.run, Act.ends_bind, Act.ends_modify, onWorld, Act.ends_onPart]
    exact (Session.ends_compile q cl.world).mono (fun _ _ hw => hw.1 ▸ h) fun _ _ hw => hw ▸ h
  | read i rows =>
    simp only [Deed.run, Act.ends_bind, Act.ends_get]
    cases hm : cl.mappers[i]? with
    | none => exact h
    | some m =>
      simp only [onMapper, Act.ends_bind, Act.ends_pure, Act.ends_onPart]
      have hmem := List.mem_of_getElem? hm
      have hstart : Mapping.Reads c ⟨m, cl.world.graph⟩ ⟨m, cl.world.graph⟩ :=
        .refl hwf (hsound.knows m hmem)
      exact (Mapper.ends_mapRows_reads (hsound.plans m hmem) hstart rows).mono
        (fun _ _ hr => hr.graph.keeps hP.readStep h) fun _ _ hr => hr.graph.keeps hP.readStep h
  | turn wire paths => exact h

/-- **What lasts holds of every entity.** Whatever callers and sessions have done, a property of entities
that their changes keep holds of every entity and embedded component. -/
theorem Reached.lasts (h : cl.Reached c K) : cl.world.graph.Everywhere P := by
  obtain ⟨w, hempty, hleads⟩ := h
  have hstart : Sound c (⟨w, []⟩ : Client σ) := .start hempty
  induction hleads with
  | refl => exact hempty ▸ hP.empty
  | tail hleads hstep ih =>
    obtain ⟨d, hd, -⟩ := hstep
    exact everywhere_after hP (Leads.sound hleads hstart) ih hd

end Client

end EntityGraph
