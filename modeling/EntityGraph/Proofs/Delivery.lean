import EntityGraph.Proofs.Cascade
import EntityGraph.Proofs.Ledger

/-!
# Giving an entity its key

An entity gets its key by an assignment, or from the database when its first row is inserted, and
tells its listeners. A listener stays where it is when its foreign key is assigned again, so an entity
may carry listeners that have gone stale, and several for one foreign key. What counts is what waits
at the moment at which the key comes: a listener whose foreign key does not wait for the entity any
more does nothing.

* `Hearing` — what listeners have done so far;
* `told_announceKey` — what telling all of them does;
* `Gives` — the foreign keys that wait for an entity take its key, and nothing else changes;
* `gives_of_assign`, `gives_of_assignGeneratedKey` — both ways to get a key do exactly that.
-/

namespace EntityGraph.Graph

variable {c : Catalog} {g g' : Graph} {s x : EntityId} {k : Value} {name : String} {a : Atomic}

/-! ### Telling the listeners -/

/-- Some listeners of an entity have heard of its key: a foreign key is as it was, or it has waited for
the entity and has taken the key. -/
structure Hearing (s : EntityId) (k : Value) (g g' : Graph) : Prop where
  shape : g.SameShape g'
  listeners : ∀ x, (g'.entity x).listeners = (g.entity x).listeners
  other : ∀ x name,
    ((g'.entity x).pending.get? name = (g.entity x).pending.get? name ∧
      g'.slot x name = g.slot x name) ∨
    Took s k (g.entity x) (g'.entity x) name

namespace Hearing

theorem refl (s : EntityId) (k : Value) (g : Graph) : Hearing s k g g :=
  ⟨.refl g, fun _ => rfl, fun _ _ => .inl ⟨rfl, rfl⟩⟩

/-- A foreign key that did not wait for the entity is as it was. -/
theorem kept (h : Hearing s k g g') (hwaits : (g.entity x).pending.get? name ≠ some s) :
    (g'.entity x).pending.get? name = (g.entity x).pending.get? name ∧
      g'.slot x name = g.slot x name :=
  (h.other x name).resolve_right fun htook => hwaits htook.waited

/-- A foreign key that waits for the entity takes its key. -/
theorem receive (h : Hearing s k g g') {v : Value}
    (hwaits : (g'.entity x).pending.get? name = some s)
    (ha : (g'.entity x).schema.atomic name = .ok a)
    (hv : a.coerce (g'.entity x).schema.name k = .ok v) :
    Hearing s k g (g'.modifyEntity x (·.receive name v)) := by
  refine ⟨h.shape.trans (.receive g' x name v), fun y => ?_, fun y other => ?_⟩
  · rw [view_modifyEntity (v := (·.listeners)) (receive_frame _ _ _).2.2.1]
    exact h.listeners y
  rw [slot, slot]
  by_cases hy : y = x
  · subst hy
    rw [entity_modifyEntity_self _ (index_lt_of_pending hwaits)]
    exact Took.receive (h.other y) hwaits (h.shape.schema y ▸ ha) (h.shape.schema y ▸ hv) other
  · rw [entity_modifyEntity_of_ne _ hy]
    exact h.other y other

/-- A collection notes the position of a member. -/
theorem index (h : Hearing s k g g') (i : CollectionId) {f : Collection → Collection}
    (hf : ∀ x, (f x).members = x.members) : Hearing s k g (g'.modifyCollection i f) :=
  ⟨h.shape.trans (.modifyCollection g' i hf), h.listeners, h.other⟩

/-- A listener that succeeds leaves its foreign key not waiting for the entity, and lets no other one
wait for it. What it reads is the key, because the key itself does not wait for the entity. -/
theorem hear {l : KeyListener} (h : Hearing s k g g')
    (hkey : ∀ holder name referenced, l = .foreignKey holder name referenced →
      (g.entity s).atomicValue referenced = k ∧ (g.entity s).pending.get? referenced ≠ some s) :
    (Graph.hear s l).Ends g'
      (fun _ g'' => Hearing s k g g'' ∧
        (∀ x name referenced, l = .foreignKey x name referenced →
          (g''.entity x).pending.get? name ≠ some s) ∧
        ∀ x name, (g'.entity x).pending.get? name ≠ some s →
          (g''.entity x).pending.get? name ≠ some s)
      (fun _ _ => True) := by
  cases l with
  | foreignKey holder name referenced =>
    obtain ⟨hvalue, hfree⟩ := hkey holder name referenced rfl
    have hread : (g'.entity s).atomicValue referenced = k :=
      (atomicValue_eq_of_slot (h.kept hfree).2).trans hvalue
    simp only [Graph.hear, Act.ends_bind, Act.ends_get, Act.ends_ite, Act.ends_ofExcept]
    refine ⟨fun hwaits => ⟨fun v hv => ?_, fun _ _ => trivial⟩,
      fun hwaits => ⟨h, fun x n r heq => ?_, fun _ _ hne => hne⟩⟩
    · have hv : v = k := (value_eq_ok hv).trans hread
      refine ends_writeForeignKey (fun b w hb hw => ?_) fun _ => trivial
      refine ⟨h.receive hwaits hb (hv ▸ hw), fun x n r heq => ?_, fun _ _ => pending_receive_ne⟩
      obtain ⟨rfl, rfl, -⟩ := KeyListener.foreignKey.inj heq
      rw [entity_modifyEntity_self _ (index_lt_of_pending hwaits), pending_receive,
        Assoc.get?_erase_self]
      exact (Option.some_ne_none s).symm
    · obtain ⟨rfl, rfl, -⟩ := KeyListener.foreignKey.inj heq
      exact hwaits
  | collection i =>
    rw [Graph.hear, indexMember, Act.ends_modify]
    split
    · exact ⟨h.index i fun _ => rfl, (by rintro _ _ _ ⟨⟩), fun _ _ hne => hne⟩
    · exact ⟨h, (by rintro _ _ _ ⟨⟩), fun _ _ hne => hne⟩

end Hearing

/-- All listeners of an entity have heard of its key. -/
structure Told (s : EntityId) (k : Value) (g g' : Graph) : Prop where
  shape : g.SameShape g'
  listeners : ∀ x, x ≠ s → (g'.entity x).listeners = (g.entity x).listeners
  took : ∀ x name, (g.entity x).pending.get? name = some s → g.Heard s x name →
    Took s k (g.entity x) (g'.entity x) name
  kept : ∀ x name, (g.entity x).pending.get? name ≠ some s →
    (g'.entity x).pending.get? name = (g.entity x).pending.get? name ∧
      g'.slot x name = g.slot x name

/-- An announcement that succeeds has told all listeners. -/
theorem told_announceKey
    (hkey : ∀ holder name referenced, .foreignKey holder name referenced ∈ (g.entity s).listeners →
      (g.entity s).atomicValue referenced = k ∧ (g.entity s).pending.get? referenced ≠ some s)
    (h : announceKey s g = .ok () g') : Told s k g g' := by
  let start := g.modifyEntity s fun x => { x with listeners := [] }
  have hpending : ∀ x, (start.entity x).pending = (g.entity x).pending :=
    fun x => view_modifyEntity (v := (·.pending)) rfl
  have hatomics : ∀ x, (start.entity x).atomics = (g.entity x).atomics :=
    fun x => view_modifyEntity (v := (·.atomics)) rfl
  have hschema : ∀ x, (start.entity x).schema = (g.entity x).schema :=
    fun x => view_modifyEntity (v := (·.schema)) rfl
  have hshape : g.SameShape start :=
    .modifyEntity g s (f := fun x => { x with listeners := [] }) fun _ => ⟨rfl, rfl, rfl, fun _ => rfl⟩
  have hloop := Act.ends_forM_all (l := (g.entity s).listeners) (f := Graph.hear s)
    (I := Hearing s k start) (E := fun _ _ => True)
    (Q := fun l g' => ∀ x name referenced, l = .foreignKey x name referenced →
      (g'.entity x).pending.get? name ≠ some s)
    (fun l hl g' hg' => (hg'.hear fun holder name referenced heq => by
      rw [Entity.atomicValue, hatomics, hpending]
      exact hkey holder name referenced (heq ▸ hl)).mono
        (fun _ _ hg => ⟨hg.1, hg.2.1, fun _ hQ x n r heq => hg.2.2 x n (hQ x n r heq)⟩)
        fun _ _ _ => trivial) (.refl s k start)
  have hends : (announceKey s).Ends g (fun _ => Told s k g) (fun _ _ => True) := by
    simp only [announceKey, Act.ends_bind, Act.ends_get, Act.ends_modify]
    refine (Act.ends_forAll_of_forM hloop).mono (fun _ g' hg => ?_) fun _ _ _ => trivial
    obtain ⟨hhearing, hheard⟩ := hg
    refine ⟨?_, fun x hx => ?_, fun x name hwaits hhas => ?_, fun x name hwaits => ?_⟩
    · exact hshape.trans hhearing.shape
    · rw [hhearing.listeners]
      exact congrArg Entity.listeners (entity_modifyEntity_of_ne _ hx)
    · obtain ⟨referenced, hmem⟩ := hhas
      have hgone := hheard _ hmem x name referenced rfl
      rcases hhearing.other x name with ⟨hsame, -⟩ | ⟨hw, hset, b, v, hb, hv, hslot⟩
      · rw [hsame, hpending] at hgone
        exact absurd hwaits hgone
      · rw [hschema] at hb hv
        rw [hatomics] at hslot
        exact ⟨hwaits, hset, b, v, hb, hv, hslot⟩
    · have hwaits : (start.entity x).pending.get? name ≠ some s := by rwa [hpending]
      have hsame := hhearing.kept hwaits
      rwa [hpending, slot, slot, hatomics] at hsame
  exact hends.of_ok h

/-! ### Giving a key -/

/-- The atomic of an entity is the primary key of `s`, which the entity then is. -/
def IsKey (g : Graph) (s x : EntityId) (name : String) : Prop :=
  x = s ∧ (g.entity s).schema.keyName? = some name

/-- An entity has been given a key: exactly the foreign keys that waited for it have taken the key and
wait no more; every other atomic, of whichever entity, is as it was. -/
structure Gives (s : EntityId) (k : Value) (g g' : Graph) : Prop where
  shape : g.SameShape g'
  key : g'.key? s = some k
  free : ∀ name, (g.entity s).schema.keyName? = some name →
    (g'.entity s).pending.get? name = none
  listeners : ∀ x, x ≠ s → (g'.entity x).listeners = (g.entity x).listeners
  took : ∀ x name, ¬g.IsKey s x name → (g.entity x).pending.get? name = some s →
    Took s k (g.entity x) (g'.entity x) name
  kept : ∀ x name, ¬g.IsKey s x name → (g.entity x).pending.get? name ≠ some s →
    (g'.entity x).pending.get? name = (g.entity x).pending.get? name ∧
      g'.slot x name = g.slot x name

/-- An atomic of an entity has got a value. -/
def put (g : Graph) (s : EntityId) (name : String) (slot : Slot Value) : Graph :=
  g.modifyEntity s fun x => { x with atomics := x.atomics.put name slot }

section put

variable {slot : Slot Value}

/-- Values are no part of the shape. -/
theorem sameShape_put (g : Graph) (s : EntityId) (name : String) (slot : Slot Value) :
    g.SameShape (g.put s name slot) :=
  .modifyEntity g s fun _ => ⟨rfl, rfl, rfl, fun _ => rfl⟩

@[simp] theorem schema_put : ((g.put s name slot).entity x).schema = (g.entity x).schema :=
  view_modifyEntity (v := (·.schema)) rfl

@[simp] theorem pending_put : ((g.put s name slot).entity x).pending = (g.entity x).pending :=
  view_modifyEntity (v := (·.pending)) rfl

@[simp] theorem listeners_put : ((g.put s name slot).entity x).listeners = (g.entity x).listeners :=
  view_modifyEntity (v := (·.listeners)) rfl

/-- The atomic has the value. -/
theorem slot_put_self (hlt : s.index < g.entities.length) :
    (g.put s name slot).slot s name = some slot := by
  rw [Graph.slot, put, entity_modifyEntity_self _ hlt]
  exact Assoc.get?_put_self _ _ _

/-- The value of the atomic is read off what was put. -/
theorem atomicValue_put_self (hlt : s.index < g.entities.length) :
    ((g.put s name slot).entity s).atomicValue name = slot.value := by
  rw [Entity.atomicValue, ← Graph.slot, slot_put_self hlt]
  rfl

/-- No other atomic is affected. -/
theorem slot_put_of_ne {other : String} (h : ¬(x = s ∧ other = name)) :
    (g.put s name slot).slot x other = g.slot x other := by
  rw [Graph.slot, Graph.slot, put]
  rcases entity_modifyEntity_cases g x s (fun x => { x with atomics := x.atomics.put name slot })
    with hx | ⟨rfl, -, hx⟩ <;> rw [hx]
  exact Assoc.get?_put_of_ne _ _ fun hname => h ⟨rfl, hname⟩

/-- The announcement of a key that an entity has got tells all its listeners. -/
theorem told_put (hwf : g.WellFormed c) (hkey : (g.entity s).schema.primaryKey = some a)
    (hfree : (g.entity s).pending.get? a.name = none)
    (h : announceKey s (g.put s a.name slot) = .ok () g') :
    Told s slot.value (g.put s a.name slot) g' := by
  refine told_announceKey (fun holder name referenced hmem => ?_) h
  rw [listeners_put] at hmem
  -- a listener waits for the primary key
  have hreferenced := hwf.listeners s holder name referenced hmem
  obtain rfl : a.name = referenced := by simpa [Schema.keyName?, hkey] using hreferenced
  constructor
  · exact atomicValue_put_self (index_lt_of_primaryKey hkey)
  · rw [pending_put, hfree]
    exact (Option.some_ne_none s).symm

/-- The value that an entity has got is its key then, unless it is null. -/
theorem key?_of_put (hwf : g.WellFormed c) (hkey : (g.entity s).schema.primaryKey = some a)
    (hfree : (g.entity s).pending.get? a.name = none)
    (h : announceKey s (g.put s a.name slot) = .ok () g') :
    g'.key? s = if slot.value.isNull then none else some slot.value := by
  have htold := told_put hwf hkey hfree h
  have hschema : (g'.entity s).schema.primaryKey = some a := by
    rw [htold.shape.schema, schema_put, hkey]
  have hwaits : ((g.put s a.name slot).entity s).pending.get? a.name ≠ some s := by
    rw [pending_put, hfree]
    exact (Option.some_ne_none s).symm
  rw [key?_eq hschema, (htold.kept s a.name hwaits).2, slot_put_self (index_lt_of_primaryKey hkey)]
  rfl

/-- An entity that gets its key and tells its listeners is given the key. -/
theorem gives_of_put (hwf : g.WellFormed c) (hkey : (g.entity s).schema.primaryKey = some a)
    (hfree : (g.entity s).pending.get? a.name = none)
    (hheard : ∀ x name, (g.entity x).pending.get? name = some s → g.Heard s x name)
    (h : announceKey s (g.put s a.name slot) = .ok () g') (hk : g'.key? s = some k) :
    Gives s k g g' := by
  have htold := told_put hwf hkey hfree h
  obtain rfl : slot.value = k := by
    rw [key?_of_put hwf hkey hfree h] at hk
    split at hk
    · cases hk
    · exact Option.some.inj hk
  have hname : (g.entity s).schema.keyName? = some a.name := by simp [Schema.keyName?, hkey]
  have hslot : ∀ x name, ¬g.IsKey s x name → (g.put s a.name slot).slot x name = g.slot x name := by
    refine fun x name hne => slot_put_of_ne fun h => hne ⟨h.1, ?_⟩
    rw [hname, h.2]
  refine ⟨?_, hk, fun name hkeyName => ?_, fun x hx => ?_, fun x name hne hwaits => ?_,
    fun x name hne hwaits => ?_⟩
  · exact (sameShape_put g s a.name slot).trans htold.shape
  · obtain rfl : a.name = name := by simpa [hname] using hkeyName
    rw [(htold.kept s a.name (by rw [pending_put, hfree]; exact (Option.some_ne_none s).symm)).1,
      pending_put, hfree]
  · rw [htold.listeners x hx, listeners_put]
  · obtain ⟨referenced, hmem⟩ := hheard x name hwaits
    obtain ⟨-, hset, b, v, hb, hv, hval⟩ :=
      htold.took x name (by rwa [pending_put]) ⟨referenced, by rwa [listeners_put]⟩
    have hsame := hslot x name hne
    rw [Graph.slot, Graph.slot] at hsame
    rw [schema_put] at hb hv
    rw [hsame] at hval
    exact ⟨hwaits, hset, b, v, hb, hv, hval⟩
  · obtain ⟨hp, hs⟩ := htold.kept x name (by rwa [pending_put])
    exact ⟨by rw [hp, pending_put], by rw [hs, hslot x name hne]⟩

end put

/-! ### Assigning a key -/

section settle

@[simp] theorem schema_settle :
    ((g.modifyEntity s (·.settle name)).entity x).schema = (g.entity x).schema :=
  view_modifyEntity (v := (·.schema)) rfl

@[simp] theorem atomics_settle :
    ((g.modifyEntity s (·.settle name)).entity x).atomics = (g.entity x).atomics :=
  view_modifyEntity (v := (·.atomics)) rfl

@[simp] theorem listeners_settle :
    ((g.modifyEntity s (·.settle name)).entity x).listeners = (g.entity x).listeners :=
  view_modifyEntity (v := (·.listeners)) rfl

/-- The atomic waits no more. -/
theorem pending_settle_self :
    ((g.modifyEntity s (·.settle name)).entity s).pending.get? name = none := by
  by_cases hlt : s.index < g.entities.length
  · rw [entity_modifyEntity_self _ hlt]
    exact Assoc.get?_erase_self _ _
  · rw [entity_of_length_le (by simpa using hlt)]
    rfl

/-- No other atomic is affected. -/
theorem pending_settle_of_ne {other : String} (h : ¬(x = s ∧ other = name)) :
    ((g.modifyEntity s (·.settle name)).entity x).pending.get? other =
      (g.entity x).pending.get? other := by
  rcases entity_modifyEntity_cases g x s (·.settle name) with hx | ⟨rfl, -, hx⟩ <;> rw [hx]
  exact Assoc.get?_erase_of_ne _ fun hname => h ⟨rfl, hname⟩

end settle

/-- What an assignment that succeeds does: storage has the value already, or the value is written, and
announced if it is a key. -/
theorem ends_assign (g : Graph) (e : EntityId) (name : String) (v : Value) :
    (assign e name v).Ends g (fun _ g' => ∃ a w,
      (g.entity e).schema.atomic? name = some a ∧ a.name = name ∧
      a.coerce (g.entity e).schema.name v = .ok w ∧
      let settled := g.modifyEntity e (·.settle name)
      ((g.entity e).isStoredValue name w = true ∧ g' = settled ∨
        ¬(a.primaryKey = true ∧ w ≠ .null) ∧ g' = settled.put e name (.dirty w) ∨
        a.primaryKey = true ∧ w ≠ .null ∧
          announceKey e (settled.put e name (.dirty w)) = .ok () g')) (fun _ _ => True) := by
  simp only [assign, Act.ends_bind, Act.ends_get, Act.ends_ofExcept, Act.ends_modify, Act.ends_ite,
    Act.ends_throw, Act.ends_pure]
  refine ⟨fun a ha => ⟨fun w hw => ⟨fun _ => trivial, fun _ => ?_⟩, fun _ _ => trivial⟩,
    fun _ _ => trivial⟩
  obtain ⟨hfound, rfl⟩ := atomic?_of_atomic ha
  refine ⟨fun hstored => ⟨a, w, hfound, rfl, hw, .inl ⟨hstored, rfl⟩⟩, fun _ => ⟨fun hkey => ?_,
    fun hno => ⟨a, w, hfound, rfl, hw, .inr (.inl ⟨hno, rfl⟩)⟩⟩⟩
  exact (Act.ends_run (announceKey e) _).mono
    (fun _ g' hg => ⟨a, w, hfound, rfl, hw, .inr (.inr ⟨hkey.1, hkey.2, hg⟩)⟩) fun _ _ _ => trivial

/-- The atomic with the name of the primary key is the primary key. -/
theorem WellFormed.primaryKey_of_name (hwf : g.WellFormed c)
    (hname : (g.entity s).schema.keyName? = some a.name) (ha : a ∈ (g.entity s).schema.atomics) :
    (g.entity s).schema.primaryKey = some a := by
  obtain ⟨key, hkey, heq⟩ := Option.map_eq_some_iff.1 hname
  cases hmarked : a.primaryKey with
  | true => exact (hwf.known s (index_lt_of_primaryKey hkey)).primaryKey_eq ha hmarked
  | false => exact absurd heq.symm (hwf.ne_keyName hkey ha hmarked)

/-- That the assigned key has stopped waiting before does not matter: what an entity is given after that
it is given. -/
theorem Gives.of_settle (h : Gives s k (g.modifyEntity s (·.settle name)) g')
    (hname : (g.entity s).schema.keyName? = some name) : Gives s k g g' := by
  have hkey : ∀ x other, (g.modifyEntity s (·.settle name)).IsKey s x other ↔ g.IsKey s x other := by
    intro x other
    rw [IsKey, IsKey, schema_settle]
  have hpending : ∀ x other, ¬g.IsKey s x other →
      ((g.modifyEntity s (·.settle name)).entity x).pending.get? other =
        (g.entity x).pending.get? other :=
    fun x other hne => pending_settle_of_ne fun heq => hne ⟨heq.1, heq.2 ▸ hname⟩
  refine ⟨?_, h.key, fun other hother => h.free other (by rwa [schema_settle]), fun x hx => ?_,
    fun x other hne hwaits => ?_, fun x other hne hwaits => ?_⟩
  · exact (SameShape.modifyEntity g s (f := (·.settle name))
      fun _ => ⟨rfl, rfl, rfl, fun _ => rfl⟩).trans h.shape
  · rw [h.listeners x hx, listeners_settle]
  · obtain ⟨-, hset, b, v, hb, hv, hval⟩ := h.took x other (mt (hkey x other).1 hne) (by
      rwa [hpending x other hne])
    rw [schema_settle] at hb hv
    rw [atomics_settle] at hval
    exact ⟨hwaits, hset, b, v, hb, hv, hval⟩
  · have hkept := h.kept x other (mt (hkey x other).1 hne) (by rwa [hpending x other hne])
    rwa [hpending x other hne, slot, slot, atomics_settle] at hkept

/-- An assignment that gives an entity a key, other than the one that storage has already, gives it to
exactly the foreign keys that wait for it. -/
theorem gives_of_assign {v : Value} (hwf : g.WellFormed c)
    (hheard : ∀ x other, (g.entity x).pending.get? other = some s → g.Heard s x other)
    (hname : (g.entity s).schema.keyName? = some name) (h : assign s name v g = .ok () g')
    (hk : g'.key? s = some k) (hnew : (g.entity s).isStoredValue name k = false) :
    Gives s k g g' := by
  obtain ⟨a, w, hfound, rfl, -, hcases⟩ := (ends_assign g s name v).of_ok h
  have hmem := (Schema.mem_of_atomic? hfound).1
  have hkey := hwf.primaryKey_of_name hname hmem
  have hkey' : ((g.modifyEntity s (·.settle a.name)).entity s).schema.primaryKey = some a := by
    rwa [schema_settle]
  rcases hcases with ⟨hstored, rfl⟩ | ⟨hquiet, rfl⟩ | ⟨-, -, hannounced⟩
  · -- storage has the value already, so this was the key before
    have hslot : g.key? s = some k := by
      rw [← hk]
      exact (view_modifyEntity (v := Entity.key?) rfl).symm
    rw [key?_eq hkey, slot] at hslot
    rw [Entity.isStoredValue] at hstored hnew
    cases hget : (g.entity s).atomics.get? a.name with
    | none => simp [hget] at hslot
    | some slot => simp_all
  · have hmarked := (Catalog.primaryKey_iff (hwf.schema_of_primaryKey hkey) hkey hmem).2 rfl
    rw [key?_eq (by rwa [schema_put]), slot_put_self (index_lt_of_primaryKey hkey')] at hk
    simp_all [Slot.dirty]
  · refine Gives.of_settle (gives_of_put (hwf.settle a.name) hkey' pending_settle_self
      (fun x other hwaits => ?_) hannounced hk) hname
    have hne : ¬(x = s ∧ other = a.name) := by
      rintro ⟨rfl, rfl⟩
      rw [pending_settle_self] at hwaits
      cases hwaits
    obtain ⟨referenced, hmem⟩ := hheard x other (pending_settle_of_ne hne ▸ hwaits)
    exact ⟨referenced, by rwa [listeners_settle]⟩

/-- A key from the database is given to exactly the foreign keys that wait for it. -/
theorem gives_of_assignGeneratedKey {v : Value} (hwf : g.WellFormed c)
    (hheard : ∀ x other, (g.entity x).pending.get? other = some s → g.Heard s x other)
    (hpending : (g.entity s).pending = []) (h : assignGeneratedKey s v g = .ok () g')
    (hk : g'.key? s = some k) : Gives s k g g' := by
  have hends : (assignGeneratedKey s v).Ends g (fun _ g' => g'.key? s = some k → Gives s k g g')
      (fun _ _ => True) := by
    simp only [assignGeneratedKey, Act.ends_bind, Act.ends_get, Act.ends_ofExcept, Act.ends_modify]
    refine ⟨fun a ha => ⟨fun w _ => ?_, fun _ _ => trivial⟩, fun _ _ => trivial⟩
    have hkey := Schema.key_eq_ok_iff.1 ha
    have hfree : (g.entity s).pending.get? a.name = none := by rw [hpending]; rfl
    exact (Act.ends_run (announceKey s) (g.put s a.name (.loaded w))).mono
      (fun _ _ hannounced hk => gives_of_put hwf hkey hfree hheard hannounced hk) fun _ _ _ => trivial
  exact hends.of_ok h hk

end EntityGraph.Graph
