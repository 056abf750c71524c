import EntityGraph.Proofs.Delivery

/-!
# Keys that not everything can take

An entity that has got its key tells all its listeners, also those that come after one that fails.
What is said here of the announcement therefore does not depend on its outcome: a foreign key that
waits takes the key if there is a value of its kind for it, and goes on waiting if not, and collections
note the position of their member either way.

* `Keyed` — an entity has got its key and has told everything that listens to it;
* `keyed_announceKey` — an announcement does that whatever comes of it, and fails only where some
  foreign key could not take the key;
* `keyed_assign`, `keyed_assignGeneratedKey` — so do both ways to get a key.
-/

namespace EntityGraph

namespace Act

variable {σ β : Type} {s : σ}

/-- What each round does for its item, whether it fails or not, and later rounds keep, holds of all
items in the end; if something has failed, some item was one that fails. -/
theorem ends_forAll_all {l : List β} {f : β → Act σ Unit} {I : σ → Prop} {Q : β → σ → Prop}
    {F : β → Prop}
    (hf : ∀ b ∈ l, ∀ s, I s →
      Ends (f b) s (fun _ s' => I s' ∧ Q b s' ∧ ∀ b', Q b' s → Q b' s')
        (fun _ s' => (I s' ∧ Q b s' ∧ ∀ b', Q b' s → Q b' s') ∧ F b)) (hs : I s) :
    Ends (forAll f l) s (fun _ s' => I s' ∧ ∀ b ∈ l, Q b s')
      (fun _ s' => (I s' ∧ ∀ b ∈ l, Q b s') ∧ ∃ b ∈ l, F b) := by
  suffices h : ∀ done, (∀ b ∈ done, Q b s) →
      Ends (forAll f l) s (fun _ s' => I s' ∧ ∀ b, b ∈ done ∨ b ∈ l → Q b s')
        (fun _ s' => (I s' ∧ ∀ b, b ∈ done ∨ b ∈ l → Q b s') ∧ ∃ b ∈ l, F b) by
    refine (h [] fun _ hb => absurd hb List.not_mem_nil).mono (fun _ _ ht => ?_) fun _ _ he => ?_
    · exact ⟨ht.1, fun b hb => ht.2 b (.inr hb)⟩
    · exact ⟨⟨he.1.1, fun b hb => he.1.2 b (.inr hb)⟩, he.2⟩
  induction l generalizing s with
  | nil => exact fun done hdone => ⟨hs, fun b hb => hdone b (hb.resolve_right List.not_mem_nil)⟩
  | cons b l ih =>
    intro done hdone
    have hb := hf b List.mem_cons_self s hs
    -- whatever came of the first item, the others are dealt with from where it has led
    have hrest : ∀ t, I t ∧ Q b t ∧ (∀ b', Q b' s → Q b' t) →
        Ends (forAll f l) t (fun _ s' => I s' ∧ ∀ b', b' ∈ done ∨ b' ∈ b :: l → Q b' s')
          (fun _ s' => (I s' ∧ ∀ b', b' ∈ done ∨ b' ∈ b :: l → Q b' s') ∧ ∃ b' ∈ l, F b') := by
      rintro t ⟨ht, hq, hkeep⟩
      have hdone' : ∀ b' ∈ b :: done, Q b' t :=
        List.forall_mem_cons.2 ⟨hq, fun b' hb' => hkeep b' (hdone b' hb')⟩
      have hall : ∀ {b'}, b' ∈ done ∨ b' ∈ b :: l → b' ∈ b :: done ∨ b' ∈ l := by
        intro b' hb'
        rw [List.mem_cons] at hb' ⊢
        tauto
      exact (ih (fun b' hb' => hf b' (List.mem_cons_of_mem _ hb')) ht _ hdone').mono
        (fun _ _ h => ⟨h.1, fun b' hb' => h.2 b' (hall hb')⟩)
        fun _ _ h => ⟨⟨h.1.1, fun b' hb' => h.1.2 b' (hall hb')⟩, h.2⟩
    unfold Ends at hb ⊢
    unfold forAll
    cases hfb : f b s with
    | ok _ t =>
      simp only [hfb] at hb ⊢
      exact (hrest t hb).mono (fun _ _ h => h) fun _ _ h =>
        ⟨h.1, h.2.choose, List.mem_cons_of_mem _ h.2.choose_spec.1, h.2.choose_spec.2⟩
    | error e t =>
      simp only [hfb] at hb ⊢
      have ht := hrest t hb.1
      unfold Ends at ht
      cases hft : forAll f l t <;> simp only [hft] at ht ⊢
      · exact ⟨ht, b, List.mem_cons_self, hb.2⟩
      · exact ⟨ht.1, b, List.mem_cons_self, hb.2⟩

end Act

namespace Graph

variable {c : Catalog} {g g' : Graph} {s x : EntityId} {k : Value} {name f : String} {a : Atomic}
  {slot : Slot Value}

/-! ### What listens -/

/-- A foreign key waits for an entity that has a listener for it. -/
structure Waits (g : Graph) (s x : EntityId) (f : String) : Prop where
  pending : (g.entity x).pending.get? f = some s
  heard : g.Heard s x f

/-- There is a value of an atomic's kind for a value. -/
def CanTake (g : Graph) (x : EntityId) (f : String) (k : Value) : Prop :=
  ∃ a v, (g.entity x).schema.atomic f = .ok a ∧ a.coerce (g.entity x).schema.name k = .ok v

/-- Something other than a certain atomic waits for an entity and cannot take its key. -/
def Refuses (g : Graph) (s : EntityId) (name : String) (k : Value) : Prop :=
  ∃ x f, ¬(x = s ∧ f = name) ∧ g.Waits s x f ∧ ¬g.CanTake x f k

/-- A collection has an entity among its members and listens for the entity's key. -/
structure Notes (g : Graph) (s : EntityId) (i : CollectionId) : Prop where
  heard : .collection i ∈ (g.entity s).listeners
  member : s ∈ (g.collection i).members

/-- An entity has got its key, and some of its listeners have been told: what has waited may have taken
the key, collections that listen may have noted it, and nothing else has changed. -/
structure Telling (s : EntityId) (name : String) (slot : Slot Value) (g g' : Graph) : Prop where
  shape : g.SameShape g'
  marks : ∀ x, (g'.entity x).toOne = (g.entity x).toOne ∧ (g'.entity x).stored = (g.entity x).stored
  holds : g'.slot s name = some slot
  settled : (g'.entity s).pending.get? name = none
  silent : (g'.entity s).listeners = []
  listeners : ∀ x, x ≠ s → (g'.entity x).listeners = (g.entity x).listeners
  other : ∀ x f, ¬(x = s ∧ f = name) →
    ((g'.entity x).pending.get? f = (g.entity x).pending.get? f ∧ g'.slot x f = g.slot x f) ∨
    (g.Waits s x f ∧ Took s slot.value (g.entity x) (g'.entity x) f)
  collections : ∀ i, ∃ index, g'.collection i = { g.collection i with index }
  count : g'.collections.length = g.collections.length
  index : ∀ i v, ¬(g.Notes s i ∧ v = slot.value) →
    (g'.collection i).index.get? v = (g.collection i).index.get? v

/-- An entity has got its key and has told everything that listens to it: what waits and can take the
key has taken it, and collections that listen have noted the key. -/
structure Keyed (s : EntityId) (name : String) (slot : Slot Value) (g g' : Graph) : Prop
    extends Telling s name slot g g' where
  took : ∀ x f, ¬(x = s ∧ f = name) → g.Waits s x f → g.CanTake x f slot.value →
    Took s slot.value (g.entity x) (g'.entity x) f
  noted : ∀ i, g.Notes s i → slot.value ≠ .null →
    (g'.collection i).index.get? slot.value = (g.collection i).members.idxOf? s

/-- A listener has been told: what it stands for does not wait any more unless it cannot take the key,
or the collection has noted the key. -/
def HasHeard (s : EntityId) (k : Value) (g : Graph) (l : KeyListener) (g' : Graph) : Prop :=
  match l with
  | .foreignKey x f _ => (g'.entity x).pending.get? f = some s → ¬g.CanTake x f k
  | .collection i => k ≠ .null → s ∈ (g.collection i).members →
      (g'.collection i).index.get? k = (g.collection i).members.idxOf? s

/-- A listener fails: it stands for a foreign key that waits and cannot take the key. -/
def Fails (s : EntityId) (name : String) (k : Value) (g : Graph) (l : KeyListener) : Prop :=
  ∃ x f r, l = .foreignKey x f r ∧ ¬(x = s ∧ f = name) ∧ (g.entity x).pending.get? f = some s ∧
    ¬g.CanTake x f k

namespace Telling

/-- Before anything listens, the key is there and the listeners are gone. -/
theorem start (hlt : s.index < g.entities.length)
    (hfree : (g.entity s).pending.get? name = none) :
    Telling s name slot g ((g.put s name slot).modifyEntity s fun x => { x with listeners := [] }) where
  shape := (sameShape_put g s name slot).trans
    (.modifyEntity _ s fun _ => ⟨rfl, rfl, rfl, fun _ => rfl⟩)
  marks x := by
    rw [view_modifyEntity (v := (·.toOne)) rfl, view_modifyEntity (v := (·.stored)) rfl, put,
      view_modifyEntity (v := (·.toOne)) rfl, view_modifyEntity (v := (·.stored)) rfl]
    exact ⟨rfl, rfl⟩
  holds := by
    rw [Graph.slot, view_modifyEntity (v := (·.atomics)) rfl]
    exact slot_put_self hlt
  settled := by rw [view_modifyEntity (v := (·.pending)) rfl, pending_put, hfree]
  silent := by
    rw [entity_modifyEntity_self _ (by simpa [put] using hlt)]
  listeners x hx := by rw [entity_modifyEntity_of_ne _ hx, listeners_put]
  other x f hne := by
    refine .inl ⟨?_, ?_⟩
    · rw [view_modifyEntity (v := (·.pending)) rfl, pending_put]
    · rw [Graph.slot, view_modifyEntity (v := (·.atomics)) rfl]
      exact slot_put_of_ne hne
  collections _ := ⟨_, rfl⟩
  count := rfl
  index _ _ _ := rfl

variable (h : Telling s name slot g g')

include h

/-- What waits still is as it was. -/
theorem still_waits (hwaits : (g'.entity x).pending.get? f = some s) :
    ¬(x = s ∧ f = name) ∧ (g.entity x).pending.get? f = some s ∧ g'.slot x f = g.slot x f := by
  have hne : ¬(x = s ∧ f = name) := by
    rintro ⟨rfl, rfl⟩
    rw [h.settled] at hwaits
    cases hwaits
  rcases h.other x f hne with ⟨hpending, hslot⟩ | ⟨-, htook⟩
  · exact ⟨hne, hpending ▸ hwaits, hslot⟩
  · rw [htook.settled] at hwaits
    cases hwaits

/-- A foreign key that waits takes the key. -/
theorem receive {v : Value} (hheard : g.Heard s x f)
    (hwaits : (g'.entity x).pending.get? f = some s) (ha : (g'.entity x).schema.atomic f = .ok a)
    (hv : a.coerce (g'.entity x).schema.name slot.value = .ok v) :
    Telling s name slot g (g'.modifyEntity x (·.receive f v)) := by
  obtain ⟨hne, hwaited, hslot⟩ := h.still_waits hwaits
  have hlt := index_lt_of_pending hwaits
  have hframe := receive_frame (g'.entity x) f v
  have hslots : ∀ y o, ¬(y = x ∧ o = f) →
      ((g'.modifyEntity x (·.receive f v)).entity y).pending.get? o = (g'.entity y).pending.get? o ∧
        (g'.modifyEntity x (·.receive f v)).slot y o = g'.slot y o := by
    intro y o hyo
    rw [Graph.slot, Graph.slot]
    rcases entity_modifyEntity_cases g' y x (·.receive f v) with hy | ⟨rfl, -, hy⟩ <;> rw [hy]
    · exact ⟨rfl, rfl⟩
    · have ho : o ≠ f := fun ho => hyo ⟨rfl, ho⟩
      rw [pending_receive, Assoc.get?_erase_of_ne _ ho, atomics_receive_of_ne _ _ _ ho]
      exact ⟨rfl, rfl⟩
  have hkey := hslots s name fun heq => hne ⟨heq.1.symm, heq.2.symm⟩
  refine ⟨h.shape.trans (.receive g' x f v), fun y => ?_, hkey.2.trans h.holds,
    hkey.1.trans h.settled, ?_, fun y hy => ?_, fun y o hyo => ?_, h.collections, h.count, h.index⟩
  · rw [view_modifyEntity (v := (·.toOne)) hframe.2.2.2.1,
      view_modifyEntity (v := (·.stored)) hframe.2.2.2.2.2]
    exact h.marks y
  · rw [view_modifyEntity (v := (·.listeners)) hframe.2.2.1]
    exact h.silent
  · rw [view_modifyEntity (v := (·.listeners)) hframe.2.2.1]
    exact h.listeners y hy
  · by_cases heq : y = x ∧ o = f
    · obtain ⟨rfl, rfl⟩ := heq
      rw [entity_modifyEntity_self _ hlt]
      refine .inr ⟨⟨hwaited, hheard⟩, hwaited, by simp, a, v, ?_, ?_, ?_⟩
      · rw [← h.shape.schema y, ha]
      · rw [← h.shape.schema y, hv]
      · rw [Graph.slot, Graph.slot] at hslot
        rw [← hslot]
        exact atomics_receive _ _ _
    · obtain ⟨hpending, hslot⟩ := hslots y o heq
      rcases h.other y o hyo with hsame | ⟨hw, hset⟩
      · exact .inl ⟨hpending.trans hsame.1, hslot.trans hsame.2⟩
      · refine .inr ⟨hw, hw.pending, hpending.trans hset.settled, ?_⟩
        obtain ⟨b, u, hb, hu, hval⟩ := hset.value
        exact ⟨b, u, hb, hu, hslot.trans hval⟩

/-- The entity has the value as its key, unless that is null. -/
theorem key?_self (hkey : (g.entity s).schema.primaryKey = some a) (hname : a.name = name) :
    g'.key? s = if slot.value.isNull then none else some slot.value := by
  rw [key?_eq (by rwa [h.shape.schema]), hname, h.holds]
  rfl

/-- What listeners read is the key that the entity has got. -/
theorem value_self (hwf : g.WellFormed c) (hkey : (g.entity s).schema.primaryKey = some a)
    (hname : a.name = name) : g'.value s name = .ok slot.value := by
  have hmem := Catalog.mem_of_primaryKey (hwf.schema_of_primaryKey hkey) hkey
  have hfound := (hwf.known s (index_lt_of_primaryKey hkey)).coherent.atomic?_name hmem
  have hholds := h.holds
  rw [Graph.slot] at hholds
  rw [value, h.shape.schema, Entity.atomic, ← hname, hfound]
  show Except.ok ((g'.entity s).atomicValue a.name) = _
  rw [Entity.atomicValue, hname, hholds]
  rfl

/-- A collection notes the key of its member. -/
theorem note {i : CollectionId} (hheard : .collection i ∈ (g.entity s).listeners) {n : Nat}
    (hn : (g'.collection i).members.idxOf? s = some n) :
    Telling s name slot g
        (g'.modifyCollection i fun x => { x with index := x.index.put slot.value n }) ∧
      (g'.modifyCollection i fun x => { x with index := x.index.put slot.value n }).collection i =
        { g'.collection i with index := (g'.collection i).index.put slot.value n } := by
  have hmember : s ∈ (g'.collection i).members := by
    by_contra hnot
    rw [List.idxOf?_eq_none_iff.2 hnot] at hn
    cases hn
  have hself := collection_modifyCollection_self
    (fun x => { x with index := x.index.put slot.value n }) (index_lt_of_member hmember)
  refine ⟨⟨h.shape.trans (.modifyCollection g' i fun _ => rfl), h.marks, h.holds, h.settled, h.silent,
    h.listeners, h.other, fun j => ?_, ?_, fun j v hv => ?_⟩, hself⟩
  · obtain ⟨index, hindex⟩ := h.collections j
    rcases collection_modifyCollection_cases g' i j fun x =>
      { x with index := x.index.put slot.value n } with hj | hj <;> rw [hj, hindex]
    · exact ⟨index, rfl⟩
    · exact ⟨_, rfl⟩
  · rw [length_modifyCollection, h.count]
  · rw [← h.index j v hv]
    by_cases hji : j = i
    · subst hji
      obtain ⟨index, hindex⟩ := h.collections j
      have hne : v ≠ slot.value := by
        rintro rfl
        exact hv ⟨⟨hheard, by rw [hindex] at hmember; exact hmember⟩, rfl⟩
      rw [hself]
      exact Assoc.get?_put_of_ne _ _ hne
    · rw [collection_modifyCollection_of_ne _ hji]

/-- A foreign key is told. It fails only if it waits and cannot take the key. -/
theorem hear_foreignKey (hwf : g.WellFormed c) (hkey : (g.entity s).schema.primaryKey = some a)
    (hname : a.name = name) (hl : .foreignKey x f name ∈ (g.entity s).listeners) :
    (Graph.hear s (.foreignKey x f name)).Ends g'
      (fun _ g'' => Telling s name slot g g'' ∧ HasHeard s slot.value g (.foreignKey x f name) g'' ∧
        ∀ l', HasHeard s slot.value g l' g' → HasHeard s slot.value g l' g'')
      (fun _ g'' => (Telling s name slot g g'' ∧ HasHeard s slot.value g (.foreignKey x f name) g'' ∧
        ∀ l', HasHeard s slot.value g l' g' → HasHeard s slot.value g l' g'') ∧
        Fails s name slot.value g (.foreignKey x f name)) := by
  have hread := h.value_self hwf hkey hname
  simp only [Graph.hear, Act.ends_bind, Act.ends_get, Act.ends_ite, hread, Act.ends_ofExcept_ok]
  refine ⟨fun hwaits => ?_, fun hwaits => ⟨h, fun hstill => absurd hstill hwaits, fun _ hl' => hl'⟩⟩
  obtain ⟨hne, hwaited, -⟩ := h.still_waits hwaits
  have hcan : ∀ v, HasHeard s slot.value g (.foreignKey x f name) (g'.modifyEntity x (·.receive f v)) := by
    intro v hstill
    rw [entity_modifyEntity_self _ (index_lt_of_pending hwaits), pending_receive,
      Assoc.get?_erase_self] at hstill
    cases hstill
  have hrefused : ¬g.CanTake x f slot.value →
      (Telling s name slot g g' ∧ HasHeard s slot.value g (.foreignKey x f name) g' ∧
        ∀ l', HasHeard s slot.value g l' g' → HasHeard s slot.value g l' g') ∧
      Fails s name slot.value g (.foreignKey x f name) := fun hnot =>
    ⟨⟨h, fun _ => hnot, fun _ hl' => hl'⟩, x, f, name, rfl, hne, hwaited, hnot⟩
  simp only [Graph.writeForeignKey, Act.ends_bind, Act.ends_get, Act.ends_ofExcept, Act.ends_modify]
  refine ⟨fun b hb => ⟨fun v hv => ⟨h.receive ⟨name, hl⟩ hwaits hb hv, hcan v, fun l' hl' => ?_⟩,
    fun error herror => hrefused ?_⟩, fun error herror => hrefused ?_⟩
  · cases l' with
    | foreignKey y o _ => exact fun hstill => hl' (by_contra fun hnot => pending_receive_ne hnot hstill)
    | collection i => exact hl'
  all_goals
    rintro ⟨b', v, hb', hv⟩
    rw [h.shape.schema] at herror
  · rw [h.shape.schema] at hb
    obtain rfl := Except.ok.inj (hb.symm.trans hb')
    rw [hv] at herror
    cases herror
  · rw [hb'] at herror
    cases herror

/-- A collection is told. It does not fail. -/
theorem hear_collection {i : CollectionId} (hkey : (g.entity s).schema.primaryKey = some a)
    (hname : a.name = name) (hl : .collection i ∈ (g.entity s).listeners) :
    (Graph.hear s (.collection i)).Ends g'
      (fun _ g'' => Telling s name slot g g'' ∧ HasHeard s slot.value g (.collection i) g'' ∧
        ∀ l', HasHeard s slot.value g l' g' → HasHeard s slot.value g l' g'') (fun _ _ => False) := by
  have hself := h.key?_self hkey hname
  rw [Graph.hear, indexMember, Act.ends_modify]
  obtain ⟨index, hindex⟩ := h.collections i
  split
  · next k n hk hn =>
    have hk : k = slot.value := by
      rw [hself] at hk
      split at hk
      · cases hk
      · exact (Option.some.inj hk).symm
    subst hk
    obtain ⟨htelling, hnoted⟩ := h.note hl hn
    have hnow : ((g'.modifyCollection i fun x =>
        { x with index := x.index.put slot.value n }).collection i).index.get? slot.value =
          (g.collection i).members.idxOf? s := by
      rw [hnoted, Assoc.get?_put_self, ← hn, hindex]
    refine ⟨htelling, fun _ _ => hnow, fun l' hl' => ?_⟩
    cases l' with
    | foreignKey y o _ => exact hl'
    | collection j =>
      intro hne hmember
      by_cases hji : j = i
      · exact hji ▸ hnow
      · rw [collection_modifyCollection_of_ne _ hji]
        exact hl' hne hmember
  · next hno =>
    refine ⟨h, fun hne hmember => ?_, fun _ hl' => hl'⟩
    rw [if_neg (by simpa using hne)] at hself
    have hmember' : s ∈ (g'.collection i).members := by rwa [hindex]
    cases hn : (g'.collection i).members.idxOf? s with
    | none => exact absurd hmember' (List.idxOf?_eq_none_iff.1 hn)
    | some n => exact absurd hn (hno _ n hself)

/-- A listener is told, and no other one is told less for it. It fails only if its foreign key waits and
cannot take the key. -/
theorem hear {l : KeyListener} (hwf : g.WellFormed c) (hkey : (g.entity s).schema.primaryKey = some a)
    (hname : a.name = name) (hl : l ∈ (g.entity s).listeners) :
    (Graph.hear s l).Ends g'
      (fun _ g'' => Telling s name slot g g'' ∧ HasHeard s slot.value g l g'' ∧
        ∀ l', HasHeard s slot.value g l' g' → HasHeard s slot.value g l' g'')
      (fun _ g'' => (Telling s name slot g g'' ∧ HasHeard s slot.value g l g'' ∧
        ∀ l', HasHeard s slot.value g l' g' → HasHeard s slot.value g l' g'') ∧
        Fails s name slot.value g l) := by
  cases l with
  | foreignKey x f referenced =>
    obtain rfl : name = referenced := by
      have hreferenced := hwf.listeners s x f referenced hl
      rw [← hname]
      simpa [Schema.keyName?, hkey] using hreferenced
    exact h.hear_foreignKey hwf hkey hname hl
  | collection i => exact (h.hear_collection hkey hname hl).mono (fun _ _ hg => hg) fun _ _ hno => hno.elim

end Telling

/-- An entity that has got its key and announces it tells everything that listens to it, whether the
announcement succeeds or fails; it fails only if something refuses the key. -/
theorem keyed_announceKey (slot : Slot Value) (hwf : g.WellFormed c)
    (hkey : (g.entity s).schema.primaryKey = some a)
    (hfree : (g.entity s).pending.get? a.name = none) :
    (announceKey s).Ends (g.put s a.name slot) (fun _ g' => Keyed s a.name slot g g')
      (fun _ g' => Keyed s a.name slot g g' ∧ g.Refuses s a.name slot.value) := by
  simp only [announceKey, Act.ends_bind, Act.ends_get, Act.ends_modify, listeners_put]
  have hall : ∀ g', (Telling s a.name slot g g' ∧ ∀ l ∈ (g.entity s).listeners,
      HasHeard s slot.value g l g') → Keyed s a.name slot g g' := by
    rintro g' ⟨htelling, hheard⟩
    refine ⟨htelling, fun x f hne hwaits hcan => ?_, fun i hnotes hnull => ?_⟩
    · rcases htelling.other x f hne with ⟨hpending, -⟩ | ⟨-, htook⟩
      · obtain ⟨r, hl⟩ := hwaits.heard
        exact absurd hcan (hheard _ hl (hpending.trans hwaits.pending))
      · exact htook
    · exact hheard _ hnotes.heard hnull hnotes.member
  refine (Act.ends_forAll_all (I := Telling s a.name slot g) (Q := HasHeard s slot.value g)
    (F := Fails s a.name slot.value g) (fun l hl g' hg' => hg'.hear hwf hkey rfl hl)
    (.start (index_lt_of_primaryKey hkey) hfree)).mono (fun _ g' h => hall g' h) fun _ g' h => ?_
  obtain ⟨h, l, hl, x, f, r, rfl, hne, hwaits, hnot⟩ := h
  exact ⟨hall g' h, x, f, hne, ⟨hwaits, r, hl⟩, hnot⟩

/-- What does not wait, or cannot take the key, is as it was. -/
theorem Keyed.kept (h : Keyed s name slot g g') (hne : ¬(x = s ∧ f = name))
    (hnot : ¬(g.Waits s x f ∧ g.CanTake x f slot.value)) :
    (g'.entity x).pending.get? f = (g.entity x).pending.get? f ∧ g'.slot x f = g.slot x f := by
  refine (h.other x f hne).resolve_right fun ⟨hwaits, htook⟩ => hnot ⟨hwaits, ?_⟩
  obtain ⟨b, v, hb, hv, -⟩ := htook.value
  exact ⟨b, v, hb, hv⟩

/-! ### Both ways to get a key -/

section settle

/-- Other atomics wait, or not, as they did before the key stopped waiting. -/
theorem waits_settle (hne : ¬(x = s ∧ f = name)) :
    (g.modifyEntity s (·.settle name)).Waits s x f ↔ g.Waits s x f := by
  constructor
  · rintro ⟨hpending, r, hmem⟩
    exact ⟨by rwa [pending_settle_of_ne hne] at hpending, r, by rwa [listeners_settle] at hmem⟩
  · rintro ⟨hpending, r, hmem⟩
    exact ⟨by rwa [pending_settle_of_ne hne], r, by rwa [listeners_settle]⟩

/-- What can be taken does not depend on what waits. -/
theorem canTake_settle : (g.modifyEntity s (·.settle name)).CanTake x f k ↔ g.CanTake x f k := by
  rw [CanTake, CanTake, schema_settle]

/-- What refuses the key is another atomic than the key itself. -/
theorem Refuses.of_settle (h : (g.modifyEntity s (·.settle name)).Refuses s name k) :
    g.Refuses s name k := by
  obtain ⟨x, f, hne, hwaits, hnot⟩ := h
  exact ⟨x, f, hne, (waits_settle hne).1 hwaits, fun hcan => hnot (canTake_settle.2 hcan)⟩

/-- That the key has stopped waiting before does not matter. -/
theorem Keyed.of_settle (h : Keyed s name slot (g.modifyEntity s (·.settle name)) g') :
    Keyed s name slot g g' := by
  have hslot : ∀ x o, (g.modifyEntity s (·.settle name)).slot x o = g.slot x o := fun x o => by
    rw [Graph.slot, atomics_settle, Graph.slot]
  have htook : ∀ {x f}, Took s slot.value ((g.modifyEntity s (·.settle name)).entity x)
      (g'.entity x) f → g.Waits s x f → Took s slot.value (g.entity x) (g'.entity x) f := by
    intro x f htook hwaits
    have hvalue := htook.value
    rw [schema_settle, atomics_settle] at hvalue
    exact ⟨hwaits.pending, htook.settled, hvalue⟩
  have hnotes : ∀ {i}, g.Notes s i ↔ (g.modifyEntity s (·.settle name)).Notes s i := by
    refine fun {i} => ⟨fun hi => ⟨?_, hi.member⟩, fun hi => ⟨?_, hi.member⟩⟩
    · rw [listeners_settle]
      exact hi.heard
    · have hheard := hi.heard
      rwa [listeners_settle] at hheard
  refine ⟨⟨?_, fun x => ?_, h.holds, h.settled, h.silent, fun x hx => ?_, fun x f hne => ?_,
    h.collections, h.count, fun i v hi => ?_⟩, fun x f hne hwaits hcan => ?_, fun i hi hnull => ?_⟩
  · exact (SameShape.modifyEntity g s (f := (·.settle name))
      fun _ => ⟨rfl, rfl, rfl, fun _ => rfl⟩).trans h.shape
  · have hmarks := h.marks x
    rwa [view_modifyEntity (v := (·.toOne)) rfl, view_modifyEntity (v := (·.stored)) rfl] at hmarks
  · rw [h.listeners x hx, listeners_settle]
  · refine (h.other x f hne).imp (fun hsame => ?_) fun hset => ?_
    · rwa [pending_settle_of_ne hne, hslot] at hsame
    · have hwaits := (waits_settle hne).1 hset.1
      exact ⟨hwaits, htook hset.2 hwaits⟩
  · exact h.index i v fun hv => hi ⟨hnotes.2 hv.1, hv.2⟩
  · exact htook (h.took x f hne ((waits_settle hne).2 hwaits) (canTake_settle.2 hcan)) hwaits
  · exact h.noted i (hnotes.1 hi) hnull

end settle

/-- What an assignment does. Where it fails it has done nothing, or it has given the entity a key that
something refuses. -/
theorem keyed_assign (hwf : g.WellFormed c) (e : EntityId) (name : String) (v : Value) :
    (assign e name v).Ends g
      (fun _ g' => ∃ a w, (g.entity e).schema.atomic? name = some a ∧ a.name = name ∧
        a.coerce (g.entity e).schema.name v = .ok w ∧
        (a.primaryKey = true → (g.entity e).stored = true → (g.slot e name).map (·.value) = some w) ∧
        let settled := g.modifyEntity e (·.settle name)
        ((g.entity e).isStoredValue name w = true ∧ g' = settled ∨
          ¬(a.primaryKey = true ∧ w ≠ .null) ∧ g' = settled.put e name (.dirty w) ∨
          a.primaryKey = true ∧ w ≠ .null ∧ Keyed e name (.dirty w) g g'))
      (fun _ g' => g' = g ∨ ∃ a w, (g.entity e).schema.atomic? name = some a ∧ a.name = name ∧
        a.coerce (g.entity e).schema.name v = .ok w ∧
        (a.primaryKey = true → (g.entity e).stored = true → (g.slot e name).map (·.value) = some w) ∧
        a.primaryKey = true ∧ w ≠ .null ∧ g.Refuses e name w ∧ Keyed e name (.dirty w) g g') := by
  simp only [assign, Act.ends_bind, Act.ends_get, Act.ends_ofExcept, Act.ends_modify, Act.ends_ite,
    Act.ends_throw, Act.ends_pure]
  refine ⟨fun a ha => ⟨fun w hw => ⟨fun _ => .inl trivial, fun hguard => ?_⟩, fun _ _ => .inl trivial⟩,
    fun _ _ => .inl trivial⟩
  obtain ⟨hfound, rfl⟩ := atomic?_of_atomic ha
  have hfixed : a.primaryKey = true → (g.entity e).stored = true →
      (g.slot e a.name).map (·.value) = some w := by
    intro hkey hstored
    by_contra hne
    exact hguard ⟨hkey, hstored, hne⟩
  refine ⟨fun hsame => ⟨a, w, hfound, rfl, hw, hfixed, .inl ⟨hsame, rfl⟩⟩, fun _ => ⟨fun hassigns => ?_,
    fun hno => ⟨a, w, hfound, rfl, hw, hfixed, .inr (.inl ⟨hno, rfl⟩)⟩⟩⟩
  have hlt : e.index < g.entities.length := index_lt_of_atomic? hfound
  have hkey : ((g.modifyEntity e (·.settle a.name)).entity e).schema.primaryKey = some a := by
    rw [schema_settle]
    exact (hwf.known e hlt).primaryKey_eq (Schema.mem_of_atomic? hfound).1 hassigns.1
  refine (keyed_announceKey (.dirty w) (hwf.settle a.name) hkey pending_settle_self).mono
    (fun _ g' h => ?_) fun _ g' h => .inr ?_
  · exact ⟨a, w, hfound, rfl, hw, hfixed, .inr (.inr ⟨hassigns.1, hassigns.2, h.of_settle⟩)⟩
  · exact ⟨a, w, hfound, rfl, hw, hfixed, hassigns.1, hassigns.2, h.2.of_settle, h.1.of_settle⟩

/-- A key from the database is the key of its entity, and everything that listens has been told, unless
it cannot be brought into the kind of the key. -/
theorem keyed_assignGeneratedKey (hwf : g.WellFormed c) (hpending : (g.entity s).pending = [])
    (v : Value) :
    (assignGeneratedKey s v).Ends g
      (fun _ g' => ∃ a w, (g.entity s).schema.primaryKey = some a ∧
        a.coerce (g.entity s).schema.name v = .ok w ∧ Keyed s a.name (.loaded w) g g')
      (fun _ g' => g' = g ∨ ∃ a w, (g.entity s).schema.primaryKey = some a ∧
        a.coerce (g.entity s).schema.name v = .ok w ∧ Keyed s a.name (.loaded w) g g') := by
  simp only [assignGeneratedKey, Act.ends_bind, Act.ends_get, Act.ends_ofExcept, Act.ends_modify]
  refine ⟨fun a ha => ⟨fun w hw => ?_, fun _ _ => .inl trivial⟩, fun _ _ => .inl trivial⟩
  have hkey := Schema.key_eq_ok_iff.1 ha
  have hfree : (g.entity s).pending.get? a.name = none := by rw [hpending]; rfl
  exact (keyed_announceKey (.loaded w) hwf hkey hfree).mono
    (fun _ g' h => ⟨a, w, hkey, hw, h⟩) fun _ g' h => .inr ⟨a, w, hkey, hw, h.1⟩

end Graph

end EntityGraph
