import EntityGraph.Proofs.Objection
import EntityGraph.Proofs.Splitting

/-!
# Inserts that fail

An entity that storage does not have and that has no key is inserted row by row. The database makes its
key with the first row, and the entity takes it over before the other rows are written under it. When a
call fails, such an entity is therefore left in one of three ways: it still has no key, and then it is as
it was, apart from foreign keys, and a later call inserts all of it; or it has taken over the key although
not all of its rows are there; or it has been inserted as a whole.

* `New` — an entity that storage does not have, and that has no key;
* `Graph.Kept` — its values are as they were;
* `Stopped` — how inserting it fails;
* `Retriable`, `Stranded`, `Whole` — what becomes of it.

## Main results

* `Save.fates_rules`: one of the three is its fate, throughout a traversal.
* `Call.whole_of_ok`: where a call that is to insert it succeeds, it has been inserted as a whole.
* `Call.retriable_of_error`: what becomes of it when a call fails, and when the call is repeated.
* `Call.strands_parcel`: a save that is repeated may come too late.
-/

namespace EntityGraph

namespace Graph

variable {c : Catalog} {g g' g'' : Graph} {x : EntityId} {key : Atomic} {k : Value}

/-- Storage does not have an entity, and the entity has no key and does not wait for one. -/
structure New (g : Graph) (x : EntityId) : Prop where
  stored : (g.entity x).stored = false
  key? : g.key? x = none
  free : ∃ key, (g.entity x).schema.primaryKey = some key ∧ (g.entity x).pending.get? key.name = none

/-- Storage does not have an entity, and the values of the entity and of its embedded components are as
they were, apart from the key and from foreign keys that have received what they waited for. -/
structure Kept (g g' : Graph) (x : EntityId) : Prop where
  stored : (g'.entity x).stored = false
  slot : ∀ y ∈ g.parts x, ∀ name, (y = x → (g.entity x).schema.keyName? ≠ some name) →
    g'.slot y name = g.slot y name ∨
      (g.entity y).pending.get? name ≠ none ∧ ∃ v, g'.slot y name = some (.dirty v)
  pending : ∀ y ∈ g.parts x, ∀ name, (g.entity y).pending.get? name = none →
    (g'.entity y).pending.get? name = none

/-- A new entity stays new while it only receives foreign keys. -/
theorem New.received (hnew : g.New x) (hshape : g.SameShape g') (h : Received g g' x) : g'.New x := by
  obtain ⟨key, hkey, hfree⟩ := hnew.free
  have hkey' : (g'.entity x).schema.primaryKey = some key := (hshape.schema x).symm ▸ hkey
  refine ⟨h.stored.trans hnew.stored, ?_, key, hkey', h.pending key.name hfree⟩
  rw [key?_eq hkey', h.slot_eq hfree, ← key?_eq hkey]
  exact hnew.key?

/-- What only receives foreign keys is kept. -/
theorem New.kept (hnew : g.New x) (h : ∀ y ∈ g.parts x, Received g g' y) : Kept g g' x where
  stored := (h x (mem_parts_self g x)).stored.trans hnew.stored
  slot y hy name _ := (h y hy).slot name
  pending y hy := (h y hy).pending

/-- What takes over a key apart from that is kept. -/
theorem New.kept_of_announced (hnew : g.New x) (h : ∀ y ∈ g.parts x, Received g g' y)
    (hkey : (g.entity x).schema.primaryKey = some key) (hann : Announced x key.name k g' g'') :
    Kept g g'' x := by
  have hself := h x (mem_parts_self g x)
  have hother : ∀ y ∈ g.parts x, y ≠ x → Received g g'' y :=
    fun y hy hne => (h y hy).trans (hann.received hne)
  refine ⟨(hann.stored x).trans (hself.stored.trans hnew.stored), fun y hy name hname => ?_,
    fun y hy name hnone => ?_⟩
  · by_cases hyx : y = x
    · subst hyx
      have hne : name ≠ key.name := by
        rintro rfl
        exact hname rfl (by rw [Schema.keyName?, hkey]; rfl)
      rw [hann.beside.slot name hne]
      exact hself.slot name
    · exact (hother y hy hyx).slot name
  · by_cases hyx : y = x
    · subst hyx
      rw [hann.beside.pending]
      exact hself.pending name hnone
    · exact (hother y hy hyx).pending name hnone

/-- A key that is taken over counts as stored. -/
theorem Announced.slot_self (h : Announced x key.name k g g') : g'.slot x key.name = some (.loaded k) := by
  rw [Graph.slot, h.self]
  exact Assoc.get?_put_self _ _ _

/-- An entity that takes over a key has no other one. -/
theorem Announced.eq_of_key? (h : Announced x key.name k g g')
    (hkey : (g.entity x).schema.primaryKey = some key) {k' : Value} (hk : g'.key? x = some k') :
    k' = k := by
  rw [h.key?_self hkey] at hk
  split at hk
  · cases hk
  · exact (Option.some.inj hk).symm

/-- A value that storage does not have, other than a key, is kept unless it is a foreign key that waits. -/
theorem Kept.slot_eq (h : Kept g g' x) (hwf : g.WellFormed c)
    (hkey : (g.entity x).schema.primaryKey = some key) {y : EntityId} (hy : y ∈ g.parts x) {a : Atomic}
    (ha : a ∈ (g.entity y).schema.atomics) (hpk : a.primaryKey = false)
    (hfree : (g.entity y).pending.get? a.name = none) : g'.slot y a.name = g.slot y a.name := by
  refine (h.slot y hy a.name fun hyx => ?_).resolve_right fun hwaits => hwaits.1 hfree
  subst hyx
  rw [Schema.keyName?, hkey]
  exact fun heq => hwf.ne_keyName hkey ha hpk (Option.some.inj heq).symm

end Graph

open Save Traversal EntityGraph.Graph

namespace Save

variable {σ : Type} [Connection σ] {ses : Session} {c : Catalog} {e x : EntityId} {phase : Phase}
  {trail : Trail} {w : World σ} {g : Graph} {t t' : Traversal EntityId σ} {l : List Statement}
  {key : Atomic} {k : Value}

/-! ### How inserting fails -/

/-- Inserting an entity without a key has failed: it has no key, and at most the first insert was sent;
or it has taken over a key, and some of the inserts under this key were sent. -/
structure Stopped (e : EntityId) (t t' : Traversal EntityId σ) : Prop where
  graph : t'.world.graph = t.world.graph ∨ ∃ key k,
    (t.world.graph.entity e).schema.primaryKey = some key ∧
      Announced e key.name k t.world.graph t'.world.graph
  sent : ∃ l : List Statement, t'.journal = t.journal ++ l.map (e, ·) ∧
    (t'.world.graph.key? e = none ∧
        l <+: [firstInsert (t.world.graph.entity e).schema (t.world.graph.dirtyAtomics e)] ∨
      ∃ key k rest, (t.world.graph.entity e).schema.primaryKey = some key ∧
        t'.world.graph.key? e = some k ∧ t'.world.graph.slot e key.name = some (.loaded k) ∧
        l = firstInsert (t.world.graph.entity e).schema (t.world.graph.dirtyAtomics e) :: rest ∧
        l <+: inserts (t.world.graph.entity e).schema (t.world.graph.dirtyAtomics e) key k)

/-- How inserting an entity without a key fails. -/
theorem stopped_insertRows (hwf : t.world.graph.WellFormed c) (hnone : t.world.graph.key? e = none) :
    (insertRows ses e).Ends t (fun _ _ => True) (fun _ => Stopped e t) := by
  refine ends_insertRows (fun _ _ => ⟨.inl rfl, [], by simp, .inl ⟨hnone, List.nil_prefix⟩⟩)
    fun key s values hs hkey hvalues hok => ?_
  subst hs hvalues
  obtain ⟨hfree, -⟩ := of_checkInsert hok
  let first := firstInsert (t.world.graph.entity e).schema (t.world.graph.dirtyAtomics e)
  have hprefix : ∀ k, [first] <+: inserts (t.world.graph.entity e).schema
      (t.world.graph.dirtyAtomics e) key k := fun k => List.cons_prefix_cons.2 ⟨rfl, List.nil_prefix⟩
  refine ends_insertFirst (fun t' _ hset => ?_) (fun t' v hsent _ _ => ?_) fun _ t' hsent _ =>
    ⟨.inl hsent.graph, [first], hsent.journal, .inl ⟨hsent.graph ▸ hnone, List.prefix_refl _⟩⟩
  · rw [hnone] at hset
    cases hset
  · -- the first row has been inserted, and the database has made a key
    refine (announced_assignGeneratedKey hwf hkey hfree).mono (fun _ g hg => ?_) fun _ g hg => ?_
    · obtain ⟨k, -, hann⟩ := hg
      refine ⟨fun hnone' _ => ⟨.inr ⟨key, k, hkey, hann⟩, [first], hsent.journal,
        .inl ⟨hnone', List.prefix_refl _⟩⟩, fun k' hk' => ?_⟩
      refine ends_insertRest (fun _ _ => trivial) fun _ t'' l _ hl hrest => ?_
      obtain rfl := hann.eq_of_key? hkey hk'
      have hjournal : t''.journal = t.journal ++ (first :: l).map (e, ·) := by
        rw [hrest.journal]
        show t'.journal ++ _ = _
        rw [hsent.journal, List.append_assoc, ← List.map_append]
        rfl
      refine ⟨.inr ⟨key, k', hkey, hrest.graph ▸ hann⟩, first :: l, hjournal, .inr ?_⟩
      exact ⟨key, k', l, hkey, hrest.graph ▸ hk', hrest.graph ▸ hann.slot_self, rfl,
        List.cons_prefix_cons.2 ⟨rfl, hl⟩⟩
    · refine ⟨hg.imp_right fun ⟨k, _, hann⟩ => ⟨key, k, hkey, hann⟩, [first], hsent.journal, ?_⟩
      rcases Option.eq_none_or_eq_some (g.key? e) with hk | ⟨k, hk⟩
      · exact .inl ⟨hk, List.prefix_refl _⟩
      · rcases hg with rfl | ⟨k', -, hann⟩
        · rw [hnone] at hk
          cases hk
        · obtain rfl := hann.eq_of_key? hkey hk
          exact .inr ⟨key, k, [], hkey, hk, hann.slot_self, rfl, hprefix k⟩

/-! ### What becomes of a new entity -/

/-- An entity is still new, with the values that it had, and at most its first insert was sent. -/
structure Retriable (w : World σ) (t : Traversal EntityId σ) (x : EntityId) : Prop where
  new : t.world.graph.New x
  kept : w.graph.Kept t.world.graph x
  sent : ∃ values, t.sentFor x <+: [firstInsert (w.graph.entity x).schema values]

/-- An entity has taken over a key, which counts as stored, while the entity does not, and it has the
values that it had. Its first insert was sent, and maybe others under this key. -/
structure Stranded (w : World σ) (t : Traversal EntityId σ) (x : EntityId) : Prop where
  kept : w.graph.Kept t.world.graph x
  sent : ∃ key k values rest, (w.graph.entity x).schema.primaryKey = some key ∧
    t.world.graph.key? x = some k ∧ t.world.graph.slot x key.name = some (.loaded k) ∧
    t.sentFor x = firstInsert (w.graph.entity x).schema values :: rest ∧
    t.sentFor x <+: inserts (w.graph.entity x).schema values key k

/-- An entity has been inserted with one row in each of its tables, is stored and has a key. Where its
values can be told apart in storage, each one that storage did not have in a graph, and that did not
wait there, was written once. -/
structure Whole (g : Graph) (w : World σ) (t : Traversal EntityId σ) (x : EntityId) : Prop where
  stored : (t.world.graph.entity x).stored = true
  key? : (t.world.graph.key? x).isSome
  inserts : ∀ y ∈ t.sentFor x, ∃ i, y = .insert i
  tables : (t.sentFor x).map Statement.table? = (g.entity x).schema.tables.map some
  executed : ∀ o ∈ ledger w t, o.owner = x → o.Executed
  written : ∀ key, (g.entity x).schema.primaryKey = some key → (g.entity x).schema.Storable key →
    ∀ y ∈ g.parts x, ∀ a ∈ (g.entity y).schema.atomics, a.primaryKey = false → ∀ v,
      g.slot y a.name = some (.dirty v) → (g.entity y).pending.get? a.name = none →
        WrittenOnce (t.sentFor x) ((g.entity x).schema.cell a) v

/-- What becomes of a new entity. -/
def Fate (w : World σ) (t : Traversal EntityId σ) (x : EntityId) : Prop :=
  Retriable w t x ∨ Stranded w t x ∨ Whole w.graph w t x

/-- Values that are kept are written. -/
theorem Whole.of_kept {g' : Graph} (h : Whole g' w t x) (hwf : g.WellFormed c) (hshape : g.SameShape g')
    (hkept : g.Kept g' x) : Whole g w t x := by
  have hschema : ∀ y, (g'.entity y).schema = (g.entity y).schema := hshape.schema
  refine ⟨h.stored, h.key?, h.inserts, hschema x ▸ h.tables, h.executed,
    fun key hkey hstorable y hy a ha hpk v hslot hfree => ?_⟩
  have hwritten := h.written key ((hschema x).symm ▸ hkey) ((hschema x).symm ▸ hstorable) y
    (hshape.parts_eq x ▸ hy) a ((hschema y).symm ▸ ha) hpk v
    ((hkept.slot_eq hwf hkey hy ha hpk hfree).trans hslot) (hkept.pending y hy a.name hfree)
  exact hschema x ▸ hwritten

/-- What becomes of other entities does not matter to an entity that has been inserted. -/
theorem Whole.of_same (h : Whole g w t x) (hlink : t.world.wire.link = replay w.wire.link t.journal)
    (hjournal : t'.journal = t.journal ++ l.map (e, ·)) (hne : x ≠ e)
    (hentity : t'.world.graph.entity x = t.world.graph.entity x) : Whole g w t' x := by
  have hsent : t'.sentFor x = t.sentFor x := by
    rw [sentFor_append x hjournal, if_neg (Ne.symm hne), List.append_nil]
  refine ⟨hentity ▸ h.stored, ?_, hsent ▸ h.inserts, hsent ▸ h.tables, fun o ho howner => ?_,
    hsent ▸ h.written⟩
  · rw [Graph.key?, hentity]
    exact h.key?
  · rw [ledger_append hlink hjournal] at ho
    rcases List.mem_append.1 ho with ho | ho
    · exact h.executed o ho howner
    · exact absurd (howner.symm.trans (owner_of_mem_outcomes ho).1) hne

/-! ### Throughout a traversal -/

/-- What a traversal keeps: new entities whose rows have been written were inserted as a whole and wait
for nothing, and the rows of others are not to be updated. -/
structure Fates (c : Catalog) (w : World σ) (trail : Trail) (t : Traversal EntityId σ) : Prop
    extends Sparing w trail t where
  steady : Steady c w.graph t.world.graph
  inserting : ∀ x, w.graph.New x → (x, .updating) ∉ trail
  whole : ∀ x, w.graph.New x → Written trail t x →
    (t.world.graph.entity x).pending = [] ∧ Whole w.graph w t x

theorem Fates.start (hw : w.graph.WellFormed c) : Fates c w [] { world := w } :=
  ⟨.start w, ⟨.refl _, hw⟩, fun _ _ => List.not_mem_nil, fun _ _ h => absurd h.1 List.not_mem_nil⟩

/-- New entities that have not been written have only received foreign keys. -/
theorem Fates.received_of_part (h : Fates c w trail t) (hw : w.graph.WellFormed c)
    (hnew : w.graph.New x) (hunwritten : ¬Written trail t x) :
    ∀ y ∈ w.graph.parts x, w.graph.Received t.world.graph y := by
  obtain ⟨key, hkey, -⟩ := hnew.free
  refine fun y hy => h.received y fun d hd hdkey hwritten => hunwritten ?_
  exact hw.eq_of_mem_parts hd hy hdkey (hkey ▸ rfl) ▸ hwritten

/-- New entities that have not been written are new. -/
theorem Fates.new (h : Fates c w trail t) (hw : w.graph.WellFormed c) (hnew : w.graph.New x)
    (hunwritten : ¬Written trail t x) : t.world.graph.New x :=
  hnew.received h.steady.shape (h.received_of_part hw hnew hunwritten x (mem_parts_self _ x))

/-- New entities that have not been written can be inserted another time. -/
theorem Fates.fate (h : Fates c w trail t) (hw : w.graph.WellFormed c) (hnew : w.graph.New x) :
    Fate w t x := by
  by_cases hwritten : Written trail t x
  · exact .inr (.inr (h.whole x hnew hwritten).2)
  · exact .inl ⟨h.new hw hnew hwritten, hnew.kept (h.received_of_part hw hnew hwritten), [],
      h.unsent x hwritten ▸ List.nil_prefix⟩

/-- Writing the rows of one entity decides the fate of no other. -/
theorem Fates.fate_of_ne (h : Fates c w ((e, phase) :: trail) t) (hw : w.graph.WellFormed c)
    (hjournal : t'.journal = t.journal ++ l.map (e, ·))
    (hbeside : t.world.graph.Beside e key t'.world.graph)
    (hreceived : ∀ y, y ≠ e → t.world.graph.Received t'.world.graph y)
    (hkey : (w.graph.entity e).schema.primaryKey.isSome) (hnew : w.graph.New x) (hne : x ≠ e) :
    Fate w t' x := by
  by_cases hwritten : Written ((e, phase) :: trail) t x
  · obtain ⟨hfree, hwhole⟩ := h.whole x hnew hwritten
    exact .inr (.inr (hwhole.of_same h.link hjournal hne (hbeside.settled x hne hfree)))
  · obtain ⟨key, hxkey, -⟩ := hnew.free
    have hall : ∀ y ∈ w.graph.parts x, w.graph.Received t'.world.graph y := by
      refine fun y hy => (h.received_of_part hw hnew hwritten y hy).trans (hreceived y ?_)
      rintro rfl
      exact hne (hw.eq_of_mem_parts hy (mem_parts_self _ y) (hxkey ▸ rfl) hkey)
    have hsent : t'.sentFor x = [] := by
      rw [sentFor_append x hjournal, if_neg (Ne.symm hne), h.unsent x hwritten, List.append_nil]
    exact .inl ⟨hnew.received (h.steady.shape.trans hbeside.shape) (hall x (mem_parts_self _ x)),
      hnew.kept hall, [], hsent ▸ List.nil_prefix⟩

/-- When inserting a new entity fails, it can be inserted another time, or is stranded. -/
theorem Fates.fate_of_stopped (h : Fates c w ((e, .inserting) :: trail) t) (hw : w.graph.WellFormed c)
    (hnew : w.graph.New e) (hstopped : Stopped e t t') : Fate w t' e := by
  have hunwritten : ¬Written ((e, .inserting) :: trail) t e := not_written (by decide)
  have hreceived := h.received_of_part hw hnew hunwritten
  have hschema := h.steady.shape.schema e
  obtain ⟨l, hjournal, hl⟩ := hstopped.sent
  have hsent : t'.sentFor e = l := by
    rw [sentFor_append e hjournal, if_pos rfl, h.unsent e hunwritten, List.nil_append]
  have hkept : w.graph.SameShape t'.world.graph ∧ w.graph.Kept t'.world.graph e := by
    rcases hstopped.graph with hsame | ⟨key, k, hkey, hann⟩
    · exact hsame ▸ ⟨h.steady.shape, hnew.kept hreceived⟩
    · exact ⟨h.steady.shape.trans hann.shape, hnew.kept_of_announced hreceived (hschema ▸ hkey) hann⟩
  obtain ⟨hshape, hkept⟩ := hkept
  rcases hl with ⟨hnone, hl⟩ | ⟨key, k, rest, hkey, hk, hslot, hcons, hl⟩
  · obtain ⟨key, hkey, hfree⟩ := hnew.free
    refine .inl ⟨⟨hkept.stored, hnone, key, (hshape.schema e).symm ▸ hkey, ?_⟩, hkept, _,
      hschema ▸ hsent ▸ hl⟩
    exact hkept.pending e (mem_parts_self _ e) key.name hfree
  · rw [hschema] at hkey hcons hl
    exact .inr (.inl ⟨hkept, key, k, _, rest, hkey, hk, hslot, hsent.trans hcons, hsent ▸ hl⟩)

/-- The rows of an entity have been written, and if it is new, it was inserted as a whole. -/
theorem Fates.wrote (h : Fates c w ((e, phase) :: trail) t) (hphase : phase ≠ .following)
    (hw : w.graph.WellFormed c) (hwrote : WroteRows c e key l t t')
    (honce : WroteOnce (w.graph.entity e).schema e t (marked e t'))
    (hself : w.graph.New e → (t'.world.graph.entity e).pending = [] ∧
      Whole w.graph w (marked e t') e) :
    Fates c w ((e, .following) :: trail) (marked e t') := by
  refine ⟨h.toSparing.wrote hphase h.steady.shape hwrote honce, ⟨?_, ?_⟩, fun x hnew hmem => ?_,
    fun x hnew hwritten => ?_⟩
  · exact (h.steady.shape.trans hwrote.beside.shape).trans ((SameShape.markClean _ e).trans (.markStored _ e))
  · exact (hwrote.wellFormed.markClean e).markStored e
  · exact h.inserting x hnew (List.mem_cons_of_mem _ (by simpa using hmem))
  · have hpending : ((marked e t').world.graph.entity x).pending = (t'.world.graph.entity x).pending :=
      Graph.pending_marked hwrote.wellFormed hwrote.index_lt x
    by_cases hne : x = e
    · subst hne
      exact ⟨hpending.trans (hself hnew).1, (hself hnew).2⟩
    · obtain ⟨hfree, hwhole⟩ := h.whole x hnew ((written_following_iff hne honce.entered).1 hwritten)
      have hsettled := hwrote.beside.settled x hne hfree
      refine ⟨hpending.trans (hsettled ▸ hfree), ?_⟩
      refine hwhole.of_same h.link hwrote.ran.journal hne ?_
      -- an entity with a key is no part of another one
      obtain ⟨xkey, hxkey, -⟩ := hnew.free
      have hkey : (w.graph.entity e).schema.primaryKey = some key :=
        h.steady.shape.schema e ▸ hwrote.isKey
      have hpart : x ∉ t.world.graph.parts e := fun hmem => hne <| hw.eq_of_mem_parts
        (mem_parts_self _ x) (h.steady.shape.parts_eq e ▸ hmem) (hxkey ▸ rfl) (hkey ▸ rfl)
      rw [hwrote.entity_marked, if_neg hpart, hsettled]

/-- A new entity all of whose rows have been inserted was inserted as a whole. -/
theorem Fates.whole_of_inserted (h : Fates c w ((e, phase) :: trail) t) (hphase : phase ≠ .following)
    (hw : w.graph.WellFormed c) (hnew : w.graph.New e) (hinserted : Inserted c e key k t t') :
    Whole w.graph w (marked e t') e := by
  have hunwritten : ¬Written ((e, phase) :: trail) t e := not_written hphase
  have hreceived := h.received_of_part hw hnew hunwritten
  have hschema := h.steady.shape.schema
  have hlt := hinserted.toInserting.index_lt
  have hwf := hinserted.toInserting.wellFormed
  have hsent : (marked e t').sentFor e = inserts (w.graph.entity e).schema
      (t.world.graph.dirtyAtomics e) key k := by
    have heq : (marked e t').sentFor e = t'.sentFor e := rfl
    rw [heq, sentFor_append e hinserted.journal, if_pos rfl, h.unsent e hunwritten, List.nil_append,
      hschema e]
  refine ⟨?_, ?_, fun y hy => exists_insert_of_mem_inserts (hsent ▸ hy), hsent ▸ tables_inserts,
    fun o ho _ => ?_, fun key' hkey' hstorable y hy a ha hpk v hslot hfree => ?_⟩
  · rw [marked, Graph.entity_marked hwf hlt, if_pos (mem_parts_self _ e)]
    rfl
  · rw [marked, Graph.key?_marked hwf hlt, hinserted.key?]
    rfl
  · have hledger : ledger w (marked e t') = ledger w t ++ outcomes t.world.wire.link
        ((inserts (t.world.graph.entity e).schema (t.world.graph.dirtyAtomics e) key k).map (e, ·)) :=
      ledger_append h.link hinserted.journal
    rw [hledger] at ho
    exact (List.mem_append.1 ho).elim (fun ho => (h.executed o ho).1) (hinserted.ran.all o)
  · obtain rfl : key = key' := Option.some.inj (hinserted.isKey.symm.trans ((hschema e).symm ▸ hkey'))
    have hmem : (a, v) ∈ t.world.graph.dirtyAtomics e := by
      refine List.mem_flatMap.2 ⟨y, h.steady.shape.parts_eq e ▸ hy, Graph.mem_dirtyAtomics_iff.2
        ⟨(hschema y).symm ▸ ha, ?_⟩⟩
      exact ((hreceived y hy).slot_eq hfree).trans hslot
    have hbuilt := hw.schema_of_primaryKey hkey'
    rw [hsent]
    exact filter_inserts_of_mem h.steady.wellFormed (hschema e) hstorable
      (Catalog.mem_of_primaryKey hbuilt hkey') hmem

/-- When a traversal fails, the graph is as it is in the course of it, and each new entity has met its
fate. -/
def Decided (c : Catalog) (w : World σ) (t : Traversal EntityId σ) : Prop :=
  Steady c w.graph t.world.graph ∧ ∀ x, w.graph.New x → Fate w t x

theorem Fates.decided (h : Fates c w trail t) (hw : w.graph.WellFormed c) : Decided c w t :=
  ⟨h.steady, fun _ => h.fate hw⟩

/-- An entity that is entered is still to be written. -/
theorem Fates.enter (h : Fates c w trail t) (hw : w.graph.WellFormed c) (hentered : e ∉ t.entered)
    (hlt : e.index < t.world.graph.entities.length) (hadmits : phase.Admits t.world.graph e) :
    Fates c w ((e, phase) :: trail) { t with entered := e :: t.entered } := by
  have hphase : phase ≠ .following := by
    rintro rfl
    exact hadmits
  refine ⟨h.toSparing.enter hentered hlt hadmits, h.steady, fun x hnew hmem => ?_,
    fun x hnew hwritten => ?_⟩
  · rcases List.mem_cons.1 hmem with heq | hmem
    · -- only an entity with a key is entered to be updated
      obtain ⟨rfl, rfl⟩ := Prod.mk.inj heq
      have hnone := (h.new hw hnew fun hwritten => hentered hwritten.1).key?
      have hsome : (t.world.graph.key? x).isSome := hadmits
      rw [hnone] at hsome
      cases hsome
    · exact h.inserting x hnew hmem
  · obtain ⟨hfree, hwhole⟩ := h.whole x hnew ((written_enter_iff hentered hphase).1 hwritten)
    exact ⟨hfree, ⟨hwhole.stored, hwhole.key?, hwhole.inserts, hwhole.tables, hwhole.executed,
      hwhole.written⟩⟩

/-- An entity that is left has been written. -/
theorem Fates.leave (h : Fates c w ((e, .following) :: trail) t) (hmem : e ∈ t.entered) :
    Fates c w trail t :=
  ⟨h.toSparing.leave hmem, h.steady, fun x hnew hx => h.inserting x hnew (List.mem_cons_of_mem _ hx),
    fun x hnew hwritten => h.whole x hnew ((written_leave_iff hmem h.distinct).2 hwritten)⟩

/-- Inserting rows keeps this, and where it fails, it decides. -/
theorem Fates.ends_insertRows (h : Fates ses.catalog w ((e, .inserting) :: trail) t)
    (hw : w.graph.WellFormed ses.catalog) :
    (insertRows ses e).Ends t (fun _ => Fates ses.catalog w ((e, .following) :: trail))
      (fun _ => Decided ses.catalog w) := by
  have hwf := h.steady.wellFormed
  have hschema := h.steady.shape.schema e
  rcases Option.eq_none_or_eq_some (t.world.graph.entity e).schema.primaryKey with hkey | ⟨key, hkey⟩
  · exact (ends_insertRows_of_noKey hkey).mono (fun _ _ hF => hF.elim)
      fun _ _ hend => hend.2.2 ▸ h.decided hw
  have hkeyed : (w.graph.entity e).schema.primaryKey.isSome := hschema ▸ hkey ▸ rfl
  have hstopped : (insertRows ses e).Ends t (fun _ _ => True)
      (fun _ t' => w.graph.New e → Stopped e t t') := by
    by_cases hnew : w.graph.New e
    · exact (stopped_insertRows hwf (h.new hw hnew (not_written (by decide))).key?).mono
        (fun _ _ _ => trivial) fun _ _ hstopped _ => hstopped
    · exact (Act.ends_run _ t).mono (fun _ _ _ => trivial) fun _ _ _ hnew' => absurd hnew' hnew
  refine ((wroteRows_insertRows hwf).and ((wroteOnce_insertRows hwf).and ((inserted_insertRows hwf).and
    ((sameFrame_insertRows hwf).and hstopped)))).mono (fun _ t' hend => ?_) fun error t' hend => ?_
  · obtain ⟨⟨_, l, t'', hwrote, rfl⟩, honce, ⟨_, k, t₃, hinserted, heq⟩, -, -⟩ := hend
    refine h.wrote (by decide) hw hwrote (hschema ▸ honce) fun hnew => ⟨?_, ?_⟩
    · rw [hwrote.beside.pending, hinserted.free]
    · exact heq ▸ h.whole_of_inserted (by decide) hw hnew hinserted
  · obtain ⟨-, honce, hfailed, hframe, hstopped⟩ := hend
    obtain ⟨l, hjournal, -⟩ := honce.journal
    refine ⟨h.steady.sameFrame hframe, fun x hnew => ?_⟩
    by_cases hne : x = e
    · subst hne
      exact h.fate_of_stopped hw hnew (hstopped hnew)
    · rcases hfailed with rfl | ⟨key', k, l', hinserting, -⟩
      · exact h.fate hw hnew
      · exact h.fate_of_ne hw hjournal hinserting.beside (fun _ hy => hinserting.received hy) hkeyed
          hnew hne

/-- Updating rows keeps this, and where it fails, it decides. -/
theorem Fates.ends_updateRows (h : Fates ses.catalog w ((e, .updating) :: trail) t)
    (hw : w.graph.WellFormed ses.catalog) :
    (updateRows ses e).Ends t (fun _ => Fates ses.catalog w ((e, .following) :: trail))
      (fun _ => Decided ses.catalog w) := by
  have hwf := h.steady.wellFormed
  have hschema := h.steady.shape.schema e
  obtain ⟨key, hkey⟩ := Option.isSome_iff_exists.1 (h.updating e List.mem_cons_self)
  have hold : ¬w.graph.New e := fun hnew => h.inserting e hnew List.mem_cons_self
  have hunchanged : (updateRows ses e).Ends t (fun _ _ => True)
      (fun _ t' => t'.world.graph = t.world.graph) :=
    Save.ends_updateRows (fun _ _ => rfl) (fun _ _ => trivial) fun _ _ _ _ _ _ _ _ =>
      ends_updateTables (fun _ _ => trivial) fun _ _ _ _ hsent => hsent.graph
  refine ((wroteRows_updateRows hwf hkey).and ((wroteOnce_updateRows hwf).and hunchanged)).mono
    (fun _ t' hend => ?_) fun error t' hend => ?_
  · obtain ⟨⟨_, l, t'', hwrote, rfl⟩, honce, -⟩ := hend
    exact h.wrote (by decide) hw hwrote (hschema ▸ honce)
      fun hnew => absurd hnew hold
  · obtain ⟨-, honce, hgraph⟩ := hend
    obtain ⟨l, hjournal, -⟩ := honce.journal
    have hbeside : t.world.graph.Beside e key t'.world.graph := hgraph ▸ .refl e key t.world.graph
    have hreceived : ∀ y, t.world.graph.Received t'.world.graph y := fun _ => .of_eq (by rw [hgraph])
    have hkeyed : (w.graph.entity e).schema.primaryKey.isSome := hschema ▸ hkey ▸ rfl
    refine ⟨hgraph ▸ h.steady, fun x hnew => ?_⟩
    refine h.fate_of_ne hw hjournal hbeside (fun y _ => hreceived y) hkeyed hnew ?_
    rintro rfl
    exact hold hnew

/-- Each new entity meets its fate, and is not passed over. -/
theorem fates_rules (ses : Session) (bound : Nat) (hw : w.graph.WellFormed ses.catalog) :
    Events ses w.graph bound (fun x => ¬w.graph.New x) (Fates ses.catalog w)
      (fun _ => Decided ses.catalog w) where
  fail _ _ _ h _ := h.decided hw
  exhausted _ _ h _ := h.decided hw
  skip trail t x h _ hstored hnone hnew := by
    by_cases hwritten : Written trail t x
    · have hkey := (h.whole x hnew hwritten).2.key?
      rw [hnone] at hkey
      cases hkey
    · rw [(h.new hw hnew hwritten).stored] at hstored
      cases hstored
  enter _ _ _ _ h hentered hlt hadmits := h.enter hw hentered hlt hadmits
  insert _ _ _ h _ := h.ends_insertRows hw
  update _ _ _ h _ _ := h.ends_updateRows hw
  leave _ _ _ h hmem _ := h.leave hmem

end Save

namespace Call

variable {σ : Type} [Connection σ] {ses : Session} {e : EntityId} {w w' : World σ}

/-- A call decides the fate of new entities, and inserts its own one where it succeeds. -/
theorem ends_fates (call : Call) (hw : w.graph.WellFormed ses.catalog) :
    (call.traverse ses e (depthBound w.graph)).Ends { world := w }
      (fun _ t => Decided ses.catalog w t ∧ (call ≠ .update → w.graph.New e → Whole w.graph w t e))
      (fun _ t => Decided ses.catalog w t) := by
  have hstart : Fates ses.catalog w [] { world := w } := .start hw
  refine (call.ends_events (fates_rules ses _ hw) (fun _ _ _ _ => ?_) hstart ⟨.refl _, hw⟩).mono
    (fun _ t ht => ?_) fun _ _ hE => hE
  · exact ⟨⟨.refl _, hw⟩, fun x hnew => .inl ⟨hnew, hnew.kept fun _ _ => .of_eq rfl, [],
      List.nil_prefix⟩⟩
  · refine ⟨ht.1.holds.decided hw, fun hwrites hnew => ?_⟩
    have hentered : e ∈ t.entered := by
      refine (ht.2 ?_).resolve_right fun hold => hold hnew
      cases call with
      | save => exact .inl hnew.stored
      | insert => exact hnew.stored
      | update => exact absurd rfl hwrites
    exact (ht.1.holds.whole e hnew ⟨hentered, fun _ hmem => absurd hmem List.not_mem_nil⟩).2

/-- Where a call that is to write a new entity succeeds, the entity has been inserted as a whole. -/
theorem whole_of_ok (call : Call) (hw : w.graph.WellFormed ses.catalog) (hwrites : call ≠ .update)
    (hnew : w.graph.New e) (h : call.run ses e w = .ok () w') :
    Whole w.graph w (call.trace ses e w) e :=
  ((call.ends_fates hw).of_ok (traverse_of_run h).1).2 hwrites hnew

/-- **What a failed insert leaves.** When a call fails, a new entity is new again and has the values that
it had, and at most its first insert was sent; then a later call that succeeds inserts it as a whole, and
none of its values gets lost. Otherwise it has taken over a key, or it has been inserted as a whole
before the call failed. -/
theorem retriable_of_error (call : Call) (hbuilt : w.graph.Built ses.catalog) (hnew : w.graph.New e)
    {error : Error} (h : call.run ses e w = .error error w') :
    (Retriable w (call.trace ses e w) e ∧
      ∀ (ses' : Session) (retry : Call) (w₁ w₂ : World σ), ses'.catalog = ses.catalog →
        retry ≠ .update → w₁.graph = w'.graph → retry.run ses' e w₁ = .ok () w₂ →
          Whole w.graph w₁ (retry.trace ses' e w₁) e) ∨
    Stranded w (call.trace ses e w) e ∨ Whole w.graph w (call.trace ses e w) e := by
  have hw := hbuilt.wellFormed
  obtain ⟨htraverse, rfl⟩ := traverse_of_error h
  obtain ⟨hsteady, hfate⟩ := (call.ends_fates hw).of_error htraverse
  refine (hfate e hnew).imp_left fun hretriable => ⟨hretriable, ?_⟩
  intro ses' retry w₁ w₂ hcatalog hwrites hgraph hrun
  have hwhole := retry.whole_of_ok (hcatalog ▸ hgraph ▸ hsteady.wellFormed) hwrites
    (hgraph ▸ hretriable.new) hrun
  exact hwhole.of_kept hw (hgraph ▸ hsteady.shape) (hgraph ▸ hretriable.kept)

end Call

namespace Shop

/-- A database that refuses the first row of a parcel. -/
def refused : World Script where
  graph := parcel
  wire := { link := { dialect := .mysql, keys := [.error "down"] } }

/-- What a save leaves then, with a database that goes on. -/
def resumed : World Script where
  graph := ((Call.save.run { catalog := parcels } ⟨0⟩).final refused).graph
  wire := { link := { dialect := .mysql, keys := [.ok (some (.int 1)), .ok (some (.int 2))] } }

end Shop

namespace Call

/-- When the first row of a parcel was refused, saving the parcel again inserts all of it. -/
theorem retriable_of_error_parcel :
    let ses : Session := { catalog := Shop.parcels }
    (∃ error w, save.run ses ⟨0⟩ Shop.refused = .error error w) ∧
      (save.run ses ⟨0⟩).succeeds Shop.resumed = true ∧
      Whole Shop.parcel Shop.resumed (save.trace ses ⟨0⟩ Shop.resumed) ⟨0⟩ := by
  intro ses
  have hbuilt : Shop.parcel.Built Shop.parcels := .runAll _ .empty
  have hnew : Shop.parcel.New ⟨0⟩ :=
    ⟨by decide, by decide, Shop.key, by decide, by decide⟩
  obtain ⟨error, herror⟩ : ∃ error, (save.run ses ⟨0⟩).failure? Shop.refused = some error :=
    Option.isSome_iff_exists.1 (by decide)
  have hrun := Act.eq_error_of_failure? herror
  have hresumed : (save.run ses ⟨0⟩).succeeds Shop.resumed = true := by decide
  obtain ⟨_, w₂, hresumed'⟩ := Act.exists_of_succeeds hresumed
  refine ⟨⟨error, _, hrun⟩, hresumed, ?_⟩
  obtain ⟨-, hretry⟩ | hstranded | hwhole :=
    retriable_of_error (w := Shop.refused) save hbuilt hnew hrun
  · exact hretry ses save _ w₂ rfl (by decide) rfl hresumed'
  · -- the parcel has no key
    obtain ⟨_, k, _, _, -, hk, -⟩ := hstranded.sent
    have hnone : (save.trace ses ⟨0⟩ Shop.refused).world.graph.key? ⟨0⟩ = none := by decide
    rw [hnone] at hk
    cases hk
  · have hstored : ((save.trace ses ⟨0⟩ Shop.refused).world.graph.entity ⟨0⟩).stored = false := by
      decide
    exact absurd hwhole.stored (by rw [hstored]; decide)

/-- When the second row of a parcel was refused, the parcel keeps the key of the first one. Saving it
again updates rows, of which one does not exist, and the parcel counts as stored with all of its values. -/
theorem strands_parcel :
    let ses : Session := { catalog := Shop.parcels }
    let w := (save.run ses ⟨0⟩).final Shop.interrupted
    let w' := (save.run ses ⟨0⟩).final w
    Shop.parcel.Built Shop.parcels ∧ Shop.interrupted.graph.New ⟨0⟩ ∧
      (save.run ses ⟨0⟩).succeeds Shop.interrupted = false ∧
      (w.graph.entity ⟨0⟩).stored = false ∧ w.graph.key? ⟨0⟩ = some (.int 1) ∧
      (save.run ses ⟨0⟩).succeeds w = true ∧
      w'.wire.sent.map (Statement.text .mysql) =
        ["INSERT INTO `Parcel` (`weight`) VALUES ('5')",
          "INSERT INTO `Label` (`id`, `label`) VALUES ('1', 'fragile')",
          "UPDATE `Parcel` SET `weight` = '5' WHERE `id` = '1'",
          "UPDATE `Label` SET `label` = 'fragile' WHERE `id` = '1'"] ∧
      w'.graph.isPersistent ⟨0⟩ = true := by
  intro ses w w'
  have hnew : Shop.interrupted.graph.New ⟨0⟩ :=
    ⟨by decide, by decide, Shop.key, by decide, by decide⟩
  exact ⟨.runAll _ .empty, hnew, by decide, by decide, by decide,
    by decide, by decide, by decide⟩

end Call

end EntityGraph
