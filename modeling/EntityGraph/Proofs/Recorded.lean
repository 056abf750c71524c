import EntityGraph.Connection.Script
import EntityGraph.Proofs.Ledger

/-!
# Values come to agree with storage by being written

A value that storage does not have comes to count as stored when the entity that it belongs to has been
written. By then exactly one statement for the entity has written into the cell of the value, what it
has written there is the value, and it was executed. If a statement for an entity is refused, the
entity keeps its flags: storage has none of its values for sure, the generated key apart.

A statement for an entity concerns the row of its key, with one exception. An insert that fails after
the database has made the key leaves an entity that storage does not have with a key that counts as
stored. Inserting it again sends a row without the key, and the key that the database makes for that
row is ignored.

## Main results

* `recording_rules`: what a save keeps of what it has written, from event to event.
* `Call.recorded_of_clean`: what has come to count as stored has been written once, under the key of its
  entity unless that was stale, and a refused statement leaves the flags of its entity as they were.
* `Call.insert_ignores_key`: an insert that is repeated after a failure writes rows of two keys.
-/

namespace EntityGraph

open Save Traversal

namespace Save

variable {σ : Type} [Connection σ] {ses : Session} {c : Catalog} {e x : EntityId} {phase : Phase}
  {trail : Trail} {w : World σ} {t t' : Traversal EntityId σ} {l : List Statement} {key a : Atomic}
  {v k : Value} {o : Outcome EntityId}

/-! ### What a save keeps -/

/-- A value of an entity or of one of its parts has been written: one statement for the entity was sent
that writes into the cell of the value, it was executed and has written the value, and it concerns the
row of the entity's key, unless that was stale. -/
structure Recorded (w : World σ) (t : Traversal EntityId σ) (e : EntityId) (o : Outcome EntityId)
    (a : Atomic) (v : Value) : Prop where
  only : (ledger w t).filter (·.touches e ((w.graph.entity e).schema.cell a)) = [o]
  executed : o.Executed
  writes : o.statement.Writes ((w.graph.entity e).schema.cell a) v
  addressed : ∃ key k, (w.graph.entity e).schema.primaryKey = some key ∧
    t.world.graph.key? e = some k ∧
    (¬w.graph.Stale e → o.Addresses (w.graph.entity e).schema key k)

/-- The flags of an entity and of its parts are as they were, that of the key apart. -/
structure Intact (g g' : Graph) (e : EntityId) : Prop where
  stored : (g'.entity e).stored = (g.entity e).stored
  dirty : ∀ x ∈ g.parts e, ∀ a ∈ (g.entity x).schema.atomics, a.primaryKey = false →
    ∀ v, g.slot x a.name = some (.dirty v) → ∃ u, g'.slot x a.name = some (.dirty u)

/-- All values that have come to count as stored have been written, and entities for which a statement
was refused are intact. -/
structure Accounted (w : World σ) (t : Traversal EntityId σ) : Prop where
  recorded : ∀ x, ∀ a ∈ (w.graph.entity x).schema.atomics, a.primaryKey = false →
    ∀ v, t.world.graph.slot x a.name = some (.loaded v) → w.graph.slot x a.name ≠ some (.loaded v) →
      ∃ e o, x ∈ w.graph.parts e ∧ Recorded w t e o a v
  intact : ∀ o ∈ ledger w t, ¬o.Executed → Intact w.graph t.world.graph o.owner

/-- What is known of an entity whose rows have been written. -/
structure Done (w : World σ) (t : Traversal EntityId σ) (e : EntityId) (key : Atomic) : Prop where
  free : (t.world.graph.entity e).pending = []
  addressed : ∀ o ∈ ledger w t, o.owner = e → ∃ k, t.world.graph.key? e = some k ∧
    (¬w.graph.Stale e → o.Addresses (w.graph.entity e).schema key k)
  recorded : ∀ x ∈ w.graph.parts e, ∀ a ∈ (w.graph.entity x).schema.atomics, a.primaryKey = false →
    ∀ v, t.world.graph.slot x a.name = some (.loaded v) → w.graph.slot x a.name ≠ some (.loaded v) →
      ∃ o, (ledger w t).filter (·.touches e ((w.graph.entity e).schema.cell a)) = [o] ∧
        o.statement.Writes ((w.graph.entity e).schema.cell a) v

/-- What a save keeps: all statements so far were executed, those for entities whose rows have been
written have recorded their values, and the other entities are unmarked. -/
structure Recording (w : World σ) (trail : Trail) (t : Traversal EntityId σ) : Prop where
  link : t.world.wire.link = replay w.wire.link t.journal
  executed : ∀ o ∈ ledger w t, o.Executed
  entered : ∀ p ∈ trail, p.1 ∈ t.entered
  nodup : (trail.map (·.1)).Nodup
  inserting : ∀ x, (x, .inserting) ∈ trail → (w.graph.entity x).schema.primaryKey.isSome →
    (w.graph.entity x).stored = false
  updating : ∀ x, (x, .updating) ∈ trail → (t.world.graph.entity x).schema.primaryKey.isSome
  unsent : ∀ x, ¬Written trail t x → ∀ o ∈ ledger w t, o.owner ≠ x
  unmarked : ∀ x, (∀ e, x ∈ w.graph.parts e → (w.graph.entity e).schema.primaryKey.isSome →
    ¬Written trail t e) → w.graph.Unmarked t.world.graph x
  done : ∀ e key, (w.graph.entity e).schema.primaryKey = some key → Written trail t e → Done w t e key

/-- An entity that has been written stays so while others are. -/
theorem Done.congr {d : EntityId} {dkey : Atomic} (h : Done w t d dkey)
    (hlink : t.world.wire.link = replay w.wire.link t.journal)
    (hjournal : t'.journal = t.journal ++ l.map (e, ·)) (hne : e ≠ d)
    (heq : ∀ x ∈ w.graph.parts d, t'.world.graph.entity x = t.world.graph.entity x) :
    Done w t' d dkey := by
  have hd := heq d (Graph.mem_parts_self _ _)
  have hledger := ledger_append hlink hjournal
  have hkey : t'.world.graph.key? d = t.world.graph.key? d := by
    unfold Graph.key?
    rw [hd]
  refine ⟨hd ▸ h.free, fun o ho howner => ?_, fun x hx a ha hpk v hslot hstart => ?_⟩
  · rw [hledger] at ho
    rcases List.mem_append.1 ho with ho | ho
    · exact hkey ▸ h.addressed o ho howner
    · exact absurd ((owner_of_mem_outcomes ho).1.symm.trans howner) hne
  · have hslot' : t.world.graph.slot x a.name = some (.loaded v) := by
      unfold Graph.slot at hslot ⊢
      rw [← heq x hx]
      exact hslot
    rw [hledger, List.filter_append, filter_touches_of_ne hne, List.append_nil]
    exact h.recorded x hx a ha hpk v hslot' hstart

/-- What has been recorded of an entity whose statements were all executed. -/
theorem Done.exists_recorded (h : Done w t e key)
    (hkey : (w.graph.entity e).schema.primaryKey = some key)
    (hall : ∀ o ∈ ledger w t, o.owner = e → o.Executed) (hx : x ∈ w.graph.parts e)
    (ha : a ∈ (w.graph.entity x).schema.atomics) (hpk : a.primaryKey = false)
    (hslot : t.world.graph.slot x a.name = some (.loaded v))
    (hstart : w.graph.slot x a.name ≠ some (.loaded v)) : ∃ o, Recorded w t e o a v := by
  obtain ⟨o, ho, hwrites⟩ := h.recorded x hx a ha hpk v hslot hstart
  obtain ⟨hmem, htouches⟩ := List.mem_filter.1 (ho ▸ List.mem_singleton_self o)
  have howner : o.owner = e := by
    rw [Outcome.touches, Bool.and_eq_true, beq_iff_eq] at htouches
    exact htouches.1
  obtain ⟨k, hk, haddressed⟩ := h.addressed o hmem howner
  exact ⟨o, ho, hall o hmem howner, hwrites, key, k, hkey, hk, haddressed⟩

/-- While a save is under way, all is accounted for. -/
theorem Recording.accounted (h : Recording w trail t) : Accounted w t := by
  refine ⟨fun x a ha hpk v hslot hstart => ?_, fun o ho hrefused => absurd (h.executed o ho) hrefused⟩
  by_cases hdone : ∃ e key, x ∈ w.graph.parts e ∧ (w.graph.entity e).schema.primaryKey = some key ∧
      Written trail t e
  · obtain ⟨e, key, hx, hkey, hwritten⟩ := hdone
    obtain ⟨o, ho⟩ := (h.done e key hkey hwritten).exists_recorded hkey (fun o ho _ => h.executed o ho)
      hx ha hpk hslot hstart
    exact ⟨e, o, hx, ho⟩
  · have hunmarked : w.graph.Unmarked t.world.graph x := by
      refine h.unmarked x fun e hx hkey hwritten => hdone ?_
      obtain ⟨key, hkey⟩ := Option.isSome_iff_exists.1 hkey
      exact ⟨e, key, hx, hkey, hwritten⟩
    exact absurd (hunmarked.eq_of_loaded hslot) hstart

/-! ### Writing the rows of an entity -/

section writing

variable (hw : w.graph.WellFormed c) (hc : c.Plain) (hsteady : Steady c w.graph t.world.graph)
  (hkey : (w.graph.entity e).schema.primaryKey = some key)

include hw hc hsteady hkey

/-- The parts of other entities that have been written stay as they are. -/
theorem Recording.entity_of_part {d : EntityId} {dkey : Atomic} (h : Recording w trail t)
    (hbeside : t.world.graph.Beside e key t'.world.graph)
    (hdkey : (w.graph.entity d).schema.primaryKey = some dkey) (hwritten : Written trail t d)
    (hne : e ≠ d) (hx : x ∈ w.graph.parts d) :
    x ∉ w.graph.parts e ∧ t'.world.graph.entity x = t.world.graph.entity x := by
  have hpart : x ∉ w.graph.parts e := by
    intro hxe
    exact hne (hw.eq_of_mem_parts hxe hx (hkey ▸ rfl) (hdkey ▸ rfl))
  refine ⟨hpart, hbeside.entity_of_part hsteady.wellFormed hc (h.done d dkey hdkey hwritten).free
    (hsteady.shape.parts_eq d ▸ hx) ?_⟩
  rintro rfl
  exact hpart (Graph.mem_parts_self _ _)

omit [Connection σ] in
/-- The slots of an entity that waits for nothing, and of its parts, stay as they are when the entity
takes over a key, that of the key apart. -/
theorem slot_eq_of_part (hbeside : t.world.graph.Beside e key t'.world.graph)
    (hfree : (t.world.graph.entity e).pending = []) (hx : x ∈ w.graph.parts e)
    (ha : a ∈ (w.graph.entity x).schema.atomics) (hpk : a.primaryKey = false) :
    t'.world.graph.slot x a.name = t.world.graph.slot x a.name := by
  by_cases hxe : x = e
  · subst hxe
    exact hbeside.slot a.name (hw.ne_keyName hkey ha hpk)
  · unfold Graph.slot
    rw [hbeside.entity_of_part hsteady.wellFormed hc hfree (hsteady.shape.parts_eq e ▸ hx) hxe]

omit hc hsteady in
/-- Before the rows of an entity have been written, its parts are unmarked. -/
theorem Recording.unmarked_of_part (h : Recording w ((e, phase) :: trail) t)
    (hphase : phase ≠ .following) (hx : x ∈ w.graph.parts e) :
    w.graph.Unmarked t.world.graph x := by
  refine h.unmarked x fun d hxd hdkey hwritten => ?_
  obtain rfl := hw.eq_of_mem_parts hx hxd (hkey ▸ rfl) hdkey
  exact not_written hphase hwritten

/-- When writing the rows of an entity fails, all is accounted for. -/
theorem Recording.failed (h : Recording w ((e, phase) :: trail) t) (hphase : phase ≠ .following)
    (hjournal : t'.journal = t.journal ++ l.map (e, ·))
    (hbeside : t.world.graph.Beside e key t'.world.graph) : Accounted w t' := by
  have hledger := ledger_append h.link hjournal
  refine ⟨fun x a ha hpk v hslot hstart => ?_, fun o ho hrefused => ?_⟩
  · by_cases hdone : ∃ d dkey, x ∈ w.graph.parts d ∧
        (w.graph.entity d).schema.primaryKey = some dkey ∧ Written ((e, phase) :: trail) t d
    · obtain ⟨d, dkey, hx, hdkey, hwritten⟩ := hdone
      have hne : e ≠ d := by
        rintro rfl
        exact not_written hphase hwritten
      have hdone := (h.done d dkey hdkey hwritten).congr h.link hjournal hne fun y hy =>
        (h.entity_of_part hw hc hsteady hkey hbeside hdkey hwritten hne hy).2
      have hall : ∀ o ∈ ledger w t', o.owner = d → o.Executed := by
        intro o ho howner
        rw [hledger] at ho
        rcases List.mem_append.1 ho with ho | ho
        · exact h.executed o ho
        · exact absurd ((owner_of_mem_outcomes ho).1.symm.trans howner) hne
      obtain ⟨o, ho⟩ := hdone.exists_recorded hdkey hall hx ha hpk hslot hstart
      exact ⟨d, o, hx, ho⟩
    · have hunmarked : w.graph.Unmarked t.world.graph x := by
        refine h.unmarked x fun d hx hdkey hwritten => hdone ?_
        obtain ⟨dkey, hdkey⟩ := Option.isSome_iff_exists.1 hdkey
        exact ⟨d, dkey, hx, hdkey, hwritten⟩
      have hslot' : t.world.graph.slot x a.name = some (.loaded v) := by
        by_cases hxe : x = e
        · subst hxe
          exact hbeside.slot a.name (hw.ne_keyName hkey ha hpk) ▸ hslot
        · exact (hbeside.unmarked x hxe).eq_of_loaded hslot
      exact absurd (hunmarked.eq_of_loaded hslot') hstart
  · rw [hledger] at ho
    have howner : o.owner = e := by
      rcases List.mem_append.1 ho with ho | ho
      · exact absurd (h.executed o ho) hrefused
      · exact (owner_of_mem_outcomes ho).1
    rw [howner]
    have hown := h.unmarked_of_part hw hkey hphase (Graph.mem_parts_self _ _)
    refine ⟨hbeside.stored.trans hown.stored, fun x hx a ha hpk v hslot => ?_⟩
    obtain ⟨u, hu⟩ := (h.unmarked_of_part hw hkey hphase hx).dirty hslot
    by_cases hxe : x = e
    · subst hxe
      exact ⟨u, (hbeside.slot a.name (hw.ne_keyName hkey ha hpk)).trans hu⟩
    · exact (hbeside.unmarked x hxe).dirty hu

omit [Connection σ] hw hc in
/-- Marks reach the parts of an entity. -/
theorem entity_marked_eq (hbeside : t.world.graph.Beside e key t'.world.graph)
    (hwf' : t'.world.graph.WellFormed c) (x : EntityId) :
    (marked e t').world.graph.entity x =
      if x ∈ w.graph.parts e then (t'.world.graph.entity x).persist else t'.world.graph.entity x := by
  have hshape := hsteady.shape.trans hbeside.shape
  have hlt : e.index < t'.world.graph.entities.length :=
    hshape.length ▸ Graph.index_lt_of_primaryKey hkey
  rw [marked, Graph.entity_marked hwf' hlt, hshape.parts_eq]

section wrote

variable (h : Recording w ((e, phase) :: trail) t) (hphase : phase ≠ .following)
  (hwf' : t'.world.graph.WellFormed c) (hran : Ran e l t t')
  (hbeside : t.world.graph.Beside e key t'.world.graph)
  (hfree : (t.world.graph.entity e).pending = [])
  (haddressed : ∀ o ∈ outcomes t.world.wire.link (l.map (e, ·)),
    ∃ k, t'.world.graph.key? e = some k ∧
      (¬w.graph.Stale e → o.Addresses (w.graph.entity e).schema key k))
  (honce : ∀ a v, (a, v) ∈ t.world.graph.dirtyAtomics e → a.primaryKey = false →
    ∃ y, l.filter (·.touches ((w.graph.entity e).schema.cell a)) = [y] ∧
      y.Writes ((w.graph.entity e).schema.cell a) v)

include h hphase hwf' hran hbeside hfree haddressed honce

/-- Once the rows of an entity have been written, each value with one statement, its values are
recorded. -/
theorem Recording.done_self : Done w (marked e t') e key := by
  have hmarked := entity_marked_eq hsteady hkey hbeside hwf'
  have hledger : ledger w (marked e t') =
      ledger w t ++ outcomes t.world.wire.link (l.map (e, ·)) := ledger_append h.link hran.journal
  refine ⟨?_, fun o ho howner => ?_, fun x hx a ha hpk v hslot hstart => ?_⟩
  · rw [hmarked, if_pos (Graph.mem_parts_self _ _)]
    exact hbeside.pending.trans hfree
  · have hkeys : (marked e t').world.graph.key? e = t'.world.graph.key? e := by
      unfold Graph.key?
      rw [hmarked, if_pos (Graph.mem_parts_self _ _), Entity.key?_persist]
    rw [hledger] at ho
    rcases List.mem_append.1 ho with ho | ho
    · exact absurd howner (h.unsent e (not_written hphase) o ho)
    · exact hkeys ▸ haddressed o ho
  · -- the value was there when the statements were built
    have hslot' : ∃ clean, t.world.graph.slot x a.name = some ⟨v, clean⟩ := by
      rw [Graph.slot, hmarked, if_pos hx, Entity.atomics_persist, Option.map_eq_some_iff] at hslot
      obtain ⟨slot, hslot, heq⟩ := hslot
      have hvalue : slot.value = v := congrArg Slot.value heq
      refine ⟨slot.clean, ?_⟩
      rw [← slot_eq_of_part hw hc hsteady hkey hbeside hfree hx ha hpk, ← hvalue]
      exact hslot
    obtain ⟨clean, hslot'⟩ := hslot'
    cases clean with
    | true => exact absurd ((h.unmarked_of_part hw hkey hphase hx).eq_of_loaded hslot') hstart
    | false =>
      have hmem : (a, v) ∈ t.world.graph.dirtyAtomics e := by
        refine List.mem_flatMap.2 ⟨x, ?_, Graph.mem_dirtyAtomics_iff.2 ⟨?_, hslot'⟩⟩
        · rw [hsteady.shape.parts_eq]
          exact hx
        · rw [hsteady.shape.schema]
          exact ha
      obtain ⟨y, hy, hwrites⟩ := honce a v hmem hpk
      obtain ⟨o, ho, rfl⟩ := filter_touches_self (e := e) t.world.wire.link hy
      have hnone : (ledger w t).filter (·.touches e ((w.graph.entity e).schema.cell a)) = [] := by
        refine List.filter_eq_nil_iff.2 fun o ho htouches => ?_
        rw [Outcome.touches, Bool.and_eq_true, beq_iff_eq] at htouches
        exact h.unsent e (not_written hphase) o ho htouches.1
      refine ⟨o, ?_, hwrites⟩
      rw [hledger, List.filter_append, hnone, ho, List.nil_append]

/-- Once the rows of an entity have been written and the entity is marked, it counts as written, and
the other entities are as they were. -/
theorem Recording.wrote : Recording w ((e, .following) :: trail) (marked e t') := by
  have hmarked := entity_marked_eq hsteady hkey hbeside hwf'
  have hledger : ledger w (marked e t') =
      ledger w t ++ outcomes t.world.wire.link (l.map (e, ·)) := ledger_append h.link hran.journal
  have hwritten : ∀ {x}, x ≠ e →
      (Written ((e, .following) :: trail) (marked e t') x ↔ Written ((e, phase) :: trail) t x) :=
    fun hne => written_following_iff hne hran.entered
  have hself : Written ((e, .following) :: trail) (marked e t') e := by
    refine written_self ?_ h.nodup
    show e ∈ t'.entered
    rw [hran.entered]
    exact h.entered _ List.mem_cons_self
  refine ⟨?_, fun o ho => ?_, fun p hp => ?_, h.nodup, fun x hx => ?_, fun x hx => ?_,
    fun x hx o ho => ?_, fun x hx => ?_, fun d dkey hdkey hd => ?_⟩
  · show t'.world.wire.link = replay w.wire.link t'.journal
    rw [hran.link, hran.journal, replay_append, h.link]
  · rw [hledger] at ho
    exact (List.mem_append.1 ho).elim (h.executed o) (hran.all o)
  · show p.1 ∈ t'.entered
    rw [hran.entered]
    rcases List.mem_cons.1 hp with rfl | hp
    · exact h.entered (e, phase) List.mem_cons_self
    · exact h.entered p (List.mem_cons_of_mem _ hp)
  · have hx : (x, Phase.inserting) ∈ trail := by simpa using hx
    exact h.inserting x (List.mem_cons_of_mem _ hx)
  · have hx : (x, Phase.updating) ∈ trail := by simpa using hx
    have hschema : ((marked e t').world.graph.entity x).schema = (t.world.graph.entity x).schema := by
      rw [hmarked, ← hbeside.shape.schema]
      split <;> rfl
    exact hschema ▸ h.updating x (List.mem_cons_of_mem _ hx)
  · have hne : x ≠ e := by
      rintro rfl
      exact hx hself
    rw [hledger] at ho
    rcases List.mem_append.1 ho with ho | ho
    · exact h.unsent x (fun hold => hx ((hwritten hne).2 hold)) o ho
    · exact fun howner => hne (howner.symm.trans (owner_of_mem_outcomes ho).1)
  · have hpart : x ∉ w.graph.parts e := fun hmem => hx e hmem (hkey ▸ rfl) hself
    have hne : x ≠ e := by
      rintro rfl
      exact hpart (Graph.mem_parts_self _ _)
    have hbefore := h.unmarked x fun d hxd hdkey hold => by
      have hde : d ≠ e := by
        rintro rfl
        exact hpart hxd
      exact hx d hxd hdkey ((hwritten hde).2 hold)
    refine (hbefore.trans (hbeside.unmarked x hne)).trans (.of_eq ?_)
    rw [hmarked, if_neg hpart]
  · by_cases hde : d = e
    · subst hde
      obtain rfl := Option.some.inj (hdkey.symm.trans hkey)
      exact h.done_self hw hc hsteady hkey hphase hwf' hran hbeside hfree haddressed honce
    · have hold := (hwritten hde).1 hd
      refine (h.done d dkey hdkey hold).congr h.link hran.journal (Ne.symm hde) fun x hx => ?_
      obtain ⟨hpart, heq⟩ := h.entity_of_part hw hc hsteady hkey hbeside hdkey hold (Ne.symm hde) hx
      rw [hmarked, if_neg hpart, heq]

end wrote

end writing

/-! ### The statements of an entity -/

section statements

variable {g : Graph} {s : Schema} (hwf : g.WellFormed c) (hs : (g.entity e).schema = s)
  (hstorable : s.Storable key)

include hwf hs hstorable

/-- One insert writes into the cell of a value that an entity has to write. -/
theorem filter_inserts_of_mem (hmem : key ∈ s.atomics) (ha : (a, v) ∈ g.dirtyAtomics e) :
    ∃ y, (inserts s (g.dirtyAtomics e) key k).filter (·.touches (s.cell a)) = [y] ∧
      y.Writes (s.cell a) v := by
  have hdeep : a ∈ s.deepAtomics :=
    (Graph.dirtyAtomics_sublist hwf hs).subset (List.mem_map_of_mem (f := Prod.fst) ha)
  exact filter_inserts (sole_of_mem hwf hs hstorable.cells ha) (hstorable.declared a hdeep)
    (hstorable.key_table hmem).2 (hstorable.keyColumn a hdeep)

/-- One update writes into the cell of such a value, unless it is a key. -/
theorem filter_updates_of_mem (ha : (a, v) ∈ g.dirtyAtomics e) (hpk : a.primaryKey = false) :
    ∃ y, ((updates key k (columnsByTable s (changes g e))).map Statement.update).filter
      (·.touches (s.cell a)) = [y] ∧ y.Writes (s.cell a) v := by
  have hdeep : a ∈ s.deepAtomics :=
    (Graph.dirtyAtomics_sublist hwf hs).subset (List.mem_map_of_mem (f := Prod.fst) ha)
  exact filter_updates ((sole_of_mem hwf hs hstorable.cells ha).changes hpk)
    (hstorable.declared a hdeep)

/-- A key that storage does not have is written into the primary table. -/
theorem writes_firstInsert (hmem : key ∈ s.atomics) (hslot : g.slot e key.name = some (.dirty k)) :
    (firstInsert s (g.dirtyAtomics e)).Writes (s.table, key.column) k := by
  subst hs
  have hkey : (key, k) ∈ g.dirtyAtomics e :=
    List.mem_flatMap.2 ⟨e, Graph.mem_parts_self g e, Graph.mem_dirtyAtomics_iff.2 ⟨hmem, hslot⟩⟩
  have hlookup := (sole_of_mem hwf rfl hstorable.cells hkey).lookup rfl
  rw [(hstorable.key_table hmem).1] at hlookup
  exact Statement.writes_single_iff.2 ⟨rfl, hlookup⟩

/-- An entity without a key has no key written into the primary table. -/
theorem eq_null_of_writes_firstInsert (hkey : s.primaryKey = some key) (hmem : key ∈ s.atomics)
    (hnone : g.key? e = none)
    (hwrites : (firstInsert s (g.dirtyAtomics e)).Writes (s.table, key.column) v) : v = .null := by
  have hsole := sole_dirtyAtomics hwf hs hstorable.cells hmem
  have htable := (hstorable.key_table hmem).1
  obtain ⟨-, hlookup⟩ := Statement.writes_single_iff.1 hwrites
  have hslot : g.slot e key.name = some (.dirty v) := by
    refine hsole.of_lookup (.inl rfl) ?_
    rw [htable]
    exact hlookup
  rw [Graph.key?_eq (hs ▸ hkey), hslot] at hnone
  simpa [Slot.dirty] using hnone

end statements

/-- Inserts into the other tables are given the key. -/
theorem addresses_rest {s : Schema} {values : List (Atomic × Value)}
    (h : o.statement ∈ (restColumns s values).map fun x => .insert (restInsert key k x)) :
    o.Addresses s key k := by
  obtain ⟨x, -, hx⟩ := List.mem_map.1 h
  refine .given (restInsert key k x) hx.symm ?_
  rw [← hx]
  exact Statement.writes_single_iff.2 ⟨rfl, by simp⟩

/-! ### The events of a save -/

section rules

variable (hw : w.graph.WellFormed ses.catalog) (hc : ses.catalog.Plain)
  (hstorable : ∀ e key, (w.graph.entity e).schema.primaryKey = some key →
    (w.graph.entity e).schema.Storable key)

include hw hc hstorable

omit hc hstorable in
/-- The key of an entity that is being inserted is one that storage does not have, unless it was stale
from the start. -/
theorem Recording.slot_key (h : Recording w ((e, .inserting) :: trail) t)
    (hsteady : Steady ses.catalog w.graph t.world.graph)
    (hkey : (t.world.graph.entity e).schema.primaryKey = some key) (hfresh : ¬w.graph.Stale e)
    (hk : t.world.graph.key? e = some k) : t.world.graph.slot e key.name = some (.dirty k) := by
  have hkey' : (w.graph.entity e).schema.primaryKey = some key := hsteady.shape.schema e ▸ hkey
  rw [Graph.key?_eq hkey] at hk
  obtain ⟨slot, hslot, hk⟩ := Option.bind_eq_some_iff.1 hk
  split at hk
  · cases hk
  next hnull =>
  obtain rfl := Option.some.inj hk
  obtain ⟨value, clean⟩ := slot
  cases clean with
  | false => exact hslot
  | true =>
    have hown := h.unmarked_of_part hw hkey' (by decide) (Graph.mem_parts_self _ _)
    refine absurd ⟨h.inserting e List.mem_cons_self (hkey' ▸ rfl), key, value, hkey',
      hown.eq_of_loaded hslot, ?_⟩ hfresh
    rintro rfl
    exact hnull rfl

omit hc in
/-- The first row of an entity that has been inserted is that of its key. -/
theorem Recording.addresses_first (h : Recording w ((e, .inserting) :: trail) t)
    (hsteady : Steady ses.catalog w.graph t.world.graph) (hfresh : ¬w.graph.Stale e)
    (hinserted : Inserted ses.catalog e key k t t') :
    Outcome.Addresses (t.world.graph.entity e).schema key k
      ⟨e, firstInsert (t.world.graph.entity e).schema (t.world.graph.dirtyAtomics e),
        ((firstInsert (t.world.graph.entity e).schema (t.world.graph.dirtyAtomics e)).attempt
          t.world.wire.link).1⟩ := by
  have hwf := hsteady.wellFormed
  have hkey := hinserted.isKey
  have hstore : (t.world.graph.entity e).schema.Storable key := by
    rw [hsteady.shape.schema] at hkey ⊢
    exact hstorable e key hkey
  have hmem := Catalog.mem_of_primaryKey (hwf.schema_of_primaryKey hkey) hkey
  cases hunset : t.world.graph.key? e with
  | none =>
    obtain ⟨v, hanswer, hcoerce⟩ := hinserted.made hunset
    exact .made _ v rfl (fun u hu => eq_null_of_writes_firstInsert hwf rfl hstore hkey hmem hunset hu)
      hanswer hcoerce
  | some k' =>
    have hk : t.world.graph.key? e = some k := by
      rcases hinserted.graph with hsame | ⟨hnone, -⟩
      · exact hsame ▸ hinserted.key?
      · rw [hunset] at hnone
        cases hnone
    exact .given _ rfl (writes_firstInsert hwf rfl hstore hmem (h.slot_key hw hsteady hkey hfresh hk))

/-- Inserting the rows of an entity records its values. -/
theorem recording_insertRows (h : Recording w ((e, .inserting) :: trail) t)
    (hsteady : Steady ses.catalog w.graph t.world.graph) :
    (insertRows ses e).Ends t (fun _ => Recording w ((e, .following) :: trail))
      (fun _ => Accounted w) := by
  have hphase : Phase.inserting ≠ .following := by decide
  have hwf := hsteady.wellFormed
  have hschema := hsteady.shape.schema e
  refine (inserted_insertRows hwf).mono (fun _ t' hdone => ?_) fun _ t' hfailed => ?_
  · obtain ⟨key, k, t'', hinserted, rfl⟩ := hdone
    have hkey : (w.graph.entity e).schema.primaryKey = some key := hschema ▸ hinserted.isKey
    have hstore : (w.graph.entity e).schema.Storable key := hstorable e key hkey
    refine h.wrote hw hc hsteady hkey hphase hinserted.wellFormed hinserted.ran
      hinserted.toInserting.beside hinserted.free (fun o ho => ⟨k, hinserted.key?, fun hfresh => ?_⟩)
      fun a v ha _ => ?_
    · rw [← hschema]
      rcases List.mem_cons.1 ho with rfl | ho
      · exact h.addresses_first hw hstorable hsteady hfresh hinserted
      · exact addresses_rest (owner_of_mem_outcomes ho).2
    · have hmem := Catalog.mem_of_primaryKey (hwf.schema_of_primaryKey hinserted.isKey) hinserted.isKey
      rw [← hschema] at hstore ⊢
      exact filter_inserts_of_mem hwf rfl hstore hmem ha
  · rcases hfailed with rfl | ⟨key, k, l, hinserting, -⟩
    · exact h.accounted
    · exact h.failed hw hc hsteady (hschema ▸ hinserting.isKey) hphase hinserting.journal
        hinserting.beside

/-- Updating the rows of an entity records its values. -/
theorem recording_updateRows (h : Recording w ((e, .updating) :: trail) t)
    (hsteady : Steady ses.catalog w.graph t.world.graph) :
    (updateRows ses e).Ends t (fun _ => Recording w ((e, .following) :: trail))
      (fun _ => Accounted w) := by
  have hphase : Phase.updating ≠ .following := by decide
  have hwf := hsteady.wellFormed
  have hschema := hsteady.shape.schema e
  obtain ⟨key, hkeyt⟩ := Option.isSome_iff_exists.1 (h.updating e List.mem_cons_self)
  have hkey' : (w.graph.entity e).schema.primaryKey = some key := hschema ▸ hkeyt
  have hstore := hstorable e key hkey'
  refine ends_updateRows (fun _ _ => h.accounted) (fun hfree hnone => ?_)
    fun key₀ s k hs hkey hk hfree _ => ?_
  · -- there is nothing to write
    refine h.wrote hw hc hsteady hkey' hphase (l := []) hwf ⟨rfl, by simp, rfl, ?_⟩ (.refl e key _)
      hfree (fun o ho => absurd ho List.not_mem_nil) fun a v ha hpk => ?_
    · exact fun o ho => absurd ho List.not_mem_nil
    · have hmem : (a, v) ∈ changes t.world.graph e := List.mem_filter.2 ⟨ha, by simp [hpk]⟩
      rw [hnone] at hmem
      cases hmem
  · have hs' : (w.graph.entity e).schema = s := hschema.symm.trans hs
    obtain rfl : key = key₀ := Option.some.inj (hkeyt.symm.trans (hs ▸ hkey))
    refine ends_updateTables (fun t' hsent => ?_) fun _ t' l _ hsent => ?_
    · refine h.wrote hw hc hsteady hkey' hphase (hsent.graph ▸ hwf) (.of_executed hsent)
        (hsent.graph ▸ .refl e key _) hfree (fun o ho => ⟨k, hsent.graph ▸ hk, fun _ => ?_⟩)
        fun a v ha hpk => ?_
      · obtain ⟨u, hu, hstatement⟩ := List.mem_map.1 (owner_of_mem_outcomes ho).2
        obtain ⟨x, -, rfl⟩ := List.mem_map.1 (List.mem_of_mem_filter hu)
        exact .selected _ hstatement.symm (conditions_tableUpdate key k x)
      · rw [hs'] at hstore ⊢
        exact filter_updates_of_mem hwf hs hstore ha hpk
    · exact h.failed hw hc hsteady hkey' hphase hsent.journal (hsent.graph ▸ .refl e key _)

/-- The events of a save record the values of the entities that it writes. -/
theorem recording_rules :
    Rules ses w.graph (fun _ => True) (Recording w) (Accounted w) where
  fail _ _ h := h.accounted
  skip _ _ _ _ _ _ _ := trivial
  enter trail t e phase h hnew hadmits := by
    have hphase : phase ≠ .following := by
      rintro rfl
      exact hadmits
    have hwritten : ∀ {x}, Written ((e, phase) :: trail) { t with entered := e :: t.entered } x ↔
        Written trail t x := written_enter_iff hnew hphase
    refine ⟨h.link, h.executed, fun p hp => ?_, ?_, fun x hx hkey => ?_, fun x hx => ?_,
      fun x hx => h.unsent x fun hold => hx (hwritten.2 hold),
      fun x hx => h.unmarked x fun d hd hkey hold => hx d hd hkey (hwritten.2 hold),
      fun d dkey hdkey hd => ?_⟩
    · rcases List.mem_cons.1 hp with rfl | hp
      · exact List.mem_cons_self
      · exact List.mem_cons_of_mem _ (h.entered p hp)
    · rw [List.map_cons, List.nodup_cons]
      refine ⟨fun hmem => ?_, h.nodup⟩
      obtain ⟨p, hp, rfl⟩ := List.mem_map.1 hmem
      exact hnew (h.entered p hp)
    · rcases List.mem_cons.1 hx with heq | hx
      · obtain ⟨rfl, rfl⟩ := Prod.mk.inj heq
        have hunmarked := h.unmarked x fun d hd hdkey hold => by
          obtain rfl := hw.eq_of_mem_parts (Graph.mem_parts_self _ _) hd hkey hdkey
          exact hnew hold.1
        exact hunmarked.stored.symm.trans hadmits
      · exact h.inserting x hx hkey
    · rcases List.mem_cons.1 hx with heq | hx
      · obtain ⟨rfl, rfl⟩ := Prod.mk.inj heq
        exact (Graph.of_key?_isSome hadmits).2
      · exact h.updating x hx
    · obtain ⟨hfree, haddressed, hrecorded⟩ := h.done d dkey hdkey (hwritten.1 hd)
      exact ⟨hfree, haddressed, hrecorded⟩
  insert _ _ _ h hsteady := recording_insertRows hw hc hstorable h hsteady
  update _ _ _ h hsteady _ := recording_updateRows hw hc hstorable h hsteady
  leave trail t e h hmem _ := by
    have hwritten : ∀ {x}, Written ((e, .following) :: trail) t x ↔ Written trail t x :=
      written_leave_iff hmem h.nodup
    exact ⟨h.link, h.executed, fun p hp => h.entered p (List.mem_cons_of_mem _ hp),
      (List.nodup_cons.1 h.nodup).2, fun x hx => h.inserting x (List.mem_cons_of_mem _ hx),
      fun x hx => h.updating x (List.mem_cons_of_mem _ hx),
      fun x hx => h.unsent x fun hold => hx (hwritten.1 hold),
      fun x hx => h.unmarked x fun d hd hkey hold => hx d hd hkey (hwritten.1 hold),
      fun d dkey hdkey hd => h.done d dkey hdkey (hwritten.2 hd)⟩

end rules

end Save

namespace Shop

/-- Parcels have a weight, and a label in a table of its own. -/
def parcels : Catalog where
  definitions := [
    { name := "Parcel", steps := [.secondary "Label", .atomic key,
        .atomic { name := "weight", column := "weight", kind := .int },
        .atomic { name := "label", column := "label", kind := .string, table := some "Label" }] }]

/-- A parcel that storage does not have. -/
def parcel : Graph :=
  Graph.Operation.runAll parcels [.create "Parcel", .assign ⟨0⟩ "weight" (.int 5),
    .assign ⟨0⟩ "label" (.text "fragile")] {}

/-- A database that refuses the second row, and then goes on. -/
def interrupted : World Script where
  graph := parcel
  wire := { link := { dialect := .mysql, keys :=
    [.ok (some (.int 1)), .error "down", .ok (some (.int 2)), .ok (some (.int 3))] } }

/-- Parcels embed nothing. -/
theorem plain_parcels : parcels.Plain := by
  have hentities : ∀ d ∈ parcels.definitions, d.embeddable = false := by decide
  intro d hd h
  rw [hentities d hd] at h
  cases h

end Shop

namespace Call

variable {σ : Type} [Connection σ] {ses : Session} {e : EntityId} {w : World σ}

/-- **Flags fall through a write.** However a call ends, each value other than a primary key that has
come to count as stored has been written with one statement for its entity, which was executed and
concerns the row of the entity's key, unless that was stale when the call began; and an entity for which
a statement was refused is not stored if it was not before, and its values that storage did not have
count as such. -/
theorem recorded_of_clean (call : Call) (hbuilt : w.graph.Built ses.catalog)
    (hplain : ses.catalog.Plain)
    (hstorable : ∀ e key, (w.graph.entity e).schema.primaryKey = some key →
      (w.graph.entity e).schema.Storable key) :
    Accounted w (call.trace ses e w) := by
  have hw := hbuilt.wellFormed
  have hstart : Recording w [] ({ world := w } : Traversal EntityId σ) := by
    refine ⟨rfl, fun o ho => absurd ho List.not_mem_nil, fun p hp => absurd hp List.not_mem_nil,
      List.nodup_nil, fun x hx => absurd hx List.not_mem_nil, fun x hx => absurd hx List.not_mem_nil,
      fun x _ o ho => absurd ho List.not_mem_nil, fun x _ => .of_eq rfl, fun d _ _ hd => ?_⟩
    exact absurd hd.1 List.not_mem_nil
  have hends := ends_traverse (recording_rules hw hplain hstorable) call e (depthBound w.graph) hstart
    ⟨.refl _, hw⟩
  exact Act.ends_final_iff.1 (hends.mono (fun _ _ ht => ht.holds.accounted) fun _ _ h => h)

/-- All is accounted for when a parcel is inserted, although its second row is refused. -/
theorem recorded_of_clean_parcel :
    Accounted Shop.interrupted (insert.trace { catalog := Shop.parcels } ⟨0⟩ Shop.interrupted) := by
  have hbuilt : Shop.parcel.Built Shop.parcels := .runAll _ .empty
  have hall : ∀ x ∈ Shop.parcel.entities,
      x.schema.primaryKey.all (fun key => decide (x.schema.Storable key)) = true := by decide
  have hstorable : ∀ e key, (Shop.parcel.entity e).schema.primaryKey = some key →
      (Shop.parcel.entity e).schema.Storable key := by
    intro e key hkey
    have he := Graph.forall_entity
      (p := fun x => x.schema.primaryKey.all (fun key => decide (x.schema.Storable key)) = true)
      hall rfl e
    rw [hkey] at he
    exact of_decide_eq_true he
  exact recorded_of_clean insert hbuilt Shop.plain_parcels hstorable

/-- When the insert of a parcel is repeated after the second row was refused, the weight comes to count
as stored, and the parcel keeps the key that the database made first. But the row with the weight was
not given that key, and the database has made another one for it. -/
theorem insert_ignores_key :
    let ses : Session := { catalog := Shop.parcels }
    let w := (ses.insert ⟨0⟩).final Shop.interrupted
    let t := insert.trace ses ⟨0⟩ w
    let s := (Shop.parcel.entity ⟨0⟩).schema
    Shop.parcel.Built Shop.parcels ∧ Shop.parcels.Plain ∧ s.Storable Shop.key ∧
      (ses.insert ⟨0⟩).succeeds Shop.interrupted = false ∧ (ses.insert ⟨0⟩).succeeds w = true ∧
      w.graph.slot ⟨0⟩ "weight" = some (.dirty (.int 5)) ∧
      t.world.graph.slot ⟨0⟩ "weight" = some (.loaded (.int 5)) ∧
      t.world.graph.key? ⟨0⟩ = some (.int 1) ∧
      ¬∃ o ∈ ledger w t, o.owner = ⟨0⟩ ∧ o.statement.Writes ("Parcel", "weight") (.int 5) ∧
        o.Addresses s Shop.key (.int 1) := by
  intro ses w t s
  refine ⟨.runAll _ .empty, Shop.plain_parcels, by decide, by decide,
    by decide, by decide, by decide, by decide, ?_⟩
  rintro ⟨o, ho, howner, hwrites, haddresses⟩
  have hall : ∀ o ∈ ledger w t, o.touches ⟨0⟩ ("Parcel", "weight") = true →
      o.answer = some (some (.int 2)) ∧ o.statement.table? = some "Parcel" ∧
        o.statement.touches ("Parcel", Shop.key.column) = false := by decide
  have htouches : o.touches ⟨0⟩ ("Parcel", "weight") = true := by
    simp [Outcome.touches, howner, Statement.touches_of_writes hwrites]
  obtain ⟨hanswer, htable, hkey⟩ := hall o ho htouches
  obtain ⟨i, hi⟩ := insert_of_answer ho hanswer
  cases haddresses with
  | selected u hu _ =>
    rw [hi] at hu
    cases hu
  | given i' hi' hgiven =>
    -- the row has no column for the key
    have hparcel : i'.table = "Parcel" := by
      rw [hi'] at htable
      exact Option.some.inj htable
    rw [hparcel] at hgiven
    rw [Statement.touches_of_writes hgiven] at hkey
    cases hkey
  | made i' v _ _ hanswer' hv =>
    obtain rfl : (.int 2 : Value) = v := Option.some.inj (Option.some.inj (hanswer.symm.trans hanswer'))
    exact absurd hv (by decide)

end Call

end EntityGraph
