import EntityGraph.Proofs.Cells
import EntityGraph.Proofs.Persistent
import EntityGraph.Proofs.Walk

/-!
# Deferred foreign keys

A foreign key that waits for the key of another entity, the *source*, keeps its holder from being
written. A save that writes the holder after all has first inserted the source, whose key has then
come to the foreign key; and the holder's statements write that key into the cell of the foreign key.

Three states of a foreign key are told apart in the course of a save. It waits, and no statement has
been sent for the holder (`Waiting`); or the source has been inserted and its key has arrived
(`Delivered`), with the holder still to be written or written already (`Ready`). The events of a save
lead from each of these states to itself or to the next one.

## Main results

* `sent_saveTrace`: the journal of a save lists what has gone over the wire.
* `deferred_of_save`: no statement is sent for the holder, or the source comes first and its key is
  what is written.
-/

namespace EntityGraph

namespace Traversal

variable {κ σ : Type} [DecidableEq κ]

/-- The statements that have been sent for something. -/
def sentFor (t : Traversal κ σ) (k : κ) : List Statement :=
  (t.journal.filter (·.1 = k)).map (·.2)

/-- What is sent for something is added to its statements, and to those of nothing else. -/
theorem sentFor_append (k' : κ) {k : κ} {l : List Statement} {t t' : Traversal κ σ}
    (h : t'.journal = t.journal ++ l.map (k, ·)) :
    t'.sentFor k' = t.sentFor k' ++ if k = k' then l else [] := by
  unfold sentFor
  rw [h, List.filter_append, List.map_append]
  by_cases hk : k = k'
  · simp [hk, List.filter_map, Function.comp_def]
  · simp [hk, List.filter_map, Function.comp_def]

end Traversal

open Save Traversal

variable {σ : Type} [Connection σ]

namespace Session

variable {ses : Session}

/-- All statements of a traversal are in its journal. -/
def Journaled (earlier : List Statement) (t : Traversal EntityId σ) : Prop :=
  t.world.wire.sent = earlier ++ t.journal.map (·.2)

omit [Connection σ] in
/-- What is sent is journaled. -/
theorem Journaled.more {earlier l : List Statement} {e : EntityId} {t t' : Traversal EntityId σ}
    (h : Journaled earlier t) (hsent : t'.world.wire.sent = t.world.wire.sent ++ l)
    (hjournal : t'.journal = t.journal ++ l.map (e, ·)) : Journaled earlier t' := by
  unfold Journaled at h ⊢
  rw [hsent, hjournal, h, List.map_append, List.map_map, List.append_assoc]
  simp [Function.comp_def]

/-- The events of a save note all that they send. -/
theorem journaled_rules (ses : Session) (g₀ : Graph) (earlier : List Statement) :
    Rules ses g₀ (fun _ => True) (fun _ => Journaled earlier)
      (Journaled earlier : Traversal EntityId σ → Prop) where
  fail _ _ h := h
  skip _ _ _ _ _ _ _ := trivial
  enter _ _ _ _ h _ _ := h
  insert _ t e h hsteady := by
    refine (inserted_insertRows hsteady.wellFormed).mono (fun _ t' hdone => ?_) fun _ t' hfailed => ?_
    · obtain ⟨key, k, t'', hinserted, rfl⟩ := hdone
      have hjournaled := h.more hinserted.sent hinserted.journal
      exact hjournaled
    · rcases hfailed with rfl | ⟨key, k, l, hinserting, -⟩
      · exact h
      · exact h.more hinserting.sent hinserting.journal
  update _ t e h _ _ := by
    refine ends_updateRows (fun _ _ => h) (fun _ _ => h) fun key s v _ _ _ _ _ => ?_
    refine ends_updateTables (fun t' hsent => ?_) fun _ _ _ _ hsent => h.more hsent.sent hsent.journal
    have hjournaled := h.more hsent.sent hsent.journal
    exact hjournaled
  leave _ _ _ h _ _ := h

end Session

/-- What a call sends is what its journal lists. -/
theorem Call.sent_trace {ses : Session} {e : EntityId} {w : World σ} (call : Call)
    (hwf : w.graph.WellFormed ses.catalog) : (call.trace ses e w).world.wire.sent =
      w.wire.sent ++ (call.trace ses e w).journal.map (·.2) := by
  have hstart : Session.Journaled w.wire.sent ({ world := w } : Traversal EntityId σ) := by
    simp [Session.Journaled]
  have hends := ends_traverse (Session.journaled_rules ses w.graph w.wire.sent) call e
    (depthBound w.graph) hstart ⟨.refl _, hwf⟩
  exact Act.ends_final_iff.1 (hends.mono (fun _ _ h => h.holds) fun _ _ h => h)

/-- What a save sends is what its journal lists. -/
theorem Session.sent_saveTrace {ses : Session} (e : EntityId) {w : World σ}
    (hwf : w.graph.WellFormed ses.catalog) :
    (ses.saveTrace e w).world.wire.sent = w.wire.sent ++ (ses.saveTrace e w).journal.map (·.2) :=
  Call.sent_trace .save hwf

/-- A foreign key of a holder that waits for a source when a save starts. -/
structure Deferral where
  start : Graph
  holder : EntityId
  foreignKey : Atomic
  source : EntityId

namespace Deferral

variable (d : Deferral)

/-- The schema of the holder. -/
def schema : Schema :=
  (d.start.entity d.holder).schema

/-- The cell of the foreign key. -/
def cell : String × String :=
  d.schema.cell d.foreignKey

/-- The slot of the foreign key. -/
def slot (g : Graph) : Option (Slot Value) :=
  (g.entity d.holder).atomics.get? d.foreignKey.name

/-- What the foreign key waits for. -/
def awaited (g : Graph) : Option EntityId :=
  (g.entity d.holder).pending.get? d.foreignKey.name

/-- The foreign key is an atomic of the holder other than its primary key, in a cell of its own. -/
structure Proper (key : Atomic) : Prop where
  hasKey : d.schema.primaryKey = some key
  mem : d.foreignKey ∈ d.schema.atomics
  ne_key : d.foreignKey.name ≠ key.name
  cells : d.schema.CellsDiffer
  secondary : d.schema.tableOf d.foreignKey ∈ d.schema.secondary →
    d.foreignKey.column ≠ key.column

/-- The foreign key waits, as it did at the start, and nothing has been sent for its holder. -/
structure Waiting (t : Traversal EntityId σ) : Prop where
  unsent : t.sentFor d.holder = []
  awaits : d.awaited t.world.graph = some d.source
  slot : d.slot t.world.graph = d.slot d.start

/-- The source has been inserted before anything was sent for the holder, it has a key for good, and
that key, converted, is what statements for the holder write. -/
structure Delivered (k v : Value) (t : Traversal EntityId σ) : Prop where
  inserted : ∃ before i after, t.journal = before ++ (d.source, .insert i) :: after ∧
    ∀ p ∈ before, p.1 ≠ d.holder
  key : t.world.graph.key? d.source = some k
  free : (t.world.graph.entity d.source).pending = []
  converted : d.foreignKey.coerce d.schema.name k = .ok v
  arrived : d.awaited t.world.graph = none
  only : ∀ x ∈ t.sentFor d.holder, ∀ u, x.Writes d.cell u → u = v
  first : d.slot d.start = some (.loaded v) ∨
    ∀ x, (t.sentFor d.holder).find? (·.changes d.cell.1) = some x → x.Writes d.cell v

/-- The key has arrived: the foreign key has it, and either nothing has been sent for the holder or
all of it has. -/
structure Ready (k v : Value) (t : Traversal EntityId σ) : Prop extends Delivered d k v t where
  state : (t.sentFor d.holder = [] ∧ d.slot t.world.graph =
      some (if d.slot d.start = some (.loaded v) then .loaded v else .dirty v)) ∨
    (d.slot t.world.graph = some (.loaded v) ∧ (d.slot d.start = some (.loaded v) ∨
      ∃ x ∈ t.sentFor d.holder, x.changes d.cell.1))

/-- Between two graphs, the source and what the foreign key waits for are the same. -/
structure Undisturbed (g g' : Graph) : Prop where
  key : g'.key? d.source = g.key? d.source
  free : (g'.entity d.source).pending = (g.entity d.source).pending
  awaited : d.awaited g' = d.awaited g

/-- What a save keeps. -/
def Kept (t : Traversal EntityId σ) : Prop :=
  d.Waiting t ∨ ∃ k v, d.Ready k v t

/-- What holds however a save ends. -/
def Upheld (t : Traversal EntityId σ) : Prop :=
  t.sentFor d.holder = [] ∨ ∃ k v, d.Delivered k v t

variable {d} {k v : Value} {t t' : Traversal EntityId σ} {e : EntityId} {l : List Statement}

omit [Connection σ]

theorem Undisturbed.of_eq {g g' : Graph} (h : g' = g) : d.Undisturbed g g' := by
  subst h
  exact ⟨rfl, rfl, rfl⟩

theorem Kept.upheld (h : d.Kept t) : d.Upheld t := by
  rcases h with h | ⟨k, v, h⟩
  · exact .inl h.unsent
  · exact .inr ⟨k, v, h.toDelivered⟩

/-- More statements are sent, and the key stays where it is. -/
theorem Delivered.step (h : d.Delivered k v t) (hjournal : t'.journal = t.journal ++ l.map (e, ·))
    (hsame : d.Undisturbed t.world.graph t'.world.graph)
    (honly : e = d.holder → ∀ x ∈ l, ∀ u, x.Writes d.cell u → u = v)
    (hfirst : e = d.holder → d.slot d.start = some (.loaded v) ∨
      (∃ x ∈ t.sentFor d.holder, x.changes d.cell.1) ∨
      ∀ x, l.find? (·.changes d.cell.1) = some x → x.Writes d.cell v) :
    d.Delivered k v t' := by
  have hown := sentFor_append d.holder hjournal
  refine ⟨?_, hsame.key ▸ h.key, hsame.free ▸ h.free, h.converted, hsame.awaited ▸ h.arrived, ?_, ?_⟩
  · obtain ⟨before, i, after, hsplit, hbefore⟩ := h.inserted
    refine ⟨before, i, after ++ l.map (e, ·), ?_, hbefore⟩
    rw [hjournal, hsplit, List.append_assoc, List.cons_append]
  · intro x hx u hu
    rw [hown, List.mem_append] at hx
    rcases hx with hx | hx
    · exact h.only x hx u hu
    · split at hx
      · next he => exact honly he x hx u hu
      · cases hx
  · rcases h.first with hstart | hbefore
    · exact .inl hstart
    · by_cases he : e = d.holder
      · rcases hfirst he with hstart | ⟨y, hy, hchanges⟩ | hnew
        · exact .inl hstart
        · refine .inr fun x hx => hbefore x ?_
          have hsome : ((t.sentFor d.holder).find? (·.changes d.cell.1)).isSome :=
            List.find?_isSome.2 ⟨y, hy, hchanges⟩
          rw [hown, List.find?_append, Option.or_of_isSome hsome] at hx
          exact hx
        · refine .inr fun x hx => ?_
          rw [hown, if_pos he, List.find?_append, Option.or_eq_some_iff] at hx
          rcases hx with hx | ⟨-, hx⟩
          · exact hbefore x hx
          · exact hnew x hx
      · refine .inr fun x hx => hbefore x ?_
        rwa [hown, if_neg he, List.append_nil] at hx

/-- Statements for other entities leave a foreign key in the state that it is in, where the source and
the foreign key are as they were. -/
theorem Kept.step (h : d.Kept t) (he : e ≠ d.holder) (hjournal : t'.journal = t.journal ++ l.map (e, ·))
    (hsame : d.Undisturbed t.world.graph t'.world.graph)
    (hslot : d.slot t'.world.graph = d.slot t.world.graph) : d.Kept t' := by
  have hown : t'.sentFor d.holder = t.sentFor d.holder := by
    rw [sentFor_append _ hjournal, if_neg he, List.append_nil]
  rcases h with h | ⟨k, v, h⟩
  · exact .inl ⟨hown ▸ h.unsent, hsame.awaited ▸ h.awaits, hslot ▸ h.slot⟩
  · refine .inr ⟨k, v, h.toDelivered.step hjournal hsame (fun heq => absurd heq he)
      fun heq => absurd heq he, ?_⟩
    rw [hown, hslot]
    exact h.state

/-- Where the source and the foreign key are as they were, the state is as it was. -/
theorem Kept.congr (h : d.Kept t) (hjournal : t'.journal = t.journal)
    (hsame : d.Undisturbed t.world.graph t'.world.graph)
    (hslot : d.slot t'.world.graph = d.slot t.world.graph) : d.Kept t' := by
  have hown : t'.sentFor d.holder = t.sentFor d.holder := by
    unfold sentFor
    rw [hjournal]
  rcases h with h | ⟨k, v, h⟩
  · exact .inl ⟨hown ▸ h.unsent, hsame.awaited ▸ h.awaits, hslot ▸ h.slot⟩
  · refine .inr ⟨k, v, h.toDelivered.step (e := d.source) (l := []) ?_ hsame ?_ ?_, ?_⟩
    · simp [hjournal]
    · exact fun _ x hx => absurd hx List.not_mem_nil
    · exact fun _ => .inr (.inr fun x hx => by cases hx)
    · rw [hown, hslot]
      exact h.state

/-- Nothing has been sent for an entity iff it does not appear in the journal. -/
theorem sentFor_eq_nil_iff {x : EntityId} : t.sentFor x = [] ↔ ∀ p ∈ t.journal, p.1 ≠ x := by
  simp [sentFor]

variable {c : Catalog} {key key' : Atomic} {w : Value}

/-- Where the key has arrived, inserting another entity leaves it there. -/
theorem Ready.inserting (h : d.Ready k v t) (he : e ≠ d.holder) (hinserting : Inserting c e key' l t t') :
    d.Kept t' := by
  have hkept : d.Kept t := .inr ⟨k, v, h⟩
  rcases hinserting.graph with hsame | ⟨hunset, w, hann⟩
  · exact hkept.step he hinserting.journal (.of_eq hsame) (by rw [hsame])
  have hne : d.source ≠ e := by
    rintro rfl
    have hset := h.key
    rw [hunset] at hset
    cases hset
  have hsource := hann.settled d.source hne h.free
  rcases hann.other d.holder d.foreignKey.name (Ne.symm he) with ⟨hpending, hslot⟩ | htook
  · refine hkept.step he hinserting.journal ⟨?_, by rw [hsource], hpending⟩ hslot
    unfold Graph.key?
    rw [hsource]
  · have hnone := h.arrived
    unfold awaited at hnone
    rw [htook.waited] at hnone
    cases hnone

/-- When inserting another entity fails, nothing has been sent for the holder that does not write the
key. -/
theorem Kept.failed (h : d.Kept t) (he : e ≠ d.holder) (hinserting : Inserting c e key' l t t') :
    d.Upheld t' := by
  rcases h with h | ⟨k, v, h⟩
  · refine .inl ?_
    rw [sentFor_append _ hinserting.journal, if_neg he, List.append_nil]
    exact h.unsent
  · exact (h.inserting he hinserting).upheld

/-- Marks of other entities leave a foreign key in the state that it is in. -/
theorem Kept.marked (h : d.Kept t) (hwf : t.world.graph.WellFormed c)
    (hshape : d.start.SameShape t.world.graph) (hproper : d.Proper key) (he : e ≠ d.holder)
    (hlt : e.index < t.world.graph.entities.length) : d.Kept (Save.marked e t) := by
  have hholder : (Save.marked e t).world.graph.entity d.holder = t.world.graph.entity d.holder := by
    show ((t.world.graph.markClean e).markStored e).entity d.holder = _
    rw [Graph.entity_marked hwf hlt, if_neg fun hmem => ?_]
    have hnone := hwf.noKey_of_part hmem (Ne.symm he)
    rw [hshape.schema d.holder] at hnone
    have hsome := hproper.hasKey
    unfold schema at hsome
    rw [hnone] at hsome
    cases hsome
  refine h.congr rfl ⟨Graph.key?_marked hwf hlt _, Graph.pending_marked hwf hlt _, ?_⟩ ?_
  · unfold awaited
    rw [hholder]
  · unfold slot
    rw [hholder]

/-- The slot of a foreign key whose key has arrived holds that key. -/
theorem Ready.slot_cases (h : d.Ready k v t) : d.slot t.world.graph = some (.dirty v) ∨
    d.slot t.world.graph = some (.loaded v) := by
  rcases h.state with ⟨-, hslot⟩ | ⟨hslot, -⟩
  · split at hslot
    · exact .inr hslot
    · exact .inl hslot
  · exact .inr hslot

/-- Statements for the holder that write what its slot has write the key that has arrived. -/
theorem Ready.planned_only (h : d.Ready k v t) {plan : List Statement}
    (hcarry : Carry d.cell (d.slot t.world.graph) plan) :
    ∀ x ∈ plan, ∀ u, x.Writes d.cell u → u = v := by
  intro x hx u hu
  have hslot := hcarry.only x hx u hu
  rcases h.slot_cases with hdirty | hloaded
  · rw [hdirty] at hslot
    simpa [Slot.dirty, eq_comm] using hslot
  · rw [hloaded] at hslot
    simp [Slot.dirty, Slot.loaded] at hslot

/-- The first statement for the table is one that writes the key, unless storage had it from the start
or has it by now. -/
theorem Ready.planned_first (h : d.Ready k v t) {plan : List Statement}
    (hcarry : Carry d.cell (d.slot t.world.graph) plan) :
    d.slot d.start = some (.loaded v) ∨ (∃ x ∈ t.sentFor d.holder, x.changes d.cell.1) ∨
      ∃ x, plan.find? (·.changes d.cell.1) = some x ∧ x.Writes d.cell v := by
  rcases h.state with ⟨-, hslot⟩ | ⟨-, hdone⟩
  · by_cases hstart : d.slot d.start = some (.loaded v)
    · exact .inl hstart
    · rw [if_neg hstart] at hslot
      exact .inr (.inr (hcarry.first v hslot))
  · exact hdone.imp_right .inl

/-- Statements for the holder are sent, all that were planned or the first of them. -/
theorem Ready.sent (h : d.Ready k v t) {plan : List Statement}
    (hcarry : Carry d.cell (d.slot t.world.graph) plan) (hl : l <+: plan)
    (hjournal : t'.journal = t.journal ++ l.map (d.holder, ·))
    (hsame : d.Undisturbed t.world.graph t'.world.graph) : d.Delivered k v t' := by
  refine h.toDelivered.step hjournal hsame
    (fun _ x hx => h.planned_only hcarry x (hl.subset hx)) fun _ => ?_
  rcases h.planned_first hcarry with hstart | hdone | ⟨x, hx, hwrites⟩
  · exact .inl hstart
  · exact .inr (.inl hdone)
  · refine .inr (.inr fun y hy => ?_)
    -- what a part of the plan begins with, the plan begins with
    obtain ⟨rest, rfl⟩ := hl
    rw [List.find?_append, hy, Option.some_or] at hx
    obtain rfl := Option.some.inj hx
    exact hwrites

/-- Once everything planned has been sent and the holder is marked, storage has the key. -/
theorem Ready.complete (h : d.Ready k v t) {plan : List Statement}
    (hcarry : Carry d.cell (d.slot t.world.graph) plan)
    (hjournal : t'.journal = t.journal ++ plan.map (d.holder, ·))
    (hsame : d.Undisturbed t.world.graph t'.world.graph)
    (hslot : d.slot t'.world.graph = d.slot t.world.graph)
    (hwf : t'.world.graph.WellFormed c) (hlt : d.holder.index < t'.world.graph.entities.length) :
    d.Kept (Save.marked d.holder t') := by
  have hsent := h.sent hcarry (List.prefix_refl plan) hjournal hsame
  have hholder : (Save.marked d.holder t').world.graph.entity d.holder =
      (t'.world.graph.entity d.holder).persist := by
    show ((t'.world.graph.markClean d.holder).markStored d.holder).entity d.holder = _
    rw [Graph.entity_marked hwf hlt, if_pos (Graph.mem_parts_self _ _)]
  have hloaded : d.slot (Save.marked d.holder t').world.graph = some (.loaded v) := by
    have hvalue := h.slot_cases
    rw [← hslot] at hvalue
    unfold slot at hvalue ⊢
    rw [hholder, Entity.atomics_persist]
    rcases hvalue with hvalue | hvalue <;> rw [hvalue] <;> rfl
  refine .inr ⟨k, v, hsent.step (e := d.holder) (l := []) (by simp [Save.marked])
    ⟨Graph.key?_marked hwf hlt _, Graph.pending_marked hwf hlt _, ?_⟩
    (fun _ x hx => absurd hx List.not_mem_nil)
    (fun _ => .inr (.inr fun x hx => by cases hx)), .inr ⟨hloaded, ?_⟩⟩
  · unfold awaited
    rw [hholder]
    rfl
  · have hown : (Save.marked d.holder t').sentFor d.holder = t.sentFor d.holder ++ plan := by
      have happend := sentFor_append d.holder hjournal
      rwa [if_pos rfl] at happend
    rw [hown]
    rcases h.planned_first hcarry with hstart | ⟨x, hx, hchanges⟩ | ⟨x, hx, -⟩
    · exact .inl hstart
    · exact .inr ⟨x, List.mem_append_left _ hx, hchanges⟩
    · exact .inr ⟨x, List.mem_append_right _ (List.mem_of_find?_eq_some hx), by
        simpa using List.find?_some hx⟩

/-- The holder exists, in a schema that the catalog has built. -/
theorem Proper.schema_eq {g : Graph} (h : d.Proper key) (hsteady : Steady c d.start g) :
    d.holder.index < g.entities.length ∧ (g.entity d.holder).schema = d.schema ∧
      c.schema d.schema.name = .ok d.schema := by
  have hschema : (g.entity d.holder).schema = d.schema := hsteady.shape.schema d.holder
  have hlt : d.holder.index < g.entities.length :=
    hsteady.shape.length ▸ Graph.index_lt_of_primaryKey h.hasKey
  exact ⟨hlt, hschema, hschema ▸ (hsteady.wellFormed.known _ hlt).schema_of_key (hschema ▸ h.hasKey)⟩

/-- The foreign key is not marked as primary key. -/
theorem Proper.primaryKey_eq_false {g : Graph} (h : d.Proper key) (hsteady : Steady c d.start g) :
    d.foreignKey.primaryKey = false := by
  obtain ⟨-, -, hbuilt⟩ := h.schema_eq hsteady
  rw [← Bool.not_eq_true, Catalog.primaryKey_iff hbuilt h.hasKey h.mem]
  rintro rfl
  exact h.ne_key rfl

variable [Connection σ] {ses : Session}

/-- When the source has been inserted, and the foreign key has taken its key, the key has arrived. -/
theorem Waiting.inserted (h : d.Waiting t) (hwf : t.world.graph.WellFormed c)
    (hshape : d.start.SameShape t.world.graph) (hproper : d.Proper key) (he : e ≠ d.holder)
    (hinserted : Inserted c e key' k t t')
    (hann : Graph.Announced e key'.name k t.world.graph t'.world.graph)
    (htook : Graph.Took e k (t.world.graph.entity d.holder) (t'.world.graph.entity d.holder)
      d.foreignKey.name) : ∃ v, d.Ready k v t' := by
  have hunsent : t'.sentFor d.holder = [] := by
    rw [sentFor_append _ hinserted.journal, if_neg he, List.append_nil]
    exact h.unsent
  obtain rfl : d.source = e := Option.some.inj (h.awaits.symm.trans htook.waited)
  obtain ⟨a, v, ha, hv, hslot⟩ := htook.value
  have hschema : (t.world.graph.entity d.holder).schema = d.schema := hshape.schema d.holder
  obtain rfl : a = d.foreignKey := by
    have hlt : d.holder.index < t.world.graph.entities.length :=
      hshape.length ▸ Graph.index_lt_of_primaryKey hproper.hasKey
    have hfound := (hwf.known d.holder hlt).coherent.atomic?_name (hschema ▸ hproper.mem)
    rw [Schema.atomic_eq_ok_iff] at ha
    exact Option.some.inj (ha.symm.trans hfound)
  have hdelivered : d.Delivered k v t' := by
    refine ⟨⟨t.journal, _, _, hinserted.journal, sentFor_eq_nil_iff.1 h.unsent⟩, hinserted.key?, ?_,
      hschema ▸ hv, htook.settled, ?_, ?_⟩
    · rw [hann.self]
      exact hinserted.free
    · rw [hunsent]
      exact fun x hx => absurd hx List.not_mem_nil
    · rw [hunsent]
      exact .inr fun x hx => by cases hx
  refine ⟨v, hdelivered, .inl ⟨hunsent, ?_⟩⟩
  rw [← h.slot]
  exact hslot

/-- When another entity has been inserted, a foreign key that waits for it has got its key. -/
theorem Kept.inserted (h : d.Kept t) (hwf : t.world.graph.WellFormed c)
    (hshape : d.start.SameShape t.world.graph) (hproper : d.Proper key) (he : e ≠ d.holder)
    (hinserted : Inserted c e key' k t t') : d.Kept t' := by
  rcases h with h | ⟨k', v, h⟩
  · rcases hinserted.graph with hsame | ⟨hunset, -⟩
    · exact Kept.step (.inl h) he hinserted.journal (.of_eq hsame) (by rw [hsame])
    have hann := hinserted.announced hunset hinserted.key?
    rcases hann.other d.holder d.foreignKey.name (Ne.symm he) with ⟨hpending, hslot⟩ | htook
    · refine .inl ⟨?_, hpending.trans h.awaits, hslot.trans h.slot⟩
      rw [sentFor_append _ hinserted.journal, if_neg he, List.append_nil]
      exact h.unsent
    · obtain ⟨v, hready⟩ := h.inserted hwf hshape hproper he hinserted hann htook
      exact .inr ⟨k, v, hready⟩
  · exact h.inserting he hinserted.toInserting

/-- Inserting another entity keeps a foreign key in one of its states. -/
theorem kept_insertRows_other (hproper : d.Proper key) (he : e ≠ d.holder) (h : d.Kept t)
    (hsteady : Steady ses.catalog d.start t.world.graph) :
    (insertRows ses e).Ends t (fun _ => d.Kept) (fun _ => d.Upheld) := by
  refine (inserted_insertRows hsteady.wellFormed).mono (fun _ t' hdone => ?_) fun _ t' hfailed => ?_
  · obtain ⟨key', k, t'', hinserted, rfl⟩ := hdone
    have hkept := h.inserted hsteady.wellFormed hsteady.shape hproper he hinserted
    exact hkept.marked hinserted.wellFormed (hsteady.shape.trans hinserted.sameFrame.shape) hproper he
      hinserted.index_lt
  · rcases hfailed with rfl | ⟨key', k, l, hinserting, -⟩
    · exact h.upheld
    · exact h.failed he hinserting

/-- Updating another entity keeps a foreign key in one of its states. -/
theorem kept_updateRows_other (hproper : d.Proper key) (he : e ≠ d.holder) (h : d.Kept t)
    (hsteady : Steady ses.catalog d.start t.world.graph)
    (hlt : e.index < t.world.graph.entities.length) :
    (updateRows ses e).Ends t (fun _ => d.Kept) (fun _ => d.Upheld) := by
  refine ends_updateRows (fun _ _ => h.upheld)
    (fun _ _ => h.marked hsteady.wellFormed hsteady.shape hproper he hlt) fun _ _ _ _ _ _ _ _ => ?_
  have hkept : ∀ {t' l}, Sent e l t t' → d.Kept t' := fun hsent =>
    h.step he hsent.journal (.of_eq hsent.graph) (by rw [hsent.graph])
  refine ends_updateTables (fun t' hsent => ?_) fun _ t' l _ hsent => (hkept hsent).upheld
  refine (hkept hsent.toSent).marked (c := ses.catalog) ?_ ?_ hproper he ?_
  · exact hsent.graph ▸ hsteady.wellFormed
  · exact hsent.graph ▸ hsteady.shape
  · exact hsent.graph ▸ hlt

omit [Connection σ] in
/-- An entity that waits for nothing has all keys that it waited for. -/
theorem Kept.ready (h : d.Kept t) (hnil : (t.world.graph.entity d.holder).pending = []) :
    ∃ k v, d.Ready k v t := by
  refine h.resolve_left fun hwaiting => ?_
  have hsome := hwaiting.awaits
  unfold awaited at hsome
  rw [hnil] at hsome
  cases hsome

omit [Connection σ] in
/-- Inserting the holder leaves the source and the foreign key as they are. -/
theorem Ready.inserting_holder (h : d.Ready k v t) (hproper : d.Proper key)
    (hinserting : Inserting c d.holder key l t t') :
    d.Undisturbed t.world.graph t'.world.graph ∧ d.slot t'.world.graph = d.slot t.world.graph := by
  rcases hinserting.graph with hsame | ⟨hunset, w, hann⟩
  · exact ⟨.of_eq hsame, by rw [hsame]⟩
  have hne : d.source ≠ d.holder := by
    intro heq
    have hset := h.key
    rw [heq, hunset] at hset
    cases hset
  have hsource := hann.settled d.source hne h.free
  refine ⟨⟨?_, by rw [hsource], ?_⟩, ?_⟩
  · unfold Graph.key?
    rw [hsource]
  · unfold awaited
    rw [hann.self]
    rfl
  · unfold slot
    rw [hann.self]
    exact Assoc.get?_put_of_ne _ _ hproper.ne_key

/-- Inserting the holder writes the key that has arrived. -/
theorem kept_insertRows_holder (hproper : d.Proper key) (h : d.Kept t)
    (hsteady : Steady ses.catalog d.start t.world.graph) :
    (insertRows ses d.holder).Ends t (fun _ => d.Kept) (fun _ => d.Upheld) := by
  have hwf := hsteady.wellFormed
  obtain ⟨-, hschema, hbuilt⟩ := hproper.schema_eq hsteady
  have hcarry : ∀ key' w, (t.world.graph.entity d.holder).schema.primaryKey = some key' → key = key' ∧
      Carry d.cell (d.slot t.world.graph) (inserts (t.world.graph.entity d.holder).schema
        (t.world.graph.dirtyAtomics d.holder) key' w) := by
    intro key' w hkey'
    rw [hschema] at hkey' ⊢
    obtain rfl := Option.some.inj (hproper.hasKey.symm.trans hkey')
    exact ⟨rfl, inserts_carry (sole_dirtyAtomics hwf hschema hproper.cells hproper.mem)
      (Catalog.tableOf_mem_tables hbuilt hproper.mem) hproper.secondary⟩
  refine (inserted_insertRows hwf).mono (fun _ t' hdone => ?_) fun _ t' hfailed => ?_
  · obtain ⟨key', w, t'', hinserted, rfl⟩ := hdone
    obtain ⟨rfl, hcarry⟩ := hcarry key' w hinserted.isKey
    obtain ⟨k, v, hready⟩ := h.ready hinserted.free
    obtain ⟨hsame, hslot⟩ := hready.inserting_holder hproper hinserted.toInserting
    exact hready.complete hcarry hinserted.journal hsame hslot hinserted.wellFormed hinserted.index_lt
  · rcases hfailed with rfl | ⟨key', w, l, hinserting, hl⟩
    · exact h.upheld
    obtain ⟨rfl, hcarry⟩ := hcarry key' w hinserting.isKey
    obtain ⟨k, v, hready⟩ := h.ready hinserting.free
    obtain ⟨hsame, -⟩ := hready.inserting_holder hproper hinserting
    exact .inr ⟨k, v, hready.sent hcarry hl hinserting.journal hsame⟩

/-- Updating the holder writes the key that has arrived, unless storage has it. -/
theorem kept_updateRows_holder (hproper : d.Proper key) (h : d.Kept t)
    (hsteady : Steady ses.catalog d.start t.world.graph) :
    (updateRows ses d.holder).Ends t (fun _ => d.Kept) (fun _ => d.Upheld) := by
  have hwf := hsteady.wellFormed
  obtain ⟨hlt, hschema, hbuilt⟩ := hproper.schema_eq hsteady
  have hsole := sole_changes hwf hschema hproper.cells hproper.mem (hproper.primaryKey_eq_false hsteady)
  refine ends_updateRows (fun _ _ => h.upheld) (fun hpending hnone => ?_)
    fun key' s v hs _ _ hpending _ => ?_
  · obtain ⟨k, v, hready⟩ := h.ready hpending
    -- nothing is sent, because storage has the key already
    have hcarry : Carry d.cell (d.slot t.world.graph) [] := by
      refine ⟨fun x hx => absurd hx List.not_mem_nil, fun w hw => ?_⟩
      have hmem := hsole.mem w hw
      rw [hnone] at hmem
      cases hmem
    exact hready.complete hcarry (by simp) (.of_eq rfl) rfl hwf hlt
  · obtain rfl : d.schema = s := hschema.symm.trans hs
    obtain ⟨k, w, hready⟩ := h.ready hpending
    have hcarry : Carry d.cell (d.slot t.world.graph)
        ((updates key' v (columnsByTable d.schema (changes t.world.graph d.holder))).map .update) :=
      updates_carry hsole (Catalog.tableOf_mem_tables hbuilt hproper.mem)
    refine ends_updateTables (fun t' hsent => ?_) fun _ t' l hl hsent => ?_
    · refine hready.complete hcarry hsent.journal (.of_eq hsent.graph) (by rw [hsent.graph])
        (c := ses.catalog) ?_ ?_
      · exact hsent.graph ▸ hwf
      · exact hsent.graph ▸ hlt
    · exact .inr ⟨k, w, hready.sent hcarry hl hsent.journal (.of_eq hsent.graph)⟩

/-- The events of a save keep a foreign key in one of its states. -/
theorem deferral_rules (hproper : d.Proper key) :
    Rules ses d.start (fun _ => True) (fun _ => d.Kept) (d.Upheld : Traversal EntityId σ → Prop) where
  fail _ _ h := h.upheld
  skip _ _ _ _ _ _ _ := trivial
  enter _ t e _ h _ _ := h.congr rfl (.of_eq rfl) rfl
  insert _ t e h hsteady := by
    by_cases he : e = d.holder
    · exact he ▸ kept_insertRows_holder hproper h hsteady
    · exact kept_insertRows_other hproper he h hsteady
  update _ t e h hsteady hlt := by
    by_cases he : e = d.holder
    · exact he ▸ kept_updateRows_holder hproper h hsteady
    · exact kept_updateRows_other hproper he h hsteady hlt
  leave _ _ _ h _ _ := h

end Deferral

/-- A foreign key that waits for a source keeps its holder from being written, or else the source is
inserted first: its key, converted, is what statements for the holder write into the cell of the
foreign key, and the first one for its table does, unless storage had that value from the start. -/
theorem Session.deferred_of_save {ses : Session} {e holder source : EntityId}
    {foreignKey key : Atomic} {w : World σ} {s : Schema}
    (hbuilt : Graph.Built ses.catalog w.graph)
    (hs : (w.graph.entity holder).schema = s) (hkey : s.primaryKey = some key)
    (hmem : foreignKey ∈ s.atomics) (hne : foreignKey.name ≠ key.name) (hcells : s.CellsDiffer)
    (hsecondary : ∀ a ∈ s.deepAtomics, a ≠ key → s.tableOf a ∈ s.secondary → a.column ≠ key.column)
    (hwaits : (w.graph.entity holder).pending.get? foreignKey.name = some source) :
    (ses.saveTrace e w).sentFor holder = [] ∨
      (∃ before i after, (ses.saveTrace e w).journal = before ++ (source, .insert i) :: after ∧
        ∀ p ∈ before, p.1 ≠ holder) ∧
      ∃ k v, (ses.saveTrace e w).world.graph.key? source = some k ∧
        foreignKey.coerce s.name k = .ok v ∧ v ≠ .null ∧
        (∀ x ∈ (ses.saveTrace e w).sentFor holder, ∀ u, x.Writes (s.cell foreignKey) u → u = v) ∧
        ((w.graph.entity holder).atomics.get? foreignKey.name = some (.loaded v) ∨
          (∀ x, ((ses.saveTrace e w).sentFor holder).find? (·.changes (s.tableOf foreignKey)) = some x →
            x.Writes (s.cell foreignKey) v) ∧
          ∀ w', ses.save e w = .ok () w' →
            ∃ x ∈ (ses.saveTrace e w).sentFor holder, x.changes (s.tableOf foreignKey) = true) := by
  subst hs
  let d : Deferral := ⟨w.graph, holder, foreignKey, source⟩
  have hproper : d.Proper key := by
    refine ⟨hkey, hmem, hne, hcells, fun hsec => hsecondary foreignKey ?_ ?_ hsec⟩
    · rw [Schema.deepAtomics_eq]
      exact List.mem_append_left _ hmem
    · rintro rfl
      exact hne rfl
  have hstart : d.Kept ({ world := w } : Traversal EntityId σ) := .inl ⟨rfl, hwaits, rfl⟩
  have hends : (saveFrom ses (depthBound w.graph) e).Ends { world := w }
      (fun _ t => d.Kept t) (fun _ t => d.Upheld t) :=
    (ends_saveFrom (Deferral.deferral_rules hproper) (depthBound w.graph) [] { world := w } e
      hstart ⟨.refl _, hbuilt.wellFormed⟩).mono (fun _ _ h => h.1.holds) fun _ _ h => h
  have hnotNull : ∀ {g : Graph} {k v : Value}, g.key? source = some k →
      foreignKey.coerce d.schema.name k = .ok v → v ≠ .null :=
    fun hk hv => Atomic.ne_null_of_coerce hv (Graph.ne_null_of_key? hk)
  unfold saveTrace Act.final
  cases hrun : saveFrom ses (depthBound w.graph) e { world := w } with
  | error error t =>
    rcases hends.of_error hrun with hnil | ⟨k, v, h⟩
    · exact .inl hnil
    · refine .inr ⟨h.inserted, k, v, h.key, h.converted, hnotNull h.key h.converted, h.only, ?_⟩
      refine h.first.imp_right fun hfirst => ⟨hfirst, fun w' hsave => ?_⟩
      obtain ⟨t', hok, -⟩ := run_eq_ok_iff.1 hsave
      rw [hrun] at hok
      cases hok
  | ok _ t =>
    rcases hends.of_ok hrun with h | ⟨k, v, h⟩
    · exact .inl h.unsent
    · rcases h.state with ⟨hnil, -⟩ | ⟨-, hdone⟩
      · exact .inl hnil
      · refine .inr ⟨h.inserted, k, v, h.key, h.converted, hnotNull h.key h.converted, h.only, ?_⟩
        rcases h.first with hstart | hfirst
        · exact .inl hstart
        · exact hdone.imp_right fun hchanges => ⟨hfirst, fun _ _ => hchanges⟩

/-- An order is written after its customer, with the customer's key. -/
theorem Session.deferred_of_save_order :
    (Shop.session.saveTrace ⟨0⟩ (Shop.world Shop.orders)).sentFor ⟨0⟩ = [] ∨
      (∃ before i after, (Shop.session.saveTrace ⟨0⟩ (Shop.world Shop.orders)).journal =
        before ++ (⟨1⟩, .insert i) :: after ∧ ∀ p ∈ before, p.1 ≠ ⟨0⟩) ∧
      ∃ k v, (Shop.session.saveTrace ⟨0⟩ (Shop.world Shop.orders)).world.graph.key? ⟨1⟩ = some k ∧
        (Shop.reference "customer_fk").coerce "Order" k = .ok v ∧ v ≠ .null ∧
        (∀ x ∈ (Shop.session.saveTrace ⟨0⟩ (Shop.world Shop.orders)).sentFor ⟨0⟩,
          ∀ u, x.Writes ("Order", "customer_fk") u → u = v) ∧
        ((Shop.orders.entity ⟨0⟩).atomics.get? "customer_fk" = some (.loaded v) ∨
          (∀ x, ((Shop.session.saveTrace ⟨0⟩ (Shop.world Shop.orders)).sentFor ⟨0⟩).find?
            (·.changes "Order") = some x → x.Writes ("Order", "customer_fk") v) ∧
          ∀ w', Shop.session.save ⟨0⟩ (Shop.world Shop.orders) = .ok () w' →
            ∃ x ∈ (Shop.session.saveTrace ⟨0⟩ (Shop.world Shop.orders)).sentFor ⟨0⟩,
              x.changes "Order" = true) := by
  let s : Schema := ⟨"Order", "Order", [], false, some Shop.key,
    [Shop.key, Shop.reference "customer_fk"], [Shop.refersTo "customer" "Customer" "customer_fk"], []⟩
  have hs : ((Shop.world Shop.orders).graph.entity ⟨0⟩).schema = s := by rfl
  have hkey : s.primaryKey = some Shop.key := rfl
  have hmem : Shop.reference "customer_fk" ∈ s.atomics := by decide
  have hcells : s.CellsDiffer := by decide
  exact deferred_of_save (.runAll _ .empty) hs hkey hmem (by decide) hcells
    (fun a _ _ h => absurd h List.not_mem_nil) (by rfl)

end EntityGraph
