import EntityGraph.Proofs.Deferred
import EntityGraph.Proofs.Persistent

/-!
# The ledger of a save

What a save has sent and what has become of it, entity by entity, and what happens meanwhile to the
entities that it does not write: they stay as they are, apart from foreign keys that take the keys of
others, and these are values that storage does not have.

* `Graph.Unmarked`, `Graph.Beside`: what writing the rows of one entity does to others;
* `Written`: an entity has been entered, and its rows are not still to be written;
* `ledger`: the outcomes of all statements so far;
* `filter_touches_self`: a cell that one of the statements writes into is touched by one outcome.
-/

namespace EntityGraph

/-- What a schema must be like for the values of its entities to be told apart in storage: every atomic
is stored in a table of the schema, no two of them in one cell, and secondary tables have the column of
the key for the key alone. -/
structure Schema.Storable (s : Schema) (key : Atomic) : Prop where
  declared : ∀ a ∈ s.deepAtomics, s.tableOf a ∈ s.tables
  cells : s.CellsDiffer
  keyColumn : ∀ a ∈ s.deepAtomics, s.tableOf a ∈ s.secondary → a.column ≠ key.column

instance (s : Schema) (key : Atomic) : Decidable (s.Storable key) :=
  decidable_of_iff ((∀ a ∈ s.deepAtomics, s.tableOf a ∈ s.tables) ∧ s.CellsDiffer ∧
      ∀ a ∈ s.deepAtomics, s.tableOf a ∈ s.secondary → a.column ≠ key.column)
    ⟨fun h => ⟨h.1, h.2.1, h.2.2⟩, fun h => ⟨h.declared, h.cells, h.keyColumn⟩⟩

/-- The key is stored in the primary table, and that is none of the secondary ones. -/
theorem Schema.Storable.key_table {s : Schema} {key : Atomic} (h : s.Storable key)
    (hmem : key ∈ s.atomics) : s.tableOf key = s.table ∧ s.table ∉ s.secondary := by
  have hdeep : key ∈ s.deepAtomics := by
    rw [Schema.deepAtomics_eq]
    exact List.mem_append_left _ hmem
  have hprimary : s.tableOf key ∉ s.secondary := fun hsec => h.keyColumn key hdeep hsec rfl
  have htable := (List.mem_cons.1 (h.declared key hdeep)).resolve_right hprimary
  exact ⟨htable, htable ▸ hprimary⟩

namespace Graph

variable {c : Catalog} {g g' g'' : Graph} {e x : EntityId} {key : Atomic} {v w : Value}

/-- What is known of the value of an own atomic. -/
def slot (g : Graph) (x : EntityId) (name : String) : Option (Slot Value) :=
  (g.entity x).atomics.get? name

/-- An entity that storage does not have has a key that counts as stored. -/
def Stale (g : Graph) (e : EntityId) : Prop :=
  (g.entity e).stored = false ∧ ∃ key k, (g.entity e).schema.primaryKey = some key ∧
    g.slot e key.name = some (.loaded k) ∧ k ≠ .null

/-- The key of an entity is the value of its primary key. -/
theorem key?_eq (hkey : (g.entity e).schema.primaryKey = some key) : g.key? e =
    (g.slot e key.name).bind fun slot => if slot.value.isNull then none else some slot.value := by
  simp [key?, Entity.key?, Schema.keyName?, hkey, slot]

/-- The value of an atomic is read off its slot. -/
theorem atomicValue_eq_of_slot {name : String} (h : g'.slot x name = g.slot x name) :
    (g'.entity x).atomicValue name = (g.entity x).atomicValue name := by
  rw [slot, slot] at h
  rw [Entity.atomicValue, h, Entity.atomicValue]

/-- An atomic that is not a primary key has another name than the key. -/
theorem WellFormed.ne_keyName (hwf : g.WellFormed c)
    (hkey : (g.entity e).schema.primaryKey = some key) {a : Atomic}
    (ha : a ∈ (g.entity e).schema.atomics) (hpk : a.primaryKey = false) : a.name ≠ key.name := by
  have hbuilt := hwf.schema_of_primaryKey hkey
  have hknown := hwf.known e (index_lt_of_primaryKey hkey)
  intro hname
  have hatomic := hknown.coherent.atomic?_name ha
  rw [hname, hknown.coherent.atomic?_name (Catalog.mem_of_primaryKey hbuilt hkey)] at hatomic
  rw [(Catalog.primaryKey_iff hbuilt hkey ha).2 (Option.some.inj hatomic).symm] at hpk
  cases hpk

/-- An entity is as it was, apart from values that storage does not have. -/
structure Unmarked (g g' : Graph) (x : EntityId) : Prop where
  stored : (g'.entity x).stored = (g.entity x).stored
  slot : ∀ name, g'.slot x name = g.slot x name ∨ ∃ v, g'.slot x name = some (.dirty v)

theorem Unmarked.of_eq (h : g'.entity x = g.entity x) : Unmarked g g' x :=
  ⟨by rw [h], fun name => .inl (by unfold Graph.slot; rw [h])⟩

theorem Unmarked.trans (h : Unmarked g g' x) (h' : Unmarked g' g'' x) : Unmarked g g'' x := by
  refine ⟨h'.stored.trans h.stored, fun name => ?_⟩
  rcases h'.slot name with heq | hdirty
  · rw [heq]
    exact h.slot name
  · exact .inr hdirty

/-- A value that counts as stored did so before. -/
theorem Unmarked.eq_of_loaded (h : Unmarked g g' x) {name : String}
    (hslot : g'.slot x name = some (.loaded v)) : g.slot x name = some (.loaded v) := by
  rcases h.slot name with heq | ⟨u, hu⟩
  · exact heq ▸ hslot
  · rw [hu] at hslot
    simp [Slot.dirty, Slot.loaded] at hslot

/-- A value that storage does not have goes on so. -/
theorem Unmarked.dirty (h : Unmarked g g' x) {name : String}
    (hslot : g.slot x name = some (.dirty v)) : ∃ u, g'.slot x name = some (.dirty u) := by
  rcases h.slot name with heq | hdirty
  · exact ⟨v, heq.trans hslot⟩
  · exact hdirty

/-- An entity may have taken over a key, of which others may have heard. -/
structure Beside (e : EntityId) (key : Atomic) (g g' : Graph) : Prop where
  shape : g.SameShape g'
  unmarked : ∀ x, x ≠ e → Unmarked g g' x
  settled : ∀ x, x ≠ e → (g.entity x).pending = [] → g'.entity x = g.entity x
  stored : (g'.entity e).stored = (g.entity e).stored
  slot : ∀ name, name ≠ key.name → g'.slot e name = g.slot e name
  pending : (g'.entity e).pending = (g.entity e).pending

theorem Beside.refl (e : EntityId) (key : Atomic) (g : Graph) : Beside e key g g :=
  ⟨.refl g, fun _ _ => .of_eq rfl, fun _ _ _ => rfl, rfl, fun _ _ => rfl, rfl⟩

theorem Announced.beside (h : Announced e key.name w g g') : Beside e key g g' where
  shape := h.shape
  unmarked x hx := by
    refine ⟨h.stored x, fun name => ?_⟩
    rcases h.other x name hx with ⟨-, hslot⟩ | ⟨-, -, a, v, -, -, hslot⟩
    · exact .inl hslot
    · unfold Graph.slot
      rw [hslot]
      split
      · next hloaded => exact .inl hloaded.symm
      · exact .inr ⟨v, rfl⟩
  settled := h.settled
  stored := h.stored e
  slot name hname := by
    unfold Graph.slot
    rw [h.self]
    exact Assoc.get?_put_of_ne _ _ hname
  pending := by rw [h.self]; rfl

/-- Parts of an entity that waits for nothing stay as they are when another one takes over a key. -/
theorem Beside.entity_of_part (h : Beside e key g g') (hwf : g.WellFormed c) (hc : c.Plain)
    {d : EntityId} (hfree : (g.entity d).pending = []) (hx : x ∈ g.parts d) (hne : x ≠ e) :
    g'.entity x = g.entity x :=
  h.settled x hne (hwf.pending_of_part hc hfree hx)

end Graph

/-! ### Statements for a key -/

/-- What was written concerns the row of a key. -/
inductive Outcome.Addresses {κ : Type} (s : Schema) (key : Atomic) (k : Value) (o : Outcome κ) : Prop
  /-- An update is one of the rows of the key. -/
  | selected (u : Update) (hstatement : o.statement = .update u)
      (hconditions : u.conditions = [Expr.columnEq key.column k])
  /-- An inserted row has the key. -/
  | given (i : Insert) (hstatement : o.statement = .insert i)
      (hwrites : o.statement.Writes (i.table, key.column) k)
  /-- The database has made the key of an inserted row. -/
  | made (i : Insert) (v : Value) (hstatement : o.statement = .insert i)
      (hnone : ∀ u, o.statement.Writes (i.table, key.column) u → u = .null)
      (hanswer : o.answer = some (some v)) (hkey : key.coerce s.name v = .ok k)

/-- Whether something was sent for an entity that writes into a cell. -/
def Outcome.touches (e : EntityId) (cell : String × String) (o : Outcome EntityId) : Bool :=
  o.owner == e && o.statement.touches cell

open Save Traversal

namespace Save

variable {σ : Type} [Connection σ] {ses : Session} {c : Catalog} {e x : EntityId} {phase : Phase}
  {trail : Trail} {w : World σ} {t t' t'' : Traversal EntityId σ} {l l' : List Statement} {key a : Atomic}
  {v k : Value} {o : Outcome EntityId}

/-! ### While rows are inserted -/

omit [Connection σ] in
/-- Inserting the rows of an entity leaves the others beside it. -/
theorem Inserting.beside (h : Inserting c e key l t t') :
    t.world.graph.Beside e key t'.world.graph := by
  rcases h.graph with hsame | ⟨-, w, hann⟩
  · exact hsame ▸ .refl e key _
  · exact hann.beside

/-! ### What is on the trail -/

/-- The rows of an entity have been written. -/
def Written (trail : Trail) (t : Traversal EntityId σ) (e : EntityId) : Prop :=
  e ∈ t.entered ∧ ∀ phase, (e, phase) ∈ trail → phase = .following

omit [Connection σ] in
theorem not_written (hphase : phase ≠ .following) : ¬Written ((e, phase) :: trail) t e :=
  fun h => hphase (h.2 phase List.mem_cons_self)

omit [Connection σ] in
/-- Writing the rows of one entity leaves the others written or not. -/
theorem written_following_iff (hne : x ≠ e) (hentered : t'.entered = t.entered) :
    Written ((e, .following) :: trail) t' x ↔ Written ((e, phase) :: trail) t x := by
  have hmem : ∀ p q, (x, p) ∈ (e, q) :: trail ↔ (x, p) ∈ trail := by
    refine fun p q => ⟨fun h => (List.mem_cons.1 h).resolve_left fun heq => ?_, List.mem_cons_of_mem _⟩
    exact hne (congrArg Prod.fst heq)
  simp only [Written, hentered, hmem]

omit [Connection σ] in
/-- An entity that is entered is not written yet. -/
theorem written_enter_iff (hnew : e ∉ t.entered) (hphase : phase ≠ .following) :
    Written ((e, phase) :: trail) { t with entered := e :: t.entered } x ↔ Written trail t x := by
  by_cases hne : x = e
  · subst hne
    exact iff_of_false (not_written hphase) fun h => hnew h.1
  · simp [Written, hne]

omit [Connection σ] in
/-- An entity has been written while the traversal follows what it leads to. -/
theorem written_self (hmem : e ∈ t.entered)
    (hnodup : (((e, Phase.following) :: trail).map (·.1)).Nodup) :
    Written ((e, .following) :: trail) t e := by
  refine ⟨hmem, fun p hp => ?_⟩
  rcases List.mem_cons.1 hp with heq | hp
  · exact congrArg Prod.snd heq
  · exact absurd (List.mem_map_of_mem hp) (List.nodup_cons.1 hnodup).1

omit [Connection σ] in
/-- An entity that is left has been written. -/
theorem written_leave_iff (hmem : e ∈ t.entered)
    (hnodup : (((e, Phase.following) :: trail).map (·.1)).Nodup) :
    Written ((e, .following) :: trail) t x ↔ Written trail t x := by
  by_cases hne : x = e
  · subst hne
    refine iff_of_true (written_self hmem hnodup) ⟨hmem, fun p hp => ?_⟩
    exact absurd (List.mem_map_of_mem hp) (List.nodup_cons.1 hnodup).1
  · simp [Written, hne]

/-! ### What has been sent and executed -/

/-- What has become of the statements of a traversal that began with a world. -/
def ledger (w : World σ) (t : Traversal EntityId σ) : List (Outcome EntityId) :=
  outcomes w.wire.link t.journal

/-- More statements have more outcomes, of which those before are the first. -/
theorem ledger_append (hlink : t.world.wire.link = replay w.wire.link t.journal)
    (hjournal : t'.journal = t.journal ++ l.map (e, ·)) :
    ledger w t' = ledger w t ++ outcomes t.world.wire.link (l.map (e, ·)) := by
  unfold ledger
  rw [hjournal, outcomes_append, hlink]

/-- Outcomes of statements for an entity are its own. -/
theorem owner_of_mem_outcomes {link : σ} (h : o ∈ outcomes link (l.map (e, ·))) :
    o.owner = e ∧ o.statement ∈ l := by
  obtain ⟨s, hs, heq⟩ := List.mem_map.1 (mem_of_mem_outcomes h)
  obtain ⟨howner, hstatement⟩ := Prod.mk.inj heq
  exact ⟨howner.symm, hstatement ▸ hs⟩

/-- What was sent for other entities does not touch the cells of an entity. -/
theorem filter_touches_of_ne {link : σ} {cell : String × String} (hne : e ≠ x) :
    (outcomes link (l.map (e, ·))).filter (·.touches x cell) = [] := by
  refine List.filter_eq_nil_iff.2 fun o ho htouches => hne ?_
  rw [Outcome.touches, Bool.and_eq_true, beq_iff_eq] at htouches
  exact (owner_of_mem_outcomes ho).1.symm.trans htouches.1

/-- One statement that writes into a cell has one outcome. -/
theorem filter_touches_self (link : σ) {cell : String × String} {y : Statement}
    (h : l.filter (·.touches cell) = [y]) :
    ∃ o, (outcomes link (l.map (e, ·))).filter (·.touches e cell) = [o] ∧ o.statement = y := by
  have hmap : ((outcomes link (l.map (e, ·))).filter (·.touches e cell)).map (·.statement) =
      l.filter (·.touches cell) := by
    have hown : (outcomes link (l.map (e, ·))).filter (·.touches e cell) =
        (outcomes link (l.map (e, ·))).filter fun o => o.statement.touches cell := by
      refine List.filter_congr fun o ho => ?_
      simp [Outcome.touches, (owner_of_mem_outcomes ho).1]
    have hstatements : (outcomes link (l.map (e, ·))).map (·.statement) = l := by
      have hmap : (outcomes link (l.map (e, ·))).map (fun o => (o.owner, o.statement)) =
          l.map (e, ·) := map_outcomes
      have hall := congrArg (List.map Prod.snd) hmap
      simpa [Function.comp_def] using hall
    conv_rhs => rw [← hstatements]
    rw [hown, List.filter_map]
    rfl
  rw [h] at hmap
  obtain ⟨o, ho, hstatement⟩ := List.map_eq_singleton_iff.1 hmap
  exact ⟨o, ho, hstatement⟩

end Save

end EntityGraph
