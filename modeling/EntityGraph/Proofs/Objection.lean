import EntityGraph.Proofs.Once

/-!
# Values that break constraints

With validation, the values of an entity are checked when the entity is about to be written. One that
breaks a constraint ends the call, and the entity is left as it was: nothing has been sent for it. But
what the traversal has written before stays written. With cascading, these are owned targets and the
entities that led to this one; without, there are none.

* `Spared` — an entity has not been written, and the others that have been are stored.

## Main results

* `Save.spared_rules`: a constraint is only found broken in an entity that has been spared.
* `Call.spared_of_violation`: what a call has done when it reports that a constraint is broken.
* `Call.writes_before_violation`: a call may have written owned targets by then.
-/

namespace EntityGraph

namespace Graph

variable {g g' g'' : Graph} {e x : EntityId} {key : String} {k : Value}

/-- An entity is as it was, apart from foreign keys that have received what they waited for. -/
structure Received (g g' : Graph) (x : EntityId) : Prop where
  stored : (g'.entity x).stored = (g.entity x).stored
  slot : ∀ name, g'.slot x name = g.slot x name ∨
    (g.entity x).pending.get? name ≠ none ∧ ∃ v, g'.slot x name = some (.dirty v)
  pending : ∀ name, (g.entity x).pending.get? name = none → (g'.entity x).pending.get? name = none

theorem Received.of_eq (h : g'.entity x = g.entity x) : Received g g' x :=
  ⟨by rw [h], fun name => .inl (by rw [Graph.slot, Graph.slot, h]), fun name hnone => by rw [h, hnone]⟩

theorem Received.trans (h : Received g g' x) (h' : Received g' g'' x) : Received g g'' x := by
  refine ⟨h'.stored.trans h.stored, fun name => ?_, fun name hnone => h'.pending name (h.pending name hnone)⟩
  rcases h'.slot name with heq | ⟨hwaits, hdirty⟩
  · rw [heq]
    exact h.slot name
  · exact .inr ⟨fun hnone => hwaits (h.pending name hnone), hdirty⟩

/-- A value for which the entity does not wait stays as it is. -/
theorem Received.slot_eq (h : Received g g' x) {name : String}
    (hfree : (g.entity x).pending.get? name = none) : g'.slot x name = g.slot x name :=
  (h.slot name).resolve_right fun hwaits => hwaits.1 hfree

/-- When another entity takes over a key, foreign keys that wait for it receive it. -/
theorem Announced.received (h : Announced e key k g g') (hx : x ≠ e) : Received g g' x := by
  refine ⟨h.stored x, fun name => ?_, fun name hnone => ?_⟩
  · rcases h.other x name hx with ⟨-, hslot⟩ | ⟨hwaited, -, a, v, -, -, hslot⟩
    · exact .inl hslot
    · rw [Graph.slot, Graph.slot, hslot]
      split
      · next hloaded => exact .inl hloaded.symm
      · exact .inr ⟨hwaited ▸ Option.some_ne_none e, v, rfl⟩
  · rcases h.other x name hx with ⟨hpending, -⟩ | htook
    · exact hpending.trans hnone
    · exact htook.settled

end Graph

open Save Traversal

namespace Save

variable {σ : Type} [Connection σ] {ses : Session} {c : Catalog} {e x : EntityId} {phase : Phase}
  {trail : Trail} {w : World σ} {t t' : Traversal EntityId σ} {l : List Statement} {key : Atomic}

/-! ### Rows that have been written -/

/-- The rows of an entity have been written: statements for it were sent and executed, it may have taken
over a key, and it has been marked. -/
structure WroteRows (c : Catalog) (e : EntityId) (key : Atomic) (l : List Statement)
    (t t' : Traversal EntityId σ) : Prop where
  isKey : (t.world.graph.entity e).schema.primaryKey = some key
  ran : Ran e l t t'
  beside : t.world.graph.Beside e key t'.world.graph
  received : ∀ x, x ≠ e → t.world.graph.Received t'.world.graph x
  wellFormed : t'.world.graph.WellFormed c

omit [Connection σ] in
/-- While rows of an entity are inserted, the others receive at most what they wait for. -/
theorem Inserting.received (h : Inserting c e key l t t') (hx : x ≠ e) :
    t.world.graph.Received t'.world.graph x := by
  rcases h.graph with hsame | ⟨-, k, hann⟩
  · exact .of_eq (by rw [hsame])
  · exact hann.received hx

/-- How inserting the rows of an entity ends well. -/
theorem wroteRows_insertRows (hwf : t.world.graph.WellFormed c) :
    (insertRows ses e).Ends t
      (fun _ t' => ∃ key l t'', WroteRows c e key l t t'' ∧ t' = marked e t'') (fun _ _ => True) := by
  refine (inserted_insertRows hwf).mono (fun _ t' hdone => ?_) fun _ _ _ => trivial
  obtain ⟨key, k, t'', hinserted, rfl⟩ := hdone
  exact ⟨key, _, t'', ⟨hinserted.isKey, hinserted.ran, hinserted.toInserting.beside,
    fun _ hx => hinserted.toInserting.received hx, hinserted.wellFormed⟩, rfl⟩

/-- How updating the rows of an entity that has a key ends well. -/
theorem wroteRows_updateRows (hwf : t.world.graph.WellFormed c)
    (hkey : (t.world.graph.entity e).schema.primaryKey = some key) :
    (updateRows ses e).Ends t
      (fun _ t' => ∃ key l t'', WroteRows c e key l t t'' ∧ t' = marked e t'') (fun _ _ => True) := by
  refine ends_updateRows (fun _ _ => trivial) (fun _ _ => ?_) fun key' s v hs hkey' _ _ _ => ?_
  · exact ⟨key, [], t,
      ⟨hkey, .of_executed (.refl e t), .refl e key _, fun _ _ => .of_eq rfl, hwf⟩, rfl⟩
  · subst hs
    refine ends_updateTables (fun t' hsent => ?_) fun _ _ _ _ _ => trivial
    exact ⟨key', _, t', ⟨hkey', .of_executed hsent, hsent.graph ▸ .refl e key' _,
      fun _ _ => .of_eq (by rw [hsent.graph]), hsent.graph ▸ hwf⟩, rfl⟩

namespace WroteRows

variable (h : WroteRows c e key l t t')

include h

theorem index_lt : e.index < t'.world.graph.entities.length :=
  h.beside.shape.length ▸ Graph.index_lt_of_primaryKey h.isKey

/-- The parts of the entity are marked. -/
theorem entity_marked (x : EntityId) : (marked e t').world.graph.entity x =
    if x ∈ t.world.graph.parts e then (t'.world.graph.entity x).persist
    else t'.world.graph.entity x := by
  rw [marked, Graph.entity_marked h.wellFormed h.index_lt, h.beside.shape.parts_eq]

theorem schema_marked (x : EntityId) :
    ((marked e t').world.graph.entity x).schema = (t.world.graph.entity x).schema := by
  rw [h.entity_marked, ← h.beside.shape.schema]
  split <;> rfl

/-- What is no part of the entity receives at most what it waits for. -/
theorem received_marked (hx : x ∉ t.world.graph.parts e) :
    t.world.graph.Received (marked e t').world.graph x := by
  have hne : x ≠ e := by
    rintro rfl
    exact hx (Graph.mem_parts_self _ _)
  refine (h.received x hne).trans (.of_eq ?_)
  rw [h.entity_marked, if_neg hx]

/-- The entity is stored, and so is still what was stored before. -/
theorem stored_marked (hx : x = e ∨ (t.world.graph.entity x).stored = true) :
    ((marked e t').world.graph.entity x).stored = true := by
  by_cases hpart : x ∈ t.world.graph.parts e
  · rw [h.entity_marked, if_pos hpart]
    rfl
  · refine (h.received_marked hpart).stored.trans (hx.resolve_left ?_)
    rintro rfl
    exact hpart (Graph.mem_parts_self _ _)

end WroteRows

/-! ### What a traversal leaves alone -/

/-- What a traversal keeps: all statements were executed, the entities that they were sent for are
stored, and parts of entities that have not been written are as they were, apart from foreign keys. -/
structure Sparing (w : World σ) (trail : Trail) (t : Traversal EntityId σ) : Prop
    extends Tidy w.graph trail t where
  link : t.world.wire.link = replay w.wire.link t.journal
  executed : ∀ o ∈ ledger w t, o.Executed ∧ (t.world.graph.entity o.owner).stored = true
  updating : ∀ x, (x, .updating) ∈ trail → (t.world.graph.entity x).schema.primaryKey.isSome
  received : ∀ x, (∀ e, x ∈ w.graph.parts e → (w.graph.entity e).schema.primaryKey.isSome →
    ¬Written trail t e) → w.graph.Received t.world.graph x

/-- An entity has not been written: nothing was sent for it, and its parts are as they were, apart from
foreign keys that have received what they waited for. All that was sent was executed, for other entities,
which are stored. -/
structure Spared (w : World σ) (t : Traversal EntityId σ) (e : EntityId) : Prop where
  unsent : t.sentFor e = []
  received : ∀ x ∈ w.graph.parts e, w.graph.Received t.world.graph x
  others : ∀ o ∈ ledger w t, o.owner ≠ e ∧ o.Executed ∧ (t.world.graph.entity o.owner).stored = true

/-- What the session has to say against an entity when it is about to be written, it says of one that
has been spared. -/
theorem Sparing.spared (h : Sparing w ((e, phase) :: trail) t) (hw : w.graph.WellFormed c)
    (hkey : (w.graph.entity e).schema.primaryKey.isSome) (hphase : phase ≠ .following) :
    Spared w t e where
  unsent := h.unsent e (not_written hphase)
  received x hx := h.received x fun d hd hdkey hwritten => by
    obtain rfl := hw.eq_of_mem_parts hx hd hkey hdkey
    exact not_written hphase hwritten
  others o ho := by
    obtain ⟨hexecuted, hstored⟩ := h.executed o ho
    refine ⟨?_, hexecuted, hstored⟩
    rintro rfl
    exact Deferral.sentFor_eq_nil_iff.1 (h.unsent _ (not_written hphase)) _ (mem_of_mem_outcomes ho) rfl

/-- Writing the rows of one entity leaves the others alone. -/
theorem Sparing.wrote (h : Sparing w ((e, phase) :: trail) t) (hphase : phase ≠ .following)
    (hshape : w.graph.SameShape t.world.graph) (hwrote : WroteRows c e key l t t')
    (honce : WroteOnce (w.graph.entity e).schema e t (marked e t')) :
    Sparing w ((e, .following) :: trail) (marked e t') := by
  have hself : e ∈ (marked e t').entered := honce.entered ▸ h.onPath (e, phase) List.mem_cons_self
  have hledger : ledger w (marked e t') =
      ledger w t ++ outcomes t.world.wire.link (l.map (e, ·)) :=
    ledger_append h.link hwrote.ran.journal
  have hkey : (w.graph.entity e).schema.primaryKey = some key := hshape.schema e ▸ hwrote.isKey
  refine ⟨h.toTidy.wrote hphase honce, ?_, fun o ho => ?_, fun x hx => ?_, fun x hx => ?_⟩
  · show t'.world.wire.link = replay w.wire.link t'.journal
    rw [hwrote.ran.link, hwrote.ran.journal, replay_append, h.link]
  · rw [hledger] at ho
    rcases List.mem_append.1 ho with ho | ho
    · exact ⟨(h.executed o ho).1, hwrote.stored_marked (.inr (h.executed o ho).2)⟩
    · exact ⟨hwrote.ran.all o ho, hwrote.stored_marked (.inl (owner_of_mem_outcomes ho).1)⟩
  · have hx : (x, Phase.updating) ∈ trail := by simpa using hx
    exact hwrote.schema_marked x ▸ h.updating x (List.mem_cons_of_mem _ hx)
  · have hpart : x ∉ w.graph.parts e :=
      fun hmem => hx e hmem (hkey ▸ rfl) (written_self hself h.distinct)
    have hbefore := h.received x fun d hxd hdkey hold => by
      have hde : d ≠ e := by
        rintro rfl
        exact hpart hxd
      exact hx d hxd hdkey ((written_following_iff hde honce.entered).2 hold)
    exact hbefore.trans (hwrote.received_marked (hshape.parts_eq e ▸ hpart))

theorem Sparing.start (w : World σ) : Sparing w [] { world := w } :=
  ⟨.start w, rfl, fun _ ho => absurd ho List.not_mem_nil, fun _ hx => absurd hx List.not_mem_nil,
    fun _ _ => .of_eq rfl⟩

/-- An entity that is entered is still to be written. -/
theorem Sparing.enter (h : Sparing w trail t) (hnew : e ∉ t.entered)
    (hlt : e.index < t.world.graph.entities.length) (hadmits : phase.Admits t.world.graph e) :
    Sparing w ((e, phase) :: trail) { t with entered := e :: t.entered } := by
  have hphase : phase ≠ .following := by
    rintro rfl
    exact hadmits
  refine ⟨h.toTidy.enter hnew hlt hphase, h.link, h.executed, fun x hx => ?_, fun x hx => ?_⟩
  · rcases List.mem_cons.1 hx with heq | hx
    · obtain ⟨rfl, rfl⟩ := Prod.mk.inj heq
      exact (Graph.of_key?_isSome hadmits).2
    · exact h.updating x hx
  · exact h.received x fun d hd hkey hold => hx d hd hkey ((written_enter_iff hnew hphase).2 hold)

/-- An entity that is left has been written. -/
theorem Sparing.leave (h : Sparing w ((e, .following) :: trail) t) (hmem : e ∈ t.entered) :
    Sparing w trail t :=
  ⟨h.toTidy.leave hmem, h.link, h.executed, fun x hx => h.updating x (List.mem_cons_of_mem _ hx),
    fun x hx => h.received x fun d hd hkey hold =>
      hx d hd hkey ((written_leave_iff hmem h.distinct).1 hold)⟩

/-- A failure is ordinary or exhausts a depth, or some value of an entity breaks a constraint, which the
session checks, and the entity has been spared. -/
def Blames (ses : Session) (w : World σ) (error : Error) (t : Traversal EntityId σ) : Prop :=
  error.Ordinary ∨ error = .exhausted ∨ ses.config.validate = true ∧ ∃ x a v fault,
    t.world.graph.Offends x a v fault ∧
      error = .violation (w.graph.entity x).schema.name a.name fault ∧ Spared w t x

/-- What is said against an entity with a key when its rows are about to be written blames it. -/
theorem Sparing.blames (h : Sparing w ((e, phase) :: trail) t) (hw : w.graph.WellFormed c)
    (hshape : w.graph.SameShape t.world.graph)
    (hkey : (w.graph.entity e).schema.primaryKey.isSome) (hphase : phase ≠ .following)
    {error : Error} (hobjected : Objected ses e t error t') : Blames ses w error t' := by
  rcases hobjected with hordinary | ⟨rfl, hordinary | ⟨hvalidate, a, v, fault, hoffends, rfl⟩⟩
  · exact .inl hordinary
  · exact .inl hordinary
  · refine .inr (.inr ⟨hvalidate, e, a, v, fault, hoffends, ?_, h.spared hw hkey hphase⟩)
    rw [hshape.schema]

/-- Writing rows leaves the others alone, and what is said against it blames the entity. -/
theorem Sparing.ends_rows {rows : SaveM σ Unit} (h : Sparing w ((e, phase) :: trail) t)
    (hw : w.graph.WellFormed c) (hshape : w.graph.SameShape t.world.graph)
    (hphase : phase ≠ .following) (hkey : (t.world.graph.entity e).schema.primaryKey.isSome)
    (hrows : rows.Ends t (fun _ t' => ∃ key l t'', WroteRows c e key l t t'' ∧ t' = marked e t'')
      fun _ _ => True)
    (honce : rows.Ends t (fun _ => WroteOnce (t.world.graph.entity e).schema e t)
      fun _ => WroteOnce (t.world.graph.entity e).schema e t)
    (hfails : rows.Ends t (fun _ _ => True) (Objected ses e t)) :
    rows.Ends t (fun _ => Sparing w ((e, .following) :: trail)) (Blames ses w) := by
  have hschema := hshape.schema e
  refine (hrows.and (honce.and hfails)).mono (fun _ t' hend => ?_) fun error t' hend => ?_
  · obtain ⟨⟨key, l, t'', hwrote, rfl⟩, honce, -⟩ := hend
    exact h.wrote hphase hshape hwrote (hschema ▸ honce)
  · exact h.blames hw hshape (hschema ▸ hkey) hphase hend.2.2

/-- A constraint is only found broken in an entity that has been spared. -/
theorem spared_rules (ses : Session) (bound : Nat) (hw : w.graph.WellFormed ses.catalog) :
    Events ses w.graph bound (fun _ => True) (Sparing w) (Blames ses w) where
  fail _ _ _ _ hfaulty := .inl hfaulty.ordinary
  exhausted _ _ _ _ := .inr (.inl rfl)
  skip _ _ _ _ _ _ _ := trivial
  enter _ _ _ _ h hnew hlt hadmits := h.enter hnew hlt hadmits
  insert trail t e h hsteady := by
    have hwf := hsteady.wellFormed
    cases hkey : (t.world.graph.entity e).schema.primaryKey with
    | none =>
      exact (ends_insertRows_of_noKey hkey).mono (fun _ _ hF => hF.elim) fun _ _ hend => .inl hend.1
    | some key =>
      exact h.ends_rows hw hsteady.shape (by decide) (hkey ▸ rfl) (wroteRows_insertRows hwf)
        (wroteOnce_insertRows hwf) fails_insertRows
  update trail t e h hsteady hlt := by
    have hwf := hsteady.wellFormed
    have hkeyed := h.updating e List.mem_cons_self
    obtain ⟨key, hkey⟩ := Option.isSome_iff_exists.1 hkeyed
    exact h.ends_rows hw hsteady.shape (by decide) hkeyed (wroteRows_updateRows hwf hkey)
      (wroteOnce_updateRows hwf) fails_updateRows
  leave _ _ _ h hmem _ := h.leave hmem

/-! ### Without cascading -/

/-- A failure is ordinary or exhausts a depth, or nothing has been sent before. -/
def BeforeSending (error : Error) (t : Traversal EntityId σ) : Prop :=
  error.Ordinary ∨ error = .exhausted ∨ t.journal = []

omit [Connection σ] in
/-- Without cascading, to visit an entity is to enter it and to write its rows. -/
theorem ends_visit_isolated {save : EntityId → SaveM σ Unit} {rows : SaveM σ Unit}
    {P : Traversal EntityId σ → Prop} {E : Error → Traversal EntityId σ → Prop}
    (hoff : ses.config.cascade = false) (hnew : e ∉ t.entered)
    (hrows : rows.Ends { t with entered := e :: t.entered } (fun _ => P) E) :
    (visit ses save e rows).Ends t (fun _ => P) E := by
  simp only [visit, hoff]
  rw [Act.ends_bind, Act.Ends, enter_of_not_mem hnew]
  simp only [Bool.not_true, Bool.false_eq_true, if_false]
  rw [Act.ends_bind]
  exact hrows.mono (fun _ _ h => h) fun _ _ h => h

end Save

namespace Call

variable {σ : Type} [Connection σ] {ses : Session} {e : EntityId} {w : World σ}

/-- Without cascading, a call does nothing, or it enters its entity and writes the rows of the entity. -/
theorem ends_alone {P : Traversal EntityId σ → Prop} {E : Error → Traversal EntityId σ → Prop}
    (call : Call) (hoff : ses.config.cascade = false) (depth : Nat) (hstart : P { world := w })
    (hfail : ∀ error, error.Ordinary ∨ error = .exhausted → E error { world := w })
    (hinsert : (insertRows ses e).Ends { world := w, entered := [e] } (fun _ => P) E)
    (hupdate : (w.graph.key? e).isSome →
      (updateRows ses e).Ends { world := w, entered := [e] } (fun _ => P) E) :
    (call.traverse ses e depth).Ends { world := w } (fun _ => P) E := by
  have hinserts : ∀ save, (insertWith ses save e).Ends { world := w } (fun _ => P) E := by
    intro save
    simp only [insertWith]
    rw [Act.ends_bind, ends_graph, Act.ends_ite]
    exact ⟨fun _ => hstart, fun _ => ends_visit_isolated hoff List.not_mem_nil hinsert⟩
  have hupdates : ∀ save, (updateWith ses save e).Ends { world := w } (fun _ => P) E := by
    intro save
    simp only [updateWith]
    rw [Act.ends_bind, ends_graph, Act.ends_ite]
    refine ⟨fun _ => hstart, fun hkey => ends_visit_isolated hoff List.not_mem_nil (hupdate ?_)⟩
    simpa [Option.isSome_iff_ne_none] using hkey
  cases call with
  | insert => exact hinserts _
  | update => exact hupdates _
  | save =>
    cases depth with
    | zero => exact hfail _ (.inr rfl)
    | succ depth =>
      show (saveFrom ses (depth + 1) e).Ends _ _ _
      rw [saveFrom, Act.ends_bind, ends_graph, Act.ends_bind, Act.ends_ofExcept]
      refine ⟨fun key _ => ?_, fun error herror => hfail error (.inl (Schema.ordinary_of_key herror))⟩
      rw [Act.ends_ite]
      exact ⟨fun _ => hupdates _, fun _ => hinserts _⟩

/-- Without cascading, a call has sent nothing when it reports that a constraint is broken. -/
theorem ends_isolated (call : Call) (hoff : ses.config.cascade = false) (depth : Nat) :
    (call.traverse ses e depth).Ends { world := w } (fun _ _ => True) BeforeSending := by
  have hfails : ∀ {rows : SaveM σ Unit}, rows.Ends { world := w, entered := [e] } (fun _ _ => True)
      (Objected ses e { world := w, entered := [e] }) →
      rows.Ends { world := w, entered := [e] } (fun _ _ => True) BeforeSending := fun hrows =>
    hrows.mono (fun _ _ _ => trivial) fun _ _ hobjected =>
      hobjected.imp_right fun hstart => .inr (by rw [hstart.1])
  exact call.ends_alone hoff depth trivial (fun _ h => h.imp_right .inl) (hfails fails_insertRows)
    fun _ => hfails fails_updateRows

/-- **A broken constraint spares its entity.** When a call reports that a constraint is broken, the
session checks constraints, and the value that breaks it is one of some entity or of its embedded
components. Nothing has been sent for that entity, which is as it was, apart from foreign keys; what has
been sent was executed, for other entities, which are stored; and without cascading nothing has been sent
at all. -/
theorem spared_of_violation (call : Call) (hbuilt : w.graph.Built ses.catalog)
    {entity property : String} {fault : Violation} {w' : World σ}
    (h : call.run ses e w = .error (.violation entity property fault) w')
    (hfault : fault.IsConstraint) :
    ses.config.validate = true ∧
    (∃ x a v, w'.graph.Offends x a v fault ∧ entity = (w.graph.entity x).schema.name ∧
      property = a.name ∧ Spared w (call.trace ses e w) x) ∧
    (ses.config.cascade = false → w'.wire.sent = w.wire.sent) := by
  have hw := hbuilt.wellFormed
  obtain ⟨htraverse, rfl⟩ := traverse_of_error h
  have hordinary : ¬(Error.violation entity property fault).Ordinary := fun hord => hord hfault
  have hends : (call.traverse ses e (depthBound w.graph)).Ends _ _ _ :=
    call.ends_events (spared_rules ses _ hw) (fun error _ _ hdeclared => .inl hdeclared.ordinary)
      (Sparing.start w) ⟨.refl _, hw⟩
  obtain hord | hexhausted | ⟨hvalidate, x, a, v, fault', hoffends, heq, hspared⟩ :=
    hends.of_error htraverse
  · exact absurd hord hordinary
  · cases hexhausted
  obtain ⟨rfl, rfl, rfl⟩ := Error.violation.inj heq
  refine ⟨hvalidate, ⟨x, a, v, hoffends, rfl, rfl, hspared⟩, fun hoff => ?_⟩
  obtain hord | hexhausted | hjournal := (ends_isolated call hoff _).of_error htraverse
  · exact absurd hord hordinary
  · cases hexhausted
  · rw [sent_trace call hw, hjournal, List.map_nil, List.append_nil]

end Call

namespace Shop

/-- Orders have a customer, and a remark, which they need. -/
def remarks : Catalog where
  definitions := [
    { name := "Order", steps := [.atomic key, .atomic (reference "customer_fk"),
        .atomic { name := "remark", column := "remark", kind := .string,
                  constraints := { notNull := true } },
        .component (refersTo "customer" "Customer" "customer_fk")] },
    { name := "Customer", steps := [.atomic key] }]

/-- An order without a remark, and its customer. -/
def unremarked : Graph :=
  Graph.Operation.runAll remarks
    [.create "Order", .create "Customer", .assignOne ⟨0⟩ "customer" (some ⟨1⟩)] {}

end Shop

namespace Call

/-- When an order lacks its remark, it is spared: its customer alone has been written. -/
theorem spared_of_violation_unremarked :
    let ses : Session := { catalog := Shop.remarks }
    let w := Shop.world Shop.unremarked
    (∃ w', save.run ses ⟨0⟩ w = .error (.violation "Order" "remark" .isNull) w' ∧
      ∃ x a v, w'.graph.Offends x a v .isNull ∧ "Order" = (Shop.unremarked.entity x).schema.name ∧
        "remark" = a.name ∧ Spared w (save.trace ses ⟨0⟩ w) x) ∧
    (save.trace ses ⟨0⟩ w).journal.map (·.1) = [⟨1⟩] := by
  intro ses w
  have hbuilt : w.graph.Built ses.catalog := .runAll _ .empty
  have hrun : save.run ses ⟨0⟩ w = .error (.violation "Order" "remark" .isNull) _ :=
    Act.eq_error_of_failure? (by decide)
  exact ⟨⟨_, hrun, (spared_of_violation save hbuilt hrun trivial).2.1⟩, by decide⟩

/-- A call may have written a customer by the time it finds that the order lacks its remark. -/
theorem writes_before_violation :
    ¬∀ (ses : Session) (w w' : World Counter) (e : EntityId) (entity property : String)
      (fault : Violation), w.graph.Built ses.catalog → ses.config.validate = true →
      fault.IsConstraint → save.run ses e w = .error (.violation entity property fault) w' →
        w'.wire.sent = w.wire.sent := by
  intro huntouched
  have hbuilt : Shop.unremarked.Built Shop.remarks := .runAll _ .empty
  have hrun : save.run { catalog := Shop.remarks } ⟨0⟩ (Shop.world Shop.unremarked) =
      .error (.violation "Order" "remark" .isNull) _ := Act.eq_error_of_failure? (by decide)
  have hsent := huntouched { catalog := Shop.remarks } (Shop.world Shop.unremarked) _ ⟨0⟩ "Order"
    "remark" .isNull hbuilt rfl trivial hrun
  have hlength := congrArg List.length hsent
  revert hlength
  decide

end Call

end EntityGraph
