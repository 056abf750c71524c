import EntityGraph.Proofs.Deferred

/-!
# Entities that are not written

An entity is not written while one of its foreign keys waits for the key of another entity. When its
statements are about to be built, the owned targets have been saved; if a foreign key still waits then,
the call fails, and nothing has been sent for the entity.

This holds of the foreign keys of the entity itself. Those of its embedded components are columns of
the same tables, but nobody asks whether they wait.

## Main results

* `Call.unsent_of_pending`: whatever waits when a call has ended has not been written by it.
* `Call.refused_of_pending`: a call fails when a foreign key of its entity waits at the moment of writing.
* `Call.insert_sent_of_embedded`: a foreign key of an embedded component does not keep its owner from
  being written.
-/

namespace EntityGraph

namespace Graph

variable {c : Catalog} {g g' g'' : Graph} {e : EntityId} {key : String} {w : Value}

/-- What waits for nothing goes on waiting for nothing. -/
def Settles (g g' : Graph) : Prop :=
  ∀ x, (g.entity x).pending = [] → (g'.entity x).pending = []

theorem Settles.refl (g : Graph) : Settles g g :=
  fun _ h => h

theorem Settles.trans (h : Settles g g') (h' : Settles g' g'') : Settles g g'' :=
  fun x hx => h' x (h x hx)

/-- A key that is announced makes nothing wait. -/
theorem Announced.settles (h : Announced e key w g g') : Settles g g' := by
  intro x hx
  by_cases hxe : x = e
  · subst hxe
    rw [h.self]
    exact hx
  · rw [h.settled x hxe hx]
    exact hx

/-- Marks make nothing wait. -/
theorem Settles.marked (hwf : g.WellFormed c) (hlt : e.index < g.entities.length) :
    Settles g ((g.markClean e).markStored e) := by
  intro x hx
  rw [pending_marked hwf hlt]
  exact hx

end Graph

open Save Traversal

namespace Save

variable {σ : Type} [Connection σ] {ses : Session} {c : Catalog} {e : EntityId} {trail : Trail}
  {t t' t'' : Traversal EntityId σ} {l : List Statement}

/-! ### What is known of writing the rows of an entity -/

/-- The rows of an entity that waits for nothing are being written, or have been. -/
structure Wrote (c : Catalog) (e : EntityId) (t t' : Traversal EntityId σ) : Prop
    extends SameFrame c t t' where
  free : (t.world.graph.entity e).pending = []
  settles : t.world.graph.Settles t'.world.graph
  journal : ∃ l : List Statement, t'.journal = t.journal ++ l.map (e, ·)

omit [Connection σ] in
theorem Wrote.start (hwf : t.world.graph.WellFormed c)
    (hfree : (t.world.graph.entity e).pending = []) : Wrote c e t t :=
  ⟨.refl hwf, hfree, .refl _, [], by simp⟩

omit [Connection σ] in
/-- More is sent for the entity. -/
theorem Wrote.sent (h : Wrote c e t t') (hsent : Sent e l t' t'') : Wrote c e t t'' := by
  obtain ⟨l', hl'⟩ := h.journal
  refine ⟨h.toSameFrame.sent hsent, h.free, hsent.graph ▸ h.settles, l' ++ l, ?_⟩
  rw [hsent.journal, hl', List.map_append, List.append_assoc]

omit [Connection σ] in
/-- Rows of the entity are inserted. -/
theorem Wrote.inserting {key : Atomic} (h : Inserting c e key l t t') : Wrote c e t t' := by
  refine ⟨h.sameFrame, h.free, ?_, l, h.journal⟩
  rcases h.graph with hsame | ⟨-, w, hann⟩
  · exact hsame ▸ .refl _
  · exact hann.settles

omit [Connection σ] in
/-- The entity is marked. -/
theorem Wrote.marked (h : Wrote c e t t') (hlt : e.index < t.world.graph.entities.length) :
    Wrote c e t (marked e t') := by
  have hlt' : e.index < t'.world.graph.entities.length := h.shape.length ▸ hlt
  exact ⟨h.toSameFrame.marked e, h.free, h.settles.trans (.marked h.wellFormed hlt'), h.journal⟩

/-- Inserting the rows of an entity is done only where the entity waits for nothing. -/
theorem wrote_insertRows (hwf : t.world.graph.WellFormed c) :
    (insertRows ses e).Ends t (fun _ => Wrote c e t) (fun _ t' => t' = t ∨ Wrote c e t t') := by
  refine (inserted_insertRows hwf).mono (fun _ t' hdone => ?_) fun _ t' hfailed => ?_
  · obtain ⟨key, k, t'', hinserted, rfl⟩ := hdone
    exact (Wrote.inserting hinserted.toInserting).marked (Graph.index_lt_of_primaryKey hinserted.isKey)
  · rcases hfailed with rfl | ⟨key, k, l, hinserting, -⟩
    · exact .inl rfl
    · exact .inr (.inserting hinserting)

/-- Updating the rows of an entity is done only where the entity waits for nothing. -/
theorem wrote_updateRows (hwf : t.world.graph.WellFormed c)
    (hlt : e.index < t.world.graph.entities.length) :
    (updateRows ses e).Ends t (fun _ => Wrote c e t) (fun _ t' => t' = t ∨ Wrote c e t t') := by
  refine ends_updateRows (fun _ _ => .inl rfl)
    (fun hfree _ => (Wrote.start hwf hfree).marked hlt) fun key s v _ _ _ hfree _ => ?_
  have hstart : Wrote c e t t := .start hwf hfree
  exact ends_updateTables (fun t' hsent => (hstart.sent hsent.toSent).marked hlt)
    fun _ _ _ _ hsent => .inr (hstart.sent hsent)

/-! ### What waits is not written -/

/-- Nothing has been sent for an entity that waits, and if it has been entered, its rows are still to
be written. -/
def Unwritten (trail : Trail) (t : Traversal EntityId σ) : Prop :=
  ∀ x, (t.world.graph.entity x).pending ≠ [] → t.sentFor x = [] ∧
    (x ∈ t.entered → ∃ phase, phase ≠ .following ∧ (x, phase) ∈ trail)

/-- Nothing has been sent for an entity that waits. -/
def Unsent (t : Traversal EntityId σ) : Prop :=
  ∀ x, (t.world.graph.entity x).pending ≠ [] → t.sentFor x = []

omit [Connection σ] in
/-- The rows of one entity that waits for nothing are no rows of an entity that waits. -/
theorem Unwritten.wrote {phase : Phase} (h : Unwritten ((e, phase) :: trail) t)
    (hwrote : Wrote c e t t') : Unwritten ((e, .following) :: trail) t' := by
  intro x hx
  have hwaits : (t.world.graph.entity x).pending ≠ [] := fun hnil => hx (hwrote.settles x hnil)
  have hne : e ≠ x := by
    rintro rfl
    exact hwaits hwrote.free
  obtain ⟨hsent, htrail⟩ := h x hwaits
  obtain ⟨l, hl⟩ := hwrote.journal
  refine ⟨?_, fun hmem => ?_⟩
  · rw [sentFor_append x hl, hsent, if_neg hne, List.append_nil]
  · obtain ⟨phase', hphase, hmem'⟩ := htrail (hwrote.entered ▸ hmem)
    refine ⟨phase', hphase, ?_⟩
    rcases List.mem_cons.1 hmem' with heq | hmem'
    · exact absurd (congrArg Prod.fst heq).symm hne
    · exact List.mem_cons_of_mem _ hmem'

/-- The events of a save write nothing that waits. -/
theorem unwritten_rules (ses : Session) (g₀ : Graph) :
    Rules ses g₀ (fun _ => True) Unwritten (Unsent : Traversal EntityId σ → Prop) where
  fail _ _ h x hx := (h x hx).1
  skip _ _ _ _ _ _ _ := trivial
  enter trail t e phase h _ hphase := by
    intro x hx
    obtain ⟨hsent, htrail⟩ := h x hx
    refine ⟨hsent, fun hmem => ?_⟩
    rcases List.mem_cons.1 hmem with rfl | hmem
    · refine ⟨phase, ?_, List.mem_cons_self⟩
      rintro rfl
      exact hphase
    · obtain ⟨phase', hne, hmem'⟩ := htrail hmem
      exact ⟨phase', hne, List.mem_cons_of_mem _ hmem'⟩
  insert trail t e h hsteady := by
    refine (wrote_insertRows hsteady.wellFormed).mono (fun _ t' hwrote => h.wrote hwrote)
      fun _ t' hend x hx => ?_
    rcases hend with rfl | hwrote
    · exact (h x hx).1
    · exact (h.wrote hwrote x hx).1
  update trail t e h hsteady hlt := by
    refine (wrote_updateRows hsteady.wellFormed hlt).mono (fun _ t' hwrote => h.wrote hwrote)
      fun _ t' hend x hx => ?_
    rcases hend with rfl | hwrote
    · exact (h x hx).1
    · exact (h.wrote hwrote x hx).1
  leave trail t e h _ _ := by
    intro x hx
    obtain ⟨hsent, htrail⟩ := h x hx
    refine ⟨hsent, fun hmem => ?_⟩
    obtain ⟨phase, hphase, hmem'⟩ := htrail hmem
    rcases List.mem_cons.1 hmem' with heq | hmem'
    · exact absurd (congrArg Prod.snd heq) hphase
    · exact ⟨phase, hphase, hmem'⟩

/-! ### The moment of writing -/

/-- What is done once an entity has been entered and before its rows are written: with cascading, its
owned targets are saved. -/
def prepare (ses : Session) (save : EntityId → SaveM σ Unit) (e : EntityId) : SaveM σ Unit :=
  if ses.config.cascade then saveOwnedTargets ses.catalog save e else pure ()

/-- Rows are not inserted while a foreign key waits. -/
theorem insertRows_of_pending (h : (t.world.graph.entity e).pending ≠ []) :
    (insertRows ses e).Ends t (fun _ _ => False) (fun _ t' => t' = t) :=
  ends_insertRows (fun _ _ => rfl) fun _ _ _ _ _ _ hok => absurd (of_checkInsert hok).1 h

/-- Rows are not updated while a foreign key waits. -/
theorem updateRows_of_pending (h : (t.world.graph.entity e).pending ≠ []) :
    (updateRows ses e).Ends t (fun _ _ => False) (fun _ t' => t' = t) :=
  ends_updateRows (fun _ _ => rfl) (fun hnil _ => absurd hnil h)
    fun _ _ _ _ _ _ hnil _ => absurd hnil h

variable {save : EntityId → SaveM σ Unit} {rows : SaveM σ Unit}

omit [Connection σ] in
/-- A visit ends as its rows do, and what its relations lead to after them, once everything has been done
that comes before. -/
theorem ends_visit_of_prepare {P : Unit → Traversal EntityId σ → Prop}
    {E : Error → Traversal EntityId σ → Prop} (hnew : e ∉ t.entered)
    (h : (prepare ses save e).Ends { t with entered := e :: t.entered }
      (fun _ t' => (rows >>= fun _ =>
        if ses.config.cascade then saveRelations save e else pure ()).Ends t' P E) E) :
    (visit ses save e rows).Ends t P E := by
  unfold visit
  rw [Act.ends_bind, Act.Ends, enter_of_not_mem hnew]
  simp only [Bool.not_true, Bool.false_eq_true, if_false]
  unfold prepare at h
  rw [Act.ends_ite] at h ⊢
  refine ⟨fun hon => ?_, fun hoff => h.2 hoff⟩
  rw [Act.ends_bind]
  exact h.1 hon

omit [Connection σ] in
/-- A visit ends with what comes before the rows, if the rows are not written. -/
theorem visit_of_refused (hnew : e ∉ t.entered)
    (hrows : (rows.Ends ((prepare ses save e).final { t with entered := e :: t.entered })
      (fun _ _ => False) fun _ t' =>
        t' = (prepare ses save e).final { t with entered := e :: t.entered })) :
    (visit ses save e rows).Ends t (fun _ _ => False) fun _ t' =>
      t' = (prepare ses save e).final { t with entered := e :: t.entered } := by
  refine ends_visit_of_prepare hnew ((Act.ends_final _ _).mono (fun _ t' ht' => ?_) fun _ _ h => h)
  rw [ht', Act.ends_bind]
  exact hrows.mono (fun _ _ h => h.elim) fun _ _ h => h

end Save

namespace Call

variable {σ : Type} [Connection σ] {ses : Session} {e : EntityId} {w : World σ}

/-- The bound that is left when a call has entered its entity. -/
def bound (g : Graph) : Call → Nat
  | save => g.entities.length
  | _ => depthBound g

/-- The moment at which a call writes its entity, or the failure that it meets before. -/
def moment (ses : Session) (e : EntityId) (call : Call) (w : World σ) : Traversal EntityId σ :=
  (prepare ses (saveFrom ses (call.bound w.graph)) e).final { world := w, entered := [e] }

/-- An entity that waits when a call has ended has not been written by the call, and has not been
entered if the call has succeeded. -/
theorem unsent_of_pending (call : Call) (hbuilt : w.graph.Built ses.catalog) {x : EntityId}
    (h : ((call.trace ses e w).world.graph.entity x).pending ≠ []) :
    (call.trace ses e w).sentFor x = [] ∧
      ∀ w', call.run ses e w = .ok () w' → x ∉ (call.trace ses e w).entered := by
  have hstart : Unwritten [] ({ world := w } : Traversal EntityId σ) :=
    fun x _ => ⟨rfl, fun hmem => absurd hmem List.not_mem_nil⟩
  have hends := ends_traverse (unwritten_rules ses w.graph) call e (depthBound w.graph) hstart
    ⟨.refl _, hbuilt.wellFormed⟩
  refine ⟨?_, fun w' hrun hmem => ?_⟩
  · have hfinal := Act.ends_final_iff.1 (hends.mono (F := fun _ => Unsent)
      (fun _ _ ht x hx => (ht.holds x hx).1) fun _ _ hE => hE)
    exact hfinal x h
  · obtain ⟨-, htrail⟩ := (hends.of_ok (traverse_of_run hrun).1).holds x h
    obtain ⟨_, _, hnil⟩ := htrail hmem
    cases hnil

/-- A call that comes to write its entity ends at the moment of writing, if the entity waits then. A
save ends at once where the entity has no schema with a key. -/
theorem ends_traverse_of_pending (call : Call) (hwrites : call.Writes w.graph e)
    (h : ((call.moment ses e w).world.graph.entity e).pending ≠ []) :
    (call.traverse ses e (depthBound w.graph)).Ends { world := w } (fun _ _ => False)
      (fun _ t => t = call.moment ses e w ∨ t = { world := w }) := by
  have hinsert : ∀ depth, (w.graph.entity e).stored = false →
      (((prepare ses (saveFrom ses depth) e).final { world := w, entered := [e] } :
        Traversal EntityId σ).world.graph.entity e).pending ≠ [] →
      (insertWith ses (saveFrom ses depth) e).Ends { world := w } (fun _ _ => False) (fun _ t =>
        t = (prepare ses (saveFrom ses depth) e).final { world := w, entered := [e] }) := by
    intro depth hnew hpending
    simp only [insertWith, Act.ends_bind, ends_graph, Act.ends_ite]
    refine ⟨fun hstored => ?_, fun _ =>
      visit_of_refused List.not_mem_nil (insertRows_of_pending hpending)⟩
    rw [hnew] at hstored
    cases hstored
  have hupdate : ∀ depth, (w.graph.key? e).isSome →
      (((prepare ses (saveFrom ses depth) e).final { world := w, entered := [e] } :
        Traversal EntityId σ).world.graph.entity e).pending ≠ [] →
      (updateWith ses (saveFrom ses depth) e).Ends { world := w } (fun _ _ => False) (fun _ t =>
        t = (prepare ses (saveFrom ses depth) e).final { world := w, entered := [e] }) := by
    intro depth hkey hpending
    simp only [updateWith, Act.ends_bind, ends_graph, Act.ends_ite]
    refine ⟨fun hnone => ?_, fun _ =>
      visit_of_refused List.not_mem_nil (updateRows_of_pending hpending)⟩
    rw [Option.isNone_iff_eq_none] at hnone
    rw [hnone] at hkey
    cases hkey
  cases call with
  | insert => exact (hinsert _ hwrites h).mono (fun _ _ hF => hF) fun _ _ ht => .inl ht
  | update => exact (hupdate _ hwrites h).mono (fun _ _ hF => hF) fun _ _ ht => .inl ht
  | save =>
    show (saveFrom ses (w.graph.entities.length + 1) e).Ends _ _ _
    simp only [saveFrom, Act.ends_bind, ends_graph, Act.ends_ofExcept]
    refine ⟨fun key _ => ?_, fun _ _ => .inr trivial⟩
    rw [Act.ends_ite]
    refine ⟨fun hexists => ?_, fun hnew => ?_⟩
    · refine (hupdate _ ?_ h).mono (fun _ _ hF => hF) fun _ _ ht => .inl ht
      -- storage has the entity, or the database has made its key
      by_cases hgenerated : key.generated = true
      · simpa [hgenerated, Graph.key?] using hexists
      · rcases hwrites with hstored | hkey
        · simp [hgenerated, hstored] at hexists
        · exact hkey
    · refine (hinsert _ ?_ h).mono (fun _ _ hF => hF) fun _ _ ht => .inl ht
      by_cases hgenerated : key.generated = true
      · rcases hwrites with hstored | hkey
        · exact hstored
        · have hnone : (w.graph.entity e).key?.isSome = false := by simpa [hgenerated] using hnew
          rw [Graph.key?, hnone] at hkey
          cases hkey
      · simpa [hgenerated] using hnew

/-- **No silent null.** If a foreign key of an entity still waits at the moment at which a call would
write the entity, the call fails, and nothing has been sent for the entity. -/
theorem refused_of_pending (call : Call) (hbuilt : w.graph.Built ses.catalog)
    (hwrites : call.Writes w.graph e)
    (h : ((call.moment ses e w).world.graph.entity e).pending ≠ []) :
    (∃ error w', call.run ses e w = .error error w') ∧ (call.trace ses e w).sentFor e = [] := by
  have hends := ends_traverse_of_pending call hwrites h
  cases htraverse : call.traverse ses e (depthBound w.graph) { world := w } with
  | ok _ t => exact (hends.of_ok htraverse).elim
  | error error t =>
    obtain ⟨hrun, htrace⟩ := run_of_traverse htraverse
    refine ⟨⟨error, t.world, hrun⟩, ?_⟩
    rcases hends.of_error htraverse with ht | ht
    · refine (unsent_of_pending call hbuilt ?_).1
      rw [htrace, ht]
      exact h
    · rw [htrace, ht]
      rfl

end Call

namespace Shop

/-- A session of the shop that does not cascade. -/
def isolated : Session :=
  { catalog, config := { cascade := false } }

/-- People live at addresses, which are embedded and refer to cities. -/
def residence : Catalog where
  definitions := [
    { name := "Person", steps := [.atomic key, .embed "home" "Address"] },
    { name := "Address", embeddable := true, steps := [.atomic (reference "city_fk"),
        .component (refersTo "city" "City" "city_fk")] },
    { name := "City", steps := [.atomic key] }]

/-- A person with a home in a city that storage does not have. -/
def resident : Graph :=
  Graph.Operation.runAll residence
    [.create "Person", .embedded ⟨0⟩ "home", .create "City", .assignOne ⟨1⟩ "city" (some ⟨2⟩)] {}

end Shop

namespace Call

/-- Without cascading, an order is not saved before its customer. -/
theorem refused_of_pending_order :
    (∃ error w', save.run Shop.isolated ⟨0⟩ (Shop.world Shop.orders) = .error error w') ∧
      (save.trace Shop.isolated ⟨0⟩ (Shop.world Shop.orders)).sentFor ⟨0⟩ = [] := by
  have hbuilt : Shop.orders.Built Shop.isolated.catalog := .runAll _ .empty
  have hnew : (Shop.orders.entity ⟨0⟩).stored = false := by decide
  have hwaits : ((save.moment Shop.isolated ⟨0⟩ (Shop.world Shop.orders)).world.graph.entity
      ⟨0⟩).pending ≠ [] := by decide
  exact refused_of_pending (w := Shop.world Shop.orders) save hbuilt (.inl hnew) hwaits

/-- A foreign key of an embedded component does not keep the owner from being written: the home of a
person waits for the key of a city, at the moment of writing, and the person is inserted all the
same. -/
theorem insert_sent_of_embedded :
    let ses : Session := { catalog := Shop.residence }
    let w := Shop.world Shop.resident
    Shop.resident.Built Shop.residence ∧ Shop.resident.parts ⟨0⟩ = [⟨0⟩, ⟨1⟩] ∧
      ∀ call ∈ [save, insert],
        call.Writes Shop.resident ⟨0⟩ ∧
        ((call.moment ses ⟨0⟩ w).world.graph.entity ⟨1⟩).pending = [("city_fk", ⟨2⟩)] ∧
        (call.moment ses ⟨0⟩ w).world.graph.key? ⟨2⟩ = none ∧
        (call.run ses ⟨0⟩).succeeds w = true ∧
        ((call.trace ses ⟨0⟩ w).sentFor ⟨0⟩).map (Statement.text .mysql) =
          ["INSERT INTO `Person` () VALUES ()"] := by
  intro ses w
  have hnew : (Shop.resident.entity ⟨0⟩).stored = false := by decide
  refine ⟨.runAll _ .empty, by decide, ?_⟩
  intro call hcall
  have hcases : call = save ∨ call = insert := by simpa using hcall
  rcases hcases with rfl | rfl
  · exact ⟨.inl hnew, by decide, by decide, by decide, by decide⟩
  · exact ⟨hnew, by decide, by decide, by decide, by decide⟩

end Call

end EntityGraph
