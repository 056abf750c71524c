import EntityGraph.Proofs.Ledger

/-!
# A call ends, and writes each entity once

A traversal enters every entity at most once, so that it is never deeper than there are entities, and
one that has enough depth does the same with more. For each entity it makes at most one write: an
insert, with at most one `INSERT` for each table that the schema lists, or an update, with at most one
`UPDATE` for each.

* `Act.Agrees act act'` — unless `act` exhausts its depth, `act'` does the same;
* `SingleWrite s l` — some statements are those of one insert, or of one update.

## Main results

* `Save.agrees_saveFrom`: a save with more depth agrees with one that has less.
* `Save.once_rules`: entering and writing entities keeps it that each of them is written once.
* `Call.writes_once`: every call ends without exhausting its depth, and writes each entity once.
-/

namespace EntityGraph

/-! ### More depth -/

namespace Act

variable {σ α β : Type}

/-- Unless some work exhausts its depth, other work does the same. -/
def Agrees (act act' : Act σ α) : Prop :=
  ∀ s, (∃ t, act s = .error .exhausted t) ∨ act' s = act s

theorem Agrees.refl (act : Act σ α) : Agrees act act :=
  fun _ => .inr rfl

theorem Agrees.trans {act act' act'' : Act σ α} (h : Agrees act act') (h' : Agrees act' act'') :
    Agrees act act'' := by
  intro s
  rcases h s with hout | heq
  · exact .inl hout
  · rcases h' s with ⟨t, hout⟩ | heq'
    · exact .inl ⟨t, heq ▸ hout⟩
    · exact .inr (heq'.trans heq)

theorem Agrees.bind {act act' : Act σ β} {f f' : β → Act σ α} (h : Agrees act act')
    (hf : ∀ b, Agrees (f b) (f' b)) : Agrees (act >>= f) (act' >>= f') := by
  intro s
  simp only [Bind.bind, EStateM.bind]
  rcases h s with ⟨t, hout⟩ | heq
  · exact .inl ⟨t, by rw [hout]⟩
  · rw [heq]
    cases act s with
    | ok b t => exact hf b t
    | error e t => exact .inr rfl

theorem Agrees.ite {c : Prop} [Decidable c] {act act' other other' : Act σ α} (h : Agrees act act')
    (h' : Agrees other other') : Agrees (if c then act else other) (if c then act' else other') := by
  split
  · exact h
  · exact h'

theorem agrees_forM {l : List β} {f f' : β → Act σ Unit} (h : ∀ b, Agrees (f b) (f' b)) :
    Agrees (l.forM f) (l.forM f') := by
  induction l with
  | nil => exact .refl _
  | cons b l ih => exact (h b).bind fun _ => ih

theorem agrees_mapM {l : List β} {f f' : β → Act σ α} (h : ∀ b, Agrees (f b) (f' b)) :
    Agrees (l.mapM f) (l.mapM f') := by
  induction l with
  | nil => exact .refl _
  | cons b l ih =>
    rw [List.mapM_cons, List.mapM_cons]
    exact (h b).bind fun _ => ih.bind fun _ => .refl _

end Act

namespace Save

open Act Traversal

variable {σ : Type} [Connection σ] {ses : Session} {save save' : EntityId → SaveM σ Unit}

omit [Connection σ] in
/-- Owned targets are saved in the same way if each of them is. -/
theorem agrees_saveOwnedTargets (h : ∀ x, Agrees (save x) (save' x)) (c : Catalog) (e : EntityId) :
    Agrees (saveOwnedTargets c save e) (saveOwnedTargets c save' e) := by
  refine (Agrees.refl _).bind fun g => agrees_forM fun r => ?_
  split
  · refine (Agrees.refl _).bind fun g => .ite (.refl _) ?_
    exact (Agrees.refl _).bind fun join => .ite (h _) (.refl _)
  · exact .refl _

omit [Connection σ] in
/-- What loaded relations lead to is saved in the same way if each of it is. -/
theorem agrees_saveRelations (h : ∀ x, Agrees (save x) (save' x)) (e : EntityId) :
    Agrees (saveRelations save e) (saveRelations save' e) :=
  (Agrees.refl _).bind fun _ => agrees_forM fun _ => (Agrees.refl _).bind fun _ => agrees_forM h

omit [Connection σ] in
/-- An entity is visited in the same way if all that it leads to is saved in the same way. -/
theorem agrees_visit (h : ∀ x, Agrees (save x) (save' x)) (e : EntityId) (rows : SaveM σ Unit) :
    Agrees (visit ses save e rows) (visit ses save' e rows) := by
  have hafter : Agrees (do rows; if ses.config.cascade then saveRelations save e)
      (do rows; if ses.config.cascade then saveRelations save' e) :=
    (Agrees.refl _).bind fun _ => .ite (agrees_saveRelations h e) (.refl _)
  refine (Agrees.refl _).bind fun first => .ite (.refl _) (.ite ?_ hafter)
  exact (agrees_saveOwnedTargets h _ e).bind fun _ => hafter

theorem agrees_insertWith (h : ∀ x, Agrees (save x) (save' x)) (e : EntityId) :
    Agrees (insertWith ses save e) (insertWith ses save' e) :=
  (Agrees.refl _).bind fun _ => .ite (.refl _) (agrees_visit h e _)

theorem agrees_updateWith (h : ∀ x, Agrees (save x) (save' x)) (e : EntityId) :
    Agrees (updateWith ses save e) (updateWith ses save' e) :=
  (Agrees.refl _).bind fun _ => .ite (.refl _) (agrees_visit h e _)

/-- A save with one more level agrees. -/
theorem agrees_saveFrom_succ (depth : Nat) (e : EntityId) :
    Agrees (saveFrom ses depth e : SaveM σ Unit) (saveFrom ses (depth + 1) e) := by
  induction depth generalizing e with
  | zero => exact fun s => .inl ⟨s, rfl⟩
  | succ depth ih =>
    rw [saveFrom, saveFrom]
    refine (Agrees.refl _).bind fun g => (Agrees.refl _).bind fun key => .ite ?_ ?_
    · exact agrees_updateWith ih e
    · exact agrees_insertWith ih e

/-- A save with more depth agrees. -/
theorem agrees_saveFrom {depth depth' : Nat} (h : depth ≤ depth') (e : EntityId) :
    Agrees (saveFrom ses depth e : SaveM σ Unit) (saveFrom ses depth' e) := by
  induction h with
  | refl => exact .refl _
  | step _ ih => exact ih.trans (agrees_saveFrom_succ _ e)

end Save

/-- A call with more depth agrees. -/
theorem Call.agrees_traverse {σ : Type} [Connection σ] {depth depth' : Nat} (ses : Session) (e : EntityId)
    (call : Call) (h : depth ≤ depth') :
    Act.Agrees (call.traverse ses e depth : SaveM σ Unit) (call.traverse ses e depth') := by
  cases call with
  | save => exact Save.agrees_saveFrom h e
  | insert => exact Save.agrees_insertWith (Save.agrees_saveFrom h) e
  | update => exact Save.agrees_updateWith (Save.agrees_saveFrom h) e

/-! ### One write -/

/-- Statements are those of at most one insert, or of at most one update: they are all of one kind, and
about tables of a schema, in order, about each as often as the schema lists it at most. -/
structure SingleWrite (s : Schema) (l : List Statement) : Prop where
  tables : (l.map Statement.table?).Sublist (s.tables.map some)
  kind : (∀ y ∈ l, ∃ i, y = .insert i) ∨ ∀ y ∈ l, ∃ u, y = .update u

theorem SingleWrite.nil (s : Schema) : SingleWrite s [] :=
  ⟨List.nil_sublist _, .inl fun _ hy => absurd hy List.not_mem_nil⟩

/-- The first statements of a write are those of one. -/
theorem SingleWrite.of_prefix {s : Schema} {l l' : List Statement} (h : SingleWrite s l')
    (hl : l <+: l') : SingleWrite s l :=
  ⟨(hl.sublist.map _).trans h.tables,
    h.kind.imp (fun hall y hy => hall y (hl.subset hy)) fun hall y hy => hall y (hl.subset hy)⟩

namespace Save

open Traversal

variable {s : Schema} {values : List (Atomic × Value)} {key : Atomic} {k : Value}

/-- The inserts of an entity are one for each of its tables, in order. -/
theorem tables_inserts : (inserts s values key k).map Statement.table? = s.tables.map some := by
  have htables : (restColumns s values).map (·.1) = s.secondary := tables_columnsFrom _ _ _ _
  rw [Schema.tables, ← htables, inserts, List.map_cons, List.map_cons, List.map_map, List.map_map]
  rfl

/-- The inserts of an entity are inserts. -/
theorem exists_insert_of_mem_inserts {y : Statement} (hy : y ∈ inserts s values key k) :
    ∃ i, y = .insert i := by
  rcases List.mem_cons.1 hy with rfl | hy
  · exact ⟨_, rfl⟩
  · obtain ⟨x, -, rfl⟩ := List.mem_map.1 hy
    exact ⟨_, rfl⟩

/-- The inserts of an entity are one write. -/
theorem singleWrite_inserts : SingleWrite s (inserts s values key k) :=
  ⟨tables_inserts ▸ List.Sublist.refl _, .inl fun _ => exists_insert_of_mem_inserts⟩

/-- The updates of an entity are one write. -/
theorem singleWrite_updates :
    SingleWrite s ((updates key k (columnsByTable s values)).map .update) := by
  have htables : (columnsByTable s values).map (·.1) = s.tables := tables_columnsFrom _ _ _ _
  refine ⟨?_, .inr fun y hy => ?_⟩
  · rw [← htables, List.map_map, List.map_map]
    have hsub := (List.filter_sublist (p := (!·.columns.isEmpty))
      (l := (columnsByTable s values).map (tableUpdate key k))).map fun u => some u.table
    refine hsub.trans ?_
    rw [List.map_map]
    have hmap : (columnsByTable s values).map ((fun u : Update => some u.table) ∘ tableUpdate key k) =
        (columnsByTable s values).map (some ∘ (·.1)) :=
      List.map_congr_left fun x _ => congrArg some (table_tableUpdate key k x)
    rw [hmap]
  · obtain ⟨u, -, rfl⟩ := List.mem_map.1 hy
    exact ⟨u, rfl⟩

variable {σ : Type} [Connection σ] {ses : Session} {c : Catalog} {e : EntityId} {phase : Phase}
  {trail : Trail} {g₀ : Graph} {t t' : Traversal EntityId σ}

/-- Nothing has been entered twice, and for each entity there is at most one write. -/
structure Once (g₀ : Graph) (t : Traversal EntityId σ) : Prop where
  entered : t.entered.Nodup
  single : ∀ x, SingleWrite (g₀.entity x).schema (t.sentFor x)

/-- What a traversal keeps: the entities on the path differ, and there is no write for an entity whose
rows are still to be written. -/
structure Tidy (g₀ : Graph) (trail : Trail) (t : Traversal EntityId σ) : Prop extends Once g₀ t where
  size : t.world.graph.entities.length = g₀.entities.length
  exist : ∀ p ∈ trail, p.1.index < g₀.entities.length
  onPath : ∀ p ∈ trail, p.1 ∈ t.entered
  distinct : (trail.map (·.1)).Nodup
  unsent : ∀ x, ¬Written trail t x → t.sentFor x = []

omit [Connection σ] in
theorem Tidy.start (w : World σ) : Tidy w.graph [] { world := w } :=
  ⟨⟨List.nodup_nil, fun _ => .nil _⟩, rfl, fun _ hp => absurd hp List.not_mem_nil,
    fun _ hp => absurd hp List.not_mem_nil, List.nodup_nil, fun _ _ => rfl⟩

omit [Connection σ] in
/-- The path is not longer than there are entities. -/
theorem Tidy.length_le (h : Tidy g₀ trail t) : trail.length ≤ g₀.entities.length := by
  by_contra hlong
  have hfits : Fits g₀.entities.length 0 (trail.map (·.1)) := by
    refine ⟨h.distinct, fun x hx => ?_, ?_⟩
    · obtain ⟨p, hp, rfl⟩ := List.mem_map.1 hx
      exact h.exist p hp
    · rw [List.length_map]
      omega
  exact absurd hfits.depth_pos (Nat.lt_irrefl 0)

omit [Connection σ] in
/-- An entity that is entered has not been entered before. -/
theorem Tidy.enter (h : Tidy g₀ trail t) (hnew : e ∉ t.entered)
    (hlt : e.index < t.world.graph.entities.length) (hphase : phase ≠ .following) :
    Tidy g₀ ((e, phase) :: trail) { t with entered := e :: t.entered } where
  entered := List.nodup_cons.2 ⟨hnew, h.entered⟩
  single := h.single
  size := h.size
  exist p hp := by
    rcases List.mem_cons.1 hp with rfl | hp
    · exact h.size ▸ hlt
    · exact h.exist p hp
  onPath p hp := by
    rcases List.mem_cons.1 hp with rfl | hp
    · exact List.mem_cons_self
    · exact List.mem_cons_of_mem _ (h.onPath p hp)
  distinct := by
    rw [List.map_cons, List.nodup_cons]
    refine ⟨fun hmem => hnew ?_, h.distinct⟩
    obtain ⟨p, hp, rfl⟩ := List.mem_map.1 hmem
    exact h.onPath p hp
  unsent x hx := h.unsent x fun hold => hx ((written_enter_iff hnew hphase).2 hold)

omit [Connection σ] in
/-- An entity that is left has been written. -/
theorem Tidy.leave (h : Tidy g₀ ((e, .following) :: trail) t) (hmem : e ∈ t.entered) :
    Tidy g₀ trail t where
  entered := h.entered
  single := h.single
  size := h.size
  exist p hp := h.exist p (List.mem_cons_of_mem _ hp)
  onPath p hp := h.onPath p (List.mem_cons_of_mem _ hp)
  distinct := (List.nodup_cons.1 h.distinct).2
  unsent x hx := h.unsent x fun hold => hx ((written_leave_iff hmem h.distinct).1 hold)

/-- Statements of one write have been sent for an entity, and nothing else has been entered. -/
structure WroteOnce (s : Schema) (e : EntityId) (t t' : Traversal EntityId σ) : Prop where
  size : t'.world.graph.entities.length = t.world.graph.entities.length
  entered : t'.entered = t.entered
  journal : ∃ l : List Statement, t'.journal = t.journal ++ l.map (e, ·) ∧ SingleWrite s l

/-- Inserting the rows of an entity is one write. -/
theorem wroteOnce_insertRows (hwf : t.world.graph.WellFormed c) :
    (insertRows ses e).Ends t (fun _ => WroteOnce (t.world.graph.entity e).schema e t)
      (fun _ => WroteOnce (t.world.graph.entity e).schema e t) := by
  refine ((inserted_insertRows hwf).and (sameFrame_insertRows hwf)).mono (fun _ t' hdone => ?_)
    fun _ t' hfailed => ?_
  · obtain ⟨⟨key, k, t'', hinserted, rfl⟩, hframe⟩ := hdone
    exact ⟨hframe.shape.length, hframe.entered, _, hinserted.journal, singleWrite_inserts⟩
  · obtain ⟨rfl | ⟨key, k, l, hinserting, hl⟩, hframe⟩ := hfailed
    · exact ⟨rfl, rfl, [], by simp, .nil _⟩
    · exact ⟨hframe.shape.length, hframe.entered, l, hinserting.journal,
        singleWrite_inserts.of_prefix hl⟩

/-- Updating the rows of an entity is one write. -/
theorem wroteOnce_updateRows (hwf : t.world.graph.WellFormed c) :
    (updateRows ses e).Ends t (fun _ => WroteOnce (t.world.graph.entity e).schema e t)
      (fun _ => WroteOnce (t.world.graph.entity e).schema e t) := by
  have hnone : ∃ l : List Statement, t.journal = t.journal ++ l.map (e, ·) ∧
      SingleWrite (t.world.graph.entity e).schema l := ⟨[], by simp, .nil _⟩
  have hrows : (updateRows ses e).Ends t
      (fun _ t' => ∃ l : List Statement, t'.journal = t.journal ++ l.map (e, ·) ∧
        SingleWrite (t.world.graph.entity e).schema l)
      (fun _ t' => ∃ l : List Statement, t'.journal = t.journal ++ l.map (e, ·) ∧
        SingleWrite (t.world.graph.entity e).schema l) := by
    refine ends_updateRows (fun _ _ => hnone) (fun _ _ => hnone) fun key s v hs _ _ _ _ => ?_
    subst hs
    exact ends_updateTables (fun t' hsent => ⟨_, hsent.journal, singleWrite_updates⟩)
      fun _ _ l hl hsent => ⟨l, hsent.journal, singleWrite_updates.of_prefix hl⟩
  exact (hrows.and (sameFrame_updateRows hwf)).mono
    (fun _ _ h => ⟨h.2.shape.length, h.2.entered, h.1⟩) fun _ _ h => ⟨h.2.shape.length, h.2.entered, h.1⟩

omit [Connection σ] in
/-- The rows of an entity are written once: there was no write for it before, and there is one now. -/
theorem Tidy.wrote (h : Tidy g₀ ((e, phase) :: trail) t) (hphase : phase ≠ .following)
    (hwrote : WroteOnce (g₀.entity e).schema e t t') : Tidy g₀ ((e, .following) :: trail) t' := by
  obtain ⟨l, hjournal, hsingle⟩ := hwrote.journal
  refine ⟨⟨hwrote.entered ▸ h.entered, fun x => ?_⟩, hwrote.size.trans h.size, fun p hp => ?_,
    fun p hp => ?_, h.distinct, fun x hx => ?_⟩
  · rw [sentFor_append x hjournal]
    split
    · next heq =>
      subst heq
      rw [h.unsent e (not_written hphase), List.nil_append]
      exact hsingle
    · rw [List.append_nil]
      exact h.single x
  · rcases List.mem_cons.1 hp with rfl | hp
    · exact h.exist (e, phase) List.mem_cons_self
    · exact h.exist p (List.mem_cons_of_mem _ hp)
  · rw [hwrote.entered]
    rcases List.mem_cons.1 hp with rfl | hp
    · exact h.onPath (e, phase) List.mem_cons_self
    · exact h.onPath p (List.mem_cons_of_mem _ hp)
  · have hne : x ≠ e := by
      rintro rfl
      refine hx (written_self ?_ h.distinct)
      rw [hwrote.entered]
      exact h.onPath (_, phase) List.mem_cons_self
    rw [sentFor_append x hjournal, if_neg (Ne.symm hne), List.append_nil]
    exact h.unsent x fun hold => hx ((written_following_iff hne hwrote.entered).2 hold)

/-- No failure exhausts the depth of a traversal, and entities are written once, if not more depth is
left than the entities need. -/
theorem once_rules (ses : Session) (g₀ : Graph) {bound : Nat} (hbound : g₀.entities.length < bound) :
    Events ses g₀ bound (fun _ => True) (Tidy g₀)
      (fun error (t : Traversal EntityId σ) => error ≠ .exhausted ∧ Once g₀ t) where
  fail _ _ error h hfaulty := by
    refine ⟨?_, h.toOnce⟩
    rintro rfl
    exact hfaulty.ordinary
  exhausted trail t h hlength := by
    have hle := h.length_le
    omega
  skip _ _ _ _ _ _ _ := trivial
  enter trail t e phase h hnew hlt hadmits := by
    refine h.enter hnew hlt ?_
    rintro rfl
    exact hadmits
  insert trail t e h hsteady := by
    have hschema := hsteady.shape.schema e
    refine ((wroteOnce_insertRows hsteady.wellFormed).and fails_insertRows).mono
      (fun _ t' hwrote => h.wrote (by decide) (hschema ▸ hwrote.1)) fun error t' hend => ?_
    exact ⟨hend.2.ne_exhausted, (h.wrote (by decide) (hschema ▸ hend.1)).toOnce⟩
  update trail t e h hsteady hlt := by
    have hschema := hsteady.shape.schema e
    refine ((wroteOnce_updateRows hsteady.wellFormed).and fails_updateRows).mono
      (fun _ t' hwrote => h.wrote (by decide) (hschema ▸ hwrote.1)) fun error t' hend => ?_
    exact ⟨hend.2.ne_exhausted, (h.wrote (by decide) (hschema ▸ hend.1)).toOnce⟩
  leave trail t e h hmem _ := h.leave hmem

end Save

namespace Call

open Save

variable {σ : Type} [Connection σ] {ses : Session} {e : EntityId} {w : World σ}

/-- A call has enough depth. -/
theorem lt_levels (call : Call) (g : Graph) : g.entities.length < call.levels (depthBound g) := by
  cases call <;> simp only [levels, depthBound] <;> omega

/-- A call does not exhaust its depth, and writes entities once. -/
theorem ends_once (call : Call) (hwf : w.graph.WellFormed ses.catalog) :
    (call.traverse ses e (depthBound w.graph)).Ends { world := w } (fun _ => Once w.graph)
      (fun error t => error ≠ .exhausted ∧ Once w.graph t) := by
  refine (call.ends_events (once_rules ses w.graph (call.lt_levels w.graph)) (fun error _ _ h => ?_)
    (Tidy.start w) ⟨.refl _, hwf⟩).mono (fun _ _ h => h.1.holds.toOnce) fun _ _ h => h
  refine ⟨?_, List.nodup_singleton e, fun _ => .nil _⟩
  rintro rfl
  exact h

/-- **Every entity is written once.** A call ends without exhausting its depth, and does the same with
more. What it has sent is what its journal lists; it has entered no entity twice; and for each entity
there is at most one insert or one update, with at most one statement for each table that the schema
lists, in this order. -/
theorem writes_once (call : Call) (hbuilt : w.graph.Built ses.catalog) :
    (∀ w', call.run ses e w ≠ .error .exhausted w') ∧
    (∀ depth, depthBound w.graph ≤ depth → call.traverse ses e depth { world := w } =
      call.traverse ses e (depthBound w.graph) { world := w }) ∧
    (call.trace ses e w).world.wire.sent =
      w.wire.sent ++ (call.trace ses e w).journal.map (·.2) ∧
    (call.trace ses e w).entered.Nodup ∧
    ∀ x, SingleWrite (w.graph.entity x).schema ((call.trace ses e w).sentFor x) := by
  have hends := call.ends_once (e := e) hbuilt.wellFormed
  have honce : Once w.graph (call.trace ses e w) :=
    Act.ends_final_iff.1 (hends.mono (fun _ _ h => h) fun _ _ h => h.2)
  have hdeep : ∀ t, call.traverse ses e (depthBound w.graph) { world := w } ≠ .error .exhausted t :=
    fun t hout => (hends.of_error hout).1 rfl
  refine ⟨fun w' hrun => hdeep _ (traverse_of_error hrun).1, fun depth hdepth => ?_,
    call.sent_trace hbuilt.wellFormed, honce.entered, honce.single⟩
  rcases call.agrees_traverse ses e hdepth { world := w } with ⟨t, hout⟩ | heq
  · exact absurd hout (hdeep t)
  · exact heq

/-- The save of an order, whose customer leads back to it, writes each of them once. -/
theorem writes_once_orders :
    let w := Shop.world Shop.orders
    (∀ w', save.run Shop.session ⟨0⟩ w ≠ .error .exhausted w') ∧
      (save.trace Shop.session ⟨0⟩ w).entered.Nodup ∧
      (∀ x, SingleWrite (Shop.orders.entity x).schema
        ((save.trace Shop.session ⟨0⟩ w).sentFor x)) ∧
      (save.trace Shop.session ⟨0⟩ w).journal.map (·.1) = [⟨1⟩, ⟨0⟩] := by
  intro w
  have hbuilt : Shop.orders.Built Shop.session.catalog := .runAll _ .empty
  obtain ⟨hends, -, -, hentered, hsingle⟩ := writes_once (w := w) (e := ⟨0⟩) save hbuilt
  exact ⟨hends, hentered, hsingle, by decide +kernel⟩

end Call

end EntityGraph
