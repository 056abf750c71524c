import EntityGraph.Proofs.Rows

/-!
# How writing the rows of an entity ends

While the rows of an entity are inserted, the graph is as it was, or the entity has taken over the key
of its first row. An insertion that ends well has sent all inserts of the entity, under the key that it
had or that the database has made, and has marked the entity at the end; one that fails has sent the
first of them.

* `SameFrame` — what writing rows leaves alone;
* `Inserting` — some inserts have been sent;
* `Inserted` — all of them have been executed, under a key;
* `inserted_insertRows` — how inserting an entity ends.
-/

namespace EntityGraph

namespace Save

open Traversal

variable {σ : Type} [Connection σ] {ses : Session} {c : Catalog} {e : EntityId} {key : Atomic}
  {k : Value} {l l' : List Statement} {t t' t'' : Traversal EntityId σ}

/-! ### What writing rows leaves alone -/

/-- The graph is well formed and its shape as it was, and nothing has been entered. -/
structure SameFrame (c : Catalog) (t t' : Traversal EntityId σ) : Prop where
  shape : t.world.graph.SameShape t'.world.graph
  wellFormed : t'.world.graph.WellFormed c
  entered : t'.entered = t.entered

omit [Connection σ] in
theorem SameFrame.refl (h : t.world.graph.WellFormed c) : SameFrame c t t :=
  ⟨.refl _, h, rfl⟩

omit [Connection σ] in
/-- What is sent changes none of this. -/
theorem SameFrame.sent (h : SameFrame c t t') (hsent : Sent e l t' t'') : SameFrame c t t'' :=
  ⟨hsent.graph ▸ h.shape, hsent.graph ▸ h.wellFormed, hsent.entered.trans h.entered⟩

omit [Connection σ] in
/-- The marks at the end change none of this. -/
theorem SameFrame.marked (h : SameFrame c t t') (e : EntityId) : SameFrame c t (marked e t') :=
  ⟨h.shape.trans ((Graph.SameShape.markClean _ e).trans (.markStored _ e)),
    (h.wellFormed.markClean e).markStored e, h.entered⟩

/-! ### Inserting -/

/-- Statements were sent for an entity and executed, whatever has become of the graph. -/
structure Ran (e : EntityId) (l : List Statement) (t t' : Traversal EntityId σ) : Prop where
  entered : t'.entered = t.entered
  journal : t'.journal = t.journal ++ l.map (e, ·)
  link : t'.world.wire.link = replay t.world.wire.link (l.map (e, ·))
  all : ∀ o ∈ outcomes t.world.wire.link (l.map (e, ·)), o.Executed

theorem Ran.of_executed (h : Executed e l t t') : Ran e l t t' :=
  ⟨h.entered, h.journal, h.link, h.all⟩

theorem Ran.trans (h : Ran e l t t') (h' : Ran e l' t' t'') : Ran e (l ++ l') t t'' where
  entered := h'.entered.trans h.entered
  journal := by rw [h'.journal, h.journal, List.map_append, List.append_assoc]
  link := by rw [h'.link, h.link, List.map_append, replay_append]
  all := by
    rw [List.map_append, outcomes_append, ← h.link]
    intro o ho
    exact (List.mem_append.1 ho).elim (h.all o) (h'.all o)

/-- The insert into the primary table. -/
def firstInsert (s : Schema) (values : List (Atomic × Value)) : Statement :=
  .insert (Insert.single s.table (columnsIn s values s.table))

/-- The inserts of an entity. -/
def inserts (s : Schema) (values : List (Atomic × Value)) (key : Atomic) (w : Value) :
    List Statement :=
  firstInsert s values :: (restColumns s values).map fun x => .insert (restInsert key w x)

/-- Rows of an entity are being inserted: the graph is as it was, or the entity has taken over the key
that the database has made for the first of them. -/
structure Inserting (c : Catalog) (e : EntityId) (key : Atomic) (l : List Statement)
    (t t' : Traversal EntityId σ) : Prop where
  isKey : (t.world.graph.entity e).schema.primaryKey = some key
  free : (t.world.graph.entity e).pending = []
  entered : t'.entered = t.entered
  sent : t'.world.wire.sent = t.world.wire.sent ++ l
  journal : t'.journal = t.journal ++ l.map (e, ·)
  wellFormed : t'.world.graph.WellFormed c
  graph : t'.world.graph = t.world.graph ∨ t.world.graph.key? e = none ∧
    ∃ w, Graph.Announced e key.name w t.world.graph t'.world.graph

namespace Inserting

omit [Connection σ] in
theorem sameFrame (h : Inserting c e key l t t') : SameFrame c t t' := by
  refine ⟨?_, h.wellFormed, h.entered⟩
  rcases h.graph with hsame | ⟨-, w, hann⟩
  · exact hsame ▸ .refl _
  · exact hann.shape

omit [Connection σ] in
/-- The entity exists. -/
theorem index_lt (h : Inserting c e key l t t') : e.index < t'.world.graph.entities.length :=
  h.sameFrame.shape.length ▸ Graph.index_lt_of_primaryKey h.isKey

omit [Connection σ] in
/-- More is inserted. -/
theorem more (h : Inserting c e key l t t') (hsent : Sent e l' t' t'') :
    Inserting c e key (l ++ l') t t'' where
  isKey := h.isKey
  free := h.free
  entered := hsent.entered.trans h.entered
  sent := by rw [hsent.sent, h.sent, List.append_assoc]
  journal := by rw [hsent.journal, h.journal, List.map_append, List.append_assoc]
  wellFormed := hsent.graph ▸ h.wellFormed
  graph := hsent.graph ▸ h.graph

omit [Connection σ] in
/-- A key that the entity has taken over has been announced. -/
theorem announced (h : Inserting c e key l t t') (hnone : t.world.graph.key? e = none)
    (hk : t'.world.graph.key? e = some k) :
    Graph.Announced e key.name k t.world.graph t'.world.graph := by
  rcases h.graph with hsame | ⟨-, w, hann⟩
  · rw [hsame, hnone] at hk
    cases hk
  · rw [hann.key?_self h.isKey] at hk
    split at hk
    · cases hk
    · exact Option.some.inj hk ▸ hann

end Inserting

/-- All rows of an entity have been inserted, under the key that it had, or that the database has made
for the first of them. -/
structure Inserted (c : Catalog) (e : EntityId) (key : Atomic) (k : Value)
    (t t' : Traversal EntityId σ) : Prop
    extends Inserting c e key (inserts (t.world.graph.entity e).schema
      (t.world.graph.dirtyAtomics e) key k) t t' where
  ran : Ran e (inserts (t.world.graph.entity e).schema (t.world.graph.dirtyAtomics e) key k) t t'
  key? : t'.world.graph.key? e = some k
  made : t.world.graph.key? e = none → ∃ v,
    ((firstInsert (t.world.graph.entity e).schema (t.world.graph.dirtyAtomics e)).attempt
      t.world.wire.link).1 = some (some v) ∧
    key.coerce (t.world.graph.entity e).schema.name v = .ok k

/-- An entity has been inserted with all its rows, and marked. -/
def InsertDone (c : Catalog) (e : EntityId) (t t' : Traversal EntityId σ) : Prop :=
  ∃ key k t'', Inserted c e key k t t'' ∧ t' = marked e t''

/-- Inserting an entity has failed, before its first row or with the first of its rows. -/
def InsertFailed (c : Catalog) (e : EntityId) (t t' : Traversal EntityId σ) : Prop :=
  t' = t ∨ ∃ key k l, Inserting c e key l t t' ∧
    l <+: inserts (t.world.graph.entity e).schema (t.world.graph.dirtyAtomics e) key k

/-- How inserting an entity ends. -/
theorem inserted_insertRows (hwf : t.world.graph.WellFormed c) :
    (insertRows ses e).Ends t (fun _ => InsertDone c e t) (fun _ => InsertFailed c e t) := by
  refine ends_insertRows (fun _ _ => .inl rfl) fun key s values hs hkey hvalues hok => ?_
  subst hs hvalues
  obtain ⟨hfree, -⟩ := of_checkInsert hok
  let first := firstInsert (t.world.graph.entity e).schema (t.world.graph.dirtyAtomics e)
  have hprefix : ∀ {l : List Statement} {k : Value},
      l <+: (restColumns (t.world.graph.entity e).schema (t.world.graph.dirtyAtomics e)).map
        (fun x => .insert (restInsert key k x)) →
      first :: l <+: inserts (t.world.graph.entity e).schema (t.world.graph.dirtyAtomics e) key k :=
    fun hl => List.cons_prefix_cons.2 ⟨rfl, hl⟩
  have hfailed : ∀ {t'}, Inserting c e key [first] t t' → InsertFailed c e t t' :=
    fun hfirst => .inr ⟨key, .null, [first], hfirst, hprefix List.nil_prefix⟩
  -- from the first insert on, whatever the graph is then
  have hrest : ∀ t', Inserting c e key [first] t t' → Ran e [first] t t' →
      (∀ k, t.world.graph.key? e = none → t'.world.graph.key? e = some k →
        ∃ v, (first.attempt t.world.wire.link).1 = some (some v) ∧
          key.coerce (t.world.graph.entity e).schema.name v = .ok k) →
      (t'.world.graph.key? e = none → ∀ _ : Error, InsertFailed c e t t') ∧
      ∀ k, t'.world.graph.key? e = some k →
        (insertRest e key k (restColumns (t.world.graph.entity e).schema
          (t.world.graph.dirtyAtomics e))).Ends t'
          (fun _ t'' => InsertDone c e t (marked e t'')) (fun _ => InsertFailed c e t) := by
    refine fun t' hfirst hran hmade => ⟨fun _ _ => hfailed hfirst, fun k hk => ?_⟩
    refine ends_insertRest (fun t'' hsent => ?_) fun _ t'' l _ hl hsent =>
      .inr ⟨key, k, _, hfirst.more hsent, hprefix hl⟩
    exact ⟨key, k, t'', ⟨hfirst.more hsent.toSent, hran.trans (.of_executed hsent),
      hsent.graph ▸ hk, fun hnone => hmade k hnone hk⟩, rfl⟩
  have hsame : ∀ {t'}, Sent e [first] t t' → Inserting c e key [first] t t' := fun hsent =>
    ⟨hkey, hfree, hsent.entered, hsent.sent, hsent.journal, hsent.graph ▸ hwf, .inl hsent.graph⟩
  refine ends_insertFirst (fun t' hsent hset => ?_) (fun t' v hsent hunset hanswer => ?_)
    fun _ t' hsent _ => hfailed (hsame hsent)
  · refine hrest t' (hsame hsent.toSent) (.of_executed hsent) fun k hnone _ => ?_
    rw [hnone] at hset
    cases hset
  · have hmade := (Graph.announced_assignGeneratedKey (v := v) hwf hkey hfree).and
      (Graph.WellFormed.assignGeneratedKey v _ hwf)
    have htook : ∀ g : Graph, g.WellFormed c →
        (g = t.world.graph ∨ ∃ w, Graph.Announced e key.name w t.world.graph g) →
        Inserting c e key [first] t { t' with world := { t'.world with graph := g } } :=
      fun g hwf' hg => ⟨hkey, hfree, hsent.entered, hsent.sent, hsent.journal, hwf',
        hg.imp_right fun hann => ⟨hunset, hann⟩⟩
    refine hmade.mono (fun _ g hg => ?_) fun _ g hg => ?_
    · obtain ⟨⟨w, hw, hann⟩, hwf'⟩ := hg
      refine hrest _ (htook g hwf' (.inr ⟨w, hann⟩))
        ⟨hsent.entered, hsent.journal, hsent.link, hsent.all⟩ fun k _ hk => ?_
      have hk : g.key? e = some k := hk
      rw [hann.key?_self hkey] at hk
      split at hk
      · cases hk
      · refine ⟨v, ?_, Option.some.inj hk ▸ hw⟩
        simp [first, firstInsert, Statement.attempt, hanswer, Except.toOption]
    · refine hfailed (htook g hg.2 (hg.1.imp_right fun htook => ?_))
      obtain ⟨w, -, hann⟩ := htook
      exact ⟨w, hann⟩

/-- Inserting rows enters nothing and keeps shape and well-formedness. -/
theorem sameFrame_insertRows (h : t.world.graph.WellFormed c) :
    (insertRows ses e).Ends t (fun _ => SameFrame c t) (fun _ => SameFrame c t) := by
  refine (inserted_insertRows h).mono (fun _ t' hdone => ?_) fun _ t' hfailed => ?_
  · obtain ⟨key, k, t'', hinserted, rfl⟩ := hdone
    exact hinserted.sameFrame.marked e
  · rcases hfailed with rfl | ⟨key, k, l, hinserting, -⟩
    · exact .refl h
    · exact hinserting.sameFrame

/-- Updating rows enters nothing and keeps shape and well-formedness. -/
theorem sameFrame_updateRows (h : t.world.graph.WellFormed c) :
    (updateRows ses e).Ends t (fun _ => SameFrame c t) (fun _ => SameFrame c t) := by
  have hstart : SameFrame c t t := .refl h
  refine ends_updateRows (fun _ _ => hstart) (fun _ _ => hstart.marked e) fun key s v _ _ _ _ _ => ?_
  exact ends_updateTables (fun t' hsent => (hstart.sent hsent.toSent).marked e)
    fun _ _ _ _ hsent => hstart.sent hsent

end Save

end EntityGraph
