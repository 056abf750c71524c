import EntityGraph.Proofs.Cells
import EntityGraph.Proofs.Deleting
import EntityGraph.Proofs.Effects
import EntityGraph.Proofs.Walk

/-!
# What saves and deletions do to a graph

A session that saves or deletes works on the graph by effects alone, whatever comes of it: keys that the
database has made, marks, and foreign keys that storage has nulled. On the way it keeps to the keys that
entities have. An update that it sends for an entity is about the rows under the entity's key, and what
it deletes for rows are the rows under their key.

## Main results

* `Call.ongoing_trace` — a call leads onward, and its updates are about the keys that entities have;
* `Session.ends_delete_onward`, `Session.ends_deleteByKey_onward` — deletions lead onward;
* `Session.ongoing_deleteTrace` — what is deleted for rows are the rows under their key.
-/

namespace EntityGraph

namespace Graph

variable {c : Catalog} {V : EntityId → Value → Prop} {g g' g'' : Graph}

/-- A graph has come to a well-typed one, effect by effect. -/
structure Onward (c : Catalog) (V : EntityId → Value → Prop) (g g' : Graph) : Prop where
  typed : WellTyped c g'
  effects : Effects c V g g'

namespace Onward

theorem refl (h : WellTyped c g) : Onward c V g g :=
  ⟨h, .refl⟩

theorem trans (h : Onward c V g g') (h' : Onward c V g' g'') : Onward c V g g'' :=
  ⟨h'.typed, h.effects.trans h'.effects⟩

/-- An operation that fits leads on. -/
theorem ends_operation (h : Onward c V g g') (op : Operation) (hop : op.Fits c V g')
    (hquiet : op.quiet = true) :
    (op.run c).Ends g' (fun _ => Onward c V g) (fun _ => Onward c V g) := by
  rw [Act.ends_final_iff]
  exact ⟨h.typed.operation hop, h.effects.trans (h.typed.effects hop hquiet)⟩

/-- Marks of an entity with a key lead on. -/
theorem marked (h : Onward c V g g') {e : EntityId} (hkey : (g'.entity e).schema.primaryKey.isSome →
      c.OwnsKey (g'.entity e).schema → (g'.key? e).isSome) :
    Onward c V g ((g'.markClean e).markStored e) := by
  have hclean : Onward c V g (g'.markClean e) := h.ends_operation (.markClean e) trivial rfl
  refine hclean.ends_operation (.markStored e) ?_ rfl
  have hmarks := Remarked.markClean c g' e
  show _ → _ → _
  rwa [hmarks.shape.schema, hmarks.key?]

end Onward

end Graph

open EntityGraph.Graph Traversal

namespace Save

variable {σ : Type} {ses : Session} {c : Catalog} {V : EntityId → Value → Prop} {g g' g₀ : Graph}
  {journal : List (EntityId × Statement)} {e : EntityId} {key : Atomic} {k : Value} {trail : Trail}
  {t t' : Traversal EntityId σ} {l : List Statement} {phase phase' : Phase}

/-- The updates that have been sent for entities are about the rows under their keys. Nothing is said
where the key is a foreign key. -/
def Addressed (c : Catalog) (g : Graph) (journal : List (EntityId × Statement)) : Prop :=
  ∀ x u, (x, .update u) ∈ journal → ∃ key k, (g.entity x).schema.primaryKey = some key ∧
    u.conditions = [Expr.columnEq key.column k] ∧
      (c.OwnsKey (g.entity x).schema → g.key? x = some k)

namespace Addressed

/-- Effects do not matter. -/
theorem effects (h : Addressed c g journal) (hg : Consistent c g) (he : Effects c V g g') :
    Addressed c g' journal := by
  intro x u hu
  obtain ⟨key, k, hkey, hconditions, hk⟩ := h x u hu
  have hschema := Effects.schema he (index_lt_of_primaryKey hkey)
  rw [hschema]
  exact ⟨key, k, hkey, hconditions, fun hown => Effects.key? he hg hown (hk hown)⟩

/-- More has been sent for an entity, with updates of the rows under its key only. -/
theorem append (h : Addressed c g journal) (hl : ∀ u, .update u ∈ l → ∃ key k,
      (g.entity e).schema.primaryKey = some key ∧ g.key? e = some k ∧
        u.conditions = [Expr.columnEq key.column k]) :
    Addressed c g (journal ++ l.map (e, ·)) := by
  intro x u hu
  rcases List.mem_append.1 hu with hold | hnew
  · exact h x u hold
  · obtain ⟨s, hs, heq⟩ := List.mem_map.1 hnew
    obtain ⟨rfl, rfl⟩ := Prod.mk.inj heq
    obtain ⟨key, k, hkey, hk, hconditions⟩ := hl u hs
    exact ⟨key, k, hkey, hconditions, fun _ => hk⟩

end Addressed

/-- A save is under way. It has led onward, with updates of the rows under the keys of entities, and an
entity that is being updated has its key. -/
structure Ongoing (c : Catalog) (V : EntityId → Value → Prop) (g₀ : Graph) (trail : Trail)
    (t : Traversal EntityId σ) : Prop where
  onward : Onward c V g₀ t.world.graph
  addressed : Addressed c t.world.graph t.journal
  updating : ∀ p ∈ trail, p.2 = .updating → p.1.index < t.world.graph.entities.length ∧
    (c.OwnsKey (t.world.graph.entity p.1).schema → (t.world.graph.key? p.1).isSome)

namespace Ongoing

/-- Statements that are sent lead on, if updates are about the rows under the key of the entity. -/
theorem sent (h : Ongoing c V g₀ trail t) (hsent : Sent e l t t') (hl : ∀ u, .update u ∈ l → ∃ key k,
      (t.world.graph.entity e).schema.primaryKey = some key ∧ t.world.graph.key? e = some k ∧
        u.conditions = [Expr.columnEq key.column k]) : Ongoing c V g₀ trail t' where
  onward := hsent.graph ▸ h.onward
  addressed := by
    rw [hsent.graph, hsent.journal]
    exact h.addressed.append hl
  updating := hsent.graph ▸ h.updating

/-- Effects lead on. -/
theorem effects (h : Ongoing c V g₀ trail t) (hg' : Onward c V t.world.graph g') :
    Ongoing c V g₀ trail { t with world := { t.world with graph := g' } } where
  onward := h.onward.trans hg'
  addressed := h.addressed.effects h.onward.typed.toConsistent hg'.effects
  updating p hp hphase := by
    obtain ⟨hlt, hkey⟩ := h.updating p hp hphase
    refine ⟨Nat.lt_of_lt_of_le hlt (Effects.length_le hg'.effects), fun hown => ?_⟩
    rw [Effects.schema hg'.effects hlt] at hown
    obtain ⟨k, hk⟩ := Option.isSome_iff_exists.1 (hkey hown)
    rw [Effects.key? hg'.effects h.onward.typed.toConsistent hown hk]
    rfl

/-- The entity that is being written is followed. -/
theorem follow (h : Ongoing c V g₀ ((e, phase) :: trail) t) :
    Ongoing c V g₀ ((e, .following) :: trail) t where
  onward := h.onward
  addressed := h.addressed
  updating p hp hphase := by
    rcases List.mem_cons.1 hp with rfl | hp
    · cases hphase
    · exact h.updating p (List.mem_cons_of_mem _ hp) hphase

/-- The marks at the end of writing an entity lead on. -/
theorem marked (h : Ongoing c V g₀ trail t) (hkey : (t.world.graph.entity e).schema.primaryKey.isSome →
      c.OwnsKey (t.world.graph.entity e).schema → (t.world.graph.key? e).isSome) :
    Ongoing c V g₀ trail (marked e t) :=
  h.effects (Onward.marked (.refl h.onward.typed) hkey)

end Ongoing

variable [Connection σ]

/-- A connection answers an insert with values of a kind only, if it makes a key. -/
def Makes (σ : Type) [Connection σ] (P : Value → Prop) : Prop :=
  ∀ (i : Insert) (link : σ) v, (Connection.insert i link).1 = .ok (some v) → P v

/-- Inserting the rows of an entity leads on. -/
theorem ongoing_insertRows (hmakes : ∀ e, e.index < g₀.entities.length → Makes σ (V e))
    (hlength : t.world.graph.entities.length = g₀.entities.length)
    (h : Ongoing ses.catalog V g₀ ((e, .inserting) :: trail) t) :
    (insertRows ses e).Ends t (fun _ => Ongoing ses.catalog V g₀ ((e, .following) :: trail))
      (fun _ => Ongoing ses.catalog V g₀ []) := by
  have hfail : ∀ {t' : Traversal EntityId σ}, Ongoing ses.catalog V g₀ ((e, .inserting) :: trail) t' →
      Ongoing ses.catalog V g₀ [] t' := fun h' =>
    ⟨h'.onward, h'.addressed, fun _ hp => absurd hp List.not_mem_nil⟩
  refine ends_insertRows (fun _ _ => hfail h) fun key s values _ _ _ hok => ?_
  obtain ⟨hpending, key', hkey'⟩ := of_checkInsert hok
  have hlt : e.index < g₀.entities.length := hlength ▸ index_lt_of_primaryKey hkey'
  have hrest : ∀ t' : Traversal EntityId σ, Ongoing ses.catalog V g₀ ((e, .inserting) :: trail) t' →
      (t'.world.graph.key? e = none → ∀ _ : Error, Ongoing ses.catalog V g₀ [] t') ∧
      ∀ k, t'.world.graph.key? e = some k →
        (insertRest e key k (restColumns s values)).Ends t'
          (fun _ t'' => Ongoing ses.catalog V g₀ ((e, .following) :: trail) (marked e t''))
          (fun _ => Ongoing ses.catalog V g₀ []) := by
    refine fun t' h' => ⟨fun _ _ => hfail h', fun k hk => ?_⟩
    refine ends_insertRest (fun t'' hsent => ?_) fun error t'' l _ hl hsent => ?_
    · refine ((h'.sent hsent.toSent fun u hu => ?_).marked fun _ _ => ?_).follow
      · simp at hu
      · rw [hsent.graph, hk]
        rfl
    · refine hfail (h'.sent hsent fun u hu => ?_)
      simpa using hl.subset hu
  refine ends_insertFirst (fun t' hsent _ => hrest t' ?_) (fun t' v hsent hnone hanswer => ?_)
    fun error t' hsent _ => hfail ?_
  · exact h.sent hsent.toSent fun u hu => by simp at hu
  · -- the entity takes over the key that the database has made
    have h' := h.sent hsent.toSent fun u hu => by simp at hu
    have hgiven := (Onward.refl (V := V) h.onward.typed).ends_operation
      (.assignGeneratedKey e v) ⟨hmakes e hlt _ _ _ hanswer, hnone, hpending⟩ rfl
    rw [← hsent.graph] at hgiven ⊢
    exact hgiven.mono (fun _ _ hg' => hrest _ (h'.effects hg')) fun _ _ hg' => hfail (h'.effects hg')
  · exact h.sent hsent fun u hu => by simp at hu

/-- Updating the rows of an entity leads on. -/
theorem ongoing_updateRows (h : Ongoing ses.catalog V g₀ ((e, .updating) :: trail) t) :
    (updateRows ses e).Ends t (fun _ => Ongoing ses.catalog V g₀ ((e, .following) :: trail))
      (fun _ => Ongoing ses.catalog V g₀ []) := by
  have hfail : ∀ {t' : Traversal EntityId σ}, Ongoing ses.catalog V g₀ ((e, .updating) :: trail) t' →
      Ongoing ses.catalog V g₀ [] t' := fun h' =>
    ⟨h'.onward, h'.addressed, fun _ hp => absurd hp List.not_mem_nil⟩
  have hmark : ∀ {t' : Traversal EntityId σ}, Ongoing ses.catalog V g₀ ((e, .updating) :: trail) t' →
      Ongoing ses.catalog V g₀ ((e, .following) :: trail) (marked e t') := fun h' =>
    (h'.marked fun _ => (h'.updating _ List.mem_cons_self rfl).2).follow
  refine ends_updateRows (fun _ _ => hfail h) (fun _ _ => hmark h) fun key s v hs hkey hk _ _ => ?_
  have hupdates : ∀ {l : List Statement}, (∀ x ∈ l, x ∈ (updates key v
        (columnsByTable s (changes t.world.graph e))).map Statement.update) → ∀ u, .update u ∈ l →
      ∃ key k, (t.world.graph.entity e).schema.primaryKey = some key ∧
        t.world.graph.key? e = some k ∧ u.conditions = [Expr.columnEq key.column k] := by
    intro l hl u hu
    obtain ⟨u', hu', heq⟩ := List.mem_map.1 (hl _ hu)
    obtain rfl := Statement.update.inj heq
    obtain ⟨table, -, rfl⟩ := List.mem_map.1 (List.mem_of_mem_filter hu')
    exact ⟨key, v, hs ▸ hkey, hk, conditions_tableUpdate key v table⟩
  refine ends_updateTables (fun t' hsent => hmark (h.sent hsent.toSent (hupdates fun _ hx => hx)))
    fun error t' l hl hsent => hfail (h.sent hsent (hupdates hl.subset))

/-- What happens in a save leads on. -/
theorem ongoing_rules (ses : Session) (g₀ : Graph)
    (hmakes : ∀ e, e.index < g₀.entities.length → Makes σ (V e)) :
    Rules ses g₀ (fun _ => True) (Ongoing (σ := σ) ses.catalog V g₀)
      (Ongoing ses.catalog V g₀ []) where
  fail _ _ h := ⟨h.onward, h.addressed, fun _ hp => absurd hp List.not_mem_nil⟩
  skip _ _ _ _ _ _ _ := trivial
  enter trail t e phase h _ hadmits := by
    refine ⟨h.onward, h.addressed, fun p hp hphase => ?_⟩
    rcases List.mem_cons.1 hp with rfl | hp
    · obtain rfl : phase = .updating := hphase
      exact ⟨(of_key?_isSome hadmits).1, fun _ => hadmits⟩
    · exact h.updating p hp hphase
  insert _ _ _ h hsteady := ongoing_insertRows hmakes hsteady.shape.length h
  update _ _ _ h _ _ := ongoing_updateRows h
  leave _ _ _ h _ _ :=
    ⟨h.onward, h.addressed, fun p hp => h.updating p (List.mem_cons_of_mem _ hp)⟩

end Save

namespace Call

variable {σ : Type} [Connection σ] {ses : Session} {V : EntityId → Value → Prop} {w : World σ}

/-- A call leaves the world of its traversal, whether it succeeds or fails. -/
theorem final_run (ses : Session) (e : EntityId) (call : Call) (w : World σ) :
    (call.run ses e).final w = (call.trace ses e w).world := by
  unfold Act.final trace Act.final
  rw [run_eq, Traversal.run]
  cases call.traverse ses e (Save.depthBound w.graph) { world := w } <;> rfl

/-- A call leads onward, whatever comes of it, with updates of the rows under the keys of entities. -/
theorem ongoing_trace (ses : Session) (h : WellTyped ses.catalog w.graph)
    (hmakes : ∀ e, e.index < w.graph.entities.length → Save.Makes σ (V e)) (e : EntityId) (call : Call) :
    Save.Ongoing ses.catalog V w.graph [] (call.trace ses e w) := by
  rw [trace, ← Act.ends_final_iff (R := Save.Ongoing ses.catalog V w.graph [])]
  have hstart : Save.Ongoing (σ := σ) ses.catalog V w.graph [] { world := w } :=
    ⟨.refl h, fun _ _ hno => absurd hno List.not_mem_nil, fun _ hno => absurd hno List.not_mem_nil⟩
  exact (call.ends_traverse (Save.ongoing_rules ses w.graph hmakes) e _ hstart
    ⟨.refl _, h.toWellFormed⟩).mono (fun _ _ ht => ht.holds) fun _ _ ht => ht

end Call

/-! ### Deletions -/

namespace Graph

variable {c : Catalog} {g : Graph} {x y : EntityId} {comp : Component} {join : Join} {s : Schema}
  {f : String}

/-- What a loaded relation leads to is of its target type. -/
theorem Consistent.leads (h : Consistent c g) {r : Component × Loaded} (hr : r ∈ g.loadedRelations x)
    (hy : y ∈ g.targets r.2) : c.Leads (g.entity x).schema r.1.name (g.entity y).schema := by
  obtain ⟨comp, -, heq⟩ := List.mem_filterMap.1 hr
  split at heq
  · next i hi =>
    obtain rfl := Option.some.inj heq
    obtain ⟨hlt, howner, hname⟩ := h.many x comp.name i hi
    obtain ⟨-, hcomp, -⟩ := h.collection i hlt
    rw [howner, hname] at hcomp
    exact ⟨_, hcomp, (h.members i y hy).2⟩
  · next slot _ hslot =>
    obtain rfl := Option.some.inj heq
    exact (h.one x comp.name slot y hslot (by simpa [targets] using hy)).2
  · cases heq

/-- A relation that is released lists entities by their foreign keys. -/
theorem Consistent.refers_of_lists (h : Consistent c g) (hwf : g.WellFormed c) (hknown : c.Known s)
    (htaken : c.TakenFor s (g.entity x).schema) (hcomp : comp ∈ s.components)
    (hjoin : c.join s comp = .ok join) (hside : join.side = .there) (hlists : g.Lists x comp join y f) :
    c.Refers (g.entity y).schema f := by
  obtain ⟨r, hr, hname, hy, hf⟩ := hlists
  have hleads := h.leads hr hy
  obtain ⟨comp', loaded⟩ := r
  cases loaded with
  | one target =>
    rw [hname] at hleads
    exact ⟨s, comp, join, hknown, hcomp, hjoin, hf, .inr ⟨.inl hside, _, htaken, hleads⟩⟩
  | many i =>
    obtain rfl := hf
    exact h.refers_of_member hwf (index_lt_of_member hy) (h.members i y hy).2

end Graph

namespace Deletion

variable {σ : Type} {c : Catalog} {V : EntityId → Value → Prop} {g₀ g' : Graph} {d : Doomed}
  {t t' : Traversal (String × Value) σ} {l : List Statement}

/-- What is deleted is of a known type, and so is the entity that it was loaded as. -/
def Doomed.Typed (c : Catalog) (g : Graph) (d : Doomed) : Prop :=
  c.Known d.schema ∧ ∀ x ∈ d.loaded, c.TakenFor d.schema (g.entity x).schema

/-- A deletion is under way. It has led onward, keeps the shape of the graph, and what has been deleted
for rows are the rows under their key. -/
structure Ongoing (c : Catalog) (V : EntityId → Value → Prop) (g₀ : Graph)
    (t : Traversal (String × Value) σ) : Prop where
  onward : Onward c V g₀ t.world.graph
  shape : g₀.SameShape t.world.graph
  addressed : ∀ r u, (r, .delete u) ∈ t.journal → ∃ s key, c.Known s ∧ s.name = r.1 ∧
    s.primaryKey = some key ∧ u.conditions = [Expr.columnEq key.column r.2]

namespace Ongoing

/-- Statements that are sent for rows lead on, if what they delete are the rows under their key. -/
theorem sent (h : Ongoing c V g₀ t) (hsent : Sent d.row l t t') (hl : ∀ u, .delete u ∈ l →
      ∃ key, c.Known d.schema ∧ d.schema.primaryKey = some key ∧
        u.conditions = [Expr.columnEq key.column d.key]) : Ongoing c V g₀ t' where
  onward := hsent.graph ▸ h.onward
  shape := hsent.graph ▸ h.shape
  addressed r u hu := by
    rw [hsent.journal] at hu
    rcases List.mem_append.1 hu with hold | hnew
    · exact h.addressed r u hold
    · obtain ⟨s, hs, heq⟩ := List.mem_map.1 hnew
      obtain ⟨rfl, rfl⟩ := Prod.mk.inj heq
      obtain ⟨key, hknown, hkey, hconditions⟩ := hl u hs
      exact ⟨d.schema, key, hknown, rfl, hkey, hconditions⟩

/-- Effects that keep the shape lead on. -/
theorem effects (h : Ongoing c V g₀ t) (hg' : Onward c V t.world.graph g')
    (hshape : t.world.graph.SameShape g') :
    Ongoing c V g₀ { t with world := { t.world with graph := g' } } where
  onward := h.onward.trans hg'
  shape := h.shape.trans hshape
  addressed := h.addressed

end Ongoing

/-- What is loaded for further rows has been a target of the relation, and so is of its type. -/
theorem Ongoing.leads_of_known (h : Ongoing c V g₀ t) {comp : Component} {y : EntityId}
    (hy : y ∈ known t.world.graph d comp) : ∃ x, d.loaded = some x ∧
      c.Leads (g₀.entity x).schema comp.name (g₀.entity y).schema := by
  unfold known at hy
  cases hloaded : d.loaded with
  | none => simp [hloaded] at hy
  | some x =>
    simp only [hloaded] at hy
    obtain ⟨r, hr, hy⟩ := List.mem_flatMap.1 hy
    obtain ⟨hr, hname⟩ := List.mem_filter.1 hr
    have hleads := h.onward.typed.toConsistent.leads hr hy
    rw [h.shape.schema, h.shape.schema, show r.1.name = comp.name by simpa using hname] at hleads
    exact ⟨x, rfl, hleads⟩

/-- What a relation leads to is of a known type, and so are the loaded entities that it lists. -/
theorem Ongoing.typed_next (h : Ongoing c V g₀ t) (hd : d.Typed c g₀) {comp : Component}
    {target : Schema} (hcomp : comp ∈ d.schema.components) (htarget : c.schema comp.target = .ok target)
    (v : Value) : Doomed.Typed c g₀ ⟨target, v, none⟩ ∧
      ∀ x ∈ known t.world.graph d comp, Doomed.Typed c g₀ ⟨target, v, some x⟩ := by
  have hknown : c.Known target := ⟨_, target, htarget, .refl target⟩
  refine ⟨⟨hknown, fun _ hx => by cases hx⟩, fun y hy => ⟨hknown, fun y' hy' => ?_⟩⟩
  obtain rfl := Option.some.inj hy'
  obtain ⟨x, hloaded, hleads⟩ := h.leads_of_known hy
  exact .next (hd.2 x hloaded) hcomp htarget hleads

/-- Releasing what is loaded for the rows leads on, and does not fail. -/
theorem Ongoing.ends_release {E : Error → Traversal (String × Value) σ → Prop} (h : Ongoing c V g₀ t)
    (hd : d.Typed c g₀) {x : EntityId} {comp : Component} {join : Join} (hloaded : d.loaded = some x)
    (hcomp : comp ∈ d.schema.components) (hjoin : c.join d.schema comp = .ok join)
    (hside : join.side = .there) :
    (onGraph (release x comp join)).Ends t (fun _ => Ongoing c V g₀) E := by
  rw [ends_onGraph]
  have htyped := h.onward.typed
  have htaken : c.TakenFor d.schema (t.world.graph.entity x).schema := by
    rw [h.shape.schema]
    exact hd.2 x hloaded
  have hclear : ∀ y f, t.world.graph.Lists x comp join y f → ∀ g', (Onward c V t.world.graph g' ∧
        t.world.graph.SameShape g' ∧ g'.collections = t.world.graph.collections) →
      Onward c V t.world.graph (g'.cleared y f) ∧ t.world.graph.SameShape (g'.cleared y f) ∧
        (g'.cleared y f).collections = t.world.graph.collections := by
    rintro y f hlists g' ⟨hg', hshape, hcollections⟩
    have hrefers := htyped.toConsistent.refers_of_lists htyped.toWellFormed hd.1 htaken hcomp hjoin
      hside hlists
    rw [← hshape.schema] at hrefers
    have hcleared := hg'.ends_operation (.clearForeignKey y f) hrefers rfl
    exact ⟨hcleared, hshape.trans (Rewired.cleared hrefers).shape, hcollections⟩
  exact (ends_release_keeps (E := fun _ _ => False) (.refl _) (fun _ hg' => hg'.2.2) hclear
    ⟨.refl htyped, .refl _, rfl⟩).mono (fun _ _ hg' => h.effects hg'.1 hg'.2.1)
      fun _ _ hno => hno.elim

/-- What happens in a deletion leads on. -/
theorem ongoing_rules (c : Catalog) (V : EntityId → Value → Prop) (g₀ : Graph) :
    Rules (σ := σ) c (Doomed.Typed c g₀) (Ongoing c V g₀) (fun _ => Ongoing c V g₀) where
  fail _ _ h _ := h
  enter _ _ _ h := ⟨h.onward, h.shape, h.addressed⟩
  ask _ _ _ _ _ h hsent := h.sent hsent fun u hu => by simp at hu
  empty _ _ _ _ _ h hsent := h.sent hsent fun u hu => by simp at hu
  delete d key t t' table hd hkey h hsent := h.sent hsent fun u hu => by
    obtain rfl := Statement.delete.inj (List.mem_singleton.1 hu)
    exact ⟨key, hd.1, hkey, rfl⟩
  release _ _ _ _ _ hd hloaded hcomp _ hjoin hside h := h.ends_release hd hloaded hcomp hjoin hside
  mark d x t _ _ h := by
    have hdeleted := (Onward.refl (V := V) h.onward.typed).ends_operation (.markDeleted x) trivial rfl
    exact h.effects hdeleted (.markDeleted _ x)
  next d comp target t v hd hcomp _ htarget h _ _ := h.typed_next hd hcomp htarget v

end Deletion

namespace Session

variable {σ : Type} [Connection σ] {ses : Session} {V : EntityId → Value → Prop} {w : World σ}
  {e : EntityId} {k : Value}

open Deletion

/-- Deleting rows leads onward, whatever comes of it. -/
theorem ends_deleteFrom_ongoing (h : WellTyped ses.catalog w.graph) {d : Doomed}
    (hd : d.Typed ses.catalog w.graph) (depth : Nat) :
    (deleteFrom ses.catalog depth d).Ends { world := w } (fun _ => Ongoing ses.catalog V w.graph)
      (fun _ => Ongoing ses.catalog V w.graph) :=
  ends_deleteFrom (ongoing_rules ses.catalog V w.graph) depth d _ hd
    ⟨.refl h, .refl _, fun _ _ hno => absurd hno List.not_mem_nil⟩

/-- A run of a deletion leads onward. -/
theorem ends_run_onward (h : WellTyped ses.catalog w.graph) {d : Doomed}
    (hd : d.Typed ses.catalog w.graph) :
    (Deletion.run ses.catalog d).Ends w (fun _ w' => Onward ses.catalog V w.graph w'.graph)
      (fun _ w' => Onward ses.catalog V w.graph w'.graph) := by
  unfold Deletion.run
  rw [Act.ends_bind, Act.ends_get, Traversal.ends_run_iff]
  exact (ends_deleteFrom_ongoing h hd _).mono (fun _ _ ht => ht.onward) fun _ _ ht => ht.onward

omit [Connection σ] in
/-- A stored entity is deleted as what it is. -/
theorem typed_of_key? (h : WellTyped ses.catalog w.graph) (hk : w.graph.key? e = some k) :
    Doomed.Typed ses.catalog w.graph ⟨(w.graph.entity e).schema, k, some e⟩ := by
  refine ⟨h.known e (of_key?_isSome (by rw [hk]; rfl)).1, fun x hx => ?_⟩
  obtain rfl := Option.some.inj hx
  exact .self _

/-- Deleting an entity leads onward, whatever comes of it. -/
theorem ends_delete_onward (ses : Session) (h : WellTyped ses.catalog w.graph) (e : EntityId) :
    (ses.delete e).Ends w (fun _ w' => Onward ses.catalog V w.graph w'.graph)
      (fun _ w' => Onward ses.catalog V w.graph w'.graph) := by
  unfold delete
  simp only [Act.ends_bind, Act.ends_get, Act.ends_ite, Act.ends_pure]
  refine ⟨fun _ => ?_, fun _ => .refl h⟩
  rw [Act.ends_ofExcept]
  refine ⟨fun k hk => ?_, fun _ _ => .refl h⟩
  have hk : w.graph.key? e = some k := by
    unfold Graph.requireKey at hk
    split at hk
    · next k' hk' => rw [hk', Except.ok.inj hk]
    · cases hk
  exact ends_run_onward h (typed_of_key? h hk)

/-- Deleting rows by their key leads onward, whatever comes of it. -/
theorem ends_deleteByKey_onward (ses : Session) (h : WellTyped ses.catalog w.graph) (type : String)
    (key : Value) :
    (ses.deleteByKey type key).Ends w (fun _ w' => Onward ses.catalog V w.graph w'.graph)
      (fun _ w' => Onward ses.catalog V w.graph w'.graph) := by
  unfold deleteByKey
  simp only [Act.ends_bind, Act.ends_ofExcept]
  refine ⟨fun s hs => ⟨fun a _ => ⟨fun v _ => ?_, fun _ _ => .refl h⟩, fun _ _ => .refl h⟩,
    fun _ _ => .refl h⟩
  exact ends_run_onward h ⟨⟨type, s, hs, .refl s⟩, fun _ hx => by cases hx⟩

/-- The traversal that the deletion of an entity with a key makes, with all that it sends. -/
def deleteTrace (ses : Session) (e : EntityId) (w : World σ) : Traversal (String × Value) σ :=
  match w.graph.key? e with
  | some k =>
    (deleteFrom ses.catalog (depthBound ses.catalog w) ⟨(w.graph.entity e).schema, k, some e⟩).final
      { world := w }
  | none => { world := w }

/-- The deletion of a stored entity with a key leaves the world of its traversal. -/
theorem final_delete (hstored : (w.graph.entity e).stored = true) (hk : w.graph.key? e = some k) :
    (ses.delete e).final w = (ses.deleteTrace e w).world := by
  rw [deleteTrace, hk, ← Traversal.final_run]
  unfold Act.final
  rw [delete_eq hstored hk]
  rfl

/-- The deletion of an entity leads onward, and what it deletes for rows are the rows under their key. -/
theorem ongoing_deleteTrace (ses : Session) (h : WellTyped ses.catalog w.graph) (e : EntityId) :
    Ongoing ses.catalog V w.graph (ses.deleteTrace e w) := by
  unfold deleteTrace
  split
  · next k hk => exact Act.ends_final_iff.1 (ends_deleteFrom_ongoing h (typed_of_key? h hk) _)
  · exact ⟨.refl h, .refl _, fun _ _ hno => absurd hno List.not_mem_nil⟩

end Session

end EntityGraph
