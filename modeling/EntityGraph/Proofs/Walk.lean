import EntityGraph.Connection.Counter
import EntityGraph.Proofs.Causes
import EntityGraph.Proofs.Writing
import EntityGraph.Proofs.Tour

/-!
# Walking the graph

A save visits entities depth first. While it is under way, the entities on the path from the first one
to the present one have been entered and not yet left: the rows of some of them are still to be
written, the others are being followed along their relations. An invariant of a save is therefore a
property of that path and of the traversal, and it is enough to show that each event keeps it:
entering an entity, writing its rows, and leaving it.

Each level of a save has one entity on the path, so the depth that is left and the length of the path
add up to the depth that the save began with.

## Main results

* `Events.ends_saveFrom`: what the events keep, a save keeps; and where it ends well, the entity has
  been entered, or was one that cannot be written.
* `Call.ends_events`: what the events keep, each of the calls that write an entity keeps.
* `ends_saveFrom`, `Call.ends_traverse`: the same where it does not matter what a failure was.
-/

namespace EntityGraph.Save

open Traversal

/-- How far the visit of an entity has come: its rows are still to be inserted, or to be updated, or
they have been written and its relations are being followed. -/
inductive Phase where
  | inserting
  | updating
  | following
  deriving DecidableEq

/-- What is known of an entity whose visit begins. -/
def Phase.Admits (g : Graph) (e : EntityId) : Phase → Prop
  | .inserting => (g.entity e).stored = false
  | .updating => (g.key? e).isSome
  | .following => False

/-- The entities that have been entered and not yet left, the present one first. -/
abbrev Trail := List (EntityId × Phase)

variable {σ : Type} [Connection σ]

/-- A graph as it is in the course of a save that started with another one. -/
structure Steady (c : Catalog) (g₀ g : Graph) : Prop where
  shape : g₀.SameShape g
  wellFormed : g.WellFormed c

omit [Connection σ] in
theorem Steady.sameFrame {c : Catalog} {g₀ : Graph} {t t' : Traversal EntityId σ}
    (h : Steady c g₀ t.world.graph) (h' : SameFrame c t t') : Steady c g₀ t'.world.graph :=
  ⟨h.shape.trans h'.shape, h'.wellFormed⟩

/-- An invariant `I` of the saves that start in a graph, with `V` for the entities that cannot be
written, and `E` for what is left by a failure. -/
structure Rules (ses : Session) (g₀ : Graph) (V : EntityId → Prop)
    (I : Trail → Traversal EntityId σ → Prop) (E : Traversal EntityId σ → Prop) : Prop where
  fail : ∀ trail t, I trail t → E t
  skip : ∀ trail t e, I trail t → (t.world.graph.entity e).schema.primaryKey.isSome →
    (t.world.graph.entity e).stored = true → t.world.graph.key? e = none → V e
  enter : ∀ trail t e phase, I trail t → e ∉ t.entered → phase.Admits t.world.graph e →
    I ((e, phase) :: trail) { t with entered := e :: t.entered }
  insert : ∀ trail t e, I ((e, .inserting) :: trail) t → Steady ses.catalog g₀ t.world.graph →
    (insertRows ses e).Ends t (fun _ => I ((e, .following) :: trail)) (fun _ => E)
  update : ∀ trail t e, I ((e, .updating) :: trail) t → Steady ses.catalog g₀ t.world.graph →
    e.index < t.world.graph.entities.length →
    (updateRows ses e).Ends t (fun _ => I ((e, .following) :: trail)) (fun _ => E)
  leave : ∀ trail t e, I ((e, .following) :: trail) t → e ∈ t.entered →
    (ses.config.cascade = true → ∀ y ∈ g₀.successors e, y ∈ t.entered ∨ V y) → I trail t

/-- The same with `E` for a failure and what it leaves, and with a bound for the length of the path:
only a path that long exhausts the depth of a save. -/
structure Events (ses : Session) (g₀ : Graph) (bound : Nat) (V : EntityId → Prop)
    (I : Trail → Traversal EntityId σ → Prop) (E : Error → Traversal EntityId σ → Prop) : Prop where
  fail : ∀ trail t error, I trail t → ses.catalog.Faulty error → E error t
  exhausted : ∀ trail t, I trail t → trail.length = bound → E .exhausted t
  skip : ∀ trail t e, I trail t → (t.world.graph.entity e).schema.primaryKey.isSome →
    (t.world.graph.entity e).stored = true → t.world.graph.key? e = none → V e
  enter : ∀ trail t e phase, I trail t → e ∉ t.entered → e.index < t.world.graph.entities.length →
    phase.Admits t.world.graph e → I ((e, phase) :: trail) { t with entered := e :: t.entered }
  insert : ∀ trail t e, I ((e, .inserting) :: trail) t → Steady ses.catalog g₀ t.world.graph →
    (insertRows ses e).Ends t (fun _ => I ((e, .following) :: trail)) E
  update : ∀ trail t e, I ((e, .updating) :: trail) t → Steady ses.catalog g₀ t.world.graph →
    e.index < t.world.graph.entities.length →
    (updateRows ses e).Ends t (fun _ => I ((e, .following) :: trail)) E
  leave : ∀ trail t e, I ((e, .following) :: trail) t → e ∈ t.entered →
    (ses.config.cascade = true → ∀ y ∈ g₀.successors e, y ∈ t.entered ∨ V y) → I trail t

variable {ses : Session} {g₀ : Graph} {bound depth : Nat} {V : EntityId → Prop}
  {I : Trail → Traversal EntityId σ → Prop} {E : Error → Traversal EntityId σ → Prop}

/-- Where it does not matter what a failure was, the depth does not matter either. -/
theorem Rules.events {E : Traversal EntityId σ → Prop} (R : Rules ses g₀ V I E) (bound : Nat) :
    Events ses g₀ bound V I fun _ => E where
  fail trail t _ h _ := R.fail trail t h
  exhausted trail t h _ := R.fail trail t h
  skip := R.skip
  enter trail t e phase h hnew _ hphase := R.enter trail t e phase h hnew hphase
  insert := R.insert
  update := R.update
  leave := R.leave

/-- The invariant still holds, and nothing that was entered is forgotten. -/
structure Advanced (c : Catalog) (g₀ : Graph) (I : Trail → Traversal EntityId σ → Prop)
    (trail : Trail) (t t' : Traversal EntityId σ) : Prop where
  holds : I trail t'
  steady : Steady c g₀ t'.world.graph
  entered : t.entered ⊆ t'.entered

omit [Connection σ] in
theorem Advanced.refl {c : Catalog} {trail : Trail} {t : Traversal EntityId σ} (h : I trail t)
    (hsteady : Steady c g₀ t.world.graph) : Advanced c g₀ I trail t t :=
  ⟨h, hsteady, List.Subset.refl _⟩

omit [Connection σ] in
theorem Advanced.trans {c : Catalog} {trail trail' : Trail} {t t' t'' : Traversal EntityId σ}
    (h : Advanced c g₀ I trail t t') (h' : Advanced c g₀ I trail' t' t'') :
    Advanced c g₀ I trail' t t'' :=
  ⟨h'.holds, h'.steady, fun _ hx => h'.entered (h.entered hx)⟩

/-- A save from some entity, wherever it is called with so much depth left, keeps the invariant and
enters the entity, unless that cannot be written. -/
def Sound (c : Catalog) (g₀ : Graph) (bound depth : Nat) (V : EntityId → Prop)
    (I : Trail → Traversal EntityId σ → Prop) (E : Error → Traversal EntityId σ → Prop)
    (save : EntityId → SaveM σ Unit) : Prop :=
  ∀ trail t e, trail.length + depth = bound → I trail t → Steady c g₀ t.world.graph →
    (save e).Ends t (fun _ t' => Advanced c g₀ I trail t t' ∧ (e ∈ t'.entered ∨ V e)) E

namespace Events

variable {save : EntityId → SaveM σ Unit} {trail : Trail} {t : Traversal EntityId σ} {e : EntityId}

/-- Saving owned targets keeps the invariant. -/
theorem ends_saveOwnedTargets (R : Events ses g₀ bound V I E)
    (hsave : Sound ses.catalog g₀ bound depth V I E save) (hdepth : trail.length + depth = bound)
    (h : I trail t) (hsteady : Steady ses.catalog g₀ t.world.graph) :
    (saveOwnedTargets ses.catalog save e).Ends t (fun _ => Advanced ses.catalog g₀ I trail t) E := by
  unfold saveOwnedTargets
  rw [Act.ends_bind, ends_graph]
  refine Act.ends_forM (fun r hr t' ht' => ?_) (.refl h hsteady)
  split
  · simp only [Act.ends_bind, ends_graph, Act.ends_ite]
    refine ⟨fun _ => ht', fun _ => ?_⟩
    rw [Act.ends_ofExcept]
    refine ⟨fun join _ => ?_, fun error herror => R.fail _ _ error ht'.holds (.inr ?_)⟩
    rotate_left
    · have hcomp := Graph.component_mem hr
      exact ⟨_, _, hsteady.wellFormed.known_of_component hcomp, hcomp, herror⟩
    refine ⟨fun _ => ?_, fun _ => ht'⟩
    refine (hsave trail t' _ hdepth ht'.holds ht'.steady).mono (fun _ t'' ht'' => ?_) fun _ _ hE => hE
    exact ht'.trans ht''.1
  · exact ht'

omit [Connection σ] in
/-- Saving everything that loaded relations lead to keeps the invariant and enters all of it, as far
as it can be written. -/
theorem ends_saveRelations (hsave : Sound ses.catalog g₀ bound depth V I E save)
    (hdepth : trail.length + depth = bound) (h : I trail t)
    (hsteady : Steady ses.catalog g₀ t.world.graph) :
    (saveRelations save e).Ends t
      (fun _ t' => Advanced ses.catalog g₀ I trail t t' ∧ ∀ y ∈ g₀.successors e, y ∈ t'.entered ∨ V y)
      E := by
  unfold saveRelations
  rw [Act.ends_bind, ends_graph, hsteady.shape.loadedRelations_eq]
  have hmono : ∀ {t' t'' : Traversal EntityId σ} (y : EntityId), t'.entered ⊆ t''.entered →
      y ∈ t'.entered ∨ V y → y ∈ t''.entered ∨ V y :=
    fun y hsub hy => hy.imp_left fun hmem => hsub hmem
  have hloop := Act.ends_forM_all (l := g₀.loadedRelations e)
    (f := fun r => do ((← graph).targets r.2).forM save) (I := Advanced ses.catalog g₀ I trail t)
    (Q := fun r t' => ∀ y ∈ g₀.targets r.2, y ∈ t'.entered ∨ V y) (E := E) (s := t)
    (fun r _ t' ht' => ?_) (.refl h hsteady)
  · refine hloop.mono (fun _ t' ht' => ⟨ht'.1, fun y hy => ?_⟩) fun _ _ hE => hE
    obtain ⟨r, hr, hy⟩ := List.mem_flatMap.1 hy
    exact ht'.2 r hr y hy
  · rw [Act.ends_bind, ends_graph, ht'.steady.shape.targets_eq]
    have hinner := Act.ends_forM_all (l := g₀.targets r.2) (f := save)
      (I := Advanced ses.catalog g₀ I trail t') (Q := fun y t'' => y ∈ t''.entered ∨ V y) (E := E)
      (s := t') (fun y _ t'' ht'' => ?_) (.refl ht'.holds ht'.steady)
    · refine hinner.mono (fun _ t'' ht'' => ⟨ht'.trans ht''.1, ht''.2, fun r' hr' y hy => ?_⟩)
        fun _ _ hE => hE
      exact hmono y ht''.1.entered (hr' y hy)
    · refine (hsave trail t'' y hdepth ht''.holds ht''.steady).mono (fun _ t₃ ht₃ => ?_)
        fun _ _ hE => hE
      exact ⟨ht''.trans ht₃.1, ht₃.2, fun y' hy' => hmono y' ht₃.1.entered hy'⟩

/-- What the rows of an entity keep, its whole visit keeps. -/
theorem ends_visit (R : Events ses g₀ bound V I E)
    (hsave : Sound ses.catalog g₀ bound depth V I E save) (hdepth : trail.length + 1 + depth = bound)
    (phase : Phase) (rows : SaveM σ Unit) (hlt : e.index < t.world.graph.entities.length)
    (hphase : phase.Admits t.world.graph e)
    (hrows : ∀ t', I ((e, phase) :: trail) t' → Steady ses.catalog g₀ t'.world.graph →
      rows.Ends t' (fun _ => Advanced ses.catalog g₀ I ((e, .following) :: trail) t') E)
    (h : I trail t) (hsteady : Steady ses.catalog g₀ t.world.graph) :
    (visit ses save e rows).Ends t
      (fun _ t' => Advanced ses.catalog g₀ I trail t t' ∧ e ∈ t'.entered) E := by
  have hdepth : ∀ phase, List.length ((e, phase) :: trail) + depth = bound := fun _ => hdepth
  unfold visit
  rw [Act.ends_bind]
  by_cases hmem : e ∈ t.entered
  · rw [Act.Ends, enter_of_mem hmem]
    exact ⟨.refl h hsteady, hmem⟩
  rw [Act.Ends, enter_of_not_mem hmem]
  -- from here on the entity is on the trail
  have hentered : Advanced ses.catalog g₀ I ((e, phase) :: trail) t { t with entered := e :: t.entered } :=
    ⟨R.enter _ t e phase h hmem hlt hphase, hsteady, List.subset_cons_self _ _⟩
  have hafter : ∀ t', Advanced ses.catalog g₀ I ((e, phase) :: trail) { t with entered := e :: t.entered } t' →
      (rows >>= fun _ => if ses.config.cascade then saveRelations save e else pure ()).Ends t'
        (fun _ t'' => Advanced ses.catalog g₀ I trail t t'' ∧ e ∈ t''.entered) E := by
    intro t' ht'
    rw [Act.ends_bind]
    refine (hrows t' ht'.holds ht'.steady).mono (fun _ t'' ht'' => ?_) fun _ _ hE => hE
    have hwritten := hentered.trans (ht'.trans ht'')
    have hmem' : e ∈ t''.entered := ht''.entered (ht'.entered List.mem_cons_self)
    rw [Act.ends_ite]
    refine ⟨fun _ => ?_, fun hoff => ⟨⟨?_, hwritten.steady, hwritten.entered⟩, hmem'⟩⟩
    · refine (ends_saveRelations hsave (hdepth _) ht''.holds ht''.steady).mono (fun _ t₃ ht₃ => ?_)
        fun _ _ hE => hE
      have hleft := hwritten.trans ht₃.1
      have hmem₃ := ht₃.1.entered hmem'
      exact ⟨⟨R.leave _ _ e hleft.holds hmem₃ fun _ => ht₃.2, hleft.steady, hleft.entered⟩, hmem₃⟩
    · exact R.leave _ _ e hwritten.holds hmem' fun hon => absurd hon hoff
  simp only [Bool.not_true, Bool.false_eq_true, if_false]
  rw [Act.ends_ite]
  refine ⟨fun _ => ?_, fun _ => hafter _ (.refl hentered.holds hsteady)⟩
  rw [Act.ends_bind]
  exact (R.ends_saveOwnedTargets hsave (hdepth _) hentered.holds hsteady).mono
    (fun _ t' ht' => hafter t' ht') fun _ _ hE => hE

/-- Inserting an entity keeps the invariant, and enters the entity unless storage has it. -/
theorem ends_insertWith (R : Events ses g₀ bound V I E)
    (hsave : Sound ses.catalog g₀ bound depth V I E save) (hdepth : trail.length + 1 + depth = bound)
    (hlt : e.index < t.world.graph.entities.length) (h : I trail t)
    (hsteady : Steady ses.catalog g₀ t.world.graph) :
    (insertWith ses save e).Ends t (fun _ t' => Advanced ses.catalog g₀ I trail t t' ∧
      (e ∈ t'.entered ∨ (t.world.graph.entity e).stored = true)) E := by
  unfold insertWith
  rw [Act.ends_bind, ends_graph, Act.ends_ite]
  refine ⟨fun hstored => ⟨.refl h hsteady, .inr hstored⟩, fun hnew => ?_⟩
  refine (R.ends_visit hsave hdepth .inserting (insertRows ses e) hlt ?_
    (fun t' ht' hsteady' => ?_) h hsteady).mono (fun _ t' ht' => ⟨ht'.1, .inl ht'.2⟩) fun _ _ hE => hE
  · simpa [Phase.Admits] using hnew
  · exact ((R.insert trail t' e ht' hsteady').and (sameFrame_insertRows hsteady'.wellFormed)).mono
      (fun _ t'' ht'' => ⟨ht''.1, hsteady'.sameFrame ht''.2, ht''.2.entered ▸ List.Subset.refl _⟩)
      fun _ _ hE => hE.1

/-- Updating an entity keeps the invariant, and enters the entity unless it has no key. -/
theorem ends_updateWith (R : Events ses g₀ bound V I E)
    (hsave : Sound ses.catalog g₀ bound depth V I E save) (hdepth : trail.length + 1 + depth = bound)
    (h : I trail t) (hsteady : Steady ses.catalog g₀ t.world.graph) :
    (updateWith ses save e).Ends t (fun _ t' => Advanced ses.catalog g₀ I trail t t' ∧
      (e ∈ t'.entered ∨ t.world.graph.key? e = none)) E := by
  unfold updateWith
  rw [Act.ends_bind, ends_graph, Act.ends_ite]
  refine ⟨fun hnone => ⟨.refl h hsteady, .inr (by simpa using hnone)⟩, fun hsome => ?_⟩
  have hkey : (t.world.graph.key? e).isSome := by simpa [Option.isSome_iff_ne_none] using hsome
  have hlt : e.index < g₀.entities.length :=
    hsteady.shape.length ▸ (Graph.of_key?_isSome hkey).1
  refine (R.ends_visit hsave hdepth .updating (updateRows ses e) (hsteady.shape.length ▸ hlt) hkey
    (fun t' ht' hsteady' => ?_) h hsteady).mono (fun _ t' ht' => ⟨ht'.1, .inl ht'.2⟩) fun _ _ hE => hE
  have hlt' : e.index < t'.world.graph.entities.length := hsteady'.shape.length ▸ hlt
  exact ((R.update trail t' e ht' hsteady' hlt').and (sameFrame_updateRows hsteady'.wellFormed)).mono
    (fun _ t'' ht'' => ⟨ht''.1, hsteady'.sameFrame ht''.2, ht''.2.entered ▸ List.Subset.refl _⟩)
    fun _ _ hE => hE.1

/-- What entering, writing and leaving entities keeps, a save keeps. Where it ends well, it has
entered the entity, unless that could not be written. -/
theorem ends_saveFrom (R : Events ses g₀ bound V I E) (depth : Nat) :
    Sound ses.catalog g₀ bound depth V I E (saveFrom ses depth) := by
  induction depth with
  | zero => exact fun trail t _ hdepth h _ => R.exhausted trail t h hdepth
  | succ depth ih =>
    intro trail t e hdepth h hsteady
    have hdepth : trail.length + 1 + depth = bound := by omega
    unfold saveFrom
    rw [Act.ends_bind, ends_graph, Act.ends_bind, Act.ends_ofExcept]
    refine ⟨fun key hkey => ?_,
      fun error herror => R.fail trail t error h (.inl (Schema.declared_of_key herror))⟩
    have hprimary := Schema.key_eq_ok_iff.1 hkey
    have hkey : (t.world.graph.entity e).schema.primaryKey.isSome := by
      rw [hprimary]
      rfl
    rw [Act.ends_ite]
    refine ⟨fun hupdate => ?_, fun hinsert => ?_⟩
    · refine (R.ends_updateWith ih hdepth h hsteady).mono (fun _ t' ht' => ⟨ht'.1, ht'.2.imp_right
        fun hnone => R.skip trail t e h hkey ?_ hnone⟩) fun _ _ hE => hE
      -- without a key, the entity is saved as an update because it is stored
      have hunset : (t.world.graph.entity e).key?.isSome = false := by
        simpa [Graph.key?] using hnone
      have hboth : key.generated = false ∧ (t.world.graph.entity e).stored = true := by
        simpa [hunset] using hupdate
      exact hboth.2
    · have hlt := Graph.index_lt_of_primaryKey hprimary
      refine (R.ends_insertWith ih hdepth hlt h hsteady).mono (fun _ t' ht' => ⟨ht'.1,
        ht'.2.imp_right fun hstored => R.skip trail t e h hkey hstored ?_⟩) fun _ _ hE => hE
      -- a stored entity is saved as an insert only while the database has not made its key
      unfold Graph.key?
      by_cases hgenerated : key.generated = true
      · simpa [hgenerated] using hinsert
      · exact absurd hstored (by simpa [hgenerated] using hinsert)

end Events

/-- The same where it does not matter what a failure was. -/
theorem ends_saveFrom {E : Traversal EntityId σ → Prop} (R : Rules ses g₀ V I E) (depth : Nat)
    (trail : Trail) (t : Traversal EntityId σ) (e : EntityId) (h : I trail t)
    (hsteady : Steady ses.catalog g₀ t.world.graph) :
    (saveFrom ses depth e).Ends t
      (fun _ t' => Advanced ses.catalog g₀ I trail t t' ∧ (e ∈ t'.entered ∨ V e)) (fun _ => E) :=
  (R.events (trail.length + depth)).ends_saveFrom depth trail t e rfl h hsteady

omit [Connection σ] in
/-- An entity without loaded relations is visited alone. -/
theorem ends_visit_alone {save : EntityId → SaveM σ Unit} {rows : SaveM σ Unit}
    {P : Unit → Traversal EntityId σ → Prop} {t : Traversal EntityId σ} {e : EntityId}
    (hnew : e ∉ t.entered) (hrelations : t.world.graph.loadedRelations e = [])
    (hrows : rows.Ends { t with entered := e :: t.entered }
      (fun _ t' => t'.world.graph.loadedRelations e = [] ∧ P () t') E) :
    (visit ses save e rows).Ends t P E := by
  have howned : ∀ P : Unit → Traversal EntityId σ → Prop, P () { t with entered := e :: t.entered } →
      (saveOwnedTargets ses.catalog save e).Ends { t with entered := e :: t.entered } P E := by
    intro P hP
    unfold saveOwnedTargets
    rw [Act.ends_bind, ends_graph]
    simp only [hrelations]
    exact hP
  have hafter : (rows >>= fun _ => if ses.config.cascade then saveRelations save e else pure ()).Ends
      { t with entered := e :: t.entered } P E := by
    rw [Act.ends_bind]
    refine hrows.mono (fun _ t' ht' => ?_) fun _ _ h => h
    rw [Act.ends_ite]
    refine ⟨fun _ => ?_, fun _ => ht'.2⟩
    unfold saveRelations
    rw [Act.ends_bind, ends_graph, ht'.1]
    exact ht'.2
  unfold visit
  rw [Act.ends_bind, Act.Ends, enter_of_not_mem hnew]
  simp only [Bool.not_true, Bool.false_eq_true, if_false]
  rw [Act.ends_ite]
  refine ⟨fun _ => ?_, fun _ => hafter⟩
  rw [Act.ends_bind]
  exact howned _ hafter

/-- No row is inserted without a primary key. -/
theorem ends_insertRows_of_noKey {t : Traversal EntityId σ} {e : EntityId}
    (h : (t.world.graph.entity e).schema.primaryKey = none) :
    (insertRows ses e).Ends t (fun _ _ => False) fun error t' => error.Ordinary ∧
      ((t.world.graph.entity e).pending = [] → error.Declared) ∧ t' = t := by
  suffices hcheck : ∀ error, checkInsert ses t.world.graph e = .error error →
      error.Ordinary ∧ ((t.world.graph.entity e).pending = [] → error.Declared) by
    refine ends_insertRows (fun error herror => ?_) fun key s _ hs hkey _ _ => ?_
    · obtain ⟨hordinary, hdeclared⟩ := hcheck error herror
      exact ⟨hordinary, hdeclared, rfl⟩
    · rw [← hs, h] at hkey
      cases hkey
  intro error herror
  rcases bind_eq_error_iff.1 herror with herror | ⟨_, -, herror⟩
  · refine ⟨ordinary_of_checkPending herror, fun hnil => ?_⟩
    cases herror.symm.trans (checkPending_eq_ok_iff.2 hnil)
  · rcases bind_eq_error_iff.1 herror with herror | ⟨key, hkey, -⟩
    · have hdeclared := Schema.declared_of_key herror
      exact ⟨hdeclared.ordinary, fun _ => hdeclared⟩
    · rw [Schema.key_eq_ok_iff, h] at hkey
      cases hkey

/-- An entity that does not exist has no key, so that no row of it is inserted. -/
theorem ends_insertWith_of_missing {save : EntityId → SaveM σ Unit} {t : Traversal EntityId σ}
    {e : EntityId} (h : t.world.graph.entities.length ≤ e.index) :
    (insertWith ses save e).Ends t (fun _ t' => e ∈ t.entered ∧ t' = t)
      (fun error t' => error.Declared ∧ e ∉ t.entered ∧
        t' = { t with entered := e :: t.entered }) := by
  have hdefault := Graph.entity_of_length_le h
  have hrelations : t.world.graph.loadedRelations e = [] := by
    simp only [Graph.loadedRelations, hdefault]
    rfl
  have hnoKey : (t.world.graph.entity e).schema.primaryKey = none := by
    rw [hdefault]
    rfl
  have hpending : (t.world.graph.entity e).pending = [] := by
    rw [hdefault]
    rfl
  simp only [insertWith]
  rw [Act.ends_bind, ends_graph, hdefault, Act.ends_ite]
  refine ⟨fun hstored => absurd hstored Bool.false_ne_true, fun _ => ?_⟩
  by_cases hmem : e ∈ t.entered
  · simp only [visit]
    rw [Act.ends_bind, Act.Ends, enter_of_mem hmem]
    exact ⟨hmem, rfl⟩
  · refine ends_visit_alone hmem hrelations ?_
    exact (ends_insertRows_of_noKey (t := { t with entered := e :: t.entered }) hnoKey).mono
      (fun _ _ hF => hF.elim) fun _ _ h => ⟨h.2.1 hpending, hmem, h.2.2⟩

omit [Connection σ] in
/-- A save succeeds iff its traversal does, and leaves the world of the traversal. -/
theorem run_eq_ok_iff {act : Nat → SaveM σ Unit} {w w' : World σ} :
    Save.run act w = .ok () w' ↔
      ∃ t, act (depthBound w.graph) { world := w } = .ok () t ∧ t.world = w' :=
  Traversal.run_ok_iff

end EntityGraph.Save

namespace EntityGraph.Session

open Save

variable {σ : Type} [Connection σ]

/-- The traversal that a save makes, with all that it sends. -/
def saveTrace (ses : Session) (e : EntityId) (w : World σ) : Traversal EntityId σ :=
  (saveFrom ses (depthBound w.graph) e).final { world := w }

/-- A save leaves the world of its traversal, whether it succeeds or fails. -/
theorem final_save (ses : Session) (e : EntityId) (w : World σ) :
    (ses.save e).final w = (ses.saveTrace e w).world := by
  show (Traversal.run (saveFrom ses (depthBound w.graph) e)).final w = _
  unfold saveTrace Act.final Traversal.run
  cases saveFrom ses (depthBound w.graph) e { world := w } <;> rfl

end EntityGraph.Session

namespace EntityGraph

open Save

/-- The calls that write an entity. -/
inductive Call where
  | save
  | insert
  | update
  deriving DecidableEq

namespace Call

variable {σ : Type} [Connection σ]

/-- Calls a session. -/
def run (ses : Session) (e : EntityId) : Call → SessionM σ Unit
  | save => ses.save e
  | insert => ses.insert e
  | update => ses.update e

/-- The traversal that a call makes, with a bound of its depth. -/
def traverse (ses : Session) (e : EntityId) : Call → Nat → SaveM σ Unit
  | save, depth => saveFrom ses depth e
  | insert, depth => insertWith ses (saveFrom ses depth) e
  | update, depth => updateWith ses (saveFrom ses depth) e

/-- The traversal of a call as it is in the end, with all that it has sent. -/
def trace (ses : Session) (e : EntityId) (call : Call) (w : World σ) : Traversal EntityId σ :=
  (call.traverse ses e (depthBound w.graph)).final { world := w }

variable {ses : Session} {call : Call} {e : EntityId} {w w' : World σ}

/-- A call is its traversal, of which it leaves the world. -/
theorem run_eq (call : Call) :
    call.run ses e w = Traversal.run (call.traverse ses e (depthBound w.graph)) w := by
  cases call <;> rfl

/-- A call that succeeds does so with the end of its traversal. -/
theorem traverse_of_run (h : call.run ses e w = .ok () w') :
    call.traverse ses e (depthBound w.graph) { world := w } = .ok () (call.trace ses e w) ∧
      (call.trace ses e w).world = w' := by
  rw [run_eq] at h
  unfold Traversal.run at h
  unfold trace Act.final
  split at h
  · next a t heq =>
    rw [heq]
    exact ⟨rfl, (EStateM.Result.ok.inj h).2⟩
  · cases h

/-- A call that fails does so with the end of its traversal. -/
theorem traverse_of_error {error : Error} (h : call.run ses e w = .error error w') :
    call.traverse ses e (depthBound w.graph) { world := w } = .error error (call.trace ses e w) ∧
      (call.trace ses e w).world = w' := by
  rw [run_eq] at h
  simp only [Traversal.run] at h
  split at h
  · cases h
  · next error' t heq =>
    obtain ⟨rfl, rfl⟩ := EStateM.Result.error.inj h
    simp only [trace, Act.final, heq, and_self]

/-- A call whose traversal fails fails. -/
theorem run_of_traverse {error : Error} {t : Traversal EntityId σ}
    (h : call.traverse ses e (depthBound w.graph) { world := w } = .error error t) :
    call.run ses e w = .error error t.world ∧ call.trace ses e w = t := by
  rw [run_eq]
  unfold Traversal.run trace Act.final
  rw [h]
  exact ⟨rfl, rfl⟩

/-- How deep a call may go with a depth: an insert and an update begin with a visit. -/
def levels : Call → Nat → Nat
  | save, depth => depth
  | _, depth => depth + 1

variable {g₀ : Graph} {V : EntityId → Prop} {I : Trail → Traversal EntityId σ → Prop}
  {t : Traversal EntityId σ}

/-- When a call comes to write its entity: a save does unless storage has it and it has no key. -/
def Writes (g : Graph) (e : EntityId) : Call → Prop
  | save => (g.entity e).stored = false ∨ (g.key? e).isSome
  | insert => (g.entity e).stored = false
  | update => (g.key? e).isSome

/-- What the events of a traversal keep, a call keeps, and where it ends well, it has entered its entity
if it came to write it and could. An entity that does not exist is entered at most. -/
theorem ends_events {E : Error → Traversal EntityId σ → Prop} (call : Call) {depth : Nat}
    (R : Events ses g₀ (call.levels depth) V I E)
    (hmissing : ∀ error, t.world.graph.entities.length ≤ e.index → e ∉ t.entered → error.Declared →
      E error { t with entered := e :: t.entered })
    (h : I [] t) (hsteady : Steady ses.catalog g₀ t.world.graph) :
    (call.traverse ses e depth).Ends t (fun _ t' => Advanced ses.catalog g₀ I [] t t' ∧
      (call.Writes t.world.graph e → e ∈ t'.entered ∨ V e)) E := by
  have hsave := R.ends_saveFrom depth
  have hlevels : ([] : Trail).length + 1 + depth = depth + 1 := by
    rw [List.length_nil]
    omega
  cases call with
  | save =>
    exact (hsave [] t e (Nat.zero_add depth) h hsteady).mono (fun _ _ ht => ⟨ht.1, fun _ => ht.2⟩)
      fun _ _ hE => hE
  | insert =>
    by_cases hlt : e.index < t.world.graph.entities.length
    · refine (R.ends_insertWith hsave hlevels hlt h hsteady).mono
        (fun _ t' ht' => ⟨ht'.1, fun hnew => .inl (ht'.2.resolve_right fun hstored => ?_)⟩)
        fun _ _ hE => hE
      rw [show (t.world.graph.entity e).stored = false from hnew] at hstored
      cases hstored
    · have hle := Nat.not_lt.1 hlt
      refine (ends_insertWith_of_missing hle).mono (fun _ t' ht' => ?_) fun error t' ht' => ?_
      · obtain ⟨hmem, rfl⟩ := ht'
        exact ⟨.refl h hsteady, fun _ => .inl hmem⟩
      · obtain ⟨hdeclared, hnew, rfl⟩ := ht'
        exact hmissing error hle hnew hdeclared
  | update =>
    refine (R.ends_updateWith hsave hlevels h hsteady).mono
      (fun _ t' ht' => ⟨ht'.1, fun hkey => .inl (ht'.2.resolve_right fun hnone => ?_)⟩)
      fun _ _ hE => hE
    rw [Writes, hnone] at hkey
    cases hkey

/-- The same where it does not matter what a failure was. -/
theorem ends_traverse {E : Traversal EntityId σ → Prop} (R : Rules ses g₀ V I E)
    (call : Call) (e : EntityId) (depth : Nat) (h : I [] t)
    (hsteady : Steady ses.catalog g₀ t.world.graph) :
    (call.traverse ses e depth).Ends t (fun _ => Advanced ses.catalog g₀ I [] t) (fun _ => E) := by
  refine (call.ends_events (R.events _) (fun _ hle hnew _ => ?_) h hsteady).mono (fun _ _ ht => ht.1)
    fun _ _ hE => hE
  refine R.fail _ _ (R.enter [] t e .inserting h hnew ?_)
  rw [Phase.Admits, Graph.entity_of_length_le hle]
  rfl

end Call

end EntityGraph

namespace EntityGraph.Shop

/-- The session of the shop, which cascades. -/
def session : Session :=
  { catalog }

/-- A graph, with nothing sent so far. -/
def world (graph : Graph) : World Counter :=
  { graph, wire := { link := { dialect := .mysql } } }

end EntityGraph.Shop
