import EntityGraph.Proofs.Persistent
import EntityGraph.Proofs.Walk

/-!
# Saving twice

A save with cascading that succeeds leaves everything that the saved entity leads to settled, and a
second save finds nothing to do.

While the save is under way, an entity whose rows have been written is settled and stays so: it waits
for nothing any more, and only entities that wait hear of the keys that are made later. An entity that
has been left has all that it leads to entered. At the end nothing is on the trail, so everything that
the saved entity leads to has been entered, left and settled.

## Main results

* `settled_of_save`: after a successful save, whatever the entity leads to is settled.
* `save_of_settled`: saving an entity that leads to settled ones only succeeds and changes nothing.
* `save_fixed_point`: both together, for the graphs that operations build.
-/

namespace EntityGraph

/-- Storage has every entity only under a key. -/
def Graph.StoredUnderKey (g : Graph) : Prop :=
  ∀ x, (g.entity x).stored = true → (g.entity x).schema.primaryKey.isSome → (g.key? x).isSome

namespace Save

open Traversal

variable {σ : Type} [Connection σ] {ses : Session} {g₀ : Graph}

/-- What a save keeps: entities whose rows have been written are settled, those to be updated have a
key, and those that have been left lead to entered ones only. -/
structure Settling (g₀ : Graph) (trail : Trail) (t : Traversal EntityId σ) : Prop where
  settled : ∀ x ∈ t.entered, (∀ phase, (x, phase) ∈ trail → phase = .following) →
    t.world.graph.Settled x
  updating : ∀ x, (x, .updating) ∈ trail → (t.world.graph.key? x).isSome
  keyed : t.world.graph.StoredUnderKey
  followed : ∀ x ∈ t.entered, (∀ phase, (x, phase) ∉ trail) →
    ∀ y ∈ g₀.successors x, y ∈ t.entered

/-- What has happened by the time when the rows of an entity have been sent: it waits for nothing, and
no other entity has lost what it had, if there is a key now. -/
structure Carried (c : Catalog) (e : EntityId) (t t' : Traversal EntityId σ) : Prop where
  entered : t'.entered = t.entered
  wellFormed : t'.world.graph.WellFormed c
  schema : ∀ x, (t'.world.graph.entity x).schema = (t.world.graph.entity x).schema
  stored : ∀ x, (t'.world.graph.entity x).stored = (t.world.graph.entity x).stored
  pending : (t'.world.graph.entity e).pending = []
  settled : ∀ x, x ≠ e → t.world.graph.Settled x → t'.world.graph.Settled x
  keys : (t'.world.graph.key? e).isSome → ∀ x, (t.world.graph.key? x).isSome →
    (t'.world.graph.key? x).isSome

section

variable {c : Catalog} {trail : Trail} {t t' t'' : Traversal EntityId σ} {e : EntityId}

omit [Connection σ]

/-- Where the graph is as it was, nothing has been lost. -/
theorem Carried.of_eq (hwf : t.world.graph.WellFormed c)
    (hpending : (t.world.graph.entity e).pending = []) (hentered : t'.entered = t.entered)
    (hgraph : t'.world.graph = t.world.graph) : Carried c e t t' where
  entered := hentered
  wellFormed := hgraph ▸ hwf
  schema _ := by rw [hgraph]
  stored _ := by rw [hgraph]
  pending := hgraph ▸ hpending
  settled _ _ hx := hgraph ▸ hx
  keys _ _ hx := hgraph ▸ hx

/-- Inserting rows loses nothing. -/
theorem Carried.inserting (hc : c.Plain) (hwf : t.world.graph.WellFormed c) {key : Atomic}
    {l : List Statement} (h : Inserting c e key l t t') : Carried c e t t' := by
  rcases h.graph with hsame | ⟨-, w, hann⟩
  · exact .of_eq hwf h.free h.entered hsame
  refine ⟨h.entered, h.wellFormed, hann.shape.schema, hann.stored, ?_, fun x hxe hx => ?_,
    fun hsome x hx => ?_⟩
  · rw [hann.self]
    exact h.free
  · exact hx.announced hwf hc hann hxe (by rw [h.isKey]; rfl)
  · refine hann.key?_isSome h.isKey (fun hw => ?_) hx
    rw [hann.key?_self h.isKey, hw] at hsome
    cases hsome

/-- Once its rows have been written, an entity that has a key is settled, and so are the others that
were. -/
theorem Settling.written {phase : Phase} (h : Settling g₀ ((e, phase) :: trail) t)
    (hcarried : Carried c e t t') (hkey : (t'.world.graph.key? e).isSome) :
    Settling g₀ ((e, .following) :: trail) (marked e t') := by
  have hwf := hcarried.wellFormed
  have hlt := (Graph.of_key?_isSome hkey).1
  have hkeys : ∀ x, (t.world.graph.key? x).isSome → ((marked e t').world.graph.key? x).isSome := by
    intro x hx
    rw [marked, Graph.key?_marked hwf hlt]
    exact hcarried.keys hkey x hx
  refine ⟨fun x hx hdone => ?_, fun x hx => ?_, fun x hx hkeyed => ?_, fun x hx hleft => ?_⟩
  · by_cases hxe : x = e
    · subst hxe
      exact Graph.settled_marked hwf hkey hcarried.pending
    · have hbefore : t.world.graph.Settled x := by
        refine h.settled x (hcarried.entered ▸ hx) fun p hp => hdone p ?_
        refine List.mem_cons_of_mem _ ((List.mem_cons.1 hp).resolve_left fun heq => hxe ?_)
        exact congrArg Prod.fst heq
      exact (hcarried.settled x hxe hbefore).marked hwf hlt
  · have hx : (x, Phase.updating) ∈ trail := by simpa using hx
    exact hkeys x (h.updating x (List.mem_cons_of_mem _ hx))
  · by_cases hxe : x = e
    · rw [hxe, marked, Graph.key?_marked hwf hlt]
      exact hkey
    · simp only [marked] at hx hkeyed
      rw [Graph.entity_marked hwf hlt] at hx hkeyed
      by_cases hpart : x ∈ t'.world.graph.parts e
      · -- the other parts have no primary key
        rw [if_pos hpart] at hkeyed
        have hsome : (t'.world.graph.entity x).schema.primaryKey.isSome := hkeyed
        rw [hwf.noKey_of_part hpart hxe] at hsome
        cases hsome
      · rw [if_neg hpart] at hx hkeyed
        exact hkeys x (h.keyed x (hcarried.stored x ▸ hx) (hcarried.schema x ▸ hkeyed))
  · refine fun y hy => hcarried.entered ▸ h.followed x (hcarried.entered ▸ hx) (fun p hp => ?_) y hy
    rcases List.mem_cons.1 hp with heq | hp
    · obtain rfl : x = e := congrArg Prod.fst heq
      exact hleft .following List.mem_cons_self
    · exact hleft p (List.mem_cons_of_mem _ hp)

end

variable {trail : Trail} {t : Traversal EntityId σ} {e : EntityId}

/-- Inserting the rows of an entity settles it. -/
theorem settling_insertRows (hc : ses.catalog.Plain)
    (h : Settling g₀ ((e, .inserting) :: trail) t)
    (hwf : t.world.graph.WellFormed ses.catalog) :
    (insertRows ses e).Ends t (fun _ => Settling g₀ ((e, .following) :: trail))
      (fun _ _ => True) := by
  refine (inserted_insertRows hwf).mono (fun _ t' hdone => ?_) fun _ _ _ => trivial
  obtain ⟨key, k, t'', hinserted, rfl⟩ := hdone
  exact h.written (.inserting hc hwf hinserted.toInserting) (by rw [hinserted.key?]; rfl)

/-- Updating the rows of an entity that has a key settles it. -/
theorem settling_updateRows (h : Settling g₀ ((e, .updating) :: trail) t)
    (hwf : t.world.graph.WellFormed ses.catalog) :
    (updateRows ses e).Ends t (fun _ => Settling g₀ ((e, .following) :: trail))
      (fun _ _ => True) := by
  have hkey := h.updating e List.mem_cons_self
  refine ends_updateRows (fun _ _ => trivial) (fun hpending _ => ?_) fun key s v _ _ _ hpending _ => ?_
  · exact h.written (.of_eq hwf hpending rfl rfl) hkey
  · refine ends_updateTables (fun t' hsent => ?_) fun _ _ _ _ _ => trivial
    refine h.written (.of_eq hwf hpending hsent.entered hsent.graph) ?_
    rw [hsent.graph]
    exact hkey

/-- The events of a save with cascading keep what has been settled. -/
theorem settling_rules (hc : ses.catalog.Plain) (hcascade : ses.config.cascade = true) :
    Rules ses g₀ (fun _ => False) (Settling g₀) (fun _ : Traversal EntityId σ => True) where
  fail _ _ _ := trivial
  skip trail t e h hkey hstored hnone := by
    have hsome := h.keyed e hstored hkey
    rw [hnone] at hsome
    cases hsome
  enter trail t e phase h hnew hadmits := by
    refine ⟨fun x hx hdone => ?_, fun x hx => ?_, h.keyed, fun x hx hleft y hy => ?_⟩
    · rcases List.mem_cons.1 hx with rfl | hx
      · rw [hdone phase List.mem_cons_self] at hadmits
        cases hadmits
      · exact h.settled x hx fun p hp => hdone p (List.mem_cons_of_mem _ hp)
    · rcases List.mem_cons.1 hx with heq | hx
      · obtain ⟨rfl, rfl⟩ := Prod.mk.inj heq
        exact hadmits
      · exact h.updating x hx
    · rcases List.mem_cons.1 hx with rfl | hx
      · exact absurd List.mem_cons_self (hleft phase)
      · have hbefore := h.followed x hx (fun p hp => hleft p (List.mem_cons_of_mem _ hp)) y hy
        exact List.mem_cons_of_mem _ hbefore
  insert trail t e h hsteady := settling_insertRows hc h hsteady.wellFormed
  update trail t e h hsteady _ := settling_updateRows h hsteady.wellFormed
  leave trail t e h hmem hfollowed := by
    refine ⟨fun x hx hdone => h.settled x hx fun p hp => ?_, fun x hx => ?_, h.keyed,
      fun x hx hleft y hy => ?_⟩
    · rcases List.mem_cons.1 hp with heq | hp
      · exact congrArg Prod.snd heq
      · exact hdone p hp
    · exact h.updating x (List.mem_cons_of_mem _ hx)
    · by_cases hxe : x = e
      · exact (hfollowed hcascade y (hxe ▸ hy)).resolve_right id
      · refine h.followed x hx (fun p hp => ?_) y hy
        rcases List.mem_cons.1 hp with heq | hp
        · exact hxe (congrArg Prod.fst heq)
        · exact hleft p hp

/-! ### A second save -/

section

variable {R : EntityId → Prop} {save : EntityId → SaveM σ Unit} {n depth : Nat}
  {trail : Trail} {t t₀ : Traversal EntityId σ} {e : EntityId}

omit [Connection σ] in
/-- Owned targets that storage has are not saved again. -/
theorem ends_saveOwnedTargets_stored
    (hstored : ∀ y ∈ t.world.graph.successors e, (t.world.graph.entity y).stored = true) :
    (saveOwnedTargets ses.catalog save e).Ends t (fun _ t' => t' = t) (fun _ _ => False) := by
  unfold saveOwnedTargets
  rw [Act.ends_bind, ends_graph]
  refine Act.ends_forM (fun r hr t' ht' => ?_) rfl
  subst ht'
  split
  · next target htarget =>
    have hmem : target ∈ t'.world.graph.successors e :=
      List.mem_flatMap.2 ⟨r, hr, by simp [htarget, Graph.targets]⟩
    rw [Act.ends_bind, ends_graph, Act.ends_ite]
    exact ⟨fun _ => rfl, fun hnew => absurd (hstored target hmem) hnew⟩
  · rfl

/-- Updating the rows of a settled entity sends nothing and changes nothing. -/
theorem ends_updateRows_settled (h : t.world.graph.Settled e) :
    (updateRows ses e).Ends t (fun _ t' => t' = t) (fun _ _ => False) := by
  have hnothing : changes t.world.graph e = [] := by
    rw [changes, h.dirtyAtomics_eq_nil, List.filter_nil]
  have hmarked : marked e t = t := by
    rw [marked, h.marked_eq_self]
  refine ends_updateRows (fun hsome => ?_) (fun _ _ => hmarked) fun _ _ _ _ _ _ _ hsome => ?_
  · exact absurd hsome (by simp [h.pending, hnothing])
  · exact absurd hnothing hsome

omit [Connection σ] in
/-- Saving what relations lead to keeps what each of these saves keeps. -/
theorem ends_saveRelations_of {I : Traversal EntityId σ → Prop}
    (hI : ∀ t', I t' → t'.world.graph = t.world.graph)
    (hsave : ∀ t', I t' → ∀ y ∈ t.world.graph.successors e,
      (save y).Ends t' (fun _ => I) (fun _ _ => False)) (h : I t) :
    (saveRelations save e).Ends t (fun _ => I) (fun _ _ => False) := by
  unfold saveRelations
  rw [Act.ends_bind, ends_graph]
  refine Act.ends_forM (fun r hr t' ht' => ?_) h
  rw [Act.ends_bind, ends_graph, hI t' ht']
  refine Act.ends_forM (fun y hy t'' ht'' => ?_) ht'
  exact hsave t'' ht'' y (List.mem_flatMap.2 ⟨r, hr, hy⟩)

end

/-- A second save of settled entities only enters them. -/
theorem ends_saveFrom_settled {g : Graph} {R : EntityId → Prop} (hR : ∀ x, R x → g.Settled x)
    (hclosed : ∀ x, R x → ∀ y ∈ g.successors x, R y) (depth : Nat)
    (t : Traversal EntityId σ) (e : EntityId) (hgraph : t.world.graph = g) (he : R e)
    (hfits : Fits g.entities.length depth t.entered) :
    (saveFrom ses depth e).Ends t
      (fun _ t' => t'.world = t.world ∧ Fits g.entities.length depth t'.entered) (fun _ _ => False) := by
  induction depth generalizing t e with
  | zero => exact absurd hfits.depth_pos (Nat.lt_irrefl 0)
  | succ depth ih =>
    subst hgraph
    have hsettled := hR e he
    obtain ⟨hlt, hsome⟩ := Graph.of_key?_isSome hsettled.key
    obtain ⟨key, hkey⟩ := Option.isSome_iff_exists.1 hsome
    have hstored := hsettled.stored e (Graph.mem_parts_self _ e)
    have hset : (t.world.graph.entity e).key?.isSome := hsettled.key
    unfold saveFrom
    rw [Act.ends_bind, ends_graph, Act.ends_bind, Schema.key_eq_ok_iff.2 hkey, Act.ends_ofExcept_ok,
      Act.ends_ite]
    refine ⟨fun _ => ?_, fun hnot => absurd (by simp [hset, hstored]) hnot⟩
    unfold updateWith
    rw [Act.ends_bind, ends_graph, Act.ends_ite]
    refine ⟨fun hnone => ?_, fun _ => ?_⟩
    · have hkey' := hsettled.key
      rw [Option.isNone_iff_eq_none.1 hnone] at hkey'
      cases hkey'
    unfold visit
    rw [Act.ends_bind]
    by_cases hmem : e ∈ t.entered
    · rw [Act.Ends, enter_of_mem hmem]
      exact ⟨rfl, hfits⟩
    rw [Act.Ends, enter_of_not_mem hmem]
    have hentered := hfits.enter hmem hlt
    have hrest : (do
        updateRows ses e
        if ses.config.cascade then saveRelations (saveFrom ses depth) e).Ends
          { t with entered := e :: t.entered }
          (fun _ t' => t'.world = t.world ∧ Fits t.world.graph.entities.length (depth + 1) t'.entered)
          (fun _ _ => False) := by
      rw [Act.ends_bind]
      refine (ends_updateRows_settled (t := { t with entered := e :: t.entered }) hsettled).mono
        (fun _ t' ht' => ?_) fun _ _ h => h
      subst ht'
      rw [Act.ends_ite]
      refine ⟨fun _ => ?_, fun _ => ⟨rfl, hentered.succ⟩⟩
      refine (ends_saveRelations_of (t := { t with entered := e :: t.entered })
        (I := fun t' => t'.world = t.world ∧ Fits t.world.graph.entities.length depth t'.entered)
        (fun t' ht' => by rw [ht'.1]) (fun t' ht' y hy => ?_) ⟨rfl, hentered⟩).mono
        (fun _ t' ht' => ⟨ht'.1, ht'.2.succ⟩) fun _ _ h => h
      refine (ih t' y (by rw [ht'.1]) (hclosed e he y hy) ht'.2).mono (fun _ t'' ht'' => ?_)
        fun _ _ h => h
      exact ⟨ht''.1.trans ht'.1, ht''.2⟩
    simp only [Bool.not_true, Bool.false_eq_true, if_false]
    rw [Act.ends_ite]
    refine ⟨fun _ => ?_, fun _ => hrest⟩
    rw [Act.ends_bind]
    refine (ends_saveOwnedTargets_stored (t := { t with entered := e :: t.entered })
      fun y hy => ?_).mono (fun _ t' ht' => ?_) fun _ _ h => h
    · have hy' := hR y (hclosed e he y hy)
      exact hy'.stored y (Graph.mem_parts_self _ y)
    · subst ht'
      exact hrest

end Save

namespace Session

open Save Traversal

variable {σ : Type} [Connection σ] {ses : Session} {e : EntityId} {w w' : World σ}

/-- After a successful save, whatever the entity leads to is settled, and relations are as they
were. -/
theorem settled_of_save (hwf : w.graph.WellFormed ses.catalog) (hc : ses.catalog.Plain)
    (hcascade : ses.config.cascade = true) (hkeys : w.graph.StoredUnderKey)
    (hsave : ses.save e w = .ok () w') :
    ∀ x, w'.graph.LeadsTo e x → w'.graph.Settled x := by
  have hstart : Settling w.graph [] ({ world := w } : Traversal EntityId σ) :=
    ⟨fun x hx => absurd hx List.not_mem_nil, fun x hx => absurd hx List.not_mem_nil, hkeys,
      fun x hx => absurd hx List.not_mem_nil⟩
  obtain ⟨t, hrun, rfl⟩ := run_eq_ok_iff.1 hsave
  have hends := ends_saveFrom (settling_rules hc hcascade) (depthBound w.graph) [] _ e hstart
    ⟨.refl _, hwf⟩
  obtain ⟨⟨hsettling, hsteady, -⟩, hmem⟩ := hends.of_ok hrun
  have hentered : ∀ x, t.world.graph.LeadsTo e x → x ∈ t.entered := by
    intro x hx
    induction hx with
    | refl => exact hmem.resolve_right id
    | tail _ hstep ih =>
      rw [hsteady.shape.successors_eq] at hstep
      exact hsettling.followed _ ih (fun _ => List.not_mem_nil) _ hstep
  exact fun x hx => hsettling.settled x (hentered x hx) fun _ hp => absurd hp List.not_mem_nil

/-- Saving an entity that leads to settled entities only succeeds and changes nothing. -/
theorem save_of_settled (h : ∀ x, w.graph.LeadsTo e x → w.graph.Settled x) :
    ses.save e w = .ok () w := by
  have hends : (saveFrom ses (depthBound w.graph) e).Ends { world := w }
      (fun _ t => t.world = w) (fun _ _ => False) :=
    (ends_saveFrom_settled h (fun x hx y hy => hx.tail hy) (depthBound w.graph) { world := w } e rfl
      .refl (Fits.start w.graph)).mono (fun _ _ ht => ht.1) fun _ _ ht => ht
  unfold save
  rw [run_eq_ok_iff]
  unfold Act.Ends at hends
  split at hends
  · next t ht => exact ⟨t, ht, hends⟩
  · exact hends.elim

/-- A successful save with cascading leaves everything that the entity leads to stored, clean and
without foreign keys that wait, and a second save sends nothing and changes nothing. -/
theorem save_fixed_point (hbuilt : Graph.Built ses.catalog w.graph) (hc : ses.catalog.Plain)
    (hcascade : ses.config.cascade = true) (hkeys : w.graph.StoredUnderKey)
    (hsave : ses.save e w = .ok () w') :
    (∀ x, w'.graph.LeadsTo e x → w'.graph.isPersistent x = true ∧ (w'.graph.entity x).pending = []) ∧
      ses.save e w' = .ok () w' := by
  have h := settled_of_save hbuilt.wellFormed hc hcascade hkeys hsave
  exact ⟨fun x hx => ⟨(h x hx).isPersistent, (h x hx).pending⟩, save_of_settled h⟩

/-- An order and its customer are settled by one save. -/
theorem save_fixed_point_orders :
    ∃ w', Shop.session.save ⟨0⟩ (Shop.world Shop.orders) = .ok () w' ∧
      (∀ x, w'.graph.LeadsTo ⟨0⟩ x →
        w'.graph.isPersistent x = true ∧ (w'.graph.entity x).pending = []) ∧
      Shop.session.save ⟨0⟩ w' = .ok () w' := by
  obtain ⟨_, w', hsave⟩ := Act.exists_of_succeeds
    (show (Shop.session.save ⟨0⟩).succeeds (Shop.world Shop.orders) = true by decide +kernel)
  have hplain : Shop.catalog.Plain := by
    have hentities : ∀ d ∈ Shop.catalog.definitions, d.embeddable = false := by decide
    intro d hd h
    rw [hentities d hd] at h
    cases h
  have hkeys : Shop.orders.StoredUnderKey := by
    have hall : ∀ x ∈ Shop.orders.entities, x.stored = false := by decide
    have hnew : ∀ x, (Shop.orders.entity x).stored = false :=
      Graph.forall_entity (p := fun x => x.stored = false) hall rfl
    intro x h
    rw [hnew x] at h
    cases h
  exact ⟨w', hsave, save_fixed_point (.runAll _ .empty) hplain rfl hkeys hsave⟩

end Session

end EntityGraph
