import EntityGraph.Proofs.FixedPoint
import EntityGraph.Proofs.Loading
import EntityGraph.Proofs.Results

/-!
# A fetched graph is clean

What a mapper makes of rows agrees with storage: its values and to-one relations have been loaded, nothing
waits, and the entities that it knows are stored with all their components. Relations of what it knows lead
to what it knows only, and components have no relations. So everything that the tuples of a query lead to
is settled, and saving it finds nothing to do.

* `Graph.Pristine` — the entities from some number on agree with storage, as far as storage has them;
* `Pristine.readStep` — each step of reading keeps that;
* `Pristine.settled` — stored ones that have a key are settled.

## Main result

* `Query.save_of_mapRows` — what is fetched is clean, and saving it sends nothing.
-/

namespace EntityGraph

/-- Values and to-one relations have been loaded, and nothing waits. What has no primary key has no
relations. -/
structure Entity.Pristine (x : Entity) : Prop where
  atomics : ∀ p ∈ x.atomics, p.2.clean = true
  toOne : ∀ p ∈ x.toOne, p.2.clean = true
  pending : x.pending = []
  related : x.schema.primaryKey = none → x.toOne = [] ∧ x.toMany = []

namespace Entity

variable {x : Entity}

/-- A new entity has neither values nor relations. -/
theorem pristine_new (s : Schema) (stored : Bool) : Pristine { schema := s, stored } where
  atomics _ hp := absurd hp List.not_mem_nil
  toOne _ hp := absurd hp List.not_mem_nil
  pending := rfl
  related _ := ⟨rfl, rfl⟩

/-- Values that agree with storage already need no mark. -/
theorem mapValues_clean {α : Type} {m : Assoc String (Slot α)} (h : ∀ p ∈ m, p.2.clean = true) :
    m.mapValues (fun s => { s with clean := true }) = m := by
  refine (List.map_congr_left fun p hp => ?_).trans (List.map_id m)
  obtain ⟨name, slot⟩ := p
  have hclean : slot.clean = true := h _ hp
  rw [id_eq, ← hclean]

/-- An entity into which everything has been loaded needs no mark. -/
theorem Pristine.markClean (h : x.Pristine) : x.markClean = x := by
  unfold Entity.markClean
  rw [mapValues_clean h.atomics, mapValues_clean h.toOne]

/-- Loaded atomics are clean. -/
theorem Pristine.loadAtomics (h : x.Pristine) (values : List (String × Value)) :
    (values.foldl (fun x p => x.loadAtomic p.1 p.2) x).Pristine := by
  induction values generalizing x with
  | nil => exact h
  | cons p values ih =>
    refine ih ⟨fun q hq => ?_, h.toOne, h.pending, h.related⟩
    rcases Assoc.mem_put hq with rfl | hq
    · rfl
    · exact h.atomics q hq

/-- A loaded relation is clean. -/
theorem Pristine.loadTarget (h : x.Pristine) (hkey : x.schema.primaryKey.isSome) (name : String)
    (target : Option EntityId) : (x.loadTarget name target).Pristine := by
  unfold Entity.loadTarget
  split
  · exact h
  · refine ⟨h.atomics, fun q hq => ?_, h.pending, fun hnone => ?_⟩
    · rcases Assoc.mem_put hq with rfl | hq
      · rfl
      · exact h.toOne q hq
    · rw [show x.schema.primaryKey = none from hnone] at hkey
      cases hkey

end Entity

namespace Graph

variable {c : Catalog} {n : Nat} {g g' : Graph} {e x y z : EntityId} {name : String}

/-- The entities from some number on agree with storage, and those that storage has it has with their
components. -/
structure Pristine (n : Nat) (g : Graph) : Prop where
  le : n ≤ g.entities.length
  entity : ∀ x, n ≤ x.index → (g.entity x).Pristine
  stored : ∀ x, n ≤ x.index → (g.entity x).stored = true → ∀ name y,
    (g.entity x).embedded.get? name = some y → (g.entity y).stored = true

/-- An embedded component of a part is a part. -/
theorem WellFormed.mem_partsOf_of_embedded (hwf : g.WellFormed c) {s : Schema}
    (hs : (g.entity e).schema = s) (hx : x ∈ g.partsOf s e)
    (hy : (g.entity x).embedded.get? name = some y) : y ∈ g.partsOf s e := by
  induction s using Schema.induction generalizing e with
  | _ s ih =>
    rcases mem_partsOf_iff.1 hx with rfl | ⟨p, hp, z, hz, hx⟩
    · have hfound := (hwf.embedded x name y hy).2
      refine mem_partsOf_iff.2 (.inr ⟨_, Schema.mem_of_embedded? (hs ▸ hfound), y, hy, ?_⟩)
      exact mem_parts_self g y
    · exact mem_partsOf_iff.2 (.inr ⟨p, hp, z, hz, ih p hp (hwf.schema_of_embedded (hs ▸ hp) hz) hx⟩)

/-- What is stored after parts have been marked was stored before, or is one of them. -/
theorem stored_markStored (hx : ((g.markStored e).entity x).stored = true) :
    (g.entity x).stored = true ∨ x ∈ g.parts e := by
  rcases entity_foldl_modifyEntity (f := fun x : Entity => { x with stored := true }) (fun _ => rfl)
    (g.parts e) g x with heq | ⟨hmem, -⟩
  · rw [markStored, modifyParts, heq] at hx
    exact .inl hx
  · exact .inr hmem

namespace Pristine

/-- Nothing is there from the number of entities on. -/
theorem start (g : Graph) : Pristine g.entities.length g where
  le := Nat.le_refl _
  entity x hx := by
    rw [entity_of_length_le hx]
    exact Entity.pristine_new _ _
  stored x hx hstored := by
    rw [entity_of_length_le hx] at hstored
    cases hstored

/-- A change of one entity that keeps marks and components. -/
theorem modifyEntity {f : Entity → Entity} (h : Pristine n g)
    (hf : (g.entity e).Pristine → (f (g.entity e)).Pristine)
    (hsame : ∀ x : Entity, (f x).stored = x.stored ∧ (f x).embedded = x.embedded) :
    Pristine n (g.modifyEntity e f) where
  le := by simpa using h.le
  entity x hx := forall_modifyEntity (p := Entity.Pristine) (h.entity x hx) fun hxe => by
    subst hxe
    exact hf (h.entity x hx)
  stored x hx hstored name y hy := by
    have hview := fun d => view_modifyEntity (g := g) (e := e) (d := d) (v := (·.stored)) (hsame _).1
    rw [hview] at hstored ⊢
    rw [view_modifyEntity (v := (·.embedded)) (hsame _).2] at hy
    exact h.stored x hx hstored name y hy

/-- A new entity agrees with storage. -/
theorem newEntity (h : Pristine n g) (s : Schema) :
    Pristine n { g with entities := g.entities ++ [{ schema := s }] } := by
  have hentity := entity_append g s
  refine ⟨?_, fun x hx => ?_, fun x hx hstored name y hy => ?_⟩
  · rw [List.length_append]
    exact Nat.le_add_right_of_le h.le
  · rw [hentity]
    split
    · exact Entity.pristine_new s false
    · exact h.entity x hx
  · rw [hentity] at hstored hy
    split at hstored
    · cases hstored
    next hne =>
    rw [if_neg hne] at hy
    have hstored' := h.stored x hx hstored name y hy
    have hlt : y.index ≠ g.entities.length := by
      rintro heq
      rw [entity_of_length_le (Nat.le_of_eq heq.symm)] at hstored'
      cases hstored'
    rw [hentity, if_neg hlt]
    exact hstored'

/-- A new component is stored if its owner is. -/
theorem withPart (h : Pristine n g) (he : e.index < g.entities.length) (name : String) (s : Schema) :
    Pristine n (g.withPart e name s) := by
  have hnew : ∀ d, d ≠ ⟨g.entities.length⟩ → ((g.withPart e name s).entity d).stored =
      (g.entity d).stored := fun d hd => by
    by_cases hde : d = e
    · rw [hde, entity_withPart_self name s he]
    · rw [entity_withPart_of_ne hd hde]
  have hkept : ∀ x, (g.entity x).stored = true →
      ((g.withPart e name s).entity x).stored = true := fun x hx => by
    rw [hnew x, hx]
    rintro rfl
    rw [entity_of_length_le (Nat.le_refl _)] at hx
    cases hx
  refine ⟨?_, fun x hx => ?_, fun x hx hstored other y hy => ?_⟩
  · rw [length_withPart]
    exact Nat.le_succ_of_le h.le
  · by_cases hxnew : x = ⟨g.entities.length⟩
    · rw [hxnew, entity_withPart_new name s he]
      exact Entity.pristine_new s _
    by_cases hxe : x = e
    · obtain ⟨hatomics, htoOne, hpending, hrelated⟩ := h.entity x hx
      subst hxe
      rw [entity_withPart_self name s he]
      exact ⟨hatomics, htoOne, hpending, hrelated⟩
    · rw [entity_withPart_of_ne hxnew hxe]
      exact h.entity x hx
  · by_cases hxnew : x = ⟨g.entities.length⟩
    · rw [hxnew, entity_withPart_new name s he] at hy
      cases hy
    rw [hnew x hxnew] at hstored
    by_cases hxe : x = e
    · subst hxe
      rw [entity_withPart_self name s he] at hy
      rcases Assoc.get?_put_cases hy with ⟨rfl, rfl⟩ | hold
      · rw [entity_withPart_new other s he]
        exact hstored
      · exact hkept y (h.stored x hx hstored other y hold.2)
    · rw [entity_withPart_of_ne hxnew hxe] at hy
      exact hkept y (h.stored x hx hstored other y hy)

/-- Marks are set on all parts of an entity. -/
theorem markStored (h : Pristine n g) (hwf : g.WellFormed c) (e : EntityId) : Pristine n (g.markStored e) := by
  have hstays := fun (x : EntityId) (hx : x.index < g.entities.length) =>
    (ReadStep.marked hwf e).stays hx
  refine ⟨(SameShape.markStored g e).length ▸ h.le, fun x hx => ?_, fun x hx hstored name y hy => ?_⟩
  · obtain ⟨hatomics, htoOne, hpending, hrelated⟩ := h.entity x hx
    rcases entity_foldl_modifyEntity (f := fun x : Entity => { x with stored := true }) (fun _ => rfl)
      (g.parts e) g x with heq | ⟨-, heq⟩
    all_goals rw [Graph.markStored, modifyParts, heq]
    · exact h.entity x hx
    · exact ⟨hatomics, htoOne, hpending, hrelated⟩
  · rw [view_markStored (v := (·.embedded)) (fun _ => rfl)] at hy
    have hlt := (hwf.embedded x name y hy).1
    rcases stored_markStored hstored with hold | hmem
    · exact (hstays y hlt).2 (h.stored x hx hold name y hy)
    · have hpart : y ∈ g.parts e := hwf.mem_partsOf_of_embedded rfl hmem hy
      rw [Graph.markStored, modifyParts, entity_foldl_modifyEntity_of_mem
        (f := fun x : Entity => { x with stored := true }) (fun _ => rfl) hpart hlt]

/-- Each step of reading keeps that. -/
theorem readStep (hstep : ReadStep c g g') (h : Pristine n g) : Pristine n g' := by
  cases hstep with
  | made s => exact h.newEntity s
  | embedded hs hnew => exact h.withPart (index_lt_of_embedded? hs) _ _
  | loaded e hvalues =>
    exact h.modifyEntity (fun hx => hx.loadAtomics _) fun x => by rw [loadAtomics_eq]; exact ⟨rfl, rfl⟩
  | marked hwf e => exact h.markStored hwf e
  | related hkey name target =>
    exact h.modifyEntity (fun hx => hx.loadTarget hkey name target) fun x =>
      ⟨Entity.view_loadTarget fun _ _ => rfl, Entity.view_loadTarget fun _ _ => rfl⟩
  | gathered hlength hsame =>
    refine ⟨hlength ▸ h.le, fun x hx => ?_, fun x hx hstored name y hy => ?_⟩
    · obtain ⟨toMany, listeners, heq, hmany⟩ := hsame x
      obtain ⟨hatomics, htoOne, hpending, hrelated⟩ := h.entity x hx
      rw [heq]
      refine ⟨hatomics, htoOne, hpending, fun hnone => ⟨(hrelated hnone).1, ?_⟩⟩
      rcases hmany with rfl | hkey
      · exact (hrelated hnone).2
      · rw [show (g.entity x).schema.primaryKey = none from hnone] at hkey
        cases hkey
    · obtain ⟨_, _, hx', -⟩ := hsame x
      obtain ⟨_, _, hy', -⟩ := hsame y
      rw [hx'] at hstored hy
      rw [hy']
      exact h.stored x hx hstored name y hy

/-- Components of a stored entity are stored, and agree with storage as well. -/
theorem of_embeds (h : Pristine n g) (hclosed : Closed n g) (hx : n ≤ x.index)
    (hstored : (g.entity x).stored = true) (hy : Relation.ReflTransGen g.Embeds x y) :
    n ≤ y.index ∧ (g.entity y).stored = true := by
  induction hy with
  | refl => exact ⟨hx, hstored⟩
  | tail _ hstep ih =>
    obtain ⟨name, hname⟩ := hstep
    exact ⟨(hclosed _ ih.1 name _ hname).1, h.stored _ ih.1 ih.2 name _ hname⟩

/-- A stored entity that has a key is settled. -/
theorem settled (h : Pristine n g) (hclosed : Closed n g) (hx : n ≤ x.index)
    (hstored : (g.entity x).stored = true) (hkey : (g.key? x).isSome) : g.Settled x where
  key := hkey
  pending := (h.entity x hx).pending
  stored _ hy := (h.of_embeds hclosed hx hstored (WellFormed.reaches_of_mem_partsOf hy)).2
  clean y hy := (h.entity y
    (h.of_embeds hclosed hx hstored (WellFormed.reaches_of_mem_partsOf hy)).1).markClean

/-- What has no primary key leads nowhere. -/
theorem successors_eq_nil (h : Pristine n g) (hx : n ≤ x.index)
    (hnone : (g.entity x).schema.primaryKey = none) : g.successors x = [] := by
  obtain ⟨htoOne, htoMany⟩ := (h.entity x hx).related hnone
  unfold successors loadedRelations
  simp only [htoOne, htoMany, Assoc.get?_nil, List.filterMap_eq_nil_iff.2 fun _ _ => rfl,
    List.flatMap_nil]

end Pristine

/-- The entities of an item: an entity or embedded component, or the members of a collection. -/
def entitiesOf (g : Graph) : Item → List EntityId
  | .entity e => [e]
  | .collection i => (g.collection i).members
  | .scalar _ => []
  | .absent => []

/-- The entities and embedded components that tuples hold. -/
def held (g : Graph) (tuples : List Tuple) : List EntityId :=
  tuples.flatMap fun tuple => tuple.flatMap fun p => g.entitiesOf p.2

/-- What agrees with storage: an entity or component that is stored, no value of which differs from
storage, and for which nothing waits. -/
def AtRest (g : Graph) (x : EntityId) : Prop :=
  (g.entity x).stored = true ∧ (g.entity x).hasDirtyAtomic = false ∧ (g.entity x).pending = []

end Graph

open EntityGraph.Graph

variable {c : Catalog} {n : Nat} {shown : List Appearance} {links : List Link}
  {known : Assoc Identity EntityId} {g : Graph} {e x y : EntityId} {who : Identity}

/-- Relations of what is known lead to what is known. -/
theorem Joined.known_of_successor (h : Joined c links known g) (he : known.get? who = some e)
    (hy : y ∈ g.successors e) : ∃ who', known.get? who' = some y := by
  obtain ⟨r, hr, hy⟩ := List.mem_flatMap.1 hy
  obtain ⟨comp, -, heq⟩ := List.mem_filterMap.1 hr
  split at heq
  · next id hid =>
    obtain rfl := Option.some.inj heq
    have hmembers := (h.toMany who e he comp.name id hid).members
    have hmem : some y ∈ (Link.children links who comp.name).map known.get? :=
      hmembers ▸ List.mem_map_of_mem (f := some) hy
    obtain ⟨k, -, hk⟩ := List.mem_map.1 hmem
    exact ⟨k, hk⟩
  · next slot _ hslot =>
    obtain rfl := Option.some.inj heq
    rw [h.toOne who e he comp.name] at hslot
    obtain ⟨child, -, rfl⟩ := Option.map_eq_some_iff.1 hslot
    have hvalue : child.bind known.get? = some y := by simpa [targets, Slot.loaded] using hy
    obtain ⟨k, -, hk⟩ := Option.bind_eq_some_iff.1 hvalue
    exact ⟨k, hk⟩
  · cases heq

/-- A path leads to embedded components. -/
theorem Graph.embeds_of_partAt? {path : List String} (h : g.partAt? e path = some x) :
    Relation.ReflTransGen g.Embeds e x := by
  induction path generalizing e with
  | nil => exact Option.some.inj h ▸ .refl
  | cons name path ih =>
    obtain ⟨z, hz, h⟩ := Option.bind_eq_some_iff.1 h
    exact .head ⟨name, hz⟩ (ih h)

/-- What a tuple holds is known, or is a component of what is known. -/
theorem Mirrored.known_of_held {p : Plan} (h : Mirrored c n shown links known g) {rows : List Row}
    (hx : x ∈ g.held (rows.map fun row => p.tupleIn row known g)) :
    ∃ who e, known.get? who = some e ∧ Relation.ReflTransGen g.Embeds e x := by
  obtain ⟨tuple, htuple, hx⟩ := List.mem_flatMap.1 hx
  obtain ⟨item, hitem, hx⟩ := List.mem_flatMap.1 hx
  obtain ⟨row, -, rfl⟩ := List.mem_map.1 htuple
  obtain ⟨o, -, rfl⟩ := List.mem_map.1 hitem
  have hknown : ∀ {i e}, p.entityIn row known i = some e → ∃ who, known.get? who = some e := fun hi => by
    obtain ⟨who, -, hwho⟩ := Option.bind_eq_some_iff.1 hi
    exact ⟨who, hwho⟩
  cases o with
  | entity key i =>
    cases he : p.entityIn row known i with
    | none => simp [Plan.itemIn, he, entitiesOf] at hx
    | some e =>
      obtain rfl : x = e := by simpa [Plan.itemIn, he, entitiesOf] using hx
      obtain ⟨who, hwho⟩ := hknown he
      exact ⟨who, x, hwho, .refl⟩
  | embedded key i path =>
    cases hpart : (p.entityIn row known i).bind fun e => g.partAt? e path with
    | none => simp [Plan.itemIn, hpart, entitiesOf] at hx
    | some y =>
      obtain rfl : x = y := by simpa [Plan.itemIn, hpart, entitiesOf] using hx
      obtain ⟨e, he, hpart⟩ := Option.bind_eq_some_iff.1 hpart
      obtain ⟨who, hwho⟩ := hknown he
      exact ⟨who, e, hwho, embeds_of_partAt? hpart⟩
  | collection key i name =>
    cases hopened : (p.entityIn row known i).bind fun e => (g.entity e).toMany.get? name with
    | none => simp [Plan.itemIn, hopened, entitiesOf] at hx
    | some id =>
      have hx : x ∈ (g.collection id).members := by simpa [Plan.itemIn, hopened, entitiesOf] using hx
      obtain ⟨e, he, hname⟩ := Option.bind_eq_some_iff.1 hopened
      obtain ⟨who, hwho⟩ := hknown he
      have hmem : some x ∈ (Link.children links who name).map known.get? :=
        (h.toMany who e hwho name id hname).members ▸ List.mem_map_of_mem (f := some) hx
      obtain ⟨k, -, hk⟩ := List.mem_map.1 hmem
      exact ⟨k, x, hk, .refl⟩
  | scalar key i path atomic =>
    cases hpart : (p.entityIn row known i).bind fun e => g.partAt? e path <;>
      simp [Plan.itemIn, hpart, entitiesOf] at hx
  | raw key label => simp [Plan.itemIn, entitiesOf] at hx

namespace Query

variable {q : Query} {compiled : CompiledQuery} {cache cache' : PathCache} {tuples : List Tuple}
  {m : Mapping} {rows : List Row}

/-- **A fetched graph is clean.** What the tuples of a compiled query hold, and what loaded relations lead
to from there, is stored with all its components, and none of these has a value that differs from storage
or waits for a key. Under every configuration, saving an entity among it succeeds and sends nothing:
the world stays as it is. Components, which have no primary key, are saved with their owners. -/
theorem save_of_mapRows (hwf : g.WellFormed c)
    (hcompile : q.compile c cache = (.ok compiled, cache'))
    (hrows : Mapper.mapRows c rows ⟨compiled.mapper, g⟩ = .ok tuples m)
    (he : e ∈ m.graph.held tuples) (hx : m.graph.LeadsTo e x) :
    (∀ y ∈ m.graph.parts x, m.graph.AtRest y) ∧
    ((m.graph.entity x).schema.primaryKey.isSome → ∀ {σ : Type} [Connection σ] (config : Config)
      (w : World σ), w.graph = m.graph → Session.save ⟨c, config⟩ x w = .ok () w) := by
  have hp := sound_of_compile hcompile
  obtain ⟨hmirrored, -, rfl⟩ :=
    ((Mirrored.start c g).ends_mapRows (m := ⟨compiled.mapper, g⟩) hp rfl rows).of_ok hrows
  have hstart : Mapping.Reads c ⟨compiled.mapper, g⟩ ⟨compiled.mapper, g⟩ :=
    .refl hwf fun _ _ hx => by cases hx
  have hreads := (Mapper.ends_mapRows_reads hp hstart rows).of_ok hrows
  have hpristine : Pristine g.entities.length m.graph := hreads.graph.keeps Pristine.readStep (.start g)
  have hclosed := hmirrored.closed
  have hknown : ∀ who e, m.mapper.identity.get? who = some e →
      g.entities.length ≤ e.index ∧ (m.graph.entity e).stored = true := fun who e he =>
    ⟨(hmirrored.range who e he).1, (hreads.stored who e he).resolve_left fun hno => by cases hno⟩
  -- what is reached is known, or is a component of what is known, which leads nowhere
  have hreached : ∃ who e', m.mapper.identity.get? who = some e' ∧
      Relation.ReflTransGen m.graph.Embeds e' x := by
    induction hx with
    | refl => exact hmirrored.known_of_held he
    | @tail y z _ hz ih =>
      obtain ⟨who, e', he', hy⟩ := ih
      rcases hy.cases_tail with rfl | ⟨d, -, name, hd⟩
      · obtain ⟨who', hwho'⟩ := hmirrored.known_of_successor he' hz
        exact ⟨who', z, hwho', .refl⟩
      · obtain ⟨hle, hstored⟩ := hknown who e' he'
        have hnone := (hreads.graph.wellFormed.known_of_embedded hd).noKey_of_embedded
          (Schema.mem_of_embedded? (hreads.graph.wellFormed.embedded d name y hd).2)
        rw [hpristine.successors_eq_nil (hpristine.of_embeds hclosed hle hstored hy).1 hnone] at hz
        cases hz
  obtain ⟨who, e', he', hembeds⟩ := hreached
  obtain ⟨hle, hstored⟩ := hknown who e' he'
  refine ⟨fun y hy => ?_, fun hkey σ _ config w hw => ?_⟩
  · obtain ⟨hley, hstoredy⟩ := hpristine.of_embeds hclosed hle hstored
      (hembeds.trans (WellFormed.reaches_of_mem_partsOf hy))
    have hpristiney := hpristine.entity y hley
    exact ⟨hstoredy, Entity.hasDirtyAtomic_of_clean hpristiney.markClean, hpristiney.pending⟩
  · -- with a primary key it is no component
    obtain rfl : e' = x := by
      rcases hembeds.cases_tail with heq | ⟨d, -, name, hd⟩
      · exact heq.symm
      · have hnone := (hreads.graph.wellFormed.known_of_embedded hd).noKey_of_embedded
          (Schema.mem_of_embedded? (hreads.graph.wellFormed.embedded d name x hd).2)
        rw [hnone] at hkey
        cases hkey
    refine Session.save_of_settled fun z hz => ?_
    rw [hw] at hz ⊢
    obtain ⟨who', hwho'⟩ : ∃ who, m.mapper.identity.get? who = some z := by
      induction hz with
      | refl => exact ⟨who, he'⟩
      | tail _ hstep ih =>
        obtain ⟨who', hwho'⟩ := ih
        exact hmirrored.known_of_successor hwho' hstep
    obtain ⟨hlez, hstoredz⟩ := hknown who' z hwho'
    exact hpristine.settled hclosed hlez hstoredz (by rw [hmirrored.key? hwho']; rfl)

/-- The blog's tuples hold two posts, several times. Each agrees with storage, and can be saved. -/
theorem save_of_mapRows_blog : ∃ compiled cache' tuples m,
    Blog.query.compile Blog.catalog {} = (.ok compiled, cache') ∧
      Mapper.mapRows Blog.catalog Blog.rows ⟨compiled.mapper, {}⟩ = .ok tuples m ∧
        m.graph.held tuples = [⟨2⟩, ⟨3⟩, ⟨2⟩, ⟨2⟩, ⟨3⟩, ⟨3⟩, ⟨2⟩] ∧
          ∀ e ∈ m.graph.held tuples, m.graph.AtRest e ∧ Session.save ⟨Blog.catalog, {}⟩ e
            (Shop.world m.graph) = .ok () (Shop.world m.graph) := by
  have hanswers : (Blog.query.compile Blog.catalog {}).1.toOption.any (fun compiled =>
      let mapped := Mapper.mapRows Blog.catalog Blog.rows
      let m := mapped.final ⟨compiled.mapper, {}⟩
      (mapped.answer? ⟨compiled.mapper, {}⟩).any fun tuples =>
        m.graph.held tuples == [⟨2⟩, ⟨3⟩, ⟨2⟩, ⟨2⟩, ⟨3⟩, ⟨3⟩, ⟨2⟩] &&
          (m.graph.held tuples).all fun e => (m.graph.entity e).schema.primaryKey.isSome) = true := by
    decide +kernel
  obtain ⟨compiled, cache', hcompile, hanswer⟩ := exists_compiled hanswers
  obtain ⟨tuples, htuples, hanswer⟩ := (Option.any_eq_true _ _).1 hanswer
  have hrows := Act.eq_ok_of_answer? htuples
  obtain ⟨hheld, hkeyed⟩ := Bool.and_eq_true_iff.1 hanswer
  refine ⟨compiled, cache', tuples, _, hcompile, hrows, eq_of_beq hheld, fun e he => ?_⟩
  obtain ⟨hparts, hsave⟩ := save_of_mapRows (.empty _) hcompile hrows he .refl
  exact ⟨hparts e (mem_parts_self _ e), hsave (List.all_eq_true.1 hkeyed e he) {} _ rfl⟩

end Query

end EntityGraph
