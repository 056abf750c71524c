import EntityGraph.Proofs.Filling
import EntityGraph.Proofs.Walk

/-!
# Finding what was saved

A new entity that has been filled is saved by one insert into each of its tables. Looking it up by its
key, in a storage that holds just what these inserts have written, finds an entity with the same
values, embedded ones included.

The look-up names the key by a path and refers to cells by texts. It needs a name of the key that is a
path of one segment, and tables and columns that are referred to differently.

## Main results

* `Save.ends_insertRows_fresh`: the inserts that are sent for a fresh entity, and its values after them.
* `Lookup.held_eq`: what the storage holds in the cell of an occurrence is its value.
* `Session.find_of_save`: an entity that has been saved is found again.
-/

namespace EntityGraph

namespace Graph

variable {c : Catalog} {r : Schema} {g g' : Graph} {e x : EntityId} {n : Nat}
  {q : List String × Atomic}

/-- The value at an occurrence is that of the atomic in the component at the end of the path. -/
theorem valueAt_eq (g : Graph) (e : EntityId) (q : List String × Atomic) :
    g.valueAt e q =
      ((g.partAt? e q.1).map fun x => (g.entity x).atomicValue q.2.name).getD .null := by
  unfold valueAt slotAt Entity.atomicValue
  cases g.partAt? e q.1 <;> rfl

/-- Graphs of the same shape have the same components at the ends of paths. -/
theorem SameShape.partAt?_eq (h : SameShape g g') (e : EntityId) (path : List String) :
    g'.partAt? e path = g.partAt? e path := by
  induction path generalizing e with
  | nil => rfl
  | cons name path ih =>
    rw [partAt?, partAt?, h.embedded e, funext fun x => ih x]

/-- Marks do not change values. -/
theorem valueAt_marked (hwf : g.WellFormed c) (hlt : e.index < g.entities.length) :
    ((g.markClean e).markStored e).valueAt e q = g.valueAt e q := by
  have hshape : g.SameShape ((g.markClean e).markStored e) :=
    (SameShape.markClean g e).trans (.markStored _ e)
  rw [valueAt_eq, valueAt_eq, hshape.partAt?_eq]
  refine congrArg (·.getD Value.null) (Option.map_congr fun x _ => ?_)
  exact view_marked (v := (·.atomicValue q.2.name)) (fun y => y.atomicValue_persist _) hwf hlt x

/-- The value of the primary key is the key. -/
theorem valueAt_of_key? {key : Atomic} {k : Value} (hkey : (g.entity e).schema.primaryKey = some key)
    (hk : g.key? e = some k) : g.valueAt e ([], key) = k := by
  unfold Graph.key? Entity.key? Schema.keyName? at hk
  simp only [hkey, Option.map_some, Option.bind_eq_bind, Option.bind_some,
    Option.bind_eq_some_iff] at hk
  obtain ⟨slot, hslot, hsome⟩ := hk
  unfold valueAt Graph.slotAt
  simp only [partAt?, Option.bind_some, hslot, Option.map_some, Option.getD_some]
  split at hsome
  · cases hsome
  · exact Option.some.inj hsome

/-- The component at the end of a path from a fresh entity is fresh. -/
theorem Fresh.partAt? (h : Fresh c r n g) {path : List String} (he : n ≤ e.index)
    (hx : g.partAt? e path = some x) : n ≤ x.index := by
  induction path generalizing e with
  | nil => exact Option.some.inj hx ▸ he
  | cons name path ih =>
    obtain ⟨y, hy, hx⟩ := Option.bind_eq_some_iff.1 hx
    exact ih (h.embedded e name y he hy) hx

/-- A component other than the entity itself has no primary key. -/
theorem WellFormed.noKey_of_partAt? (h : g.WellFormed c) {name : String} {path : List String}
    (hx : g.partAt? e (name :: path) = some x) : (g.entity x).schema.primaryKey = none := by
  induction path generalizing e name with
  | nil =>
    obtain ⟨y, hy, hx⟩ := Option.bind_eq_some_iff.1 hx
    obtain rfl : y = x := Option.some.inj hx
    obtain ⟨-, hpart⟩ := h.embedded e name y hy
    exact (h.known_of_embedded hy).noKey_of_embedded (Schema.mem_of_embedded? hpart)
  | cons next path ih =>
    obtain ⟨y, -, hx⟩ := Option.bind_eq_some_iff.1 hx
    exact ih hx

/-- A fresh entity that takes over a key keeps its other values. -/
theorem Announced.valueAt {key : Atomic} {w : Value} (h : Announced e key.name w g g')
    (hfresh : Fresh c r n g) (he : n ≤ e.index) (hkey : (g.entity e).schema.primaryKey = some key)
    (hcoherent : (g.entity e).schema.Coherent) (hmem : key ∈ (g.entity e).schema.atomics)
    (hq : q ∈ (g.entity e).schema.occurrences []) :
    g'.valueAt e q = if q = ([], key) then w else g.valueAt e q := by
  rw [valueAt_eq, valueAt_eq, h.shape.partAt?_eq]
  rcases Schema.cases_of_mem_occurrences hq with ⟨a, ha, rfl⟩ | ⟨p, -, r, -, rfl⟩
  · show (g'.entity e).atomicValue a.name =
      if ([], a) = ([], key) then w else (g.entity e).atomicValue a.name
    by_cases hname : a.name = key.name
    · obtain rfl : a = key := Option.some.inj
        ((hcoherent.atomic?_name ha).symm.trans (hname ▸ hcoherent.atomic?_name hmem))
      rw [if_pos rfl, h.atomicValue]
    · have hne : a ≠ key := fun heq => hname (heq ▸ rfl)
      rw [if_neg (by simpa using hne), h.self]
      unfold Entity.atomicValue Entity.loadAtomic
      rw [Assoc.get?_put_of_ne _ _ hname]
  · rw [if_neg (by simp)]
    refine congrArg (·.getD Value.null) (Option.map_congr fun x hx => ?_)
    have hne : x ≠ e := by
      rintro rfl
      rw [hfresh.wellFormed.noKey_of_partAt? hx] at hkey
      cases hkey
    rw [h.settled x hne (hfresh.untouched x (hfresh.partAt? he hx)).pending]

/-- An occurrence is an atomic of the component at the end of its path. -/
theorem WellFormed.mem_of_partAt? (h : g.WellFormed c)
    (hq : q ∈ (g.entity e).schema.occurrences []) (hx : g.partAt? e q.1 = some x) :
    q.2 ∈ (g.entity x).schema.atomics := by
  generalize hs : (g.entity e).schema = s at hq
  induction s using Schema.induction generalizing e q with
  | _ s ih =>
    rcases Schema.cases_of_mem_occurrences hq with ⟨a, ha, rfl⟩ | ⟨p, hp, r, hr, rfl⟩
    · obtain rfl : e = x := Option.some.inj hx
      exact hs ▸ ha
    · obtain ⟨y, hy, hx⟩ := Option.bind_eq_some_iff.1 hx
      exact ih p hp (q := r) hx (h.schema_of_embedded (hs ▸ hp) hy) hr

/-- Nothing of a fresh entity is known to storage, and every value is of the kind of its atomic. -/
theorem Fresh.slotAt (h : Fresh c r n g) (he : n ≤ e.index)
    (hq : q ∈ (g.entity e).schema.occurrences []) {slot : Slot Value}
    (hslot : g.slotAt e q = some slot) : slot.clean = false ∧ q.2.kind.Holds slot.value := by
  obtain ⟨x, hx, hslot⟩ := Option.bind_eq_some_iff.1 hslot
  have hmem := h.wellFormed.mem_of_partAt? hq hx
  have hlt : x.index < g.entities.length := index_lt_of_mem (v := (·.schema.atomics)) hmem rfl
  obtain ⟨hdirty, hkind⟩ := (h.untouched x (h.partAt? he hx)).slots _ _ hslot
  exact ⟨hdirty, hkind _ ((h.wellFormed.known x hlt).coherent.atomic?_name hmem)⟩

/-- The values of a fresh entity are of the kinds of their atomics. -/
theorem Fresh.holds_valueAt (h : Fresh c r n g) (he : n ≤ e.index)
    (hq : q ∈ (g.entity e).schema.occurrences []) : q.2.kind.Holds (g.valueAt e q) := by
  unfold valueAt
  cases hslot : g.slotAt e q with
  | none => trivial
  | some slot => exact (h.slotAt he hq hslot).2

/-- Nothing that a fresh entity leads to is known. -/
theorem Fresh.loadedRelations (h : Fresh c r n g) (he : n ≤ e.index) : g.loadedRelations e = [] := by
  have huntouched := h.untouched e he
  unfold Graph.loadedRelations
  simp [huntouched.toOne, huntouched.toMany]

end Graph

namespace Lookup

open EntityGraph.Graph Save

variable {c : Catalog} {g : Graph} {e : EntityId} {n : Nat} {r s : Schema} {key : Atomic} {k : Value}
  {q : List String × Atomic}

/-- The columns of a table have the values of a fresh entity. -/
theorem lookup_columnsIn (h : Fresh c r n g) (he : n ≤ e.index) (hs : (g.entity e).schema = s)
    (hcells : s.CellsDiffer) (hq : q ∈ s.occurrences []) :
    (columnsIn s (g.dirtyAtomics e) (s.tableOf q.2)).lookup q.2.column =
      (g.slotAt e q).map (·.value) := by
  subst hs
  have hdirty := dirtyAtomics_eq_filterMap h.wellFormed e
  -- what is given for the column is the value at the occurrence
  have honly : ∀ u, (q.2.column, u) ∈ columnsIn (g.entity e).schema (g.dirtyAtomics e)
      ((g.entity e).schema.tableOf q.2) → (g.slotAt e q).map (·.value) = some u := by
    intro u hu
    obtain ⟨a, ha, htable, hcolumn⟩ := mem_columnsIn_iff.1 hu
    rw [hdirty, List.mem_filterMap] at ha
    obtain ⟨q', hq', hat⟩ := ha
    obtain ⟨slot, hslot, hat⟩ := Option.bind_eq_some_iff.1 hat
    rw [(h.slotAt he hq' hslot).1] at hat
    obtain ⟨rfl, rfl⟩ := Prod.mk.inj (Option.some.inj hat)
    rw [Schema.eq_of_cell hcells hq hq' (Prod.ext htable.symm hcolumn.symm), hslot]
    rfl
  cases hslot : g.slotAt e q with
  | none =>
    rw [Option.map_none, List.lookup_eq_none_iff]
    intro p hp
    by_contra heq
    have hcolumn : q.2.column = p.1 := by simpa using heq
    have hsome := honly p.2 (hcolumn ▸ hp)
    rw [hslot] at hsome
    cases hsome
  | some slot =>
    have hmem : (q.2, slot.value) ∈ g.dirtyAtomics e := by
      rw [hdirty, List.mem_filterMap]
      refine ⟨q, hq, ?_⟩
      simp [dirtyAt, hslot, (h.slotAt he hq hslot).1]
    have hsome : ((columnsIn (g.entity e).schema (g.dirtyAtomics e)
        ((g.entity e).schema.tableOf q.2)).lookup q.2.column).isSome :=
      List.lookup_isSome_iff.2 ⟨(q.2.column, slot.value), mem_columnsIn_iff.2 ⟨q.2, hmem, rfl, rfl⟩,
        beq_self_eq_true _⟩
    obtain ⟨u, hu⟩ := Option.isSome_iff_exists.1 hsome
    obtain ⟨l₁, l₂, hsplit, -⟩ := List.lookup_eq_some_iff.1 hu
    rw [hu, ← hslot, honly u (by rw [hsplit]; simp)]

/-- What a storage holds in the cell of an occurrence is its value, or the key. -/
theorem held_eq (h : Fresh c r n g) (he : n ≤ e.index) (hs : (g.entity e).schema = s)
    (hc : Consistent s key) (hkeyMem : key ∈ s.atomics) (hq : q ∈ s.occurrences []) :
    held s key (g.dirtyAtomics e) k (s.cell q.2) = if q = ([], key) then k else g.valueAt e q := by
  have hkeyOccurs : ([], key) ∈ s.occurrences [] :=
    Schema.mem_occurrences_iff.2 (.inl ⟨key, hkeyMem, rfl⟩)
  split
  · next heq =>
    subst heq
    exact held_key
  · next hne =>
    have hdeep : q.2 ∈ s.deepAtomics := by
      rw [← Schema.map_occurrences s []]
      exact List.mem_map_of_mem hq
    have hcolumn : q.2.column ≠ key.column := by
      by_cases htable : s.tableOf q.2 = s.table
      · refine fun hcolumn => hne (Schema.eq_of_cell hc.cells hq hkeyOccurs (Prod.ext ?_ hcolumn))
        exact htable.trans hc.keyTable.symm
      · exact hc.keyColumn _ hdeep htable
    unfold held valueAt Schema.cell
    rw [get?_cells hcolumn, lookup_columnsIn h he hs hc.cells hq]

end Lookup

namespace Save

open EntityGraph.Graph Traversal

variable {σ : Type} [Connection σ] {ses : Session} {c : Catalog} {type : String} {r s : Schema}
  {key : Atomic} {e : EntityId} {n : Nat} {t t' : Traversal EntityId σ}
  {save : EntityId → SaveM σ Unit} {rows : SaveM σ Unit} {P : Unit → Traversal EntityId σ → Prop}
  {E : Error → Traversal EntityId σ → Prop}

/-- A fresh entity that has been inserted has a key of the declared kind, and otherwise the values that
it had. -/
theorem inserted_fresh (h : Fresh c r n t.world.graph) (he : n ≤ e.index)
    (hcoherent : (t.world.graph.entity e).schema.Coherent)
    (hmem : key ∈ (t.world.graph.entity e).schema.atomics) {k : Value}
    (hinserted : Inserted c e key k t t') : key.kind.Holds k ∧
      ∀ q ∈ (t.world.graph.entity e).schema.occurrences [], t'.world.graph.valueAt e q =
        if q = ([], key) then k else t.world.graph.valueAt e q := by
  have hkey := hinserted.isKey
  cases hunset : t.world.graph.key? e with
  | none =>
    -- the database has made the key
    obtain ⟨v, -, hcoerce⟩ := hinserted.made hunset
    have hann := hinserted.announced hunset hinserted.key?
    exact ⟨AtomicKind.coerce?_holds (Atomic.coerce_eq_ok_iff.1 hcoerce),
      fun q hq => hann.valueAt h he hkey hcoherent hmem hq⟩
  | some k' =>
    -- the key has been assigned by the caller
    have hgraph : t'.world.graph = t.world.graph := by
      refine hinserted.graph.resolve_right fun htook => ?_
      rw [hunset] at htook
      cases htook.1
    have hvalue := valueAt_of_key? hkey (hgraph ▸ hinserted.key?)
    have hholds := h.holds_valueAt he
      (Schema.mem_occurrences_iff.2 (.inl ⟨key, hmem, rfl⟩) : ([], key) ∈ _)
    rw [hvalue] at hholds
    refine ⟨hholds, fun q _ => ?_⟩
    rw [hgraph]
    split
    · next heq => rw [heq, hvalue]
    · rfl

/-- A fresh entity is sent as one insert into each table, and keeps its values. -/
theorem ends_insertRows_fresh (h : Fresh c r n t.world.graph) (he : n ≤ e.index)
    (hs : (t.world.graph.entity e).schema = s) (hcoherent : s.Coherent)
    (hkey : s.primaryKey = some key) (hmem : key ∈ s.atomics) :
    (insertRows ses e).Ends t
      (fun _ t' => ∃ k, t'.world.graph.key? e = some k ∧ key.kind.Holds k ∧
        t'.world.wire.sent =
          t.world.wire.sent ++ inserts s (t.world.graph.dirtyAtomics e) key k ∧
        ∀ q ∈ s.occurrences [], t'.world.graph.valueAt e q =
          if q = ([], key) then k else t.world.graph.valueAt e q)
      (fun _ _ => True) := by
  subst hs
  refine (inserted_insertRows h.wellFormed).mono (fun _ t' hdone => ?_) fun _ _ _ => trivial
  obtain ⟨key', k, t'', hinserted, rfl⟩ := hdone
  obtain rfl : key = key' := Option.some.inj (hkey.symm.trans hinserted.isKey)
  obtain ⟨hholds, hvalues⟩ := inserted_fresh h he hcoherent hmem hinserted
  have hwf := hinserted.wellFormed
  refine ⟨k, ?_, hholds, hinserted.sent, fun q hq => ?_⟩
  · show ((t''.world.graph.markClean e).markStored e).key? e = some k
    rw [key?_marked hwf hinserted.index_lt]
    exact hinserted.key?
  · show ((t''.world.graph.markClean e).markStored e).valueAt e q = _
    rw [valueAt_marked hwf hinserted.index_lt]
    exact hvalues q hq

/-- Writing the changes of an entity inserts nothing. -/
theorem sent_updateRows : (updateRows ses e).Ends t
    (fun _ t' => ∃ l : List Update, t'.world.wire.sent = t.world.wire.sent ++ l.map .update)
    (fun _ _ => True) := by
  refine ends_updateRows (fun _ _ => trivial) (fun _ _ => ⟨[], by simp [marked]⟩)
    fun key s v _ _ _ _ _ => ?_
  exact ends_updateTables (fun t' hsent => ⟨_, hsent.sent⟩) fun _ _ _ _ _ => trivial

end Save

/-- The insert that a statement is, if it is one. -/
def Statement.insert? : Statement → Option Insert
  | insert i => some i
  | _ => none

/-- The inserts that have been sent from one world to a later one. -/
def World.insertsSince {σ : Type} (w w' : World σ) : List Insert :=
  (w'.wire.sent.drop w.wire.sent.length).filterMap Statement.insert?

namespace Session

open EntityGraph.Graph Save Traversal Lookup

variable {σ : Type} [Connection σ] {ses : Session} {type : String} {r s : Schema} {key : Atomic}
  {k : Value} {e : EntityId} {n : Nat}

/-- A fresh entity that a save has inserted. -/
structure SavedAs (s : Schema) (key : Atomic) (e : EntityId) (k : Value) (w w' : World σ) :
    Prop where
  hasKey : w'.graph.key? e = some k
  holds : key.kind.Holds k
  inserts : w.insertsSince w' = insertsInto s (w.graph.dirtyAtomics e) key k
  values : ∀ q ∈ s.occurrences [], w'.graph.valueAt e q =
    if q = ([], key) then k else w.graph.valueAt e q

/-- A save of a fresh entity inserts it, unless it inserts nothing. -/
theorem savedAs_of_save {w w' : World σ} (h : Fresh ses.catalog r n w.graph) (he : n ≤ e.index)
    (hbuilt : ses.catalog.schema type = .ok s) (hs : (w.graph.entity e).schema = s)
    (hkey : s.primaryKey = some key) (hsave : ses.save e w = .ok () w') :
    w.insertsSince w' = [] ∨ ∃ k, SavedAs s key e k w w' := by
  have hmem := Catalog.mem_of_primaryKey hbuilt hkey
  have hcoherent := Catalog.coherent_of_within hbuilt (.refl s)
  have hrelations := h.loadedRelations he
  have hnone : ∀ (w' : World σ) (l : List Update),
      w'.wire.sent = w.wire.sent ++ l.map .update → w.insertsSince w' = [] := by
    intro w' l hl
    unfold World.insertsSince
    rw [hl, List.drop_left, List.filterMap_map]
    exact List.filterMap_eq_nil_iff.2 fun _ _ => rfl
  have hends : (saveFrom ses (depthBound w.graph) e).Ends { world := w }
      (fun _ t => w.insertsSince t.world = [] ∨ ∃ k, SavedAs s key e k w t.world)
      (fun _ _ => True) := by
    have hkept : ∀ t' : Traversal EntityId σ, SameFrame ses.catalog
        { world := w, entered := [e] } t' → t'.world.graph.loadedRelations e = [] :=
      fun t' hframe => (hframe.shape.loadedRelations_eq e).trans hrelations
    unfold depthBound saveFrom
    rw [Act.ends_bind, ends_graph, Act.ends_bind, Act.ends_ofExcept]
    refine ⟨fun _ _ => ?_, fun _ _ => trivial⟩
    rw [Act.ends_ite]
    refine ⟨fun _ => ?_, fun _ => ?_⟩
    · unfold updateWith
      rw [Act.ends_bind, ends_graph, Act.ends_ite]
      refine ⟨fun _ => .inl (hnone w [] (by simp)), fun _ => ?_⟩
      refine ends_visit_alone List.not_mem_nil hrelations ?_
      refine (sent_updateRows.and (sameFrame_updateRows h.wellFormed)).mono
        (fun _ t' ht' => ⟨hkept t' ht'.2, ?_⟩) fun _ _ _ => trivial
      obtain ⟨⟨l, hl⟩, -⟩ := ht'
      exact .inl (hnone t'.world l hl)
    · unfold insertWith
      rw [Act.ends_bind, ends_graph, Act.ends_ite]
      refine ⟨fun _ => .inl (hnone w [] (by simp)), fun _ => ?_⟩
      refine ends_visit_alone List.not_mem_nil hrelations ?_
      refine ((ends_insertRows_fresh (t := { world := w, entered := [e] }) h he hs hcoherent hkey
        hmem).and (sameFrame_insertRows h.wellFormed)).mono
        (fun _ t' ht' => ⟨hkept t' ht'.2, ?_⟩) fun _ _ _ => trivial
      obtain ⟨⟨k, hk, hholds, hsent, hvalues⟩, -⟩ := ht'
      refine .inr ⟨k, hk, hholds, ?_, hvalues⟩
      have hsent : t'.world.wire.sent = w.wire.sent ++ _ := hsent
      unfold World.insertsSince
      rw [hsent, List.drop_left, ← map_insertsInto, List.filterMap_map]
      exact List.filterMap_some
  obtain ⟨t, ht, rfl⟩ := run_eq_ok_iff.1 hsave
  exact hends.of_ok ht

omit [Connection σ] in
/-- A storage that holds what the inserts of a fresh entity have written shows its values. -/
theorem shows_held {w w' : World σ} (h : Fresh ses.catalog r n w.graph) (he : n ≤ e.index)
    (hs : (w.graph.entity e).schema = s) (hmem : key ∈ s.atomics) (hc : Consistent s key)
    (hsaved : SavedAs s key e k w w') :
    Mapper.Shows (node s)
      ⟨(s.occurrences []).map (label s),
        (s.occurrences []).map fun q => held s key (w.graph.dirtyAtomics e) k (s.cell q.2)⟩
      (fun q => w'.graph.valueAt e q) s [] := by
  intro q hq t
  have hvalue : held s key (w.graph.dirtyAtomics e) k (s.cell q.2) = w'.graph.valueAt e q := by
    rw [held_eq h he hs hc hmem hq, hsaved.values q hq]
  have hholds : q.2.kind.Holds (w'.graph.valueAt e q) := by
    rw [hsaved.values q hq]
    split
    · next heq => exact heq ▸ hsaved.holds
    · exact h.holds_valueAt he (hs.symm ▸ hq)
  have hget := get?_row (label s)
    (fun q => held s key (w.graph.dirtyAtomics e) k (s.cell q.2)) hc.labels hq
  unfold Mapper.cell
  rw [show (node s).label q.1 q.2.name = label s q from rfl, hget, Option.getD_some, hvalue]
  exact Atomic.coerce_eq_ok_iff.2 (AtomicKind.coerce?_of_holds hholds)

/-- Looking up a key in a storage that holds the rows of an entity finds an entity with its values. -/
theorem ends_find {values : List (Atomic × Value)} {v : List String × Atomic → Value} {link : Storage}
    (hbuilt : ses.catalog.schema type = .ok s) (hkey : s.primaryKey = some key)
    (hc : Consistent s key) (hname : IsSegment key.name) (hdiffer : ReferencesDiffer s key)
    (hholds : Holds s key values k link) (hk : v ([], key) = k)
    (hshows : Mapper.Shows (node s) ⟨(s.occurrences []).map (label s),
      (s.occurrences []).map fun q => held s key values k (s.cell q.2)⟩ v s [])
    (graph : Graph) (sent : List Statement) (paths : PathCache) :
    (ses.find type k).Ends ⟨graph, ⟨link, sent⟩, paths⟩
      (fun found w => ∃ e, found = some e ∧ Found s v w.graph e) (fun _ _ => False) := by
  obtain ⟨paths', hcompile⟩ := compile_eq (k := k) hbuilt hkey hc hname paths
  have hcompile : ses.compile (query type key k) (σ := Storage) ⟨graph, ⟨link, sent⟩, paths⟩ =
      .ok ⟨select s key k, plan s⟩ ⟨graph, ⟨link, sent⟩, paths'⟩ := by
    unfold Session.compile
    simp only [hcompile]
  have hanswer := answer_select hdiffer hholds hc
  unfold Session.find
  rw [Act.ends_bind, hbuilt, Act.ends_ofExcept_ok, Act.ends_bind, Schema.key_eq_ok_iff.2 hkey,
    Act.ends_ofExcept_ok]
  show Act.Ends (do return (← ses.fetchEntities (query type key k)).head?) _ _ _
  unfold Session.fetchEntities Session.fetch
  rw [Act.ends_bind, Act.ends_bind, Act.ends_bind, Act.Ends, hcompile]
  show Act.Ends _ (⟨graph, ⟨link, sent⟩, paths'⟩ : World Storage) _ _
  have hfetch : (SessionM.onWire (select s key k).fetch : SessionM Storage (List Row))
      ⟨graph, ⟨link, sent⟩, paths'⟩ = .ok (link.answer (select s key k))
        ⟨graph, ⟨link, sent ++ [.select (select s key k)]⟩, paths'⟩ := rfl
  rw [Act.ends_bind, Act.Ends, hfetch, hanswer]
  show Act.Ends (ses.readRows _ _) (⟨graph, ⟨link, sent ++ [.select (select s key k)]⟩, paths'⟩ :
    World Storage) _ _
  have hrows := ends_mapRows (g := graph) hbuilt hkey hshows (hk ▸ hholds.notNull)
  rw [hk] at hrows
  unfold Session.readRows Session.mapRows Act.Ends
  unfold Act.Ends at hrows
  simp only
  split at hrows
  · next tuples m hm =>
    obtain ⟨e, rfl, hfound⟩ := hrows
    rw [hm]
    exact ⟨e, rfl, hfound⟩
  · exact hrows.elim

/-- **Round trip.** A new entity that has been filled and then inserted by a save has a key, and
looking that key up, in a storage that holds just what the inserts have written, finds an entity that
agrees with storage and has the same values, its own and those of its embedded components. -/
theorem find_of_save {values : List (List String × String × Value)} {w w₁ w₂ : World σ}
    {dialect : Dialect} (hgraph : w.graph.Built ses.catalog)
    (hbuilt : ses.catalog.schema type = .ok s) (hkey : s.primaryKey = some key)
    (hc : Consistent s key) (hname : IsSegment key.name) (hdiffer : ReferencesDiffer s key)
    (hfill : (do
      let e ← ses.create type
      SessionM.onGraph (Graph.fill e values)
      return e : SessionM σ EntityId) w = .ok e w₁)
    (hsave : ses.save e w₁ = .ok () w₂) (hinserted : w₁.insertsSince w₂ ≠ []) :
    ∃ k, w₂.graph.key? e = some k ∧
      ∃ d w₃, ses.find type k ⟨w₂.graph, ⟨Storage.ofInserts dialect s.table key.column k
          (w₁.insertsSince w₂), []⟩, w₂.paths⟩ = .ok (some d) w₃ ∧
        (w₃.graph.entity d).stored = true ∧ w₃.graph.isPersistent d = true ∧
        (w₃.graph.entity d).schema = s ∧ w₃.graph.key? d = some k ∧
        ∀ q ∈ s.occurrences [], w₃.graph.slotAt d q = some (.loaded (w₂.graph.valueAt e q)) := by
  obtain ⟨key', hkey', hmem, -⟩ := Catalog.key_of_schema hbuilt
  obtain rfl : key = key' := Option.some.inj (hkey.symm.trans hkey')
  -- the entity is new, and all that has been done to it leaves it fresh
  have hfresh : Fresh ses.catalog s w.graph.entities.length w₁.graph ∧
      e = ⟨w.graph.entities.length⟩ := by
    have hends : (do
        let e ← ses.create type
        SessionM.onGraph (Graph.fill e values)
        return e : SessionM σ EntityId).Ends w
        (fun e w₁ => Fresh ses.catalog s w.graph.entities.length w₁.graph ∧
          e = ⟨w.graph.entities.length⟩) (fun _ _ => True) := by
      have hnew : (Graph.newEntity s).Ends w.graph (fun e g =>
          Fresh ses.catalog s w.graph.entities.length g ∧ e = ⟨w.graph.entities.length⟩)
          (fun _ _ => True) :=
        ⟨.create hgraph.wellFormed ⟨type, s, hbuilt, .refl s⟩, rfl⟩
      unfold Session.create SessionM.onGraph
      rw [Act.ends_bind, Act.ends_bind, hbuilt, Act.ends_ofExcept_ok, Act.ends_onPart]
      refine hnew.mono (fun e g h => ?_) fun _ _ _ => trivial
      obtain ⟨h, rfl⟩ := h
      rw [Act.ends_bind, Act.ends_onPart]
      exact (h.fill (Nat.le_refl _) values).mono (fun _ _ h => ⟨h, rfl⟩) fun _ _ _ => trivial
    exact hends.of_ok hfill
  obtain ⟨hfresh, rfl⟩ := hfresh
  have hle := Nat.le_refl w.graph.entities.length
  obtain ⟨k, hsaved⟩ :=
    (savedAs_of_save hfresh hle hbuilt hfresh.schema hkey hsave).resolve_left hinserted
  have hvalue : w₂.graph.valueAt ⟨w.graph.entities.length⟩ ([], key) = k := by
    rw [hsaved.values _ (Schema.mem_occurrences_iff.2 (.inl ⟨key, hmem, rfl⟩)), if_pos rfl]
  have hatomics : ∀ p ∈ w₁.graph.dirtyAtomics ⟨w.graph.entities.length⟩, p.1 ∈ s.deepAtomics := by
    intro p hp
    rw [dirtyAtomics_eq_filterMap hfresh.wellFormed, hfresh.schema, List.mem_filterMap] at hp
    obtain ⟨q, hq, hat⟩ := hp
    obtain ⟨slot, -, hat⟩ := Option.bind_eq_some_iff.1 hat
    rw [← Schema.map_occurrences s []]
    split at hat
    · cases hat
    · exact Option.some.inj hat ▸ List.mem_map_of_mem hq
  have hfind := ends_find hbuilt hkey hc hname hdiffer
    (holds_ofInserts dialect hc.primary (Catalog.nodup_secondary hbuilt) hatomics
      (ne_null_of_key? hsaved.hasKey)) hvalue (shows_held hfresh hle hfresh.schema hmem hc hsaved)
    w₂.graph [] w₂.paths
  refine ⟨k, hsaved.hasKey, ?_⟩
  rw [hsaved.inserts]
  unfold Act.Ends at hfind
  split at hfind
  · next found w₃ heq =>
    obtain ⟨d, rfl, hfound⟩ := hfind
    have hpersistent := hfound.persistent
    unfold Graph.isPersistent at hpersistent
    have hkey? := hfound.key? hkey hmem (hvalue ▸ ne_null_of_key? hsaved.hasKey)
    exact ⟨d, w₃, heq, (Bool.and_eq_true_iff.1 hpersistent).1, hfound.persistent, hfound.schema,
      hvalue ▸ hkey?, hfound.read⟩
  · exact hfind.elim

end Session

namespace Library

/-- A type with a key of its own making, a text in the primary table and a text in another one. -/
def volume (type secondary key title shelf : String) : Definition where
  name := type
  steps := [.secondary secondary,
    .atomic { name := key, column := key, kind := .int, primaryKey := true },
    .atomic { name := "title", column := title, kind := .string },
    .atomic { name := "shelf", column := shelf, kind := .string, table := some secondary },
    .embed "price" "Price"]

/-- The types of the library, of which one is given: prices have an amount, and a currency with a
code. -/
def catalog (d : Definition) : Catalog where
  definitions := [d,
    { name := "Price", embeddable := true,
      steps := [.atomic { name := "amount", column := "amount", kind := .int },
        .embed "currency" "Currency"] },
    { name := "Currency", embeddable := true,
      steps := [.atomic { name := "code", column := "code", kind := .string }] }]

/-- The session of the library. -/
def session (d : Definition) : Session :=
  { catalog := catalog d }

/-- Nothing has been made or sent yet. -/
def world : World Counter :=
  { wire := { link := { dialect := .mysql } } }

/-- The schema of a volume. -/
def schema (d : Definition) : Schema :=
  ((catalog d).schema d.name).toOption.getD default

/-- The key of a volume. -/
def key (d : Definition) : Atomic :=
  (schema d).primaryKey.getD default

/-- Makes a volume and fills it. -/
def acquire (d : Definition) (values : List (List String × String × Value)) :
    SessionM Counter EntityId := do
  let e ← (session d).create d.name
  SessionM.onGraph (Graph.fill e values)
  return e

/-- The world once a volume has been acquired. -/
def filled (d : Definition) (values : List (List String × String × Value)) : World Counter :=
  (acquire d values).final world

/-- The world once a volume has been acquired and saved. -/
def saved (d : Definition) (values : List (List String × String × Value)) : World Counter :=
  ((session d).save ⟨0⟩).final (filled d values)

/-- The same graph with a storage that holds what the save of a volume has inserted. -/
def reopened (d : Definition) (values : List (List String × String × Value)) : World Storage where
  graph := (saved d values).graph
  wire := ⟨Storage.ofInserts .mysql (schema d).table (key d).column (.int 7)
    ((filled d values).insertsSince (saved d values)), []⟩
  paths := (saved d values).paths

/-- Names without dots. -/
def book : Definition :=
  volume "Book" "Stock" "id" "title" "shelf"

/-- The values of a book without a price, but with a currency. -/
def emma : List (List String × String × Value) :=
  [([], "id", .int 7), ([], "title", .text "Emma"), ([], "shelf", .text "B4"),
    (["price", "currency"], "code", .text "GBP")]

end Library

namespace Session

open Library

/-- A book is found again. -/
theorem find_of_save_book :
    ∃ w₁ w₂, acquire book emma world = .ok ⟨0⟩ w₁ ∧
      (Library.session book).save ⟨0⟩ w₁ = .ok () w₂ ∧
      ∃ k, w₂.graph.key? ⟨0⟩ = some k ∧
        ∃ d w₃, (Library.session book).find "Book" k ⟨w₂.graph,
            ⟨Storage.ofInserts .mysql (Library.schema book).table (Library.key book).column k
              (w₁.insertsSince w₂), []⟩, w₂.paths⟩ = .ok (some d) w₃ ∧
          (w₃.graph.entity d).stored = true ∧ w₃.graph.isPersistent d = true ∧
          (w₃.graph.entity d).schema = Library.schema book ∧ w₃.graph.key? d = some k ∧
          ∀ q ∈ (Library.schema book).occurrences [],
            w₃.graph.slotAt d q = some (.loaded (w₂.graph.valueAt ⟨0⟩ q)) := by
  have hacquire : acquire book emma world = .ok ⟨0⟩ (filled book emma) :=
    Act.eq_ok_of_answer? (by decide)
  have hsave : (Library.session book).save ⟨0⟩ (filled book emma) = .ok () (saved book emma) :=
    Act.eq_ok_of_answer? (by decide)
  have hconsistent : Lookup.Consistent (Library.schema book) (Library.key book) := by
    constructor <;> decide
  exact ⟨_, _, hacquire, hsave, find_of_save .empty (show _ = Except.ok (Library.schema book) by rfl)
    (show _ = some (Library.key book) by rfl) hconsistent (by decide) (by decide)
    hacquire hsave (by decide)⟩

/-- Dots stand in the way: a book whose key has a name with a dot is saved and has its key, but cannot
be looked up by it. And where the alias and the column of two cells run together, one of them is
taken for the other: the shelf that is found is not the shelf that was saved. -/
theorem find_fails_dots :
    let dotted := volume "Book" "Stock" "a.b" "title" "shelf"
    let values := emma.map fun p => if p.2.1 = "id" then (p.1, "a.b", p.2.2) else p
    let joined := volume "Book" "Book_0.a" "id" "a_1.b" "b"
    (Lookup.Consistent (Library.schema dotted) (Library.key dotted) ∧
      (acquire dotted values).succeeds world = true ∧
      ((Library.session dotted).save ⟨0⟩).succeeds (filled dotted values) = true ∧
      (saved dotted values).graph.key? ⟨0⟩ = some (.int 7) ∧
      ((Library.session dotted).find "Book" (.int 7)).succeeds (reopened dotted values) = false) ∧
    Lookup.Consistent (Library.schema joined) (Library.key joined) ∧
      (acquire joined emma).succeeds world = true ∧
      ((Library.session joined).save ⟨0⟩).succeeds (filled joined emma) = true ∧
      (saved joined emma).graph.key? ⟨0⟩ = some (.int 7) ∧
      (((saved joined emma).graph.entity ⟨0⟩).atomicValue "shelf" = .text "B4") ∧
      ∃ d w, (Library.session joined).find "Book" (.int 7) (reopened joined emma) = .ok (some d) w ∧
        (w.graph.entity d).atomicValue "shelf" = .text "Emma" := by
  intro dotted values joined
  refine ⟨⟨by constructor <;> decide, ?_, ?_, ?_, ?_⟩,
    by constructor <;> decide, ?_, ?_, ?_, ?_, ?_⟩
  case refine_9 =>
    have hfound : (Library.session joined).find "Book" (.int 7) (reopened joined emma) = .ok
        (some ⟨3⟩) (((Library.session joined).find "Book" (.int 7)).final (reopened joined emma)) :=
      Act.eq_ok_of_answer? (by decide +kernel)
    exact ⟨⟨3⟩, _, hfound, by decide +kernel⟩
  all_goals decide

end Session

end EntityGraph
