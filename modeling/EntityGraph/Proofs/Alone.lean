import EntityGraph.Proofs.Client
import EntityGraph.Proofs.Keying
import EntityGraph.Proofs.Objection

/-!
# Saving without cascading

Without cascading a call writes one entity. Its statements are for tables of that entity, with values of
the entity, in rows of its key. In memory, others are reached only through listeners, when the database
has made a key: foreign keys that wait for the entity may take it, and collections that have the entity
may note it. This holds at every point of the way, so the outcome of the call does not matter.

* `Graph.HasToWrite`: the values of an entity and its parts that storage does not have;
* `Statement.IsOf`: the statements that write an entity;
* `Graph.Local`: what may be different when one entity has been written;
* `KeepsTo`: both.

## Main results

* `Save.keepsTo_insertRows`, `Save.keepsTo_updateRows`: writing the rows of an entity keeps to it.
* `Call.keepsTo_run`: so does every call without cascading, in every state that callers can reach.
-/

namespace EntityGraph

open Save Traversal EntityGraph.Graph

/-! ### Statements of one entity -/

namespace Graph

/-- An entity has a value to write into a cell: it is that of an atomic of the entity or of one of its
parts that is stored there, and storage does not have it. -/
def HasToWrite (g : Graph) (e : EntityId) (cell : String × String) (v : Value) : Prop :=
  ∃ x ∈ g.parts e, ∃ a ∈ (g.entity x).schema.atomics,
    (g.entity e).schema.cell a = cell ∧ g.slot x a.name = some (.dirty v)

end Graph

/-- A statement writes an entity. It inserts a row into a table of the entity, or changes the rows of the
entity's key there; and what it writes is what the entity has to write or, in a row that is new, the key
that the entity has in the end. -/
def Statement.IsOf (g g' : Graph) (e : EntityId) : Statement → Prop
  | .insert i => i.table ∈ (g.entity e).schema.tables ∧ ∃ columns, i = .single i.table columns ∧
      ∀ p ∈ columns, g.HasToWrite e (i.table, p.1) p.2 ∨
        ∃ key, (g.entity e).schema.primaryKey = some key ∧ p.1 = key.column ∧ g'.key? e = some p.2
  | .update u => u.table ∈ (g.entity e).schema.tables ∧
      (∃ key k, (g.entity e).schema.primaryKey = some key ∧ g.key? e = some k ∧
        u.conditions = [Expr.columnEq key.column k]) ∧
      ∀ p ∈ u.columns, g.HasToWrite e (u.table, p.1) p.2
  | .select _ | .delete _ => False

namespace Save

variable {c : Catalog} {g g' g'' : Graph} {e : EntityId} {key : Atomic} {k : Value}

/-- What is stored in a table of an entity's changes the entity has to write there. -/
theorem hasToWrite_of_mem {values : List (Atomic × Value)} (hvalues : values ⊆ g.dirtyAtomics e)
    {table column : String} {v : Value}
    (hmem : (column, v) ∈ columnsIn (g.entity e).schema values table) :
    g.HasToWrite e (table, column) v := by
  obtain ⟨a, ha, htable, hcolumn⟩ := mem_columnsIn_iff.1 hmem
  obtain ⟨x, hx, hax⟩ := List.mem_flatMap.1 (hvalues ha)
  obtain ⟨hatomic, hslot⟩ := mem_dirtyAtomics_iff.1 hax
  exact ⟨x, hx, a, hatomic, Prod.ext htable hcolumn, hslot⟩

/-- The insert into the primary table is one of the entity. -/
theorem isOf_firstInsert (g g' : Graph) (e : EntityId) :
    (firstInsert (g.entity e).schema (g.dirtyAtomics e)).IsOf g g' e :=
  ⟨List.mem_cons_self, _, rfl, fun _ hp => .inl (hasToWrite_of_mem (List.Subset.refl _) hp)⟩

/-- The inserts into the other tables are those of the entity, under the key that it has. -/
theorem isOf_restInsert (hkey : (g.entity e).schema.primaryKey = some key) (hk : g'.key? e = some k)
    {x : String × List (String × Value)}
    (hx : x ∈ restColumns (g.entity e).schema (g.dirtyAtomics e)) :
    (Statement.insert (restInsert key k x)).IsOf g g' e := by
  obtain ⟨hmem, hcolumns⟩ := mem_columnsFrom hx
  refine ⟨List.mem_cons_of_mem _ hmem, _, rfl, fun p hp => ?_⟩
  rcases List.mem_cons.1 hp with rfl | hp
  · exact .inr ⟨key, hkey, rfl, hk⟩
  · rcases hcolumns with heq | heq
    · exact .inl (hasToWrite_of_mem (List.Subset.refl _) (heq ▸ hp))
    · rw [heq] at hp
      cases hp

/-- The updates of an entity's changes are those of the entity. -/
theorem isOf_update (hkey : (g.entity e).schema.primaryKey = some key) (hk : g.key? e = some k)
    {u : Update} (hu : u ∈ updates key k (columnsByTable (g.entity e).schema (changes g e))) :
    (Statement.update u).IsOf g g' e := by
  obtain ⟨x, hx, rfl⟩ := List.mem_map.1 (List.mem_filter.1 hu).1
  obtain ⟨hmem, hcolumns⟩ := mem_columnsFrom hx
  have htable := table_tableUpdate key k x
  refine ⟨htable ▸ hmem, ⟨key, k, hkey, hk, conditions_tableUpdate key k x⟩, fun p hp => ?_⟩
  have hp : p ∈ x.2 := (Statement.mem_of_mem_setAll hp).resolve_left List.not_mem_nil
  rw [htable]
  rcases hcolumns with heq | heq
  · exact hasToWrite_of_mem (List.filter_sublist.subset) (heq ▸ hp)
  · rw [heq] at hp
    cases hp

/-- Which key the entity has in the end is all that matters of what comes after. -/
theorem isOf_of_key? {x : Statement} (h : x.IsOf g g' e) (hsame : g''.key? e = g'.key? e) :
    x.IsOf g g'' e := by
  cases x with
  | insert i =>
    obtain ⟨htable, columns, hi, hcolumns⟩ := h
    refine ⟨htable, columns, hi, fun p hp => (hcolumns p hp).imp_right ?_⟩
    rintro ⟨key, hkey, hcolumn, hk⟩
    exact ⟨key, hkey, hcolumn, hsame.trans hk⟩
  | update u => exact h
  | select _ => exact h
  | delete _ => exact h

end Save

/-! ### What may be different -/

namespace Graph

variable {c : Catalog} {g g' : Graph} {e : EntityId} {key : Atomic} {v : Value}

/-- An entity that had no key has taken one over, as a value that storage has. -/
def GotKey (g g' : Graph) (e : EntityId) (v : Value) : Prop :=
  g.key? e = none ∧ ∃ key, (g.entity e).schema.primaryKey = some key ∧
    g'.slot e key.name = some (.loaded v)

/-- Nothing has changed but an entity and its parts, except that it may have got a key: foreign keys that
waited for the entity may have taken the key, and collections that have the entity may have noted it. -/
structure Local (e : EntityId) (g g' : Graph) : Prop where
  shape : g.SameShape g'
  marks : ∀ x, x ∉ g.parts e → (g'.entity x).stored = (g.entity x).stored ∧
    (g'.entity x).toOne = (g.entity x).toOne ∧ (g'.entity x).listeners = (g.entity x).listeners
  atomics : ∀ x, x ∉ g.parts e → ∀ f,
    ((g'.entity x).pending.get? f = (g.entity x).pending.get? f ∧ g'.slot x f = g.slot x f) ∨
      g.Waits e x f ∧ ∃ v, g.GotKey g' e v ∧ Took e v (g.entity x) (g'.entity x) f
  count : g'.collections.length = g.collections.length
  collections : ∀ i, ∃ index, g'.collection i = { g.collection i with index }
  index : ∀ i v, (g'.collection i).index.get? v = (g.collection i).index.get? v ∨
    g.Notes e i ∧ g.GotKey g' e v ∧
      (v ≠ .null → (g'.collection i).index.get? v = (g.collection i).members.idxOf? e)

theorem Local.refl (e : EntityId) (g : Graph) : Local e g g :=
  ⟨.refl g, fun _ _ => ⟨rfl, rfl, rfl⟩, fun _ _ _ => .inl ⟨rfl, rfl⟩, rfl, fun _ => ⟨_, rfl⟩,
    fun _ _ => .inl rfl⟩

/-- When an entity gets its key and announces it, the rest stays as it is. -/
theorem Keyed.isLocal (h : Keyed e key.name (.loaded v) g g')
    (hkey : (g.entity e).schema.primaryKey = some key) (hnone : g.key? e = none) : Local e g g' := by
  have hgot : g.GotKey g' e v := ⟨hnone, key, hkey, h.holds⟩
  have hne : ∀ x, x ∉ g.parts e → x ≠ e := by
    rintro x hx rfl
    exact hx (mem_parts_self g x)
  refine ⟨h.shape, fun x hx => ?_, fun x hx f => ?_, h.count, h.collections, fun i u => ?_⟩
  · exact ⟨(h.marks x).2, (h.marks x).1, h.listeners x (hne x hx)⟩
  · refine (h.other x f fun heq => hne x hx heq.1).imp_right fun htook => ?_
    exact ⟨htook.1, v, hgot, htook.2⟩
  · by_cases hnotes : g.Notes e i ∧ u = v
    · obtain ⟨hnotes, rfl⟩ := hnotes
      exact .inr ⟨hnotes, hgot, h.noted i hnotes⟩
    · exact .inl (h.index i u hnotes)

/-- Marks concern the entity and its parts, and leave its key as it is. -/
theorem Local.marked (h : Local e g g') (hwf : g'.WellFormed c)
    (hlt : e.index < g'.entities.length) : Local e g ((g'.markClean e).markStored e) := by
  have hsame : ∀ x, x ∉ g.parts e →
      ((g'.markClean e).markStored e).entity x = g'.entity x := by
    intro x hx
    rw [entity_marked hwf hlt, h.shape.parts_eq, if_neg hx]
  have hgot : ∀ {v}, g.GotKey g' e v → g.GotKey ((g'.markClean e).markStored e) e v := by
    rintro v ⟨hnone, key, hkey, hslot⟩
    refine ⟨hnone, key, hkey, ?_⟩
    rw [Graph.slot] at hslot ⊢
    rw [entity_marked hwf hlt, if_pos (mem_parts_self g' e), Entity.atomics_persist, hslot]
    rfl
  have hcollection : ∀ i, ((g'.markClean e).markStored e).collection i = g'.collection i := fun i => by
    simp [collection, markClean, markStored]
  refine ⟨h.shape.trans ((SameShape.markClean g' e).trans (.markStored _ e)), fun x hx => ?_,
    fun x hx f => ?_, ?_, fun i => ?_, fun i v => ?_⟩
  · rw [hsame x hx]
    exact h.marks x hx
  · rw [Graph.slot, hsame x hx]
    refine (h.atomics x hx f).imp_right ?_
    rintro ⟨hwaits, v, hv, htook⟩
    exact ⟨hwaits, v, hgot hv, htook⟩
  · rw [← h.count]
    simp [markClean, markStored]
  · rw [hcollection]
    exact h.collections i
  · rw [hcollection]
    refine (h.index i v).imp_right ?_
    rintro ⟨hnotes, hv, hnoted⟩
    exact ⟨hnotes, hgot hv, hnoted⟩

end Graph

/-! ### Writing one entity -/

variable {σ : Type}

/-- What has been done keeps to an entity: the statements that were sent write it, and in memory nothing
else has changed, apart from what a new key of the entity brings about. -/
structure KeepsTo (e : EntityId) (w w' : World σ) : Prop where
  sent : ∃ l, w'.wire.sent = w.wire.sent ++ l ∧ ∀ x ∈ l, x.IsOf w.graph w'.graph e
  graph : Local e w.graph w'.graph

theorem KeepsTo.refl (e : EntityId) (w : World σ) : KeepsTo e w w :=
  ⟨⟨[], (List.append_nil _).symm, fun _ hx => absurd hx List.not_mem_nil⟩, .refl e _⟩

namespace Save

variable {c : Catalog} {ses : Session} {e : EntityId} {t t' : Traversal EntityId σ}

/-- The marks at the end keep to the entity as well. -/
theorem keepsTo_marked {w : World σ} (h : KeepsTo e w t'.world) (hwf : t'.world.graph.WellFormed c)
    (hlt : e.index < t'.world.graph.entities.length) : KeepsTo e w (marked e t').world := by
  obtain ⟨l, hsent, hall⟩ := h.sent
  exact ⟨⟨l, hsent, fun x hx => isOf_of_key? (hall x hx) (key?_marked hwf hlt e)⟩,
    h.graph.marked hwf hlt⟩

variable [Connection σ]

/-- Inserting the rows of an entity keeps to the entity, whatever comes of it. -/
theorem keepsTo_insertRows (hwf : t.world.graph.WellFormed c) :
    (insertRows ses e).Ends t (fun _ t' => KeepsTo e t.world t'.world)
      (fun _ t' => KeepsTo e t.world t'.world) := by
  refine ends_insertRows (fun _ _ => .refl e _) fun key s values hs hkey hvalues hok => ?_
  subst hs hvalues
  obtain ⟨hfree, -⟩ := of_checkInsert hok
  have hlt := index_lt_of_primaryKey hkey
  let first := firstInsert (t.world.graph.entity e).schema (t.world.graph.dirtyAtomics e)
  have hfirst : ∀ w' : World σ, w'.wire.sent = t.world.wire.sent ++ [first] →
      Local e t.world.graph w'.graph → KeepsTo e t.world w' := by
    refine fun w' hsent hlocal => ⟨⟨[first], hsent, fun x hx => ?_⟩, hlocal⟩
    rw [List.mem_singleton.1 hx]
    exact isOf_firstInsert _ _ e
  -- from the first insert on, whether or not the entity has got its key from it
  have hrest : ∀ t', t'.world.wire.sent = t.world.wire.sent ++ [first] →
      Local e t.world.graph t'.world.graph → t'.world.graph.WellFormed c →
      (t'.world.graph.key? e = none → ∀ _ : Error, KeepsTo e t.world t'.world) ∧
      ∀ k, t'.world.graph.key? e = some k →
        (insertRest e key k (restColumns (t.world.graph.entity e).schema
          (t.world.graph.dirtyAtomics e))).Ends t'
          (fun _ t'' => KeepsTo e t.world (marked e t'').world)
          (fun _ t'' => KeepsTo e t.world t''.world) := by
    refine fun t' hsent hlocal hwf' => ⟨fun _ _ => hfirst _ hsent hlocal, fun k hk => ?_⟩
    have hmore : ∀ l t'', l <+: (restColumns (t.world.graph.entity e).schema
        (t.world.graph.dirtyAtomics e)).map (fun x => .insert (restInsert key k x)) →
        Sent e l t' t'' → KeepsTo e t.world t''.world := by
      refine fun l t'' hl hmore => ⟨⟨first :: l, ?_, fun x hx => ?_⟩, hmore.graph ▸ hlocal⟩
      · rw [hmore.sent, hsent, List.append_assoc]
        rfl
      · rcases List.mem_cons.1 hx with rfl | hx
        · exact isOf_firstInsert _ _ e
        · obtain ⟨y, hy, rfl⟩ := List.mem_map.1 (hl.subset hx)
          exact isOf_restInsert hkey (hmore.graph ▸ hk) hy
    refine ends_insertRest (fun t'' hdone => ?_) fun _ t'' l _ hl hsent => hmore l t'' hl hsent
    have hwf'' : t''.world.graph.WellFormed c := hdone.graph ▸ hwf'
    refine keepsTo_marked (hmore _ t'' (List.prefix_refl _) hdone.toSent) hwf'' ?_
    rw [hdone.graph, hlocal.shape.length]
    exact hlt
  refine ends_insertFirst (fun t' hdone _ => ?_) (fun t' v hdone hnone _ => ?_)
    fun _ t' hsent _ => hfirst _ hsent.sent (hsent.graph ▸ .refl e _)
  · exact hrest t' hdone.sent (hdone.graph ▸ .refl e _) (hdone.graph ▸ hwf)
  · -- the database has made a key, which the entity takes over and announces
    refine ((keyed_assignGeneratedKey hwf hfree v).and
      (WellFormed.assignGeneratedKey v _ hwf)).mono (fun _ g hg => ?_) fun _ g hg => ?_
    · obtain ⟨⟨a, k, ha, -, hkeyed⟩, hwf'⟩ := hg
      exact hrest _ hdone.sent (hkeyed.isLocal ha hnone) hwf'
    · refine hfirst _ hdone.sent ?_
      obtain rfl | ⟨a, k, ha, -, hkeyed⟩ := hg.1
      · exact .refl e _
      · exact hkeyed.isLocal ha hnone

/-- Updating the rows of an entity that exists keeps to the entity, whatever comes of it. -/
theorem keepsTo_updateRows (hwf : t.world.graph.WellFormed c)
    (hlt : e.index < t.world.graph.entities.length) :
    (updateRows ses e).Ends t (fun _ t' => KeepsTo e t.world t'.world)
      (fun _ t' => KeepsTo e t.world t'.world) := by
  refine ends_updateRows (fun _ _ => .refl e _) (fun _ _ => keepsTo_marked (.refl e _) hwf hlt)
    fun key s k hs hkey hk _ _ => ?_
  subst hs
  have hmore : ∀ l t', l <+: (updates key k (columnsByTable (t.world.graph.entity e).schema
      (changes t.world.graph e))).map .update → Sent e l t t' → KeepsTo e t.world t'.world := by
    refine fun l t' hl hsent => ⟨⟨l, hsent.sent, fun x hx => ?_⟩, hsent.graph ▸ .refl e _⟩
    obtain ⟨u, hu, rfl⟩ := List.mem_map.1 (hl.subset hx)
    exact isOf_update hkey hk hu
  refine ends_updateTables (fun t' hdone => ?_) fun _ t' l hl hsent => hmore l t' hl hsent
  exact keepsTo_marked (hmore _ t' (List.prefix_refl _) hdone.toSent) (hdone.graph ▸ hwf)
    (hdone.graph ▸ hlt)

end Save

namespace Call

variable [Connection σ] {ses : Session} {cl : Client σ} {K : Graph → Graph → Prop}

/-- **Saving without cascading is local.** In every state that callers can reach, and whatever comes of
it, a call without cascading sends only statements that write its entity: for tables of its type, with its
own values, and under its key. In memory it changes nothing but the entity and its embedded components,
except that foreign keys that wait for the entity may take its key, and collections that have the entity
may note it. -/
theorem keepsTo_run (h : cl.Reached ses.catalog K) (hoff : ses.config.cascade = false) (call : Call)
    (e : EntityId) : KeepsTo e cl.world ((call.run ses e).final cl.world) := by
  have hwf := h.sound.typed.toWellFormed
  rw [final_run, trace, ← Act.ends_final_iff (R := fun t : Traversal EntityId σ =>
    KeepsTo e cl.world t.world)]
  exact call.ends_alone hoff _ (.refl e _) (fun _ _ => .refl e _) (keepsTo_insertRows hwf) fun hkey =>
    keepsTo_updateRows hwf (of_key?_isSome hkey).1

end Call

namespace Shop

/-- A customer has been saved and has got an order, for which an invoice waits. -/
def billed : Client Counter :=
  Client.afterAll catalog
    [.operate (.create "Customer"), .write {} .save ⟨0⟩, .operate (.create "Order"),
      .operate (.many ⟨0⟩ "orders"), .operate (.push ⟨0⟩ ⟨1⟩), .operate (.create "Invoice"),
      .operate (.assignOne ⟨2⟩ "order" (some ⟨1⟩))] ⟨world {}, []⟩

/-- A session that does not cascade. -/
def plain : Session where
  catalog := catalog
  config := { cascade := false }

end Shop

namespace Call

/-- When the order is saved alone, it is inserted, the invoice takes its key without being written, and
the orders of the customer note the key. -/
theorem keepsTo_run_order :
    let w' := (Call.save.run Shop.plain ⟨1⟩).final Shop.billed.world
    Shop.plain.config.cascade = false ∧ KeepsTo ⟨1⟩ Shop.billed.world w' ∧
      (w'.wire.sent.drop Shop.billed.world.wire.sent.length).map (·.text .mysql) =
        ["INSERT INTO `Order` (`customer_fk`) VALUES ('1')"] ∧
      Shop.billed.world.graph.slot ⟨2⟩ "order_fk" = none ∧
      w'.graph.slot ⟨2⟩ "order_fk" = some (.dirty (.int 2)) ∧
      (w'.graph.collection ⟨0⟩).index.get? (.int 2) = some 0 := by
  have hreached : Shop.billed.Reached Shop.plain.catalog fun _ _ => True :=
    ⟨Shop.world {}, rfl, Client.leads_afterAll (k := fun _ _ => true) (fun _ _ _ => trivial)
      (by decide)⟩
  have hoff : Shop.plain.config.cascade = false := rfl
  exact ⟨hoff, keepsTo_run hreached hoff save ⟨1⟩, by decide, by decide,
    by decide, by decide⟩

end Call

end EntityGraph
