import EntityGraph.Proofs.Occurrences
import EntityGraph.Proofs.Once
import EntityGraph.Proofs.Refusal
import EntityGraph.Proofs.Splitting

/-!
# What is checked before an insert

Before an entity is inserted, the values of its atomics and of those that it embeds are checked, as far
as the embedded components have been used. The schema embeds atomics whether or not they have been used:
where they have not, they are stored as null all the same, and nobody asks whether they may be.

* `Graph.Valid` — the values of an entity keep their constraints, as far as its components are in use;
* `Save.Aside` — an entity that has been entered, and is not to be written any more;
* `Save.Supplies` — some statements make a value of a cell.

## Main results

* `Save.valid_iff`: the check of the values of an entity passes iff they are valid.
* `Call.valid_of_insert`: an entity that has been inserted was valid at the moment of writing, and its
  values at that moment are those that it was inserted with.
* `Call.insert_overlooks`: an entity without an embedded value that it needs is inserted.
-/

namespace EntityGraph

namespace Graph

/-- The values of an entity and of its embedded components in use keep their constraints. A key that the
database makes need not be there yet. -/
def Valid (g : Graph) (e : EntityId) : Prop :=
  ∀ q ∈ (g.entity e).schema.occurrences [], (q.2.primaryKey && q.2.generated) = false →
    (g.partAt? e q.1).isSome → q.2.constraints.violation? (g.valueAt e q) = none

variable {c : Catalog} {g : Graph} {e : EntityId} {q : List String × Atomic}

/-- Nothing is known of the values of a component that has not been used. -/
theorem valueAt_of_partAt? (h : g.partAt? e q.1 = none) : g.valueAt e q = .null := by
  unfold valueAt slotAt
  rw [h]
  rfl

/-- Where an entity is valid, a value that breaks a constraint is one that is missing from a component
that has not been used. -/
theorem Valid.kept_or_unused (h : g.Valid e) (hq : q ∈ (g.entity e).schema.occurrences [])
    (hkey : (q.2.primaryKey && q.2.generated) = false) :
    q.2.constraints.violation? (g.valueAt e q) = none ∨
      g.partAt? e q.1 = none ∧ q.2.constraints.notNull = true := by
  cases hpart : g.partAt? e q.1 with
  | some x => exact .inl (h q hq hkey (hpart ▸ rfl))
  | none =>
    rw [valueAt_of_partAt? hpart, Constraints.violation?_null]
    cases q.2.constraints.notNull with
    | true => exact .inr ⟨rfl, rfl⟩
    | false => exact .inl rfl

end Graph

open Save Traversal EntityGraph.Graph

namespace Save

variable {σ : Type} [Connection σ] {ses : Session} {c : Catalog} {g g₀ : Graph} {e : EntityId}
  {s : Schema} {key : Atomic} {k v : Value} {q : List String × Atomic} {l : List Statement}
  {trail : Trail} {t t' : Traversal EntityId σ}

/-! ### The check -/

omit [Connection σ] in
/-- The check of the values of an entity passes iff they are valid. -/
theorem valid_iff (hwf : g.WellFormed c) (entity : String) :
    checkAll entity ((g.allAtomics e).filter fun p => !(p.1.primaryKey && p.1.generated)) = .ok () ↔
      g.Valid e := by
  simp only [checkAll_eq_ok_iff, Atomic.check_eq_ok_iff, List.mem_filter, Bool.not_eq_true',
    allAtomics_eq_filterMap hwf, List.mem_filterMap, Option.map_eq_some_iff]
  constructor
  · intro h q hq hkey hpart
    obtain ⟨x, hx⟩ := Option.isSome_iff_exists.1 hpart
    exact h (q.2, g.valueAt e q) ⟨⟨q, hq, x, hx, rfl⟩, hkey⟩
  · rintro h _ ⟨⟨q, hq, x, hx, rfl⟩, hkey⟩
    exact h q hq hkey (hx ▸ rfl)

/-- An entity whose rows have been inserted had passed the check. -/
theorem checked_insertRows :
    (insertRows ses e).Ends t (fun _ _ => checkInsert ses t.world.graph e = .ok ())
      (fun _ _ => True) := by
  simp only [insertRows]
  rw [Act.ends_bind, ends_graph, Act.ends_bind, Act.ends_ofExcept]
  exact ⟨fun _ hok => (Act.ends_run _ t).mono (fun _ _ _ => hok) fun _ _ _ => trivial,
    fun _ _ => trivial⟩

/-- Where values are checked, an entity that may be inserted is valid. -/
theorem valid_of_checkInsert (hwf : g.WellFormed c) (hvalidate : ses.config.validate = true)
    (h : checkInsert ses g e = .ok ()) : g.Valid e := by
  unfold checkInsert at h
  simp only [bind_eq_ok_iff] at h
  obtain ⟨_, -, key, -, h⟩ := h
  rw [if_pos hvalidate] at h
  obtain ⟨_, hall, -⟩ := bind_eq_ok_iff.1 h
  exact (valid_iff hwf _).1 hall

/-! ### What is inserted -/

/-- Some statements make a value of a cell: one of them writes it, or the cell is left out and the value
is null. -/
def Supplies (l : List Statement) (cell : String × String) (v : Value) : Prop :=
  WrittenOnce l cell v ∨ v = .null ∧ ∀ x ∈ l, x.touches cell = false

omit [Connection σ] in
/-- The inserts of an entity touch the cells of its values, and in the other tables the key's column. -/
theorem touches_inserts {values : List (Atomic × Value)} {x : Statement} {cell : String × String}
    (hx : x ∈ inserts s values key k) (h : x.touches cell = true) :
    (∃ p ∈ values, s.cell p.1 = cell) ∨ cell.1 ∈ s.secondary ∧ cell.2 = key.column := by
  have hcolumns : ∀ table, cell.2 ∈ (columnsIn s values table).map (·.1) → table = cell.1 →
      ∃ p ∈ values, s.cell p.1 = cell := by
    rintro _ hmem rfl
    obtain ⟨⟨column, v⟩, hmem, hcolumn⟩ := List.mem_map.1 hmem
    obtain ⟨a, ha, htable, ha'⟩ := mem_columnsIn_iff.1 hmem
    exact ⟨(a, v), ha, Prod.ext htable (ha'.trans hcolumn)⟩
  rcases List.mem_cons.1 hx with rfl | hx
  · obtain ⟨htable, hcolumn⟩ := Statement.touches_single.1 h
    exact .inl (hcolumns _ hcolumn htable)
  · obtain ⟨y, hy, rfl⟩ := List.mem_map.1 hx
    obtain ⟨hsecondary, hcolumns'⟩ := mem_columnsFrom hy
    obtain ⟨htable, hcolumn⟩ := Statement.touches_single.1 h
    rw [List.map_cons, List.mem_cons] at hcolumn
    rcases hcolumn with hkey | hcolumn
    · exact .inr ⟨htable ▸ hsecondary, hkey⟩
    · rcases hcolumns' with heq | hnil
      · exact .inl (hcolumns y.1 (heq ▸ hcolumn) htable)
      · rw [hnil] at hcolumn
        cases hcolumn

omit [Connection σ] in
/-- Inserting an entity gives the cell of an occurrence its value, unless that counts as stored. -/
theorem supplies_of_inserts (hwf : g.WellFormed c) (hs : (g.entity e).schema = s)
    (hmem : key ∈ s.atomics) (hstorable : s.Storable key) (hq : q ∈ s.occurrences []) :
    Supplies (inserts s (g.dirtyAtomics e) key k) (s.cell q.2) (g.valueAt e q) ∨
      ∃ v, g.slotAt e q = some (.loaded v) := by
  have hdirty : ∀ p, p ∈ g.dirtyAtomics e ↔ ∃ q ∈ s.occurrences [], g.dirtyAt e q = some p := by
    intro p
    rw [dirtyAtomics_eq_filterMap hwf, hs, List.mem_filterMap]
  unfold valueAt
  cases hslot : g.slotAt e q with
  | none =>
    refine .inl (.inr ⟨rfl, fun x hx => Bool.eq_false_iff.2 fun htouches => ?_⟩)
    rcases touches_inserts hx htouches with ⟨p, hp, hcell⟩ | ⟨htable, hcolumn⟩
    · -- the cell is that of another value
      obtain ⟨q', hq', hat⟩ := (hdirty p).1 hp
      obtain ⟨slot, hslot', hat⟩ := Option.bind_eq_some_iff.1 hat
      split at hat
      · cases hat
      obtain rfl := Option.some.inj hat
      rw [Schema.eq_of_cell hstorable.cells hq' hq hcell, hslot] at hslot'
      cases hslot'
    · have hdeep : q.2 ∈ s.deepAtomics := by
        rw [← Schema.map_occurrences s []]
        exact List.mem_map_of_mem hq
      exact hstorable.keyColumn q.2 hdeep htable hcolumn
  | some slot =>
    obtain ⟨v, clean⟩ := slot
    cases clean with
    | true => exact .inr ⟨v, rfl⟩
    | false =>
      have ha : (q.2, v) ∈ g.dirtyAtomics e := (hdirty _).2 ⟨q, hq, by simp [dirtyAt, hslot]⟩
      exact .inl (.inl (filter_inserts_of_mem hwf hs hstorable hmem ha))

/-! ### The statements for one entity -/

/-- An entity has been entered and is not to be written any more; some statements have been sent for
it. -/
structure Aside (e : EntityId) (l : List Statement) (trail : Trail) (t : Traversal EntityId σ) :
    Prop where
  entered : e ∈ t.entered
  following : ∀ phase, (e, phase) ∈ trail → phase = .following
  sent : t.sentFor e = l

omit [Connection σ] in
/-- The rows of another entity have been written. -/
theorem Aside.wrote {x : EntityId} {phase : Phase} (h : Aside e l ((x, phase) :: trail) t)
    (hphase : phase ≠ .following) (hwrote : WroteOnce s x t t') :
    Aside e l ((x, .following) :: trail) t' := by
  have hne : x ≠ e := by
    rintro rfl
    exact hphase (h.following phase List.mem_cons_self)
  obtain ⟨l', hjournal, -⟩ := hwrote.journal
  refine ⟨hwrote.entered ▸ h.entered, fun phase' hmem => ?_, ?_⟩
  · rcases List.mem_cons.1 hmem with heq | hmem
    · exact absurd (congrArg Prod.fst heq).symm hne
    · exact h.following phase' (List.mem_cons_of_mem _ hmem)
  · rw [sentFor_append e hjournal, if_neg hne, List.append_nil, h.sent]

/-- Nothing is sent for an entity that is not to be written any more. -/
theorem aside_rules (ses : Session) (g₀ : Graph) (e : EntityId) (l : List Statement) :
    Rules ses g₀ (fun _ => True) (Aside e l) (fun _ : Traversal EntityId σ => True) where
  fail _ _ _ := trivial
  skip _ _ _ _ _ _ _ := trivial
  enter trail t x phase h hnew _ := by
    refine ⟨List.mem_cons_of_mem _ h.entered, fun phase' hmem => ?_, h.sent⟩
    rcases List.mem_cons.1 hmem with heq | hmem
    · obtain ⟨rfl, -⟩ := Prod.mk.inj heq
      exact absurd h.entered hnew
    · exact h.following phase' hmem
  insert trail t x h hsteady :=
    (wroteOnce_insertRows hsteady.wellFormed).mono (fun _ _ hwrote => h.wrote (by decide) hwrote)
      fun _ _ _ => trivial
  update trail t x h hsteady _ :=
    (wroteOnce_updateRows hsteady.wellFormed).mono (fun _ _ hwrote => h.wrote (by decide) hwrote)
      fun _ _ _ => trivial
  leave trail t x h _ _ :=
    ⟨h.entered, fun phase hmem => h.following phase (List.mem_cons_of_mem _ hmem), h.sent⟩

/-- An entity has been inserted as it was at some moment: then it had passed the check, and its inserts
are the statements that have been sent for it. -/
structure InsertedAt (ses : Session) (g₀ g : Graph) (e : EntityId) (t : Traversal EntityId σ) :
    Prop where
  steady : Steady ses.catalog g₀ g
  checked : checkInsert ses g e = .ok ()
  sent : ∃ key k, (g₀.entity e).schema.primaryKey = some key ∧
    t.sentFor e = inserts (g₀.entity e).schema (g.dirtyAtomics e) key k

/-- The rows of an entity for which nothing has been sent are inserted, and nothing else is sent for it
after that. -/
theorem ends_insertRows_aside {depth : Nat} (h : Aside e [] [] t)
    (hsteady : Steady ses.catalog g₀ t.world.graph) :
    (insertRows ses e >>= fun _ =>
      if ses.config.cascade then saveRelations (saveFrom ses depth) e else pure ()).Ends t
      (fun _ t' => InsertedAt ses g₀ t.world.graph e t') (fun _ _ => True) := by
  have hschema := hsteady.shape.schema e
  rw [Act.ends_bind]
  refine ((inserted_insertRows hsteady.wellFormed).and ((sameFrame_insertRows hsteady.wellFormed).and
    checked_insertRows)).mono (fun _ t' hend => ?_) fun _ _ _ => trivial
  obtain ⟨⟨key, k, t'', hinserted, rfl⟩, hframe, hchecked⟩ := hend
  have hsent : (marked e t'').sentFor e =
      inserts (g₀.entity e).schema (t.world.graph.dirtyAtomics e) key k := by
    have heq : (marked e t'').sentFor e = t''.sentFor e := rfl
    rw [heq, sentFor_append e hinserted.journal, if_pos rfl, h.sent, List.nil_append, hschema]
  have hresult : ∀ t' : Traversal EntityId σ, t'.sentFor e = (marked e t'').sentFor e →
      InsertedAt ses g₀ t.world.graph e t' := fun t' heq =>
    ⟨hsteady, hchecked, key, k, hschema ▸ hinserted.isKey, heq.trans hsent⟩
  rw [Act.ends_ite]
  refine ⟨fun _ => ?_, fun _ => hresult _ rfl⟩
  have haside : Aside e ((marked e t'').sentFor e) [] (marked e t'') :=
    ⟨hframe.entered.symm ▸ h.entered, fun _ hmem => absurd hmem List.not_mem_nil, rfl⟩
  have hdepth : ([] : Trail).length + depth = depth := Nat.zero_add depth
  have hsave := ((aside_rules (σ := σ) ses g₀ e ((marked e t'').sentFor e)).events depth).ends_saveFrom
    depth
  refine (Events.ends_saveRelations hsave hdepth haside (hsteady.sameFrame hframe)).mono
    (fun _ t' ht' => hresult t' ht'.1.holds.sent) fun _ _ _ => trivial

/-- An entity that storage does not have is inserted as it is when its owned targets have been saved. -/
theorem ends_insertWith_at {w : World σ} {depth : Nat} (hw : w.graph.WellFormed ses.catalog)
    (hnew : (w.graph.entity e).stored = false) :
    (insertWith ses (saveFrom ses depth) e).Ends { world := w }
      (fun _ t' => InsertedAt ses w.graph
        ((prepare ses (saveFrom ses depth) e).final { world := w, entered := [e] }).world.graph e t')
      (fun _ _ => True) := by
  have hstart : Aside e [] [] ({ world := w, entered := [e] } : Traversal EntityId σ) :=
    ⟨List.mem_cons_self, fun _ hmem => absurd hmem List.not_mem_nil, rfl⟩
  have hsteady : Steady ses.catalog w.graph w.graph := ⟨.refl _, hw⟩
  have hprepare : (prepare ses (saveFrom ses depth) e).Ends { world := w, entered := [e] }
      (fun _ t' => Aside e [] [] t' ∧ Steady ses.catalog w.graph t'.world.graph) (fun _ _ => True) := by
    unfold prepare
    rw [Act.ends_ite]
    refine ⟨fun _ => ?_, fun _ => ⟨hstart, hsteady⟩⟩
    have hdepth : ([] : Trail).length + depth = depth := Nat.zero_add depth
    have hrules := (aside_rules (σ := σ) ses w.graph e []).events depth
    exact (hrules.ends_saveOwnedTargets (hrules.ends_saveFrom depth) hdepth hstart hsteady).mono
      (fun _ _ ht' => ⟨ht'.holds, ht'.steady⟩) fun _ _ _ => trivial
  unfold insertWith
  rw [Act.ends_bind, ends_graph, hnew]
  refine ends_visit_of_prepare List.not_mem_nil ?_
  refine (hprepare.and (Act.ends_final _ _)).mono (fun _ t' ht' => ?_) fun _ _ _ => trivial
  obtain ⟨⟨haside, hsteady⟩, hfinal⟩ := ht'
  rw [← hfinal]
  exact ends_insertRows_aside haside hsteady

end Save

namespace Call

variable {σ : Type} [Connection σ] {ses : Session} {e : EntityId} {w w' : World σ}

/-- **What is inserted is valid, as far as it is in use.** When values are checked and an entity that
storage does not have has been inserted, the statements for it are the inserts of the values that it had
at the moment of writing. At that moment each value of an atomic that its schema declares or embeds, at
any depth, kept the constraints of the atomic, except a generated key; only where an embedded component
had never been used, values that must not be null were missing. Where values can be told apart in
storage, each of them is what the inserts make of its cell, unless it counted as stored before. -/
theorem valid_of_insert (hbuilt : w.graph.Built ses.catalog) (hvalidate : ses.config.validate = true)
    (hnew : (w.graph.entity e).stored = false) (h : insert.run ses e w = .ok () w') :
    let s := (w.graph.entity e).schema
    let g := (insert.moment ses e w).world.graph
    let l := (insert.trace ses e w).sentFor e
    (∃ key k, s.primaryKey = some key ∧ l = inserts s (g.dirtyAtomics e) key k ∧
      (s.Storable key → ∀ q ∈ s.occurrences [],
        Supplies l (s.cell q.2) (g.valueAt e q) ∨ ∃ v, g.slotAt e q = some (.loaded v))) ∧
    ∀ q ∈ s.occurrences [], (q.2.primaryKey && q.2.generated) = false →
      q.2.constraints.violation? (g.valueAt e q) = none ∨
        w.graph.partAt? e q.1 = none ∧ q.2.constraints.notNull = true := by
  intro s g l
  have hwf := hbuilt.wellFormed
  have hinserted : InsertedAt ses w.graph g e (insert.trace ses e w) :=
    (ends_insertWith_at hwf hnew).of_ok (traverse_of_run h).1
  have hsteady := hinserted.steady
  have hs : (g.entity e).schema = s := hsteady.shape.schema e
  obtain ⟨key, k, hkey, hsent⟩ := hinserted.sent
  have hmem := Catalog.mem_of_primaryKey (hwf.schema_of_primaryKey hkey) hkey
  refine ⟨⟨key, k, hkey, hsent, fun hstorable q hq => ?_⟩, fun q hq hother => ?_⟩
  · rw [show l = inserts s (g.dirtyAtomics e) key k from hsent]
    exact supplies_of_inserts hsteady.wellFormed hs hmem hstorable hq
  · have hvalid := valid_of_checkInsert hsteady.wellFormed hvalidate hinserted.checked
    have hpart : g.partAt? e q.1 = w.graph.partAt? e q.1 :=
      (partAt?_congr (P := fun _ => True) (fun x _ => hsteady.shape.embedded x)
        (fun _ _ _ _ _ => trivial) trivial q.1).1
    exact hpart ▸ hvalid.kept_or_unused (hs ▸ hq) hother

end Call

/-! ### People and their towns -/

namespace Shop

/-- The name of a town, which must be there. -/
def townName : Atomic :=
  { name := "name", column := "town", kind := .string,
    constraints := { notNull := true, maxLength := some 20 } }

/-- People have a home, which is in a town. -/
def households : Catalog where
  definitions := [
    { name := "Person", steps := [.atomic key, .embed "home" "Address"] },
    { name := "Address", embeddable := true,
      steps := [.atomic { name := "street", column := "street", kind := .string }, .embed "town" "Town"] },
    { name := "Town", embeddable := true, steps := [.atomic townName] }]

/-- A person in some street, of some town. -/
def neighbour : Graph :=
  Graph.Operation.runAll households [.create "Person", .embedded ⟨0⟩ "home", .embedded ⟨1⟩ "town",
    .assign ⟨1⟩ "street" (.text "Elm"), .assign ⟨2⟩ "name" (.text "York")] {}

/-- A person in some street, of no town. -/
def stranger : Graph :=
  Graph.Operation.runAll households [.create "Person", .embedded ⟨0⟩ "home",
    .assign ⟨1⟩ "street" (.text "Elm")] {}

end Shop

namespace Call

/-- A person whose town has a name is inserted with that name. -/
theorem valid_of_insert_neighbour :
    let ses : Session := { catalog := Shop.households }
    let w := Shop.world Shop.neighbour
    (insert.run ses ⟨0⟩).succeeds w = true ∧
      Supplies ((insert.trace ses ⟨0⟩ w).sentFor ⟨0⟩) ("Person", "town") (.text "York") ∧
      Shop.townName.constraints.violation? (.text "York") = none := by
  intro ses w
  let q : List String × Atomic := (["home", "town"], Shop.townName)
  have hok : (insert.run ses ⟨0⟩).succeeds w = true := by decide
  have hq : q ∈ (w.graph.entity ⟨0⟩).schema.occurrences [] := by decide
  have hcell : (w.graph.entity ⟨0⟩).schema.cell q.2 = ("Person", "town") := by decide
  have hslot : (insert.moment ses ⟨0⟩ w).world.graph.slotAt ⟨0⟩ q = some (.dirty (.text "York")) := by
    decide
  have hvalue : (insert.moment ses ⟨0⟩ w).world.graph.valueAt ⟨0⟩ q = .text "York" := by
    unfold Graph.valueAt
    rw [hslot]
    rfl
  have hused : w.graph.partAt? ⟨0⟩ q.1 ≠ none := by decide
  have hkey : (w.graph.entity ⟨0⟩).schema.primaryKey = some Shop.key := by decide
  have hstorable : (w.graph.entity ⟨0⟩).schema.Storable Shop.key := by decide
  have hbuilt : Shop.neighbour.Built Shop.households := .runAll _ .empty
  have hnew : (w.graph.entity ⟨0⟩).stored = false := by decide
  obtain ⟨_, w', hrun⟩ := Act.exists_of_succeeds hok
  obtain ⟨⟨key, k, hkey', -, hsupplies⟩, hvalid⟩ := valid_of_insert (w := w) hbuilt rfl hnew hrun
  obtain rfl : Shop.key = key := Option.some.inj (hkey.symm.trans hkey')
  refine ⟨hok, ?_, ?_⟩
  · rcases hsupplies hstorable q hq with hsupplies | ⟨v, hv⟩
    · rw [hcell, hvalue] at hsupplies
      exact hsupplies
    · rw [hslot] at hv
      cases hv
  · rcases hvalid q hq rfl with hnone | hunused
    · rw [hvalue] at hnone
      exact hnone
    · exact absurd hunused.1 hused

/-- A person whose town has never been used is inserted without the name of the town, which must not be
null. -/
theorem insert_overlooks :
    let ses : Session := { catalog := Shop.households }
    let w := Shop.world Shop.stranger
    let w' := (insert.run ses ⟨0⟩).final w
    let q := (["home", "town"], Shop.townName)
    Shop.stranger.Built Shop.households ∧ ses.config.validate = true ∧
      (Shop.stranger.entity ⟨0⟩).stored = false ∧
      (insert.run ses ⟨0⟩).succeeds w = true ∧
      w'.wire.sent.map (Statement.text .mysql) = ["INSERT INTO `Person` (`street`) VALUES ('Elm')"] ∧
      q ∈ (Shop.stranger.entity ⟨0⟩).schema.occurrences [] ∧
      q.2.constraints.violation? ((insert.moment ses ⟨0⟩ w).world.graph.valueAt ⟨0⟩ q) =
        some .isNull := by
  intro ses w w' q
  exact ⟨.runAll _ .empty, rfl, by decide, by decide, by decide,
    by decide, by decide⟩

end Call

end EntityGraph
