import EntityGraph.Proofs.Writing
import Mathlib.Data.List.Flatten
import Mathlib.Data.List.Nodup

/-!
# Which cells are written

The atomics of a schema and of everything that it embeds are stored in *cells*: a table and a column
each. Where no two of them share a cell, the statements for an entity write the value of an atomic into
its cell, and nothing else.

* `Statement.Writes` — a statement writes a value into a column of a table;
* `own_dirtyAtomics_sublist`, `embeddedDirty_sublist` — what an entity has to write are atomics of its schema, in order, each at
  most once;
* `inserts_carry`, `updates_carry` — the first statement for the table of an atomic writes the value
  that storage does not have, and no statement writes another one.
-/

namespace EntityGraph

namespace Schema

mutual

/-- The atomics of a schema and of all that it embeds, own ones first. -/
def deepAtomics : Schema → List Atomic
  | ⟨_, _, _, _, _, atomics, _, embedded⟩ => atomics ++ deepAtomicsOf embedded

/-- The atomics of a list of embedded schemas. -/
def deepAtomicsOf : List (String × Schema) → List Atomic
  | [] => []
  | (_, s) :: rest => deepAtomics s ++ deepAtomicsOf rest

end

/-- The atomics of embedded schemas, one schema after the other. -/
theorem deepAtomicsOf_eq (l : List (String × Schema)) :
    deepAtomicsOf l = l.flatMap fun p => p.2.deepAtomics := by
  induction l with
  | nil => rfl
  | cons p l ih => rw [deepAtomicsOf, ih, List.flatMap_cons]

/-- All atomics are the own ones and those of the embedded schemas. -/
theorem deepAtomics_eq (s : Schema) :
    s.deepAtomics = s.atomics ++ s.embedded.flatMap fun p => p.2.deepAtomics := by
  rw [← deepAtomicsOf_eq]
  cases s
  rw [deepAtomics]

/-- The table and the column that store an atomic. -/
def cell (s : Schema) (a : Atomic) : String × String :=
  (s.tableOf a, a.column)

/-- No two atomics of a schema and of all that it embeds share a cell. -/
def CellsDiffer (s : Schema) : Prop :=
  (s.deepAtomics.map s.cell).Nodup

instance (s : Schema) : Decidable s.CellsDiffer :=
  inferInstanceAs (Decidable (List.Nodup _))

end Schema

namespace Statement

/-- The table that a statement changes. -/
def table? : Statement → Option String
  | select _ => none
  | insert i => some i.table
  | update u => some u.table
  | delete d => some d.table

/-- Whether a statement changes a table. -/
def changes (table : String) (s : Statement) : Bool :=
  s.table? == some table

/-- A single row changes the table that it is inserted into. -/
theorem changes_single (table table' : String) (pairs : List (String × Value)) :
    (insert (Insert.single table pairs)).changes table' = (table == table') := rfl

/-- A statement writes a value into a column of a table. -/
def Writes (cell : String × String) (v : Value) : Statement → Prop
  | insert i => i.table = cell.1 ∧ ∃ row ∈ i.rows, (cell.2, v) ∈ i.columns.zip row
  | update u => u.table = cell.1 ∧ (cell.2, v) ∈ u.columns
  | select _ => False
  | delete _ => False

/-- Whether a statement writes into a column of a table. -/
def touches (cell : String × String) : Statement → Bool
  | insert i => i.table == cell.1 && i.columns.contains cell.2
  | update u => u.table == cell.1 && u.columns.any (·.1 == cell.2)
  | select _ => false
  | delete _ => false

variable {table : String} {cell : String × String} {v : Value}

/-- A single row has the columns that it is given. -/
theorem touches_single {pairs : List (String × Value)} :
    (insert (Insert.single table pairs)).touches cell = true ↔
      table = cell.1 ∧ cell.2 ∈ pairs.map (·.1) := by
  have heq : (insert (Insert.single table pairs)).touches cell =
      (table == cell.1 && (pairs.map (·.1)).contains cell.2) := rfl
  rw [heq, Bool.and_eq_true, beq_iff_eq, List.contains_iff_mem]

/-- A statement that writes a value into a cell writes into it. -/
theorem touches_of_writes {x : Statement} (h : x.Writes cell v) : x.touches cell = true := by
  cases x with
  | insert i =>
    obtain ⟨htable, row, -, hmem⟩ := h
    simpa [touches, htable] using (List.of_mem_zip hmem).1
  | update u =>
    obtain ⟨htable, hmem⟩ := h
    have hany : ∃ w, (cell.2, w) ∈ u.columns := ⟨v, hmem⟩
    simpa [touches, htable] using hany
  | select _ => exact h.elim
  | delete _ => exact h.elim

/-- A single row holds the first value that is given for a column. -/
theorem writes_single_iff {pairs : List (String × Value)} :
    (insert (Insert.single table pairs)).Writes cell v ↔
      table = cell.1 ∧ pairs.lookup cell.2 = some v := by
  have hiff : (insert (Insert.single table pairs)).Writes cell v ↔ table = cell.1 ∧
      ∃ row ∈ [(pairs.map (·.1)).map (Insert.cell pairs)],
        (cell.2, v) ∈ (pairs.map (·.1)).zip row := Iff.rfl
  rw [hiff]
  refine and_congr Iff.rfl ?_
  simp only [List.mem_singleton, exists_eq_left]
  have hzip : (pairs.map (·.1)).zip ((pairs.map (·.1)).map (Insert.cell pairs)) =
      pairs.map fun p => (p.1, Insert.cell pairs p.1) := by
    rw [List.map_map, List.zip_map']
    rfl
  rw [hzip, List.mem_map]
  constructor
  · rintro ⟨p, hp, heq⟩
    obtain ⟨hcolumn, hvalue⟩ := Prod.mk.inj heq
    have hsome : (pairs.lookup p.1).isSome := List.lookup_isSome_iff.2 ⟨p, hp, beq_self_eq_true _⟩
    obtain ⟨w, hw⟩ := Option.isSome_iff_exists.1 hsome
    rw [Insert.cell, hw] at hvalue
    rw [← hcolumn, hw, ← hvalue]
    rfl
  · intro h
    obtain ⟨l₁, l₂, rfl, -⟩ := List.lookup_eq_some_iff.1 h
    exact ⟨(cell.2, v), by simp, by simp [Insert.cell, h]⟩

/-- Setting a column gives it the value and leaves the other ones alone. -/
theorem mem_set_iff {u : Update} {column column' : String} {v v' : Value} :
    (column', v') ∈ (u.set column v).columns ↔
      (column' = column ∧ v' = v) ∨ (column' ≠ column ∧ (column', v') ∈ u.columns) := by
  unfold Update.set
  split
  · next hany =>
    simp only [List.any_eq_true, beq_iff_eq] at hany
    obtain ⟨⟨c, w⟩, hmem, hc⟩ := hany
    simp only at hc
    subst hc
    simp only [List.mem_map, Prod.exists]
    constructor
    · rintro ⟨c', w', hmem', heq⟩
      by_cases hc : c' = c
      · subst hc
        simp at heq
        exact .inl ⟨heq.1.symm, heq.2.symm⟩
      · simp [hc] at heq
        obtain ⟨rfl, rfl⟩ := heq
        exact .inr ⟨hc, hmem'⟩
    · rintro (⟨rfl, rfl⟩ | ⟨hne, hmem'⟩)
      · exact ⟨column', w, hmem, by simp⟩
      · exact ⟨column', v', hmem', by simp [hne]⟩
  · next hany =>
    simp only [Bool.not_eq_true, List.any_eq_false, beq_iff_eq] at hany
    rw [List.mem_append, List.mem_singleton]
    constructor
    · rintro (hmem | heq)
      · refine .inr ⟨fun hc => ?_, hmem⟩
        exact hany _ hmem hc
      · exact .inl (Prod.mk.inj heq)
    · rintro (⟨rfl, rfl⟩ | ⟨-, hmem⟩)
      · exact .inr rfl
      · exact .inl hmem

/-- An update sets columns to values that are given for them. -/
theorem mem_of_mem_setAll {u : Update} {pairs : List (String × Value)} {column : String}
    (h : (column, v) ∈ (u.setAll pairs).columns) :
    (column, v) ∈ u.columns ∨ (column, v) ∈ pairs := by
  unfold Update.setAll at h
  induction pairs generalizing u with
  | nil => exact .inl h
  | cons p pairs ih =>
    rcases ih h with hmem | hmem
    · rcases mem_set_iff.1 hmem with ⟨rfl, rfl⟩ | ⟨-, hmem⟩
      · exact .inr List.mem_cons_self
      · exact .inl hmem
    · exact .inr (List.mem_cons_of_mem _ hmem)

/-- A column for which only one value is given is set to it. -/
theorem mem_setAll {u : Update} {pairs : List (String × Value)} {column : String}
    (hmem : (column, v) ∈ u.columns ∨ (column, v) ∈ pairs)
    (honly : ∀ w, (column, w) ∈ pairs → w = v) : (column, v) ∈ (u.setAll pairs).columns := by
  unfold Update.setAll
  induction pairs generalizing u with
  | nil => exact hmem.resolve_right List.not_mem_nil
  | cons p pairs ih =>
    refine ih ?_ fun w hw => honly w (List.mem_cons_of_mem _ hw)
    by_cases hcolumn : p.1 = column
    · have hvalue : p.2 = v := honly p.2 (hcolumn ▸ List.mem_cons_self)
      exact .inl (mem_set_iff.2 (.inl ⟨hcolumn.symm, hvalue.symm⟩))
    · rcases hmem with hmem | hmem
      · exact .inl (mem_set_iff.2 (.inr ⟨Ne.symm hcolumn, hmem⟩))
      · rcases List.mem_cons.1 hmem with rfl | hmem
        · exact absurd rfl hcolumn
        · exact .inr hmem

end Statement

namespace Graph

variable {c : Catalog} {g : Graph} {e : EntityId} {s : Schema} {a f : Atomic} {u v : Value}

/-- An own atomic that differs from storage is one with a value that storage does not have. -/
theorem mem_dirtyAtomics_iff {x : Entity} :
    (a, v) ∈ x.dirtyAtomics ↔ a ∈ x.schema.atomics ∧ x.atomics.get? a.name = some (.dirty v) := by
  unfold Entity.dirtyAtomics
  rw [List.mem_filterMap]
  constructor
  · rintro ⟨b, hb, hslot⟩
    split at hslot
    · next slot hget =>
      split at hslot
      · cases hslot
      · next hdirty =>
        obtain ⟨rfl, rfl⟩ := Prod.mk.inj (Option.some.inj hslot)
        refine ⟨hb, hget.trans (congrArg some ?_)⟩
        cases slot
        simpa [Slot.dirty] using hdirty
    · cases hslot
  · rintro ⟨ha, hget⟩
    exact ⟨a, ha, by simp [hget, Slot.dirty]⟩

/-- The own atomics that differ from storage are some of the schema's, in order. -/
theorem own_dirtyAtomics_sublist (x : Entity) :
    (x.dirtyAtomics.map (·.1)).Sublist x.schema.atomics := by
  unfold Entity.dirtyAtomics
  rw [List.map_filterMap]
  induction x.schema.atomics with
  | nil => exact .slnil
  | cons a l ih =>
    rw [List.filterMap_cons]
    cases hget : x.atomics.get? a.name with
    | none => simpa using ih.cons a
    | some slot =>
      cases hclean : slot.clean
      · simpa [hclean] using ih.cons_cons a
      · simpa [hclean] using ih.cons a

/-- What the embedded components have to write. -/
def embeddedDirty (g : Graph) (s : Schema) (e : EntityId) : List (Atomic × Value) :=
  s.embedded.flatMap fun p => ((g.entity e).embedded.get? p.1).toList.flatMap fun x =>
    (g.partsOf p.2 x).flatMap fun y => (g.entity y).dirtyAtomics

/-- An entity has to write its own values, then those of its embedded components. -/
theorem dirtyAtomics_eq (g : Graph) (s : Schema) (e : EntityId) :
    (g.partsOf s e).flatMap (fun y => (g.entity y).dirtyAtomics) =
      (g.entity e).dirtyAtomics ++ g.embeddedDirty s e := by
  rw [partsOf_eq, List.flatMap_cons, embeddedDirty, List.flatMap_assoc]
  simp only [List.flatMap_assoc]

/-- What embedded components have to write are some of the atomics that the schema embeds, in
order. -/
theorem embeddedDirty_sublist (hwf : g.WellFormed c) (hs : (g.entity e).schema = s) :
    ((g.embeddedDirty s e).map (·.1)).Sublist (s.embedded.flatMap fun p => p.2.deepAtomics) := by
  induction s using Schema.induction generalizing e with
  | _ s ih =>
    unfold embeddedDirty
    rw [List.map_flatMap]
    refine List.Sublist.flatMap_right _ fun p hp => ?_
    cases hx : (g.entity e).embedded.get? p.1 with
    | none => exact List.nil_sublist _
    | some x =>
      have hschema := hwf.schema_of_embedded (hs ▸ hp) hx
      rw [Option.toList_some, List.flatMap_singleton, dirtyAtomics_eq, Schema.deepAtomics_eq,
        List.map_append]
      exact List.Sublist.append (hschema ▸ own_dirtyAtomics_sublist _) (ih p hp hschema)

/-- What an entity has to write are some of the atomics of its schema and of all that it embeds, in
order. -/
theorem dirtyAtomics_sublist (hwf : g.WellFormed c) (hs : (g.entity e).schema = s) :
    ((g.dirtyAtomics e).map (·.1)).Sublist s.deepAtomics := by
  subst hs
  unfold dirtyAtomics parts
  rw [dirtyAtomics_eq, List.map_append, Schema.deepAtomics_eq]
  exact (own_dirtyAtomics_sublist _).append (embeddedDirty_sublist hwf rfl)

/-- Where cells differ, an entity has at most one value to write into each. -/
theorem eq_of_mem_dirtyAtomics (hwf : g.WellFormed c) (hs : (g.entity e).schema = s)
    (hcells : s.CellsDiffer) {p q : Atomic × Value} (hp : p ∈ g.dirtyAtomics e)
    (hq : q ∈ g.dirtyAtomics e) (hcell : s.cell p.1 = s.cell q.1) : p = q := by
  have hnodup : ((g.dirtyAtomics e).map fun p => s.cell p.1).Nodup := by
    have hmap : (g.dirtyAtomics e).map (fun p => s.cell p.1) =
        ((g.dirtyAtomics e).map (·.1)).map s.cell := by
      rw [List.map_map]
      rfl
    rw [hmap]
    exact hcells.sublist ((dirtyAtomics_sublist hwf hs).map _)
  exact List.inj_on_of_nodup_map hnodup hp hq hcell

/-- Where cells differ, what is to be written into the cell of an own atomic is its value. -/
theorem mem_dirtyAtomics_of_cell (hwf : g.WellFormed c)
    (hcells : (g.entity e).schema.CellsDiffer) (hf : f ∈ (g.entity e).schema.atomics)
    (ha : (a, u) ∈ g.dirtyAtomics e)
    (hcell : (g.entity e).schema.cell a = (g.entity e).schema.cell f) :
    a = f ∧ (g.entity e).atomics.get? f.name = some (.dirty u) := by
  unfold Schema.CellsDiffer at hcells
  rw [Schema.deepAtomics_eq, List.map_append] at hcells
  unfold dirtyAtomics parts at ha
  rw [dirtyAtomics_eq, List.mem_append] at ha
  rcases ha with ha | ha
  · obtain ⟨hmem, hslot⟩ := mem_dirtyAtomics_iff.1 ha
    obtain rfl := List.inj_on_of_nodup_map hcells.of_append_left hmem hf hcell
    exact ⟨rfl, hslot⟩
  · -- an embedded atomic has another cell
    have hmem := (embeddedDirty_sublist hwf rfl).subset (List.mem_map_of_mem ha)
    have hdisjoint := List.disjoint_of_nodup_append hcells
    exact absurd (hcell ▸ List.mem_map_of_mem hmem) (hdisjoint (List.mem_map_of_mem hf))

end Graph

namespace Save

variable {c : Catalog} {g : Graph} {e : EntityId} {s : Schema} {f key : Atomic} {v w : Value}
  {values : List (Atomic × Value)}

/-- Statements write into a cell what a slot has and storage does not: the first one for the table
does, and none writes anything else. -/
structure Carry (cell : String × String) (slot : Option (Slot Value)) (l : List Statement) :
    Prop where
  only : ∀ x ∈ l, ∀ u, x.Writes cell u → slot = some (.dirty u)
  first : ∀ v, slot = some (.dirty v) → ∃ x, l.find? (·.changes cell.1) = some x ∧ x.Writes cell v

/-- The values to write that are stored in one cell are those that the own atomic of the cell has and
storage does not. -/
structure Sole (s : Schema) (values : List (Atomic × Value)) (f : Atomic)
    (slot : Option (Slot Value)) : Prop where
  only : ∀ a u, (a, u) ∈ values → s.cell a = s.cell f → slot = some (.dirty u)
  mem : ∀ v, slot = some (.dirty v) → (f, v) ∈ values

/-- The values to insert are the ones that storage does not have. -/
theorem sole_dirtyAtomics (hwf : g.WellFormed c) (hs : (g.entity e).schema = s)
    (hcells : s.CellsDiffer) (hf : f ∈ s.atomics) :
    Sole s (g.dirtyAtomics e) f ((g.entity e).atomics.get? f.name) := by
  subst hs
  refine ⟨fun a u ha hcell => (Graph.mem_dirtyAtomics_of_cell hwf hcells hf ha hcell).2,
    fun v hv => ?_⟩
  unfold Graph.dirtyAtomics Graph.parts
  rw [Graph.dirtyAtomics_eq]
  exact List.mem_append_left _ (Graph.mem_dirtyAtomics_iff.2 ⟨hf, hv⟩)

/-- A value that an entity has to write is the only one for its cell. -/
theorem sole_of_mem (hwf : g.WellFormed c) (hs : (g.entity e).schema = s) (hcells : s.CellsDiffer)
    (hmem : (f, v) ∈ g.dirtyAtomics e) : Sole s (g.dirtyAtomics e) f (some (.dirty v)) := by
  refine ⟨fun a u ha hcell => ?_, fun w hw => ?_⟩
  · obtain ⟨-, rfl⟩ := Prod.mk.inj (Graph.eq_of_mem_dirtyAtomics hwf hs hcells ha hmem hcell)
    rfl
  · obtain rfl : v = w := by simpa [Slot.dirty] using hw
    exact hmem

variable {slot : Option (Slot Value)}

/-- The values to update are those to insert, the key apart. -/
theorem Sole.changes (h : Sole s (g.dirtyAtomics e) f slot) (hkey : f.primaryKey = false) :
    Sole s (changes g e) f slot := by
  refine ⟨fun a u ha hcell => h.only a u (List.mem_of_mem_filter ha) hcell, fun v hv => ?_⟩
  exact List.mem_filter.2 ⟨h.mem v hv, by simp [hkey]⟩

/-- The values to update are the ones that storage does not have as well. -/
theorem sole_changes (hwf : g.WellFormed c) (hs : (g.entity e).schema = s)
    (hcells : s.CellsDiffer) (hf : f ∈ s.atomics) (hkey : f.primaryKey = false) :
    Sole s (Save.changes g e) f ((g.entity e).atomics.get? f.name) :=
  (sole_dirtyAtomics hwf hs hcells hf).changes hkey

/-- A value in the columns of a table is the one of the cell. -/
theorem Sole.of_mem (h : Sole s values f slot) {u : Value} {columns : List (String × Value)}
    (hcolumns : columns = columnsIn s values (s.tableOf f) ∨ columns = [])
    (hmem : (f.column, u) ∈ columns) : slot = some (.dirty u) := by
  rcases hcolumns with rfl | rfl
  · obtain ⟨a, ha, htable, hcolumn⟩ := mem_columnsIn_iff.1 hmem
    exact h.only a u ha (Prod.ext htable hcolumn)
  · cases hmem

/-- The columns of the table have the value of the cell. -/
theorem Sole.mem_columnsIn (h : Sole s values f slot) (hslot : slot = some (.dirty v)) :
    (f.column, v) ∈ columnsIn s values (s.tableOf f) :=
  mem_columnsIn_iff.2 ⟨f, h.mem v hslot, rfl, rfl⟩

/-- Looking up the column of the cell finds its value. -/
theorem Sole.lookup (h : Sole s values f slot) (hslot : slot = some (.dirty v)) :
    (columnsIn s values (s.tableOf f)).lookup f.column = some v := by
  have hsome : ((columnsIn s values (s.tableOf f)).lookup f.column).isSome :=
    List.lookup_isSome_iff.2 ⟨_, h.mem_columnsIn hslot, beq_self_eq_true _⟩
  obtain ⟨u, hu⟩ := Option.isSome_iff_exists.1 hsome
  have hmem : (f.column, u) ∈ columnsIn s values (s.tableOf f) := by
    obtain ⟨l₁, l₂, heq, -⟩ := List.lookup_eq_some_iff.1 hu
    rw [heq]
    simp
  obtain rfl : v = u := by simpa [Slot.dirty, hslot] using h.of_mem (.inl rfl) hmem
  exact hu

/-- A row that gives a column its value writes the value of the cell. -/
theorem Sole.of_lookup (h : Sole s values f slot) {u : Value} {columns : List (String × Value)}
    (hcolumns : columns = columnsIn s values (s.tableOf f) ∨ columns = [])
    (hu : columns.lookup f.column = some u) : slot = some (.dirty u) := by
  refine h.of_mem hcolumns ?_
  obtain ⟨l₁, l₂, rfl, -⟩ := List.lookup_eq_some_iff.1 hu
  simp

/-- Inserts write the value of a cell, unless that is the key's in a table after the first. -/
theorem inserts_carry (h : Sole s values f slot) (htable : s.tableOf f ∈ s.tables)
    (hkey : s.tableOf f ∈ s.secondary → f.column ≠ key.column) :
    Carry (s.cell f) slot (inserts s values key w) := by
  have hrest : ∀ x ∈ restColumns s values, x.1 = s.tableOf f → f.column ≠ key.column :=
    fun x hx heq => hkey (heq ▸ (mem_columnsFrom hx).1)
  constructor
  · intro x hx u hu
    rcases List.mem_cons.1 hx with rfl | hx
    · obtain ⟨heq, hlookup⟩ := Statement.writes_single_iff.1 hu
      have heq : s.table = s.tableOf f := heq
      exact h.of_lookup (.inl (by rw [heq])) hlookup
    · obtain ⟨y, hy, rfl⟩ := List.mem_map.1 hx
      obtain ⟨heq, hlookup⟩ := Statement.writes_single_iff.1 hu
      have hne : (f.column == key.column) = false := by simpa using hrest y hy heq
      have heq : y.1 = s.tableOf f := heq
      have hlookup : y.2.lookup f.column = some u := by
        simpa [List.lookup_cons, Schema.cell, hne] using hlookup
      exact h.of_lookup (heq ▸ (mem_columnsFrom hy).2) hlookup
  · intro v hv
    unfold inserts
    by_cases heq : s.table = s.tableOf f
    · refine ⟨_, List.find?_cons_of_pos ?_, Statement.writes_single_iff.2 ⟨heq, ?_⟩⟩
      · rw [firstInsert, Statement.changes_single]
        exact beq_iff_eq.2 heq
      · have hlookup := h.lookup hv
        rw [← heq] at hlookup
        exact hlookup
    · have hmem : s.tableOf f ∈ s.secondary := (List.mem_cons.1 htable).resolve_left (Ne.symm heq)
      have hne : (f.column == key.column) = false := by simpa using hkey hmem
      have hfound : (restColumns s values).find? (·.1 == s.tableOf f) =
          some (s.tableOf f, columnsIn s values (s.tableOf f)) :=
        find?_columnsFrom hmem (by simpa using Ne.symm heq)
      have hcomp : ((fun x : Statement => x.changes (s.cell f).1) ∘
          fun x => .insert (restInsert key w x)) = fun x => x.1 == s.tableOf f := rfl
      have hfirst : ¬(firstInsert s values).changes (s.cell f).1 = true := by
        rw [firstInsert, Statement.changes_single]
        exact fun hbeq => heq (beq_iff_eq.1 hbeq)
      rw [List.find?_cons_of_neg hfirst, List.find?_map, hcomp, hfound]
      refine ⟨_, rfl, Statement.writes_single_iff.2 ⟨rfl, ?_⟩⟩
      simpa [List.lookup_cons, Schema.cell, hne] using h.lookup hv

/-- Setting columns leaves the table and the conditions alone. -/
theorem setAll_frame (pairs : List (String × Value)) (u : Update) :
    (u.setAll pairs).table = u.table ∧ (u.setAll pairs).conditions = u.conditions := by
  induction pairs generalizing u with
  | nil => exact ⟨rfl, rfl⟩
  | cons p pairs ih =>
    have hset : (u.set p.1 p.2).table = u.table ∧ (u.set p.1 p.2).conditions = u.conditions := by
      unfold Update.set
      split <;> exact ⟨rfl, rfl⟩
    obtain ⟨htable, hconditions⟩ := ih (u.set p.1 p.2)
    exact ⟨htable.trans hset.1, hconditions.trans hset.2⟩

/-- An update of a table sets the columns that it is given. -/
theorem table_tableUpdate (key : Atomic) (w : Value) (x : String × List (String × Value)) :
    (tableUpdate key w x).table = x.1 :=
  (setAll_frame x.2 _).1

/-- An update concerns the rows of a key. -/
theorem conditions_tableUpdate (key : Atomic) (w : Value) (x : String × List (String × Value)) :
    (tableUpdate key w x).conditions = [Expr.columnEq key.column w] :=
  (setAll_frame x.2 _).2

/-- Updates write the value of a cell. -/
theorem updates_carry (h : Sole s values f slot) (htable : s.tableOf f ∈ s.tables) :
    Carry (s.cell f) slot ((updates key w (columnsByTable s values)).map .update) := by
  have hall : ∀ x ∈ columnsByTable s values, x.1 = s.tableOf f →
      x.2 = columnsIn s values (s.tableOf f) ∨ x.2 = [] :=
    fun x hx heq => heq ▸ (mem_columnsFrom hx).2
  have hgiven : ∀ (x : String × List (String × Value)) (u : Value),
      (f.column, u) ∈ (tableUpdate key w x).columns → (f.column, u) ∈ x.2 :=
    fun x u hu => (Statement.mem_of_mem_setAll hu).resolve_left List.not_mem_nil
  constructor
  · intro x hx u hu
    obtain ⟨y, hy, rfl⟩ := List.mem_map.1 hx
    obtain ⟨z, hz, rfl⟩ := List.mem_map.1 (List.mem_of_mem_filter hy)
    obtain ⟨heq, hmem⟩ := hu
    rw [table_tableUpdate] at heq
    exact h.of_mem (hall z hz heq) (hgiven z u hmem)
  · intro v hv
    have hfound : (columnsByTable s values).find? (·.1 == s.tableOf f) =
        some (s.tableOf f, columnsIn s values (s.tableOf f)) :=
      find?_columnsFrom htable List.not_mem_nil
    have hset : (f.column, v) ∈
        (tableUpdate key w (s.tableOf f, columnsIn s values (s.tableOf f))).columns := by
      refine Statement.mem_setAll (.inr (h.mem_columnsIn hv)) fun u hu => ?_
      simpa [Slot.dirty, hv, eq_comm] using h.of_mem (.inl rfl) hu
    refine ⟨.update (tableUpdate key w (s.tableOf f, columnsIn s values (s.tableOf f))), ?_,
      table_tableUpdate _ _ _, hset⟩
    -- tables before this one are other tables, whether they are updated or not
    obtain ⟨hmatch, before, after, hsplit, hbefore⟩ := List.find?_eq_some_iff_append.1 hfound
    unfold updates
    rw [hsplit, List.map_append, List.filter_append, List.map_append, List.find?_append]
    have hnone : (((before.map (tableUpdate key w)).filter (!·.columns.isEmpty)).map
        Statement.update).find? (·.changes (s.cell f).1) = none := by
      refine List.find?_eq_none.2 fun x hx => ?_
      obtain ⟨y, hy, rfl⟩ := List.mem_map.1 hx
      obtain ⟨z, hz, rfl⟩ := List.mem_map.1 (List.mem_of_mem_filter hy)
      have hne := hbefore z hz
      simpa [Statement.changes, Statement.table?, table_tableUpdate, Schema.cell] using hne
    rw [hnone, List.map_cons, List.filter_cons_of_pos, List.map_cons, List.find?_cons_of_pos]
    · rfl
    · simp [Statement.changes, Statement.table?, table_tableUpdate, Schema.cell]
    · have hne := List.ne_nil_of_mem hset
      simpa using hne

/-! ### Written once -/

/-- One insert writes into the cell of an atomic that storage does not have. -/
theorem filter_inserts (h : Sole s values f (some (.dirty v))) (htable : s.tableOf f ∈ s.tables)
    (hprimary : s.table ∉ s.secondary)
    (hkey : s.tableOf f ∈ s.secondary → f.column ≠ key.column) :
    ∃ x, (inserts s values key w).filter (·.touches (s.cell f)) = [x] ∧ x.Writes (s.cell f) v := by
  have hother : ∀ x : String × List (String × Value), x.1 ≠ s.tableOf f →
      (Statement.insert (restInsert key w x)).touches (s.cell f) ≠ true :=
    fun x hne htouches => hne (Statement.touches_single.1 htouches).1
  unfold inserts
  by_cases heq : s.table = s.tableOf f
  · have hwrites : (firstInsert s values).Writes (s.cell f) v := by
      refine Statement.writes_single_iff.2 ⟨heq, ?_⟩
      rw [heq]
      exact h.lookup rfl
    refine ⟨firstInsert s values, ?_, hwrites⟩
    rw [List.filter_cons_of_pos (Statement.touches_of_writes hwrites), List.filter_eq_nil_iff.2]
    intro y hy
    obtain ⟨x, hx, rfl⟩ := List.mem_map.1 hy
    refine hother x fun hmem => hprimary ?_
    rw [heq, ← hmem]
    exact (mem_columnsFrom hx).1
  · have hmem : s.tableOf f ∈ s.secondary := (List.mem_cons.1 htable).resolve_left (Ne.symm heq)
    have hcolumn := hkey hmem
    have hwrites : (Statement.insert (restInsert key w
        (s.tableOf f, columnsIn s values (s.tableOf f)))).Writes (s.cell f) v := by
      have hne : (f.column == key.column) = false := by simpa using hcolumn
      refine Statement.writes_single_iff.2 ⟨rfl, ?_⟩
      simpa [List.lookup_cons, Schema.cell, hne] using h.lookup rfl
    refine ⟨_, ?_, hwrites⟩
    have hfirst : ¬(firstInsert s values).touches (s.cell f) = true :=
      fun htouches => heq (Statement.touches_single.1 htouches).1
    obtain ⟨before, after, hsplit, hbefore, hafter⟩ :=
      columnsFrom_split s values [s.table] hmem
        (show s.tableOf f ∉ [s.table] by simpa using Ne.symm heq)
    have hnone : ∀ l : List (String × List (String × Value)), (∀ x ∈ l,
        (Statement.insert (restInsert key w x)).touches (s.cell f) ≠ true) →
        (l.map fun x => Statement.insert (restInsert key w x)).filter (·.touches (s.cell f)) = [] := by
      refine fun l hl => List.filter_eq_nil_iff.2 fun y hy => ?_
      obtain ⟨x, hx, rfl⟩ := List.mem_map.1 hy
      exact hl x hx
    rw [List.filter_cons_of_neg hfirst, restColumns, hsplit, List.map_append, List.filter_append,
      List.map_cons, List.filter_cons_of_pos (Statement.touches_of_writes hwrites),
      hnone before fun x hx => hother x (hbefore x hx), hnone after fun x hx htouches => ?_]
    · rfl
    · -- a table that is listed again gets nothing but the key
      obtain ⟨htable', hcolumns⟩ := Statement.touches_single.1 htouches
      rw [hafter x hx htable'] at hcolumns
      exact hcolumn (by simpa [Schema.cell] using hcolumns)

/-- One update writes into the cell of an atomic that storage does not have. -/
theorem filter_updates (h : Sole s values f (some (.dirty v))) (htable : s.tableOf f ∈ s.tables) :
    ∃ x, ((updates key w (columnsByTable s values)).map Statement.update).filter
      (·.touches (s.cell f)) = [x] ∧ x.Writes (s.cell f) v := by
  have htouches : ∀ x : String × List (String × Value),
      (Statement.update (tableUpdate key w x)).touches (s.cell f) = true →
        x.1 = s.tableOf f ∧ x.2 ≠ [] := by
    intro x hx
    obtain ⟨htable', hany⟩ := Bool.and_eq_true_iff.1 hx
    rw [beq_iff_eq, table_tableUpdate] at htable'
    refine ⟨htable', fun hnil => ?_⟩
    obtain ⟨q, hq, -⟩ := List.any_eq_true.1 hany
    rcases Statement.mem_of_mem_setAll hq with hmem | hmem
    · cases hmem
    · rw [hnil] at hmem
      cases hmem
  have hwrites : (Statement.update
      (tableUpdate key w (s.tableOf f, columnsIn s values (s.tableOf f)))).Writes (s.cell f) v := by
    refine ⟨table_tableUpdate _ _ _, Statement.mem_setAll (.inr (h.mem_columnsIn rfl)) fun u hu => ?_⟩
    simpa [Slot.dirty, eq_comm] using h.of_mem (.inl rfl) hu
  have hnone : ∀ l : List (String × List (String × Value)),
      (∀ x ∈ l, ¬(x.1 = s.tableOf f ∧ x.2 ≠ [])) →
      ((updates key w l).map Statement.update).filter (·.touches (s.cell f)) = [] := by
    refine fun l hl => List.filter_eq_nil_iff.2 fun y hy hy' => ?_
    obtain ⟨u, hu, rfl⟩ := List.mem_map.1 hy
    obtain ⟨x, hx, rfl⟩ := List.mem_map.1 (List.mem_of_mem_filter hu)
    exact hl x hx (htouches x hy')
  refine ⟨_, ?_, hwrites⟩
  obtain ⟨before, after, hsplit, hbefore, hafter⟩ :=
    columnsFrom_split s values [] htable List.not_mem_nil
  have hupdates : updates key w (columnsByTable s values) = updates key w before ++
      tableUpdate key w (s.tableOf f, columnsIn s values (s.tableOf f)) :: updates key w after := by
    have hne := List.ne_nil_of_mem hwrites.2
    unfold columnsByTable updates
    rw [hsplit, List.map_append, List.filter_append, List.map_cons, List.filter_cons_of_pos]
    simpa using hne
  rw [hupdates, List.map_append, List.filter_append, List.map_cons,
    List.filter_cons_of_pos (Statement.touches_of_writes hwrites),
    hnone before fun x hx hboth => hbefore x hx hboth.1,
    hnone after fun x hx hboth => hboth.2 (hafter x hx hboth.1)]
  rfl

end Save

end EntityGraph
