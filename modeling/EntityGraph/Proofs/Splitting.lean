import EntityGraph.Proofs.Recorded

/-!
# Splitting a write by table

What an entity has to write is split over the tables of its schema: each of them is handed the values
that are stored in it, over all its entries. So a value gets lost only if the schema does not list the
table of its atomic, or if it shares its cell with another one.

A catalog checks every type by itself. A schema that it has built stores its own atomics in its tables,
and an embedded one in the primary table or in a secondary table of the embeddable type. Columns are not
compared with each other.

* `Schema.Housed` — where the atomics of a schema are stored;
* `Schema.Alone` — an atomic has a cell of its own;
* `handed` — what a table is handed of some values.

## Main results

* `Catalog.splits_of_schema`: where a built schema stores its atomics, and how writes are split by it.
* `Catalog.accepts_crate`: a built schema whose writes lose values.
-/

namespace EntityGraph

/-- The own atomics of a schema are stored in its tables, and embedded ones in its primary table or in a
secondary table of their own type. Within a type, no name is shared by atomics or embedded schemas. -/
structure Schema.Housed (s : Schema) : Prop where
  own : ∀ a ∈ s.atomics, s.tableOf a ∈ s.tables
  deep : ∀ t : Schema, t.Within s → ∀ a ∈ t.atomics, s.tableOf a = s.table ∨ s.tableOf a ∈ t.secondary
  coherent : ∀ t : Schema, t.Within s → t.Coherent
  secondary : s.secondary.Nodup

/-- A built schema is housed. -/
theorem Catalog.housed_of_schema {c : Catalog} {name : String} {s : Schema}
    (h : c.schema name = .ok s) : s.Housed where
  own _ ha := tableOf_mem_tables h ha
  deep t ht a ha := by
    have htable : t.tableOf a = s.tableOf a := by
      rw [Schema.tableOf, Schema.tableOf, table_of_within h ht]
    rw [← htable, ← table_of_within h ht]
    exact List.mem_cons.1 (Known.tableOf_mem_tables ⟨name, s, h, ht⟩ ha)
  coherent _ ht := coherent_of_within h ht
  secondary := nodup_secondary h

/-- No other atomic of a schema and of all that it embeds has the cell of this one. -/
def Schema.Alone (s : Schema) (a : Atomic) : Prop :=
  (s.deepAtomics.map s.cell).count (s.cell a) = 1

instance (s : Schema) (a : Atomic) : Decidable (s.Alone a) :=
  inferInstanceAs (Decidable (_ = _))

namespace Save

variable {c : Catalog} {g : Graph} {e : EntityId} {s : Schema} {a b key : Atomic} {u v k : Value}
  {values : List (Atomic × Value)} {table : String}

/-- What a table is handed of some values, over all its entries. -/
def handed (s : Schema) (values : List (Atomic × Value)) (table : String) : List (String × Value) :=
  ((columnsByTable s values).filter (·.1 == table)).flatMap (·.2)

/-- A table of the schema is handed the values that are stored in it, whatever their columns. -/
theorem handed_eq (hmem : table ∈ s.tables) : handed s values table = columnsIn s values table := by
  obtain ⟨before, after, hsplit, hbefore, hafter⟩ :=
    columnsFrom_split s values [] hmem List.not_mem_nil
  have hnone : before.filter (·.1 == table) = [] :=
    List.filter_eq_nil_iff.2 fun x hx => by simpa using hbefore x hx
  -- a table that is listed again is handed nothing there
  have hrest : (after.filter (·.1 == table)).flatMap (·.2) = [] := by
    refine List.flatMap_eq_nil_iff.2 fun x hx => ?_
    obtain ⟨hx, htable⟩ := List.mem_filter.1 hx
    exact hafter x hx (beq_iff_eq.1 htable)
  have hself : (((table, columnsIn s values table) :: after).filter (·.1 == table)) =
      (table, columnsIn s values table) :: after.filter (·.1 == table) :=
    List.filter_cons_of_pos (beq_self_eq_true table)
  rw [handed, columnsByTable, hsplit, List.filter_append, hnone, List.nil_append, hself,
    List.flatMap_cons, hrest, List.append_nil]

/-- Of what an entity has to write, only the value of an atomic goes into a cell that the atomic has
alone. -/
theorem eq_of_alone (hwf : g.WellFormed c) (hs : (g.entity e).schema = s) (halone : s.Alone a)
    (ha : (a, v) ∈ g.dirtyAtomics e) (hb : (b, u) ∈ g.dirtyAtomics e) (hcell : s.cell b = s.cell a) :
    (b, u) = (a, v) := by
  have hsub : ((g.dirtyAtomics e).map fun p => s.cell p.1).Sublist (s.deepAtomics.map s.cell) := by
    have hmap := (Graph.dirtyAtomics_sublist hwf hs).map s.cell
    rwa [List.map_map] at hmap
  have hcount : ((g.dirtyAtomics e).filter fun p => s.cell p.1 == s.cell a).length ≤ 1 := by
    have hle := hsub.count_le (s.cell a)
    rw [show List.count _ (s.deepAtomics.map s.cell) = 1 from halone, List.count, List.countP_map,
      List.countP_eq_length_filter] at hle
    exact hle
  replace hb : (b, u) ∈ (g.dirtyAtomics e).filter fun p => s.cell p.1 == s.cell a :=
    List.mem_filter.2 ⟨hb, beq_iff_eq.2 hcell⟩
  replace ha : (a, v) ∈ (g.dirtyAtomics e).filter fun p => s.cell p.1 == s.cell a :=
    List.mem_filter.2 ⟨ha, beq_self_eq_true (s.cell a)⟩
  generalize (g.dirtyAtomics e).filter (fun p => s.cell p.1 == s.cell a) = l at hcount ha hb
  obtain _ | ⟨x, _ | ⟨y, l⟩⟩ := l
  · cases ha
  · rw [List.mem_singleton.1 hb, List.mem_singleton.1 ha]
  · simp only [List.length_cons] at hcount
    omega

/-- A value that an entity has to write is the only one for its cell, if its atomic has that alone. -/
theorem sole_of_alone (hwf : g.WellFormed c) (hs : (g.entity e).schema = s) (halone : s.Alone a)
    (ha : (a, v) ∈ g.dirtyAtomics e) : Sole s (g.dirtyAtomics e) a (some (.dirty v)) := by
  refine ⟨fun b u hb hcell => ?_, fun w hw => ?_⟩
  · obtain ⟨-, rfl⟩ := Prod.mk.inj (eq_of_alone hwf hs halone ha hb hcell)
    rfl
  · obtain rfl : v = w := by simpa [Slot.dirty] using hw
    exact ha

/-- A value is written into its cell by one of some statements, and by no other. -/
def WrittenOnce (l : List Statement) (cell : String × String) (v : Value) : Prop :=
  ∃ x, l.filter (·.touches cell) = [x] ∧ x.Writes cell v

end Save

open Save

/-- **Values are split as a built schema stores them.** Own atomics are stored in tables of the schema,
and embedded ones in the primary table or in a secondary table of their own type. Each table is handed
all values that are stored in it, and no others. So a value of an atomic in a table of the schema that
has a cell of its own is written into this cell, once, by an update and by an insert. -/
theorem Catalog.splits_of_schema {c : Catalog} {name : String} {s : Schema}
    (h : c.schema name = .ok s) :
    s.Housed ∧
    (∀ values, (columnsByTable s values).map (·.1) = s.tables ∧
      ∀ table ∈ s.tables, handed s values table = columnsIn s values table) ∧
    ∀ (g : Graph) (e : EntityId) (a key : Atomic) (v k : Value), g.Built c →
      (g.entity e).schema = s → (a, v) ∈ g.dirtyAtomics e → s.tableOf a ∈ s.tables → s.Alone a →
      (a.primaryKey = false → WrittenOnce
        ((updates key k (columnsByTable s (changes g e))).map .update) (s.cell a) v) ∧
      (s.table ∉ s.secondary → (s.tableOf a ∈ s.secondary → a.column ≠ key.column) →
        WrittenOnce (inserts s (g.dirtyAtomics e) key k) (s.cell a) v) := by
  refine ⟨housed_of_schema h, fun values => ⟨tables_columnsFrom s values s.tables [],
    fun table hmem => handed_eq hmem⟩, fun g e a key v k hbuilt hs ha htable halone => ?_⟩
  have hsole := sole_of_alone hbuilt.wellFormed hs halone ha
  exact ⟨fun hpk => filter_updates (hsole.changes hpk) htable,
    fun hprimary hcolumn => filter_inserts hsole htable hprimary hcolumn⟩

namespace Catalog

/-- The label of a parcel is written once when the parcel is inserted, into its own table. -/
theorem splits_of_schema_parcel :
    let s := (Shop.parcel.entity ⟨0⟩).schema
    Shop.parcels.schema "Parcel" = .ok s ∧ s.Housed ∧
      WrittenOnce (inserts s (Shop.parcel.dirtyAtomics ⟨0⟩) Shop.key (.int 1)) ("Label", "label")
        (.text "fragile") := by
  intro s
  let label : Atomic := { name := "label", column := "label", kind := .string, table := some "Label" }
  have hs : Shop.parcels.schema "Parcel" = .ok s := by rfl
  have hdirty : (label, .text "fragile") ∈ Shop.parcel.dirtyAtomics ⟨0⟩ := by decide
  obtain ⟨hhoused, -, hwritten⟩ := splits_of_schema hs
  obtain ⟨-, hinserts⟩ := hwritten Shop.parcel ⟨0⟩ label Shop.key (.text "fragile") (.int 1)
    (.runAll _ .empty) rfl hdirty (by decide) (by decide)
  exact ⟨hs, hhoused, hinserts (by decide) (by decide)⟩

end Catalog

namespace Shop

/-- Crates keep two numbers in one column and a mark in the column of the key, list their own table
again, and have a stamp whose color is in a table that they do not list. -/
def crates : Catalog where
  definitions := [
    { name := "Crate", steps := [.secondary "Crate", .secondary "Note", .atomic key,
        .atomic { name := "weight", column := "weight", kind := .int },
        .atomic { name := "mass", column := "weight", kind := .int },
        .atomic { name := "mark", column := "id", kind := .string, table := some "Note" },
        .embed "stamp" "Stamp"] },
    { name := "Stamp", embeddable := true, steps := [.secondary "Ink",
        .atomic { name := "color", column := "color", kind := .string, table := some "Ink" }] }]

/-- A crate with a value for each of its atomics but the key. -/
def crate : Graph :=
  Graph.Operation.runAll crates [.create "Crate", .assign ⟨0⟩ "weight" (.int 5),
    .assign ⟨0⟩ "mass" (.int 7), .assign ⟨0⟩ "mark" (.text "fragile"), .embedded ⟨0⟩ "stamp",
    .assign ⟨1⟩ "color" (.text "red")] {}

end Shop

namespace Catalog

/-- A built schema may store atomics in tables that it does not list, in one cell, or in the column of
the key, and it may list its primary table again. When a crate is saved, its mass, its mark and the color
of its stamp get lost, and they count as stored. -/
theorem accepts_crate :
    let s := (Shop.crate.entity ⟨0⟩).schema
    let saved := (Call.save.run { catalog := Shop.crates } ⟨0⟩).final (Shop.world Shop.crate)
    Shop.crates.schema "Crate" = .ok s ∧
      (∃ a ∈ s.deepAtomics, s.tableOf a ∉ s.tables) ∧ ¬s.CellsDiffer ∧
      (∃ a ∈ s.deepAtomics, s.tableOf a ∈ s.secondary ∧ a.column = Shop.key.column) ∧
      s.table ∈ s.secondary ∧
      (Call.save.run { catalog := Shop.crates } ⟨0⟩).succeeds (Shop.world Shop.crate) = true ∧
      saved.wire.sent.map (Statement.text .mysql) =
        ["INSERT INTO `Crate` (`weight`, `weight`) VALUES ('5', '5')",
          "INSERT INTO `Crate` (`id`) VALUES ('1')",
          "INSERT INTO `Note` (`id`, `id`) VALUES ('1', '1')"] ∧
      saved.graph.dirtyAtomics ⟨0⟩ = [] := by
  refine ⟨by rfl, by decide, by decide, by decide, by decide,
    by decide, by decide, by decide⟩

end Catalog

end EntityGraph
