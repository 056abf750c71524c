import EntityGraph.Connection.Database
import EntityGraph.Proofs.Accepted
import EntityGraph.Proofs.Sending

/-!
# Databases that lose rows and values

A deletion makes a database lose rows, and rows lose values, but never a required one. What a database
does not have it does not have later.

* `Database.Shrinks` — a database has lost rows and values;
* `Database.KeysHold` — every entity type has its keys in all its tables;
* `removed` — the rows that statements have removed, as they were at that moment;
* `ends_fetch`, `ends_empty`, `ends_deleteKey` — what a database makes of the statements of a deletion.
-/

namespace EntityGraph

/-- A row has lost values, but none of the required ones. -/
structure StoredRow.Fades (required : List (String × String)) (row row' : StoredRow) : Prop where
  table : row'.table = row.table
  value : ∀ column, row'.value column = row.value column ∨ row'.value column = .null
  required : ∀ column, (row.table, column) ∈ required → row'.value column = row.value column

namespace StoredRow.Fades

variable {required : List (String × String)} {row row' row'' : StoredRow}

theorem refl (required : List (String × String)) (row : StoredRow) : Fades required row row :=
  ⟨rfl, fun _ => .inl rfl, fun _ _ => rfl⟩

theorem trans (h : Fades required row row') (h' : Fades required row' row'') :
    Fades required row row'' where
  table := h'.table.trans h.table
  value column := by
    rcases h'.value column with heq | hnull
    · rw [heq]
      exact h.value column
    · exact .inr hnull
  required column hmem :=
    (h'.required column (h.table ▸ hmem)).trans (h.required column hmem)

/-- A value that is left was there before. -/
theorem eq_of_ne_null (h : Fades required row row') {column : String}
    (hne : row'.value column ≠ .null) : row.value column = row'.value column :=
  ((h.value column).resolve_right hne).symm

end StoredRow.Fades

/-! ### Emptying and deleting -/

/-- The update that empties a column of the rows of a table that meet a condition. -/
def Update.emptying (table column : String) (e : Expr) : Update :=
  { table, columns := [(column, .null)], conditions := [e] }

/-- The deletion of the rows of a table with a value in a column. -/
def Delete.keyed (table column : String) (v : Value) : Delete :=
  { table, conditions := [Expr.columnEq column v] }

namespace Database

variable {db db' db'' : Database} {row : StoredRow} {table column : String} {e : Expr} {v : Value}

/-- What emptying a column makes of a row. -/
def emptied (db : Database) (table column : String) (e : Expr) (row : StoredRow) : StoredRow :=
  if row.table = table ∧ db.meets row e = true then row.overwrite [(column, .null)] else row

/-- Emptying a column changes each row on its own. -/
theorem updated_emptying : (db.updated (.emptying table column e)).rows =
    db.rows.map (db.emptied table column e) := by
  simp [updated, emptied, Update.emptying]

/-- Conditions that the same rows meet empty the same. -/
theorem updated_congr {e' : Expr} (h : ∀ row, db.meets row e = db.meets row e') :
    db.updated (.emptying table column e) = db.updated (.emptying table column e') := by
  simp [updated, Update.emptying, h]

/-- A condition that no row meets empties nothing. -/
theorem updated_of_not_meets (h : ∀ row, db.meets row e = false) :
    db.updated (.emptying table column e) = db := by
  simp [updated, Update.emptying, h]

@[simp] theorem table_emptied : (db.emptied table column e row).table = row.table := by
  unfold emptied
  split <;> rfl

/-- Emptying a column leaves the others alone. -/
theorem value_emptied_of_ne {other : String} (h : (row.table, other) ≠ (table, column)) :
    (db.emptied table column e row).value other = row.value other := by
  unfold emptied
  split
  · next hmeets =>
    rw [StoredRow.value_overwrite, if_neg]
    rintro rfl
    exact h (by rw [hmeets.1])
  · rfl

/-- A row that keeps its value in the column does not meet the condition. -/
theorem eq_of_value_emptied (htable : row.table = table)
    (h : (db.emptied table column e row).value column ≠ .null) :
    db.emptied table column e row = row ∧ db.meets row e = false := by
  unfold emptied at h ⊢
  split at h
  · rw [StoredRow.value_overwrite, if_pos rfl] at h
    exact absurd rfl h
  · next hmeets =>
    rw [if_neg hmeets]
    exact ⟨rfl, by simpa [htable] using hmeets⟩

/-- A required column cannot be emptied in any row. -/
theorem emptied_of_required (hbreaks : db.breaks (.emptying table column e) = false)
    (hrequired : (table, column) ∈ db.required) (hrow : row ∈ db.rows) :
    db.emptied table column e row = row := by
  refine if_neg ?_
  rintro ⟨htable, hmeets⟩
  have hmatching : (db.matching table [e]).isEmpty = false := by
    rw [List.isEmpty_eq_false_iff]
    exact List.ne_nil_of_mem (mem_matching_iff.2 ⟨hrow, htable, by simpa using hmeets⟩)
  simp [breaks, Update.emptying, hmatching, Value.isNull, hrequired] at hbreaks

/-- A database has lost rows and values. -/
structure Shrinks (db db' : Database) : Prop where
  required : db'.required = db.required
  row : ∀ row' ∈ db'.rows, ∃ row ∈ db.rows, row.Fades db.required row'

namespace Shrinks

theorem refl (db : Database) : Shrinks db db :=
  ⟨rfl, fun row hrow => ⟨row, hrow, .refl _ _⟩⟩

theorem trans (h : Shrinks db db') (h' : Shrinks db' db'') : Shrinks db db'' where
  required := h'.required.trans h.required
  row row'' hrow'' := by
    obtain ⟨row', hrow', hfades'⟩ := h'.row row'' hrow''
    obtain ⟨row, hrow, hfades⟩ := h.row row' hrow'
    exact ⟨row, hrow, hfades.trans (h.required ▸ hfades')⟩

/-- Removing rows. -/
theorem without (db : Database) (d : Delete) : Shrinks db (db.without d) :=
  ⟨rfl, fun row hrow => ⟨row, (List.mem_filter.1 hrow).1, .refl _ _⟩⟩

/-- Emptying a column, unless that breaks a rule. -/
theorem updated (hbreaks : db.breaks (.emptying table column e) = false) :
    Shrinks db (db.updated (.emptying table column e)) := by
  refine ⟨rfl, fun row' hrow' => ?_⟩
  rw [updated_emptying] at hrow'
  obtain ⟨row, hrow, rfl⟩ := List.mem_map.1 hrow'
  refine ⟨row, hrow, table_emptied, fun other => ?_, fun other hmem => ?_⟩
  · by_cases hother : (row.table, other) = (table, column)
    · obtain ⟨htable, rfl⟩ := Prod.mk.inj hother
      by_cases hnull : (db.emptied table other e row).value other = .null
      · exact .inr hnull
      · exact .inl (by rw [(eq_of_value_emptied htable hnull).1])
    · exact .inl (value_emptied_of_ne hother)
  · by_cases hother : (row.table, other) = (table, column)
    · obtain ⟨rfl, rfl⟩ := Prod.mk.inj hother
      rw [emptied_of_required hbreaks hmem hrow]
    · exact value_emptied_of_ne hother

end Shrinks

/-! ### Rows that are gone -/

/-- No row of a table has a value in a column. -/
def Absent (db : Database) (table column : String) (v : Value) : Prop :=
  ∀ row ∈ db.rows, row.table = table → row.value column ≠ v

/-- A value that is not there does not come back. -/
theorem Absent.shrinks (h : db.Absent table column v) (hrequired : (table, column) ∈ db.required)
    (hshrinks : Shrinks db db') : db'.Absent table column v := by
  intro row' hrow' htable
  obtain ⟨row, hrow, hfades⟩ := hshrinks.row row' hrow'
  rw [hfades.table] at htable
  rw [hfades.required column (htable ▸ hrequired)]
  exact h row hrow htable

/-- Once the rows with a value are deleted, none is left. -/
theorem absent_without
    (hvalue : ∀ row ∈ db.rows, row.table = table → row.value column ≠ .null) :
    (db.without (.keyed table column v)).Absent table column v := by
  rintro row hrow htable rfl
  obtain ⟨hmem, hkept⟩ := List.mem_filter.1 hrow
  have hmeets : db.meets row (Expr.columnEq column (row.value column)) = true :=
    meets_columnEq.2 ⟨rfl, hvalue row hmem htable⟩
  simp [Delete.keyed, htable, hmeets] at hkept

/-! ### Keys -/

/-- The tables of a schema have non-null keys of the declared kind, which are required. -/
def Keyed (db : Database) (s : Schema) : Prop :=
  ∀ key ∈ s.primaryKey, ∀ table ∈ s.tables, (table, key.column) ∈ db.required ∧
    ∀ row ∈ db.rows, row.table = table →
      row.value key.column ≠ .null ∧ key.kind.Holds (row.value key.column)

instance (db : Database) (s : Schema) : Decidable (db.Keyed s) :=
  inferInstanceAs (Decidable (∀ key ∈ s.primaryKey, _))

/-- Losing rows and values leaves no row without a key. -/
theorem Keyed.shrinks {s : Schema} (h : db.Keyed s) (hshrinks : Shrinks db db') : db'.Keyed s := by
  intro key hkey table htable
  obtain ⟨hrequired, hvalue⟩ := h key hkey table htable
  refine ⟨hshrinks.required ▸ hrequired, fun row' hrow' hrow'table => ?_⟩
  obtain ⟨row, hrow, hfades⟩ := hshrinks.row row' hrow'
  rw [hfades.table] at hrow'table
  rw [hfades.required key.column (hrow'table ▸ hrequired)]
  exact hvalue row hrow hrow'table

/-- Every entity type has its keys in all its tables. -/
def KeysHold (c : Catalog) (db : Database) : Prop :=
  ∀ name s, c.schema name = .ok s → db.Keyed s

/-- It suffices to look at the schemas of the catalog. -/
theorem keysHold_iff {c : Catalog} : db.KeysHold c ↔ ∀ s ∈ c.schemas, db.Keyed s := by
  constructor
  · exact fun h s hs => h s.name s (Catalog.mem_schemas_iff.1 hs)
  · exact fun h name s hs => h s (Catalog.mem_schemas_iff.2 (Catalog.schema_schema_name hs))

instance (c : Catalog) (db : Database) : Decidable (db.KeysHold c) :=
  decidable_of_iff _ keysHold_iff.symm

/-- Losing rows and values leaves the keys. -/
theorem KeysHold.shrinks {c : Catalog} (h : db.KeysHold c) (hshrinks : Shrinks db db') :
    db'.KeysHold c :=
  fun name s hs => (h name s hs).shrinks hshrinks

end Database

/-! ### What statements remove -/

/-- The rows that a statement removes. -/
def Database.removedBy (db : Database) : Statement → List StoredRow
  | .delete d =>
    if d.conditions.all Database.isCondition && d.limit.isNone then db.matching d.table d.conditions
    else []
  | _ => []

/-- The rows that statements remove one after the other, as they are at that moment, each with what
the statement was sent for. -/
def removed {κ : Type} (db : Database) : List (κ × Statement) → List (κ × StoredRow)
  | [] => []
  | (k, s) :: rest => (db.removedBy s).map (k, ·) ++ removed (s.attempt db).2 rest

/-- Later statements remove rows from what the earlier ones leave. -/
theorem removed_append {κ : Type} {db : Database} {l l' : List (κ × Statement)} :
    removed db (l ++ l') = removed db l ++ removed (replay db l) l' := by
  induction l generalizing db with
  | nil => rfl
  | cons p l ih =>
    obtain ⟨k, s⟩ := p
    rw [List.cons_append, removed, removed, ih, List.append_assoc]
    rfl

/-- A deletion removes the rows that it is about. -/
theorem removed_delete {κ : Type} (db : Database) (k : κ) (table column : String) (v : Value) :
    removed db [(k, .delete (.keyed table column v))] =
      (db.matching table [Expr.columnEq column v]).map (k, ·) :=
  List.append_nil _

/-- Only deletions remove rows. -/
theorem removed_eq_nil {κ : Type} {db : Database} {l : List (κ × Statement)}
    (h : ∀ p ∈ l, ∀ d, p.2 ≠ .delete d) : removed db l = [] := by
  induction l generalizing db with
  | nil => rfl
  | cons p l ih =>
    obtain ⟨k, s⟩ := p
    rw [removed, ih fun p hp => h p (List.mem_cons_of_mem _ hp)]
    cases s with
    | delete d => exact absurd rfl (h _ List.mem_cons_self d)
    | _ => rfl

/-! ### Sending statements to a database -/

open Traversal

variable {κ : Type} {k : κ} {t : Traversal κ Database} {table column : String}

/-- A query is answered, and leaves the database alone. -/
theorem ends_fetch {q : Select} :
    (onWire k q.fetch).Ends t
      (fun rows t' => rows = t.world.wire.link.answer q ∧ Executed k [.select q] t t' ∧
        t'.world.wire.link = t.world.wire.link) fun _ _ => True := by
  refine ends_onWire_select (fun rows t' hanswer hexecuted => ?_) fun _ _ _ => trivial
  refine ⟨?_, hexecuted, ?_⟩
  · simp only [Connection.select] at hanswer
    split at hanswer
    · exact (Except.ok.inj hanswer).symm
    · cases hanswer
  · rw [hexecuted.link]
    simp only [List.map_cons, List.map_nil, replay, List.foldl_cons, List.foldl_nil,
      Statement.attempt, Connection.select]
    split <;> rfl

/-- An update that was executed has overwritten its columns, and broken no rule. -/
theorem Database.of_update_executed {db : Database} {u : Update}
    (h : ((Statement.update u).attempt db).1.isSome) :
    ((Statement.update u).attempt db).2 = db.updated u ∧ db.breaks u = false := by
  simp only [Statement.attempt, Connection.update] at h ⊢
  split at h
  · simp [Except.toOption] at h
  · next hcondition =>
    split at h
    · simp [Except.toOption] at h
    · next hbreaks =>
      rw [if_neg hcondition, if_neg hbreaks]
      exact ⟨rfl, by simpa using hbreaks⟩

/-- A column is emptied, unless that breaks a rule. -/
theorem ends_empty {e : Expr} :
    (onWire k (({ table, conditions := [e] } : Update).set column .null).execute).Ends t
      (fun _ t' => Executed k [.update (.emptying table column e)] t t' ∧
        t'.world.wire.link = t.world.wire.link.updated (.emptying table column e) ∧
        t.world.wire.link.breaks (.emptying table column e) = false) fun _ _ => True := by
  have hset : ({ table, conditions := [e] } : Update).set column .null =
      .emptying table column e := rfl
  rw [hset]
  refine ends_onWire_update (fun hnone => absurd hnone (List.cons_ne_nil _ _))
    (fun _ t' _ hexecuted => ?_) fun _ _ _ _ => trivial
  obtain ⟨hlink, hbreaks⟩ := Database.of_update_executed (hexecuted.all _ List.mem_cons_self)
  exact ⟨hexecuted, hexecuted.link.trans hlink, hbreaks⟩

/-- The rows with a value in a column go. -/
theorem ends_deleteKey {v : Value} :
    (onWire k (Delete.keyed table column v).execute).Ends t
      (fun _ t' => Executed k [.delete (.keyed table column v)] t t' ∧
        t'.world.wire.link = t.world.wire.link.without (.keyed table column v))
      fun _ _ => True :=
  ends_onWire_delete (fun _ _ hexecuted => ⟨hexecuted, hexecuted.link⟩) fun _ _ _ => trivial

end EntityGraph
