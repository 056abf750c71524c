import EntityGraph.Connection.Storage
import EntityGraph.Proofs.Lookup
import Mathlib.Data.List.Nodup

/-!
# What a storage answers to the look-up

The inserts of an entity write one row into each of its tables. A storage that holds just these rows
answers the look-up of the entity with one row, which has the value that was written into its cell
for every occurrence of an atomic.

The query refers to cells by texts, so this takes a schema whose references differ. A table binds its
values under references, and what is bound before does not hide what is bound later.

## Main results

* `rows_ofInserts`: the rows that the inserts have written.
* `answer_select`: the answer is one row, of what is held.
-/

namespace EntityGraph

/-- Equal values that are not null meet a comparison for equality. -/
theorem Bindings.holds_of_eq {env : Bindings} {left right : Operand} {v : Value}
    (hleft : env.value left = v) (hright : env.value right = v) (hv : v ≠ .null) :
    env.holds (.binary left .eq right) = true := by
  show (!(env.value left).isNull && env.value left == env.value right) = true
  rw [hleft, hright]
  cases v <;> simp_all [Value.isNull]

namespace Storage

variable {table : String} {pairs : List (String × Value)}

/-- The cells of a row that is given by pairs. -/
def rowCells (pairs : List (String × Value)) : Assoc String Value :=
  pairs.map fun p => (p.1, Insert.cell pairs p.1)

/-- A single row is written as it is given. -/
theorem written_single :
    written (Insert.single table pairs) = [⟨table, rowCells pairs⟩] := by
  show [(⟨table, (pairs.map (·.1)).zip ((pairs.map (·.1)).map (Insert.cell pairs))⟩ : StoredRow)] = _
  rw [List.map_map, List.zip_map']
  rfl

/-- A written row has the first value that is given for a column. -/
theorem get?_rowCells (column : String) : (rowCells pairs).get? column = pairs.lookup column := by
  have hpairs : ∀ l : List (String × Value),
      Assoc.get? (l.map fun p => (p.1, Insert.cell pairs p.1)) column =
        (l.lookup column).map fun _ => Insert.cell pairs column := by
    intro l
    induction l with
    | nil => rfl
    | cons p l ih =>
      obtain ⟨name, v⟩ := p
      by_cases hname : name = column
      · simp [Assoc.get?, hname]
      · have hne : (column == name) = false := by simpa using Ne.symm hname
        simpa [Assoc.get?, List.lookup_cons, hname, hne] using ih
  unfold rowCells
  rw [hpairs, Insert.cell]
  cases pairs.lookup column <;> rfl

/-- The rows of the only table of a name. -/
theorem rowsOf_map {tables : List String} {cells : String → Assoc String Value} {s : Storage}
    (hrows : s.rows = tables.map fun table => ⟨table, cells table⟩) (hnodup : tables.Nodup)
    (hmem : table ∈ tables) : s.rowsOf table = [cells table] := by
  unfold rowsOf
  rw [hrows, List.filter_map, List.map_map]
  have hfilter : tables.filter ((fun row : StoredRow => decide (row.table = table)) ∘
      fun table => ⟨table, cells table⟩) = [table] := by
    show tables.filter (fun t => decide (t = table)) = _
    rw [List.filter_eq, List.count_eq_one_of_mem hnodup hmem]
    rfl
  rw [hfilter]
  rfl

end Storage

namespace Save

variable {s : Schema} {values : List (Atomic × Value)} {key : Atomic} {k : Value}

/-- The tables after the first, each once, with what is stored in them. -/
theorem columnsFrom_eq {tables earlier : List String} (hnodup : tables.Nodup)
    (hnew : ∀ table ∈ tables, table ∉ earlier) :
    columnsByTable.columnsFrom s values tables earlier =
      tables.map fun table => (table, columnsIn s values table) := by
  induction tables generalizing earlier with
  | nil => rfl
  | cons table tables ih =>
    obtain ⟨hnot, hnodup⟩ := List.nodup_cons.1 hnodup
    have hrest : ∀ t ∈ tables, t ∉ table :: earlier := by
      intro t ht hmem
      rcases List.mem_cons.1 hmem with rfl | hmem
      · exact hnot ht
      · exact hnew t (List.mem_cons_of_mem _ ht) hmem
    have hfirst : ¬earlier.contains table = true := by
      simpa using hnew table List.mem_cons_self
    rw [columnsFrom_cons, ih hnodup hrest, if_neg hfirst]
    rfl

/-- The inserts of an entity into its tables. -/
def insertsInto (s : Schema) (values : List (Atomic × Value)) (key : Atomic) (k : Value) :
    List Insert :=
  Insert.single s.table (columnsIn s values s.table) ::
    (restColumns s values).map (restInsert key k)

/-- The inserts of an entity as statements. -/
theorem map_insertsInto : (insertsInto s values key k).map .insert = inserts s values key k := by
  unfold insertsInto inserts firstInsert
  rw [List.map_cons, List.map_map]
  rfl

end Save

namespace Lookup

open Save

variable {s : Schema} {key : Atomic} {values : List (Atomic × Value)} {k : Value}
  {table column : String} {dialect : Dialect}

/-- The cells of the row that is stored in a table. -/
def cells (s : Schema) (key : Atomic) (values : List (Atomic × Value)) (k : Value)
    (table : String) : Assoc String Value :=
  if table = s.table then (Storage.rowCells (columnsIn s values table)).put key.column k
  else Storage.rowCells ((key.column, k) :: columnsIn s values table)

/-- The value that is stored in a cell; null if none is. -/
def held (s : Schema) (key : Atomic) (values : List (Atomic × Value)) (k : Value)
    (cell : String × String) : Value :=
  ((cells s key values k cell.1).get? cell.2).getD .null

/-- Every row has the key in its column. -/
theorem get?_cells_key : (cells s key values k table).get? key.column = some k := by
  unfold cells
  split
  · exact Assoc.get?_put_self _ _ _
  · rw [Storage.get?_rowCells, List.lookup_cons_self]

/-- The other columns have the values that are given for them. -/
theorem get?_cells (hne : column ≠ key.column) : (cells s key values k table).get? column =
    (columnsIn s values table).lookup column := by
  unfold cells
  split
  · rw [Assoc.get?_put_of_ne _ _ hne, Storage.get?_rowCells]
  · rw [Storage.get?_rowCells, List.lookup_cons]
    have hbeq : (column == key.column) = false := by simpa using hne
    rw [hbeq]

/-- What is stored is stored in the cells of the entity. -/
theorem mem_ownCells (hvalues : ∀ p ∈ values, p.1 ∈ s.deepAtomics) (htable : table ∈ s.tables)
    {v : Value} (hmem : (column, v) ∈ cells s key values k table) :
    (table, column) ∈ ownCells s key := by
  obtain ⟨w, hw⟩ := Assoc.exists_get?_of_mem hmem
  simp only at hw
  unfold ownCells
  rw [List.mem_append]
  by_cases hcolumn : column = key.column
  · subst hcolumn
    exact .inl (List.mem_map.2 ⟨table, htable, rfl⟩)
  · rw [get?_cells hcolumn] at hw
    obtain ⟨l₁, l₂, hsplit, -⟩ := List.lookup_eq_some_iff.1 hw
    have hgiven : (column, w) ∈ columnsIn s values table := by
      rw [hsplit]
      simp
    obtain ⟨a, ha, hatable, hacolumn⟩ := mem_columnsIn_iff.1 hgiven
    exact .inr (List.mem_map.2 ⟨a, hvalues _ ha, Prod.ext hatable hacolumn⟩)

/-- The inserts write one row into each table. -/
theorem rows_ofInserts (hprimary : s.table ∉ s.secondary) (hnodup : s.secondary.Nodup) :
    (Storage.ofInserts dialect s.table key.column k (insertsInto s values key k)).rows =
      s.tables.map fun table => ⟨table, cells s key values k table⟩ := by
  have hrest : restColumns s values = s.secondary.map fun table =>
      (table, columnsIn s values table) := by
    refine columnsFrom_eq hnodup fun table htable hmem => hprimary ?_
    exact List.mem_singleton.1 hmem ▸ htable
  have hsecondary : ∀ table ∈ s.secondary, table ≠ s.table := by
    rintro table htable rfl
    exact hprimary htable
  unfold Storage.ofInserts insertsInto Schema.tables
  rw [hrest, List.flatMap_cons, Storage.written_single, List.map_map, List.flatMap_map,
    List.map_append, List.map_flatMap, List.map_cons (l := s.secondary), List.map_eq_flatMap (l := s.secondary)]
  refine congrArg₂ List.cons (by simp [cells]) (List.flatMap_congr fun table htable => ?_)
  have hne := hsecondary table htable
  simp [restInsert, Storage.written_single, cells, hne]

/-! ### What is bound -/

/-- The cells of some tables. -/
def cellsOf (s : Schema) (key : Atomic) (values : List (Atomic × Value)) (k : Value)
    (tables : List String) : Assoc (String × String) Value :=
  tables.flatMap fun table => (cells s key values k table).map fun p => ((table, p.1), p.2)

/-- What some tables have bound, one after the other. -/
def bound (s : Schema) (key : Atomic) (values : List (Atomic × Value)) (k : Value)
    (tables : List String) : Bindings :=
  tables.flatMap fun table => TableRef.bind ⟨table, some (aliasOf s table)⟩ (cells s key values k table)

/-- Cells are bound under the references to them. -/
theorem bound_eq (tables : List String) : bound s key values k tables =
    (cellsOf s key values k tables).map fun p => (reference s p.1, p.2) := by
  unfold bound cellsOf
  rw [List.map_flatMap]
  refine List.flatMap_congr fun table _ => ?_
  rw [List.map_map]
  rfl

/-- A cell of one of the tables has the value in its row. -/
theorem get?_cellsOf {tables : List String} (hmem : table ∈ tables) :
    (cellsOf s key values k tables).get? (table, column) =
      (cells s key values k table).get? column := by
  have hblock : ∀ other, Assoc.get? ((cells s key values k other).map fun p => ((other, p.1), p.2))
      (table, column) = if other = table then (cells s key values k table).get? column else none := by
    intro other
    split
    · next heq =>
      subst heq
      exact Assoc.get?_map_key (fun c => (other, c)) fun _ _ h => (Prod.mk.inj h).2
    · next hne =>
      induction cells s key values k other with
      | nil => rfl
      | cons p m ih => simpa [Assoc.get?, hne] using ih
  have hall : ∀ tables : List String, (cellsOf s key values k tables).get? (table, column) =
      if table ∈ tables then (cells s key values k table).get? column else none := by
    intro tables
    induction tables with
    | nil => rfl
    | cons first tables ih =>
      have hsplit : cellsOf s key values k (first :: tables) =
          (cells s key values k first).map (fun p => ((first, p.1), p.2)) ++
            cellsOf s key values k tables := rfl
      rw [hsplit, Assoc.get?_append, hblock, ih]
      by_cases heq : first = table
      · by_cases hin : table ∈ tables <;> simp [heq, hin]
      · simp [heq, Ne.symm heq]
  rw [hall, if_pos hmem]

/-- What is bound under the reference to a cell is what the cell holds. -/
theorem value_bound (hdiffer : ReferencesDiffer s key)
    (hvalues : ∀ p ∈ values, p.1 ∈ s.deepAtomics) {tables : List String} (hsub : tables ⊆ s.tables)
    (hmem : table ∈ tables) (hcell : (table, column) ∈ ownCells s key) :
    (bound s key values k tables).value (.name (reference s (table, column))) =
      held s key values k (table, column) := by
  have hinj : ∀ p ∈ cellsOf s key values k tables,
      reference s p.1 = reference s (table, column) → p.1 = (table, column) := by
    intro p hp heq
    obtain ⟨other, hother, hp⟩ := List.mem_flatMap.1 hp
    obtain ⟨q, hq, rfl⟩ := List.mem_map.1 hp
    exact hdiffer _ (mem_ownCells hvalues (hsub hother) hq) _ hcell heq
  unfold Bindings.value held
  simp only
  rw [bound_eq, Assoc.get?_map_key _ hinj, get?_cellsOf hmem]

/-! ### The answer -/

/-- The rows of a storage are the rows of an entity. -/
structure Holds (s : Schema) (key : Atomic) (values : List (Atomic × Value)) (k : Value)
    (link : Storage) : Prop where
  tables : s.tables.Nodup
  rows : ∀ table ∈ s.tables, link.rowsOf table = [cells s key values k table]
  atomics : ∀ p ∈ values, p.1 ∈ s.deepAtomics
  notNull : k ≠ .null

variable {link : Storage}

/-- What the inserts have written are the rows of the entity. -/
theorem holds_ofInserts (dialect : Dialect) (hprimary : s.table ∉ s.secondary) (hnodup : s.secondary.Nodup)
    (hatomics : ∀ p ∈ values, p.1 ∈ s.deepAtomics) (hk : k ≠ .null) : Holds s key values k
      (Storage.ofInserts dialect s.table key.column k (insertsInto s values key k)) := by
  have htables : s.tables.Nodup := List.nodup_cons.2 ⟨hprimary, hnodup⟩
  refine ⟨htables, fun table htable => ?_, hatomics, hk⟩
  exact Storage.rowsOf_map (rows_ofInserts hprimary hnodup) htables htable

/-- In every table there is a cell for the key. -/
theorem mem_ownCells_key (htable : table ∈ s.tables) : (table, key.column) ∈ ownCells s key :=
  List.mem_append_left _ (List.mem_map.2 ⟨table, htable, rfl⟩)

/-- The key is held in every table. -/
theorem held_key : held s key values k (table, key.column) = k := by
  unfold held
  rw [get?_cells_key]
  rfl

/-- Joining a secondary table binds its row as well. -/
theorem join_bound (hdiffer : ReferencesDiffer s key) (h : Holds s key values k link)
    {tables : List String} (hsub : tables ++ [table] ⊆ s.tables) (hprimary : s.table ∈ tables) :
    link.join [bound s key values k tables] (join s key table) =
      [bound s key values k (tables ++ [table])] := by
  have htable : table ∈ s.tables := hsub (List.mem_append_right _ (List.mem_singleton.2 rfl))
  have hvalue : ∀ t ∈ tables ++ [table], (bound s key values k (tables ++ [table])).value
      (.name (reference s (t, key.column))) = k := by
    intro t ht
    rw [value_bound hdiffer h.atomics hsub ht (mem_ownCells_key (hsub ht)), held_key]
  have happend : bound s key values k tables ++
      (join s key table).table.bind (cells s key values k table) =
        bound s key values k (tables ++ [table]) := by
    unfold bound
    rw [List.flatMap_append, List.flatMap_singleton]
    rfl
  have hholds : (bound s key values k (tables ++ [table])).holds
      (.binary (.name (reference s (table, key.column))) .eq
        (.name (reference s (s.table, key.column)))) = true :=
    Bindings.holds_of_eq (hvalue table (List.mem_append_right _ (List.mem_singleton.2 rfl)))
      (hvalue s.table (List.mem_append_left _ hprimary)) h.notNull
  have hrow : link.rowsOf (join s key table).table.name = [cells s key values k table] :=
    h.rows table htable
  unfold Storage.join
  rw [List.flatMap_singleton, hrow, List.map_singleton, happend]
  simp [join, hholds]

/-- Joining secondary tables, one after the other, binds the rows of all of them. -/
theorem foldl_join_bound (hdiffer : ReferencesDiffer s key) (h : Holds s key values k link)
    {tables rest : List String} (hsub : tables ++ rest ⊆ s.tables) (hprimary : s.table ∈ tables) :
    (rest.map (join s key)).foldl link.join [bound s key values k tables] =
      [bound s key values k (tables ++ rest)] := by
  induction rest generalizing tables with
  | nil => rw [List.append_nil]; rfl
  | cons table rest ih =>
    have hsplit : tables ++ table :: rest = (tables ++ [table]) ++ rest := by simp
    rw [hsplit] at hsub ⊢
    have hfirst : tables ++ [table] ⊆ s.tables := fun t ht => hsub (List.mem_append_left _ ht)
    rw [List.map_cons, List.foldl_cons, join_bound hdiffer h hfirst hprimary]
    exact ih hsub (List.mem_append_left _ hprimary)

/-- The answer is one row, with what is held for every occurrence. -/
theorem answer_select (hdiffer : ReferencesDiffer s key) (h : Holds s key values k link)
    (hc : Consistent s key) : link.answer (select s key k) =
      [⟨(s.occurrences []).map (label s),
        (s.occurrences []).map fun q => held s key values k (s.cell q.2)⟩] := by
  have hprimary : s.table ∈ s.tables := List.mem_cons_self
  have hfrom : (select s key k).tables.foldl (fun envs t => link.join envs ⟨.cross, t, []⟩) [[]] =
      [bound s key values k [s.table]] := by
    show link.join [[]] _ = _
    unfold Storage.join
    rw [List.flatMap_singleton]
    simp only [h.rows s.table hprimary, List.map_singleton, List.nil_append]
    simp [bound]
  have hjoins : (select s key k).joins.foldl link.join [bound s key values k [s.table]] =
      [bound s key values k s.tables] :=
    foldl_join_bound hdiffer h (List.Subset.refl _) (List.mem_singleton.2 rfl)
  have hkey : (bound s key values k s.tables).holds
      (.binary (.name (reference s (s.table, key.column))) .eq (.expr (.param k))) = true := by
    refine Bindings.holds_of_eq (v := k) ?_ rfl h.notNull
    rw [value_bound hdiffer h.atomics (List.Subset.refl _) hprimary (mem_ownCells_key hprimary),
      held_key]
  have hcell : ∀ q ∈ s.occurrences [], (bound s key values k s.tables).value
      (.name (reference s (s.cell q.2))) = held s key values k (s.cell q.2) := by
    intro q hq
    have hmem : q.2 ∈ s.deepAtomics := by
      rw [← Schema.map_occurrences s []]
      exact List.mem_map_of_mem hq
    exact value_bound hdiffer h.atomics (List.Subset.refl _) (hc.declared _ hmem)
      (List.mem_append_right _ (List.mem_map_of_mem hmem))
  unfold Storage.answer
  simp only
  rw [hfrom, hjoins]
  simp only [select, hkey, List.filter_cons, List.all_cons, List.all_nil, Bool.and_self, if_true,
    List.filter_nil, Option.getD_none, List.drop_zero, List.take_succ_cons, List.take_zero,
    List.map_cons, List.map_nil, List.map_map]
  refine congrArg (fun values => [Row.mk _ values]) (List.map_congr_left fun q hq => ?_)
  exact hcell q hq

/-- A row whose labels differ has the cell of a label under it. -/
theorem get?_row {α : Type} {l : List α} (name : α → String) (v : α → Value)
    (hnodup : (l.map name).Nodup) {x : α} (hx : x ∈ l) :
    (⟨l.map name, l.map v⟩ : Row).get? (name x) = some (v x) := by
  unfold Row.get?
  induction l with
  | nil => cases hx
  | cons y l ih =>
    obtain ⟨hnot, hnodup⟩ := List.nodup_cons.1 hnodup
    rw [List.map_cons, List.idxOf?_cons]
    rcases List.mem_cons.1 hx with rfl | hx
    · simp
    · have hne : (name y == name x) = false := by
        refine beq_eq_false_iff_ne.2 fun heq => hnot ?_
        exact heq ▸ List.mem_map_of_mem hx
      have hrest := ih hnodup hx
      simp only [hne, Bool.false_eq_true, if_false, Option.map_map]
      exact hrest

end Lookup

end EntityGraph
