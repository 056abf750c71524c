import EntityGraph.Proofs.Cells
import EntityGraph.Proofs.Integrity
import EntityGraph.Proofs.Persistent

/-!
# What memory says of storage

A deletion of a loaded entity takes the values that policies need from memory, and a deletion by key
takes them from storage. What memory says of an atomic that a policy reads is upheld by a database in
which all rows in question have that value. In a catalog where policies and other types leave alone
what policies read, it stays upheld until the rows themselves go.

* `Schema.policyReads`, `Schema.policyEmpties` — what policies read and empty;
* `Catalog.Steady` — what policies read stays as it is;
* `Graph.Says` — what memory says of the values that policies read;
* `Upheld` — a database upholds all of it, as far as rows are not gone;
* `Graph.Remembers` — memory goes on to say the same in the course of a deletion.
-/

namespace EntityGraph

/-! ### What policies read and empty -/

/-- Whether the policy of a relation does something, with the foreign key on a side. -/
def Component.actsOn (comp : Component) : Side → Bool
  | .there => comp.onDelete ≠ .keep
  | .here => comp.onDelete = .cascade

/-- The atomics whose values policies read when a row is deleted, apart from the key. -/
def Schema.policyReads (c : Catalog) (s : Schema) : List Atomic :=
  s.components.filterMap fun comp =>
    match c.join s comp with
    | .ok join =>
      if comp.actsOn join.side then (s.atomic? join.localAtomic).filter (!·.primaryKey) else none
    | .error _ => none

/-- The cells that policies empty when a row is deleted. -/
def Schema.policyEmpties (c : Catalog) (s : Schema) : List (String × String) :=
  s.components.filterMap fun comp =>
    match c.join s comp, c.schema comp.target with
    | .ok join, .ok target =>
      if join.side = .there ∧ comp.onDelete = .setNull then
        (target.atomic? join.foreignKey).map target.cell
      else none
    | _, _ => none

section policies

variable {c : Catalog} {s target : Schema} {comp : Component} {join : Join} {a : Atomic}

/-- The local side of a relation whose policy does something is read. -/
theorem Schema.mem_policyReads (hcomp : comp ∈ s.components) (hjoin : c.join s comp = .ok join)
    (hacts : comp.actsOn join.side = true) (ha : s.atomic join.localAtomic = .ok a)
    (hpk : a.primaryKey = false) : a ∈ s.policyReads c := by
  refine List.mem_filterMap.2 ⟨comp, hcomp, ?_⟩
  rw [hjoin, Schema.atomic_eq_ok_iff] at *
  simp [hacts, ha, hpk]

/-- The foreign key of a relation that is set to null is emptied. -/
theorem Schema.mem_policyEmpties (hcomp : comp ∈ s.components) (hjoin : c.join s comp = .ok join)
    (hside : join.side = .there) (hpolicy : comp.onDelete = .setNull)
    (htarget : c.schema comp.target = .ok target) (ha : target.atomic join.foreignKey = .ok a) :
    target.cell a ∈ s.policyEmpties c := by
  refine List.mem_filterMap.2 ⟨comp, hcomp, ?_⟩
  rw [hjoin, htarget]
  simp [hside, hpolicy, Schema.atomic_eq_ok_iff.1 ha]

/-- What is read is an atomic of the schema, found under its name. -/
theorem Schema.atomic_of_policyReads (ha : a ∈ s.policyReads c) : s.atomic a.name = .ok a := by
  obtain ⟨comp, -, h⟩ := List.mem_filterMap.1 ha
  split at h
  · split at h
    · have hatomic := (Option.filter_eq_some_iff.1 h).1
      rw [Schema.atomic_eq_ok_iff, (Schema.mem_of_atomic? hatomic).2, hatomic]
    · cases h
  · cases h

end policies

/-- What policies read stays as it is until the row goes: no policy empties it, or the key beside it,
and no other type stores in its table. -/
structure Catalog.Steady (c : Catalog) : Prop where
  kept : ∀ s ∈ c.schemas, ∀ s' ∈ c.schemas, ∀ a ∈ s.policyReads c,
    s.cell a ∉ s'.policyEmpties c ∧
      ∀ key ∈ s.primaryKey, (s.tableOf a, key.column) ∉ s'.policyEmpties c
  apart : ∀ s ∈ c.schemas, ∀ s' ∈ c.schemas, ∀ a ∈ s.policyReads c, s.tableOf a ∈ s'.tables →
    s'.name = s.name

/-- A foreign key that is set to null is not read. -/
theorem Catalog.Steady.ne_foreignKey {c : Catalog} (h : c.Steady) {s target : Schema} {comp : Component}
    {join : Join} (hs : c.schema s.name = .ok s) (hcomp : comp ∈ s.components)
    (hjoin : c.join s comp = .ok join) (hside : join.side = .there) (hpolicy : comp.onDelete = .setNull)
    (htarget : c.schema comp.target = .ok target) {a : Atomic} (ha : a ∈ target.policyReads c) :
    a.name ≠ join.foreignKey := by
  intro hname
  have hatomic := Schema.atomic_of_policyReads ha
  rw [hname] at hatomic
  exact (h.kept target (mem_schemas_iff.2 (schema_schema_name htarget)) s (mem_schemas_iff.2 hs) a ha).1
    (Schema.mem_policyEmpties hcomp hjoin hside hpolicy htarget hatomic)

instance (c : Catalog) : Decidable c.Steady :=
  decidable_of_iff ((∀ s ∈ c.schemas, ∀ s' ∈ c.schemas, ∀ a ∈ s.policyReads c,
      s.cell a ∉ s'.policyEmpties c ∧
        ∀ key ∈ s.primaryKey, (s.tableOf a, key.column) ∉ s'.policyEmpties c) ∧
      ∀ s ∈ c.schemas, ∀ s' ∈ c.schemas, ∀ a ∈ s.policyReads c, s.tableOf a ∈ s'.tables →
        s'.name = s.name)
    ⟨fun h => ⟨h.1, h.2⟩, fun h => ⟨h.kept, h.apart⟩⟩

/-! ### Rows under a key -/

namespace Database

variable {db db' : Database} {s : Schema} {a : Atomic} {k v : Value}

/-- The rows with an atomic of a schema under a key. -/
def rowsAt (db : Database) (s : Schema) (a : Atomic) (k : Value) : List StoredRow :=
  db.rows.filter fun row =>
    row.table == s.tableOf a && s.primaryKey.all fun key => row.value key.column == k

theorem mem_rowsAt_iff {row : StoredRow} : row ∈ db.rowsAt s a k ↔ row ∈ db.rows ∧
    row.table = s.tableOf a ∧ ∀ key ∈ s.primaryKey, row.value key.column = k := by
  simp [rowsAt, Option.all_eq_true]

/-- The rows with an atomic under a key all have a value of the atomic's kind. -/
structure Tells (db : Database) (s : Schema) (a : Atomic) (k v : Value) : Prop where
  holds : a.kind.Holds v
  value : ∀ row ∈ db.rowsAt s a k, row.value a.column = v

/-- The rows under a key are those that have it in its column. -/
theorem matching_key {key : Atomic} (hkey : s.primaryKey = some key) (hk : k ≠ .null) :
    db.matching (s.tableOf a) [Expr.columnEq key.column k] = db.rowsAt s a k := by
  refine List.filter_congr fun row _ => ?_
  have hmeets : db.meets row (Expr.columnEq key.column k) = (row.value key.column == k) := by
    rw [Bool.eq_iff_iff, meets_columnEq, beq_iff_eq]
    exact and_iff_left hk
  simp [hkey, hmeets]

/-- A row meets the question for an atomic of the rows under a key if one of them has its value. -/
theorem meets_question {key : Atomic} (hkey : s.primaryKey = some key) (hk : k ≠ .null)
    {row : StoredRow} {column : String} :
    db.meets row (.binary (.name column) .isIn (.query {
        columns := [(.name a.column, none)]
        tables := [{ name := s.tableOf a }]
        conditions := [Expr.columnEq key.column k] })) = true ↔
      row.value column ≠ .null ∧ ∃ other ∈ db.rowsAt s a k, other.value a.column = row.value column := by
  rw [meets_isIn]
  refine and_congr_right fun _ => ?_
  simp only [mem_rowsAt_iff, hkey, Option.mem_some_iff, forall_eq']
  constructor
  · rintro ⟨-, other, hmem, htable, hvalue, heq⟩
    exact ⟨other, ⟨hmem, htable, hvalue⟩, heq⟩
  · rintro ⟨other, ⟨hmem, htable, hvalue⟩, heq⟩
    exact ⟨hk, other, hmem, htable, hvalue, heq⟩

/-- Where a database tells a value and has rows for it, the question is the comparison with the value. -/
theorem Tells.meets_question (h : db.Tells s a k v) (hfound : v ≠ .null → db.rowsAt s a k ≠ [])
    {key : Atomic} (hkey : s.primaryKey = some key) (hk : k ≠ .null) (row : StoredRow) (column : String) :
    db.meets row (.binary (.name column) .isIn (.query {
        columns := [(.name a.column, none)]
        tables := [{ name := s.tableOf a }]
        conditions := [Expr.columnEq key.column k] })) = db.meets row (Expr.columnEq column v) := by
  rw [Bool.eq_iff_iff, Database.meets_question hkey hk, meets_columnEq]
  constructor
  · rintro ⟨hnull, other, hother, heq⟩
    rw [h.value other hother] at heq
    exact ⟨heq.symm, heq ▸ hnull⟩
  · rintro ⟨rfl, hnull⟩
    obtain ⟨other, hother⟩ := List.exists_mem_of_ne_nil _ (hfound hnull)
    exact ⟨hnull, other, hother, h.value other hother⟩

/-- A query for the value of an atomic under a key is answered with the value that a database tells. -/
theorem Tells.eq_of_answer (h : db.Tells s a k v) (hfound : v ≠ .null → db.rowsAt s a k ≠ [])
    {key : Atomic} (hkey : s.primaryKey = some key) (hk : k ≠ .null) {entity : String} {w : Value}
    (hw : a.coerce entity (((db.answer {
        columns := [(.name a.column, none)]
        tables := [{ name := s.tableOf a }]
        conditions := [Expr.columnEq key.column k]
        limit := some 1 }).head?.map Deletion.firstCell).getD .null) = .ok w) : w = v := by
  rw [answer_column_limit, matching_key hkey hk, Atomic.coerce_eq_ok_iff] at hw
  have hcoerced := AtomicKind.coerce?_of_holds h.holds
  cases hrows : db.rowsAt s a k with
  | nil =>
    have hnull : v = .null := Classical.not_not.1 fun hv => hfound hv hrows
    rw [hrows] at hw
    rw [hnull]
    exact (Option.some.inj hw).symm
  | cons row rows =>
    have hvalue := h.value row (hrows ▸ List.mem_cons_self)
    rw [hrows] at hw
    have hfirst : a.kind.coerce? (row.value a.column) = some w := hw
    rw [hvalue, hcoerced] at hfirst
    exact (Option.some.inj hfirst).symm

variable {table column : String} {e : Expr}

/-- Emptying a column that is no key of the schema leaves the rows with an atomic under a key. -/
theorem rowsAt_updated
    (hkey : ∀ key ∈ s.primaryKey, (s.tableOf a, key.column) ≠ (table, column)) :
    (db.updated (.emptying table column e)).rowsAt s a k =
      (db.rowsAt s a k).map (db.emptied table column e) := by
  unfold rowsAt
  rw [updated_emptying, List.filter_map]
  congr 1
  refine List.filter_congr fun row _ => ?_
  rw [Function.comp_apply, table_emptied]
  by_cases hrow : row.table = s.tableOf a
  · cases hprimary : s.primaryKey with
    | none => rfl
    | some key =>
      rw [Option.all_some, Option.all_some, value_emptied_of_ne (hrow ▸ hkey key hprimary)]
  · rw [beq_eq_false_iff_ne.2 hrow, Bool.false_and, Bool.false_and]

/-- Emptying a column that is not read leaves what a database tells. -/
theorem Tells.updated (h : db.Tells s a k v) (ha : s.cell a ≠ (table, column))
    (hkey : ∀ key ∈ s.primaryKey, (s.tableOf a, key.column) ≠ (table, column)) :
    (db.updated (.emptying table column e)).Tells s a k v := by
  refine ⟨h.holds, fun row' hrow' => ?_⟩
  rw [rowsAt_updated hkey] at hrow'
  obtain ⟨row, hrow, rfl⟩ := List.mem_map.1 hrow'
  rw [value_emptied_of_ne ((mem_rowsAt_iff.1 hrow).2.1 ▸ ha)]
  exact h.value row hrow

/-- Rows that are deleted take nothing else with them. -/
theorem mem_rowsAt_without {d : Delete} {row : StoredRow} :
    row ∈ (db.without d).rowsAt s a k ↔
      row ∈ db.rowsAt s a k ∧ ¬(row.table = d.table ∧ d.conditions.all (db.meets row) = true) := by
  simp only [mem_rowsAt_iff, without, List.mem_filter, Bool.not_eq_true', Bool.and_eq_false_iff,
    beq_eq_false_iff_ne, not_and, Bool.not_eq_true]
  tauto

/-- Deleting rows leaves what a database tells of others. -/
theorem Tells.without {d : Delete} (h : db.Tells s a k v) : (db.without d).Tells s a k v :=
  ⟨h.holds, fun row hrow => h.value row (mem_rowsAt_without.1 hrow).1⟩

end Database

/-! ### What memory says -/

/-- In memory, an entity that another one leads to, of a schema and with a key, has a value of an atomic
that a policy reads. -/
def Graph.Says (c : Catalog) (g : Graph) (e : EntityId) (s : Schema) (k : Value) (a : Atomic)
    (v : Value) : Prop :=
  c.schema s.name = .ok s ∧ a ∈ s.policyReads c ∧ ∃ x, g.LeadsTo e x ∧ (g.entity x).schema = s ∧
    g.key? x = some k ∧ (g.entity x).atomicValue a.name = v

/-- A database has the values that memory says, as far as the rows have not been deleted: those under a
type and key have been once these are entered, unless they are on the stack of open deletions. -/
structure Upheld (c : Catalog) (g : Graph) (e : EntityId) (stack entered : List (String × Value))
    (db : Database) : Prop where
  tells : ∀ {s k a v}, g.Says c e s k a v → db.Tells s a k v
  found : ∀ {s k a v}, g.Says c e s k a v → v ≠ .null →
    ((s.name, k) ∈ entered → (s.name, k) ∈ stack) → db.rowsAt s a k ≠ []

namespace Upheld

variable {c : Catalog} {g : Graph} {e : EntityId} {stack entered : List (String × Value)}
  {db : Database}

/-- Entering opens a deletion. -/
theorem enter (h : Upheld c g e stack entered db) {p : String × Value} (hnew : p ∉ entered) :
    Upheld c g e (p :: stack) (p :: entered) db := by
  refine ⟨h.tells, fun hsays hv hopen => h.found hsays hv fun hentered => ?_⟩
  refine (List.mem_cons.1 (hopen (List.mem_cons_of_mem _ hentered))).resolve_left ?_
  rintro rfl
  exact hnew hentered

/-- A deletion is closed before its rows go. -/
theorem close {p : String × Value} (h : Upheld c g e (p :: stack) entered db) :
    Upheld c g e stack entered db :=
  ⟨h.tells, fun hsays hv hopen =>
    h.found hsays hv fun hentered => List.mem_cons_of_mem _ (hopen hentered)⟩

/-- Emptying what a policy empties. -/
theorem updated (h : Upheld c g e stack entered db) (hsteady : c.Steady) {s' : Schema}
    (hs' : s' ∈ c.schemas) {table column : String} (hcell : (table, column) ∈ s'.policyEmpties c)
    {condition : Expr} : Upheld c g e stack entered (db.updated (.emptying table column condition)) := by
  have hkept : ∀ {s k a v}, g.Says c e s k a v → s.cell a ≠ (table, column) ∧
      ∀ key ∈ s.primaryKey, (s.tableOf a, key.column) ≠ (table, column) := by
    rintro s k a v ⟨hs, ha, -⟩
    obtain ⟨hread, hkey⟩ := hsteady.kept s (Catalog.mem_schemas_iff.2 hs) s' hs' a ha
    exact ⟨fun heq => hread (heq ▸ hcell), fun key hmem heq => hkey key hmem (heq ▸ hcell)⟩
  refine ⟨fun hsays => ?_, fun hsays hv hopen => ?_⟩
  · exact (h.tells hsays).updated (hkept hsays).1 (hkept hsays).2
  · rw [Database.rowsAt_updated (hkept hsays).2]
    simpa using h.found hsays hv hopen

/-- Deleting the rows of a key whose deletion has been closed. -/
theorem without (h : Upheld c g e stack entered db) (hsteady : c.Steady) {d : Deletion.Doomed}
    (hs : c.schema d.schema.name = .ok d.schema) {key : Atomic} (hkey : d.schema.primaryKey = some key)
    {table : String} (htable : table ∈ d.schema.tables) (hentered : d.row ∈ entered)
    (hclosed : d.row ∉ stack) :
    Upheld c g e stack entered (db.without (.keyed table key.column d.key)) := by
  refine ⟨fun hsays => (h.tells hsays).without, fun {s k a v} hsays hv hopen => ?_⟩
  obtain ⟨row, hrow⟩ := List.exists_mem_of_ne_nil _ (h.found hsays hv hopen)
  refine List.ne_nil_of_mem (Database.mem_rowsAt_without.2 ⟨hrow, ?_⟩)
  -- a row that went with the others would be one of this very type and key
  rintro ⟨hrowtable, hmeets⟩
  obtain ⟨hs', ha, -⟩ := hsays
  obtain ⟨-, hstored, hrowkey⟩ := Database.mem_rowsAt_iff.1 hrow
  have hname := hsteady.apart s (Catalog.mem_schemas_iff.2 hs') d.schema
    (Catalog.mem_schemas_iff.2 hs) a ha (by rw [← hstored, hrowtable]; exact htable)
  have hschema : d.schema = s := by
    rw [hname, hs'] at hs
    exact (Except.ok.inj hs).symm
  have hvalue : row.value key.column = d.key := by
    have hmeets' : db.meets row (Expr.columnEq key.column d.key) = true := by
      simpa [Delete.keyed] using hmeets
    exact (Database.meets_columnEq.1 hmeets').1
  have hdoomed : (s.name, k) = d.row := by
    rw [Deletion.Doomed.row, hschema, ← hvalue, hrowkey key (hschema ▸ hkey)]
  exact hclosed (hdoomed ▸ hopen (hdoomed ▸ hentered))

end Upheld

/-! ### What memory goes on to say -/

/-- In the course of a deletion the graph changes marks, and values that no policy reads; no entity
comes to another key. -/
structure Graph.Remembers (c : Catalog) (e : EntityId) (g g' : Graph) : Prop where
  shape : g.SameShape g'
  collections : g'.collections = g.collections
  key : ∀ x k, g'.key? x = some k → g.key? x = some k
  value : ∀ x, g.LeadsTo e x → ∀ a ∈ (g.entity x).schema.policyReads c,
    (g'.entity x).atomicValue a.name = (g.entity x).atomicValue a.name

namespace Graph.Remembers

variable {c : Catalog} {e : EntityId} {g g' g'' : Graph}

theorem refl (c : Catalog) (e : EntityId) (g : Graph) : Remembers c e g g :=
  ⟨.refl g, rfl, fun _ _ h => h, fun _ _ _ _ => rfl⟩

/-- A change of entities that gives no entity another key, and leaves what policies read. -/
theorem change (h : Remembers c e g g') (hshape : g'.SameShape g'')
    (hcollections : g''.collections = g'.collections)
    (hkey : ∀ x k, (g''.entity x).key? = some k → (g'.entity x).key? = some k)
    (hvalue : ∀ x, ∀ a ∈ (g.entity x).schema.policyReads c,
      (g''.entity x).atomicValue a.name = (g'.entity x).atomicValue a.name) :
    Remembers c e g g'' where
  shape := h.shape.trans hshape
  collections := hcollections.trans h.collections
  key x k hk := h.key x k (hkey x k hk)
  value x hx a ha := (hvalue x a ha).trans (h.value x hx a ha)

/-- The rows of an entity are gone. -/
theorem markDeleted (h : Remembers c e g g') (x : EntityId) : Remembers c e g (g'.markDeleted x) := by
  refine h.change (.markDeleted g' x) (collections_modifyParts g' x _) (fun y k hk => ?_) fun y a _ => ?_
  · exact (key?_markDeleted g' x y).symm.trans hk
  · exact view_modifyParts (v := fun y => y.atomicValue a.name)
      (fun y => y.atomicValue_markDeleted a.name) g' x y

/-- A foreign key that no policy reads is cleared. -/
theorem clearForeignKey (h : Remembers c e g g') {x : EntityId} {name : String}
    (hread : ∀ a ∈ (g.entity x).schema.policyReads c, a.name ≠ name) :
    Remembers c e g (g'.modifyEntity x fun y => (y.settle name).loadAtomic name .null) := by
  refine h.change (.modifyEntity g' x fun _ => ⟨rfl, rfl, rfl, fun _ => rfl⟩) rfl
    (fun y k hk => ?_) fun y a ha => ?_
  · rcases entity_modifyEntity_cases g' y x _ with hy | ⟨rfl, -, hy⟩
    · rwa [hy] at hk
    · rw [hy] at hk
      exact Entity.key?_of_cleared hk
  · rcases entity_modifyEntity_cases g' y x _ with hy | ⟨rfl, -, hy⟩
    · rw [hy]
    · rw [hy]
      simp [Entity.atomicValue, Entity.loadAtomic, Entity.settle,
        Assoc.get?_put_of_ne _ _ (hread a ha)]

end Graph.Remembers

end EntityGraph
