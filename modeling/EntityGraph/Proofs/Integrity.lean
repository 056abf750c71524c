import EntityGraph.Proofs.Sending
import EntityGraph.Proofs.Shrinking
import EntityGraph.Session.Deletion

/-!
# Referential integrity

Once a deletion by key has succeeded, no row refers to a row that it has deleted, through any relation
that the policies take care of.

The relations of a row are taken care of before the row goes: what refers to it is emptied or deleted,
but deleting is put off for rows that have been entered already, whose own deletion is still going on
further up. So what holds in the course of a traversal is that the rows that refer to a removed row
have been *entered*, and that the rows that have been entered are gone, unless they are on the stack of
open deletions. At the end the stack is empty.

* `Schema.Depends` — a relation whose foreign key is on the other side and that has a policy;
* `Deletion.Sound` — what holds in the course of a traversal, with a stack of open deletions;
* `Deletion.deletes_deleteFrom` — deleting keeps it, and enters what it deletes;
* `Session.unreferenced_of_deleteByKey` — no row refers to a removed one.
-/

namespace EntityGraph

open Traversal

/-- A relation of a schema whose foreign key is an atomic of the target, and which is emptied or deleted
along. -/
structure Schema.Depends (c : Catalog) (s : Schema) (comp : Component) (target : Schema)
    (foreignKey referenced : Atomic) : Prop where
  mem : comp ∈ s.components
  policy : comp.onDelete ≠ .keep
  found : c.schema comp.target = .ok target
  join : ∃ join, Join.resolve s comp target = .ok join ∧ join.side = .there ∧
    target.atomic join.foreignKey = .ok foreignKey ∧ s.atomic join.referenced = .ok referenced

/-- An atomic that was found by its name is stored in one of the tables. -/
theorem Catalog.tableOf_mem_of_atomic {c : Catalog} {name atomic : String} {s : Schema} {a : Atomic}
    (hs : c.schema name = .ok s) (ha : s.atomic atomic = .ok a) : s.tableOf a ∈ s.tables :=
  tableOf_mem_tables hs (Schema.mem_of_atomic? (Schema.atomic_eq_ok_iff.1 ha)).1

/-- The foreign key is stored in one of the tables of the target. -/
theorem Schema.Depends.table_mem {c : Catalog} {s target : Schema} {comp : Component}
    {foreignKey referenced : Atomic} (h : s.Depends c comp target foreignKey referenced) :
    target.tableOf foreignKey ∈ target.tables := by
  obtain ⟨join, -, -, hforeignKey, -⟩ := h.join
  exact Catalog.tableOf_mem_of_atomic h.found hforeignKey

namespace Deletion

variable {c : Catalog} {link : Database} {stack : List (String × Value)} {d : Doomed}
  {comp : Component} {delete : Doomed → DeletionM Database Unit}
  {t t' t'' : Traversal (String × Value) Database}

/-- Nothing but rows and values has been lost, and nothing that has been entered is forgotten. -/
structure Grows (t t' : Traversal (String × Value) Database) : Prop where
  shrinks : t.world.wire.link.Shrinks t'.world.wire.link
  entered : ∀ p ∈ t.entered, p ∈ t'.entered

theorem Grows.refl (t : Traversal (String × Value) Database) : Grows t t :=
  ⟨.refl _, fun _ hp => hp⟩

theorem Grows.trans (h : Grows t t') (h' : Grows t' t'') : Grows t t'' :=
  ⟨h.shrinks.trans h'.shrinks, fun p hp => h'.entered p (h.entered p hp)⟩

/-- No row of a type has a key. -/
def Gone (c : Catalog) (db : Database) (p : String × Value) : Prop :=
  ∀ s, c.schema p.1 = .ok s → ∀ key ∈ s.primaryKey, ∀ table ∈ s.tables,
    db.Absent table key.column p.2

theorem Gone.shrinks {db db' : Database} {p : String × Value} (h : Gone c db p)
    (hkeys : db.KeysHold c) (hshrinks : db.Shrinks db') : Gone c db' p := by
  intro s hs key hkey table htable
  exact (h s hs key hkey table htable).shrinks (hkeys _ s hs key hkey table htable).1 hshrinks

/-- The rows with a value in a foreign key have been entered. -/
def Claimed (t : Traversal (String × Value) Database) (target : Schema) (foreignKey : Atomic)
    (v : Value) : Prop :=
  ∀ row ∈ t.world.wire.link.rows, row.table = target.tableOf foreignKey →
    row.value foreignKey.column = v → ∀ key ∈ target.primaryKey,
      (target.name, row.value key.column) ∈ t.entered

/-- Rows that have been entered stay entered, and no other row comes to the value. -/
theorem Claimed.grows {target : Schema} {foreignKey : Atomic} {v : Value}
    (h : Claimed t target foreignKey v) (hv : v ≠ .null)
    (hkeyed : t.world.wire.link.Keyed target) (htable : target.tableOf foreignKey ∈ target.tables)
    (hgrows : Grows t t') : Claimed t' target foreignKey v := by
  rintro row' hrow' hrow'table rfl key hkey
  obtain ⟨row, hrow, hfades⟩ := hgrows.shrinks.row row' hrow'
  rw [hfades.table] at hrow'table
  have hrequired := (hkeyed key hkey _ htable).1
  rw [hfades.required key.column (hrow'table ▸ hrequired)]
  exact hgrows.entered _ (h row hrow hrow'table (hfades.eq_of_ne_null hv) key hkey)

/-- What refers to a row of a type, through any relation with a policy, has been entered. -/
def Answered (c : Catalog) (t : Traversal (String × Value) Database) (type : String)
    (row : StoredRow) : Prop :=
  ∀ s comp target foreignKey referenced, c.schema type = .ok s →
    s.Depends c comp target foreignKey referenced → row.table = s.tableOf referenced →
    row.value referenced.column ≠ .null →
    Claimed t target foreignKey (row.value referenced.column)

theorem Answered.grows {type : String} {row : StoredRow} (h : Answered c t type row)
    (hkeys : t.world.wire.link.KeysHold c) (hgrows : Grows t t') : Answered c t' type row := by
  intro s comp target foreignKey referenced hs hdepends htable hnull
  exact (h s comp target foreignKey referenced hs hdepends htable hnull).grows hnull
    (hkeys _ _ hdepends.found) hdepends.table_mem hgrows

/-- What refers through a relation to the rows that are about to go has been entered. -/
def Settled (c : Catalog) (d : Doomed) (t : Traversal (String × Value) Database)
    (comp : Component) : Prop :=
  ∀ target foreignKey referenced, d.schema.Depends c comp target foreignKey referenced →
    ∀ row ∈ t.world.wire.link.rows, row.table = d.schema.tableOf referenced →
      (∀ key ∈ d.schema.primaryKey, row.value key.column = d.key) →
      row.value referenced.column ≠ .null →
      Claimed t target foreignKey (row.value referenced.column)

theorem Settled.grows (h : Settled c d t comp) (hs : c.schema d.schema.name = .ok d.schema)
    (hkeys : t.world.wire.link.KeysHold c) (hgrows : Grows t t') : Settled c d t' comp := by
  intro target foreignKey referenced hdepends row' hrow' htable hkey hnull
  obtain ⟨row, hrow, hfades⟩ := hgrows.shrinks.row row' hrow'
  obtain ⟨join, -, -, -, hreferenced⟩ := hdepends.join
  have hmem := Catalog.tableOf_mem_of_atomic hs hreferenced
  have hrowtable : row.table = d.schema.tableOf referenced := hfades.table ▸ htable
  have hrowkey : ∀ key ∈ d.schema.primaryKey, row.value key.column = d.key := by
    intro key hmemkey
    have hrequired := (hkeys _ _ hs key hmemkey _ hmem).1
    rw [← hkey key hmemkey, hfades.required key.column (hrowtable ▸ hrequired)]
  have heq := hfades.eq_of_ne_null hnull
  have hclaimed := h target foreignKey referenced hdepends row hrow hrowtable hrowkey (heq ▸ hnull)
  rw [heq] at hclaimed
  exact hclaimed.grows hnull (hkeys _ _ hdepends.found) hdepends.table_mem hgrows

/-- What holds in the course of a traversal, with a stack of open deletions. -/
structure Sound (c : Catalog) (link : Database) (stack : List (String × Value))
    (t : Traversal (String × Value) Database) : Prop where
  wire : t.world.wire.link = replay link t.journal
  keys : t.world.wire.link.KeysHold c
  closed : ∀ p ∈ t.entered, p ∈ stack ∨ Gone c t.world.wire.link p
  answered : ∀ q ∈ removed link t.journal, Answered c t q.1.1 q.2

/-- Executed statements keep all this, where the referrers of what they remove have been entered. -/
theorem Sound.executed {k : String × Value} {l : List Statement} (h : Sound c link stack t)
    (hexecuted : Executed k l t t') (hshrinks : t.world.wire.link.Shrinks t'.world.wire.link)
    (hremoved : ∀ q ∈ removed t.world.wire.link (l.map (k, ·)), Answered c t q.1.1 q.2) :
    Sound c link stack t' ∧ Grows t t' := by
  have hgrows : Grows t t' := ⟨hshrinks, fun p hp => hexecuted.entered ▸ hp⟩
  refine ⟨⟨?_, h.keys.shrinks hshrinks, fun p hp => ?_, fun q hq => ?_⟩, hgrows⟩
  · rw [hexecuted.link, h.wire, hexecuted.journal, replay_append]
  · rw [hexecuted.entered] at hp
    exact (h.closed p hp).imp_right fun hgone => hgone.shrinks h.keys hshrinks
  · rw [hexecuted.journal, removed_append, ← h.wire] at hq
    rcases List.mem_append.1 hq with hq | hq
    · exact (h.answered q hq).grows h.keys hgrows
    · exact (hremoved q hq).grows h.keys hgrows

/-- Deleting rows keeps what holds, and enters the rows. -/
def Deletes (c : Catalog) (link : Database) (delete : Doomed → DeletionM Database Unit) : Prop :=
  ∀ d stack t, d.loaded = none → c.schema d.schema.name = .ok d.schema → Sound c link stack t →
    (delete d).Ends t (fun _ t' => Sound c link stack t' ∧ Grows t t' ∧ d.row ∈ t'.entered)
      fun _ _ => True

/-! ### Policies -/

/-- Queries leave the database alone, and answer what they ask for. -/
theorem Sound.ends_fetch {k : String × Value} {q : Select}
    {P : List Row → Traversal _ Database → Prop} (h : Sound c link stack t)
    (hP : ∀ t', Sound c link stack t' ∧ Grows t t' → P (t.world.wire.link.answer q) t') :
    (onWire k q.fetch).Ends t P (fun _ _ => True) := by
  refine EntityGraph.ends_fetch.mono (fun rows t' ht' => ?_) fun _ _ _ => trivial
  obtain ⟨rfl, hexecuted, hlink⟩ := ht'
  refine hP t' (h.executed hexecuted (hlink ▸ .refl _) fun q hq => ?_)
  rw [removed_eq_nil (by simp)] at hq
  cases hq

/-- The rows that meet a condition have been entered once they are deleted. -/
theorem ends_deleteMatching (hdelete : Deletes c link delete) {target : Schema} {table : String}
    {e : Expr} (htarget : c.schema target.name = .ok target) (htable : table ∈ target.tables)
    (h : Sound c link stack t) :
    (deleteMatching delete d target table e []).Ends t
      (fun _ t' => (Sound c link stack t' ∧ Grows t t') ∧
        ∀ row ∈ t.world.wire.link.matching table [e], ∀ key ∈ target.primaryKey,
          (target.name, row.value key.column) ∈ t'.entered) fun _ _ => True := by
  unfold deleteMatching
  rw [Act.ends_bind, Act.ends_ofExcept]
  refine ⟨fun key hkey => ?_, fun _ _ => trivial⟩
  have hprimary : key ∈ target.primaryKey := Schema.key_eq_ok_iff.1 hkey
  rw [Act.ends_bind]
  refine h.ends_fetch fun t₁ h₁ => ?_
  rw [Database.answer_column]
  refine (Act.ends_forM_all (E := fun _ _ => True) (I := fun s => Sound c link stack s ∧ Grows t s)
    (Q := fun r s => (target.name, firstCell r) ∈ s.entered) (fun r hr s hs => ?_) h₁).mono
      (fun _ t' ht' => ⟨ht'.1, fun row hrow key' hkey' => ?_⟩) fun _ _ _ => trivial
  · obtain ⟨row, hrow, rfl⟩ := List.mem_map.1 hr
    obtain ⟨hmem, hrowtable, -⟩ := Database.mem_matching_iff.1 hrow
    obtain ⟨-, hvalue⟩ := h.keys _ _ htarget key hprimary table htable
    obtain ⟨hnull, hholds⟩ := hvalue row hmem hrowtable
    rw [Act.ends_bind, Act.ends_ofExcept]
    refine ⟨fun v hv => ?_, fun _ _ => trivial⟩
    obtain rfl : v = row.value key.column := by
      rw [Atomic.coerce_eq_ok_iff] at hv
      exact Option.some.inj (hv.symm.trans (AtomicKind.coerce?_of_holds hholds))
    simp only [Act.ends_ite, Value.isNull_iff, Act.ends_bind, ends_graph]
    refine ⟨fun hv => absurd hv hnull, fun _ => ?_⟩
    refine (hdelete _ stack s rfl htarget hs.1).mono (fun _ s' hs' => ?_) fun _ _ _ => trivial
    exact ⟨⟨hs'.1, hs.2.trans hs'.2.1⟩, hs'.2.2, fun r' hr' => hs'.2.1.entered _ hr'⟩
  · obtain rfl := Option.some.inj (hprimary.symm.trans hkey')
    exact ht'.2 _ (List.mem_map_of_mem hrow)

/-- The rows that refer to a row of the doomed entity meet the condition of its relation. -/
theorem meets_of_referenceCondition (hloaded : d.loaded = none)
    (hs : c.schema d.schema.name = .ok d.schema) {g : Graph} {join : Join} {column : String}
    {condition? : Option Expr} (hcondition : referenceCondition? g d comp join column = .ok condition?) :
    ∃ e, condition? = some e ∧ ∀ (db : Database) (row referred : StoredRow) (referenced : Atomic),
      db.Keyed d.schema → d.schema.atomic join.referenced = .ok referenced → referred ∈ db.rows →
      referred.table = d.schema.tableOf referenced →
      (∀ key ∈ d.schema.primaryKey, referred.value key.column = d.key) →
      referred.value referenced.column ≠ .null →
      row.value column = referred.value referenced.column → db.meets row e = true := by
  obtain ⟨key, hkey, -, hprimary⟩ := Catalog.key_of_schema hs
  unfold referenceCondition? at hcondition
  obtain ⟨a, ha, hcondition⟩ := bind_eq_ok_iff.1 hcondition
  have hmem := (Schema.mem_of_atomic? (Schema.atomic_eq_ok_iff.1 ha)).1
  split at hcondition
  · next hpk =>
    obtain rfl := (hprimary a hmem).1 hpk
    refine ⟨_, (Except.ok.inj hcondition).symm, ?_⟩
    intro db row referred referenced hkeyed hreferenced hrow htable hkeys hnull hvalue
    obtain rfl := Except.ok.inj (ha.symm.trans hreferenced)
    rw [hkeys a hkey] at hnull hvalue
    exact Database.meets_columnEq.2 ⟨hvalue, hnull⟩
  · rw [hloaded] at hcondition
    dsimp only at hcondition
    split at hcondition
    · cases hcondition
    · rw [Schema.key_eq_ok_iff.2 hkey] at hcondition
      refine ⟨_, (Except.ok.inj hcondition).symm, ?_⟩
      intro db row referred referenced hkeyed hreferenced hrow htable hkeys hnull hvalue
      obtain rfl := Except.ok.inj (ha.symm.trans hreferenced)
      have hvalues := (hkeyed key hkey _ (Catalog.tableOf_mem_of_atomic hs ha)).2
      have hkeynull : d.key ≠ .null := hkeys key hkey ▸ (hvalues referred hrow htable).1
      exact Database.meets_isIn.2 ⟨hvalue ▸ hnull, hkeynull, referred, hrow, htable, hkeys key hkey,
        hvalue.symm⟩

/-- The rows that meet a condition have lost their value in a column once it is emptied. -/
theorem Sound.ends_empty {k : String × Value} {table column : String} {e : Expr}
    (h : Sound c link stack t) :
    (onWire k (({ table, conditions := [e] } : Update).set column .null).execute).Ends t
      (fun _ t' => (Sound c link stack t' ∧ Grows t t') ∧
        ∀ row ∈ t'.world.wire.link.rows, row.table = table → row.value column ≠ .null →
          row ∈ t.world.wire.link.rows ∧ t.world.wire.link.meets row e = false) fun _ _ => True := by
  refine EntityGraph.ends_empty.mono (fun _ t' ht' => ?_) fun _ _ _ => trivial
  obtain ⟨hexecuted, hlink, hbreaks⟩ := ht'
  refine ⟨h.executed hexecuted (hlink ▸ .updated hbreaks) fun q hq => ?_,
    fun row' hrow' htable hne => ?_⟩
  · rw [removed_eq_nil (by simp)] at hq
    cases hq
  · rw [hlink, Database.updated_emptying] at hrow'
    obtain ⟨row, hrow, rfl⟩ := List.mem_map.1 hrow'
    rw [Database.table_emptied] at htable
    obtain ⟨heq, hmeets⟩ := Database.eq_of_value_emptied htable hne
    rw [heq]
    exact ⟨hrow, hmeets⟩

/-- A relation is taken care of if what meets its condition is emptied or entered. -/
theorem Settled.of_meets (h : Sound c link stack t) (hgrows : Grows t t')
    (hs : c.schema d.schema.name = .ok d.schema) {target : Schema} {foreignKey : Atomic} {join : Join}
    {e : Expr} (htarget : c.schema comp.target = .ok target)
    (hresolve : Join.resolve d.schema comp target = .ok join)
    (hforeignKey : target.atomic join.foreignKey = .ok foreignKey)
    (hmeets : ∀ (row referred : StoredRow) (referenced : Atomic),
      d.schema.atomic join.referenced = .ok referenced → referred ∈ t.world.wire.link.rows →
      referred.table = d.schema.tableOf referenced →
      (∀ key ∈ d.schema.primaryKey, referred.value key.column = d.key) →
      referred.value referenced.column ≠ .null →
      row.value foreignKey.column = referred.value referenced.column →
      t.world.wire.link.meets row e = true)
    (hafter : ∀ row' ∈ t'.world.wire.link.rows, row'.table = target.tableOf foreignKey →
      row'.value foreignKey.column ≠ .null → ∃ row ∈ t.world.wire.link.rows,
        row.Fades t.world.wire.link.required row' ∧
        (t.world.wire.link.meets row e = true → ∀ key ∈ target.primaryKey,
          (target.name, row'.value key.column) ∈ t'.entered)) : Settled c d t' comp := by
  intro target' foreignKey' referenced hdepends referred' hreferred' htable hkey hnull
  obtain ⟨join', hresolve', -, hforeignKey', hreferenced⟩ := hdepends.join
  obtain rfl := Except.ok.inj (hdepends.found.symm.trans htarget)
  obtain rfl := Except.ok.inj (hresolve'.symm.trans hresolve)
  obtain rfl := Except.ok.inj (hforeignKey'.symm.trans hforeignKey)
  obtain ⟨referred, hreferred, hfades⟩ := hgrows.shrinks.row referred' hreferred'
  have hvalue := hfades.eq_of_ne_null hnull
  have hreferredtable := hfades.table ▸ htable
  have hreferredkey : ∀ key ∈ d.schema.primaryKey, referred.value key.column = d.key := by
    intro key hmem
    have hkeyed := h.keys _ _ hs key hmem _ (Catalog.tableOf_mem_of_atomic hs hreferenced)
    rw [← hkey key hmem, hfades.required key.column (hreferredtable ▸ hkeyed.1)]
  intro row' hrow' hrow'table hrow'value
  have hne : row'.value foreignKey'.column ≠ .null := hrow'value ▸ hnull
  obtain ⟨row, -, hrowfades, hentered⟩ := hafter row' hrow' hrow'table hne
  refine hentered (hmeets row referred referenced hreferenced hreferred hreferredtable hreferredkey
    (hvalue ▸ hnull) ?_)
  rw [hrowfades.eq_of_ne_null hne, hrow'value, hvalue]

/-- The relation whose foreign key is on the other side is taken care of. -/
theorem ends_applyPolicy (hdelete : Deletes c link delete) (hloaded : d.loaded = none)
    (hs : c.schema d.schema.name = .ok d.schema) (hpolicy : comp.onDelete ≠ .keep) {join : Join}
    (hjoin : c.join d.schema comp = .ok join) (h : Sound c link stack t) :
    (applyPolicy c delete d comp join).Ends t
      (fun _ t' => (Sound c link stack t' ∧ Grows t t') ∧ Settled c d t' comp) fun _ _ => True := by
  obtain ⟨target', htarget', hresolve⟩ := bind_eq_ok_iff.1 hjoin
  unfold applyPolicy
  simp only [Act.ends_bind, ends_graph, Act.ends_ofExcept]
  refine ⟨fun target htarget => ⟨fun foreignKey hforeignKey => ⟨fun condition? hcondition => ?_,
    fun _ _ => trivial⟩, fun _ _ => trivial⟩, fun _ _ => trivial⟩
  obtain rfl := Except.ok.inj (htarget'.symm.trans htarget)
  obtain ⟨e, rfl, hmeets⟩ := meets_of_referenceCondition hloaded hs hcondition
  have htable := Catalog.tableOf_mem_of_atomic htarget hforeignKey
  have hsettled : ∀ t', Grows t t' → _ → Settled c d t' comp := fun t' hgrows hafter =>
    .of_meets h hgrows hs htarget hresolve hforeignKey
      (fun row referred referenced => hmeets _ row referred referenced (h.keys _ _ hs)) hafter
  cases hcase : comp.onDelete with
  | keep => exact absurd hcase hpolicy
  | setNull =>
    simp only [hloaded, Act.ends_bind]
    refine h.ends_empty.mono (fun _ t' ht' => ⟨ht'.1, hsettled t' ht'.1.2 ?_⟩) fun _ _ _ => trivial
    intro row hrow hrowtable hne
    obtain ⟨hmem, hmeets⟩ := ht'.2 row hrow hrowtable hne
    exact ⟨row, hmem, .refl _ _, fun htrue => absurd (hmeets.symm.trans htrue) Bool.false_ne_true⟩
  | cascade =>
    simp only [known, hloaded, Act.ends_bind, ends_graph]
    refine (ends_deleteMatching hdelete (Catalog.schema_schema_name htarget) htable h).mono
      (fun _ t' ht' => ⟨ht'.1, hsettled t' ht'.1.2 ?_⟩) fun _ _ _ => trivial
    intro row' hrow' hrowtable hne
    obtain ⟨row, hrow, hfades⟩ := ht'.1.2.shrinks.row row' hrow'
    rw [hfades.table] at hrowtable
    refine ⟨row, hrow, hfades, fun hmeets key hkey => ?_⟩
    rw [hfades.required key.column (hrowtable ▸ (h.keys _ _ (Catalog.schema_schema_name htarget) key hkey _ htable).1)]
    exact ht'.2 row (Database.mem_matching_iff.2 ⟨hrow, hrowtable, by simpa using hmeets⟩) key hkey

/-- Looking a value up leaves the database alone. -/
theorem ends_storedValue (hloaded : d.loaded = none) (h : Sound c link stack t) (name : String) :
    (storedValue d name).Ends t (fun _ t' => Sound c link stack t' ∧ Grows t t')
      fun _ _ => True := by
  unfold storedValue
  rw [Act.ends_bind, Act.ends_ofExcept]
  refine ⟨fun a _ => ?_, fun _ _ => trivial⟩
  rw [Act.ends_ite]
  refine ⟨fun _ => ⟨h, .refl t⟩, fun _ => ?_⟩
  simp only [hloaded, Act.ends_bind]
  rw [Act.ends_ofExcept]
  refine ⟨fun key _ => ?_, fun _ _ => trivial⟩
  refine h.ends_fetch fun t' ht' => ?_
  rw [Act.ends_ofExcept]
  exact ⟨fun _ _ => ht', fun _ _ => trivial⟩

/-- A relation is taken care of before the rows go. -/
theorem ends_prepare (hdelete : Deletes c link delete) (hloaded : d.loaded = none)
    (hs : c.schema d.schema.name = .ok d.schema) (h : Sound c link stack t) :
    (prepare c delete d comp).Ends t
      (fun _ t' => (Sound c link stack t' ∧ Grows t t') ∧ Settled c d t' comp) fun _ _ => True := by
  have hstay : (Sound c link stack t ∧ Grows t t) := ⟨h, .refl t⟩
  unfold prepare
  rw [Act.ends_ite]
  refine ⟨fun hkeep => ?_, fun hpolicy => ?_⟩
  · exact ⟨hstay, fun _ _ _ hdepends => absurd hkeep hdepends.policy⟩
  rw [Act.ends_bind, Act.ends_ofExcept]
  refine ⟨fun join hjoin => ?_, fun _ _ => trivial⟩
  cases hside : join.side with
  | there =>
    simp only [Act.ends_bind, Act.ends_pure]
    exact ends_applyPolicy hdelete hloaded hs hpolicy hjoin h
  | here =>
    have hsettled : ∀ t', Settled c d t' comp := by
      intro t' target foreignKey referenced hdepends
      obtain ⟨join', hresolve', hthere, -⟩ := hdepends.join
      obtain ⟨target', htarget', hresolve⟩ := bind_eq_ok_iff.1 hjoin
      obtain rfl := Except.ok.inj (hdepends.found.symm.trans htarget')
      obtain rfl := Except.ok.inj (hresolve'.symm.trans hresolve)
      rw [hside] at hthere
      cases hthere
    simp only [Act.ends_ite, Act.ends_bind]
    refine ⟨fun _ => ⟨hstay, hsettled t⟩, fun _ => ?_⟩
    exact (ends_storedValue hloaded h _).mono (fun _ t' ht' => ⟨ht', hsettled t'⟩)
      fun _ _ _ => trivial

/-! ### Deleting rows -/

/-- What a relation leads to is deleted as well. -/
theorem ends_deleteOwned (hdelete : Deletes c link delete) (hloaded : d.loaded = none)
    (h : Sound c link stack t) (o : Owned) :
    (deleteOwned c delete d o).Ends t (fun _ t' => Sound c link stack t' ∧ Grows t t')
      fun _ _ => True := by
  unfold deleteOwned
  simp only [known, hloaded, Act.ends_bind, ends_graph, Act.ends_ofExcept]
  refine ⟨fun target htarget => ⟨fun a ha => ?_, fun _ _ => trivial⟩, fun _ _ => trivial⟩
  have htarget := Catalog.schema_schema_name htarget
  rw [Act.ends_ite]
  refine ⟨fun _ => ?_, fun _ => ?_⟩
  · exact (hdelete _ stack t rfl htarget h).mono (fun _ _ ht' => ⟨ht'.1, ht'.2.1⟩)
      fun _ _ _ => trivial
  · exact (ends_deleteMatching hdelete htarget (Catalog.tableOf_mem_of_atomic htarget ha) h).mono
      (fun _ _ ht' => ht'.1) fun _ _ _ => trivial

/-- The rows of a key in a table go. What refers to them has been entered. -/
theorem ends_deleteTable {key : Atomic} (hs : c.schema d.schema.name = .ok d.schema)
    (hkey : d.schema.primaryKey = some key) {table : String} (htable : table ∈ d.schema.tables)
    (h : Sound c link stack t) (hsettled : ∀ comp ∈ d.schema.components, Settled c d t comp) :
    (onWire d.row (Delete.keyed table key.column d.key).execute).Ends t
      (fun _ t' => (Sound c link stack t' ∧ Grows t t') ∧
        t'.world.wire.link.Absent table key.column d.key) fun _ _ => True := by
  refine ends_deleteKey.mono (fun _ t' ht' => ?_) fun _ _ _ => trivial
  obtain ⟨hexecuted, hlink⟩ := ht'
  refine ⟨h.executed hexecuted (hlink ▸ .without _ _) fun q hq => ?_, hlink ▸ ?_⟩
  · obtain ⟨row, hrow, rfl⟩ := List.mem_map.1 (removed_delete _ _ _ _ _ ▸ hq)
    obtain ⟨hmem, -, hmeets⟩ := Database.mem_matching_iff.1 hrow
    have hvalue := (Database.meets_columnEq.1 (hmeets _ List.mem_cons_self)).1
    intro s comp target foreignKey referenced hs' hdepends hrowtable hnull
    obtain rfl := Except.ok.inj (hs'.symm.trans hs)
    refine hsettled comp hdepends.mem target foreignKey referenced hdepends row hmem hrowtable ?_ hnull
    intro key' hkey'
    obtain rfl := Option.some.inj (hkey.symm.trans hkey')
    exact hvalue
  · exact Database.absent_without fun row hrow hrowtable =>
      ((h.keys _ _ hs key hkey table htable).2 row hrow hrowtable).1

/-- A deletion that has been entered is open. -/
theorem Sound.enter (h : Sound c link stack t) (p : String × Value) :
    Sound c link (p :: stack) { t with entered := p :: t.entered } ∧
      Grows t { t with entered := p :: t.entered } := by
  have hgrows : Grows t { t with entered := p :: t.entered } :=
    ⟨.refl _, fun _ hq => List.mem_cons_of_mem _ hq⟩
  refine ⟨⟨h.wire, h.keys, fun q hq => ?_, fun q hq => (h.answered q hq).grows h.keys hgrows⟩, hgrows⟩
  rcases List.mem_cons.1 hq with rfl | hq
  · exact .inl List.mem_cons_self
  · exact (h.closed q hq).imp_left (List.mem_cons_of_mem _)

/-- A deletion is closed once the rows are gone. -/
theorem Sound.close {p : String × Value} (h : Sound c link (p :: stack) t)
    (hgone : Gone c t.world.wire.link p) : Sound c link stack t := by
  refine ⟨h.wire, h.keys, fun q hq => ?_, h.answered⟩
  rcases h.closed q hq with hmem | hq
  · rcases List.mem_cons.1 hmem with rfl | hmem
    · exact .inr hgone
    · exact .inl hmem
  · exact .inr hq

/-- All relations are taken care of before the rows go. -/
theorem ends_prepareAll (hdelete : Deletes c link delete) (hloaded : d.loaded = none)
    (hs : c.schema d.schema.name = .ok d.schema) (h : Sound c link stack t) :
    (d.schema.components.mapM (prepare c delete d)).Ends t
      (fun _ t' => (Sound c link stack t' ∧ Grows t t') ∧
        ∀ comp ∈ d.schema.components, Settled c d t' comp) fun _ _ => True := by
  refine Act.ends_mapM_iff.2 (Act.ends_forM_all (I := fun s => Sound c link stack s ∧ Grows t s)
    (fun comp _ s hI => ?_) ⟨h, .refl t⟩)
  simp only [Act.ends_bind, Act.ends_pure]
  refine (ends_prepare hdelete hloaded hs hI.1).mono (fun _ s' hs' => ?_) fun _ _ _ => trivial
  exact ⟨⟨hs'.1.1, hI.2.trans hs'.1.2⟩, hs'.2, fun _ hsettled => hsettled.grows hs hI.1.keys hs'.1.2⟩

/-- The rows of a type and key go, table by table. -/
theorem ends_deleteTables {key : Atomic} (hs : c.schema d.schema.name = .ok d.schema)
    (hkey : d.schema.primaryKey = some key) (h : Sound c link (d.row :: stack) t)
    (hsettled : ∀ comp ∈ d.schema.components, Settled c d t comp) :
    ((d.schema.secondary.reverse ++ [d.schema.table]).forM fun table => do
        let _ ← onWire d.row (Delete.keyed table key.column d.key).execute).Ends t
      (fun _ t' => Sound c link stack t' ∧ Grows t t') fun _ _ => True := by
  have hmem : ∀ table, table ∈ d.schema.secondary.reverse ++ [d.schema.table] ↔
      table ∈ d.schema.tables := by
    intro table
    simp [Schema.tables, or_comm]
  refine (Act.ends_forM_all (E := fun _ _ => True)
    (I := fun s => (Sound c link (d.row :: stack) s ∧ Grows t s) ∧
      ∀ comp ∈ d.schema.components, Settled c d s comp)
    (Q := fun table s => table ∈ d.schema.tables →
      s.world.wire.link.Absent table key.column d.key) (fun table htable s hI => ?_)
    ⟨⟨h, .refl t⟩, hsettled⟩).mono (fun _ t' ht' => ⟨ht'.1.1.1.close ?_, ht'.1.1.2⟩)
      fun _ _ _ => trivial
  · rw [hmem] at htable
    simp only [Act.ends_bind, Act.ends_pure]
    refine (ends_deleteTable hs hkey htable hI.1.1 hI.2).mono (fun _ s' hs' => ?_)
      fun _ _ _ => trivial
    refine ⟨⟨⟨hs'.1.1, hI.1.2.trans hs'.1.2⟩, fun comp hcomp => ?_⟩, fun _ => hs'.2, ?_⟩
    · exact (hI.2 comp hcomp).grows hs hI.1.1.keys hs'.1.2
    · intro other habsent hother
      exact (habsent hother).shrinks (hI.1.1.keys _ _ hs key hkey other hother).1 hs'.1.2.shrinks
  · intro s hs' key' hkey' table htable
    obtain rfl := Except.ok.inj (hs.symm.trans hs')
    obtain rfl := Option.some.inj (hkey.symm.trans hkey')
    exact ht'.2 table ((hmem table).2 htable) htable

/-- Deleting rows keeps what holds in the course of a traversal, and enters the rows. -/
theorem deletes_deleteFrom (c : Catalog) (link : Database) (depth : Nat) :
    Deletes c link (deleteFrom c depth) := by
  induction depth with
  | zero => exact fun _ _ _ _ _ _ => trivial
  | succ depth ih =>
    intro d stack t hloaded hs h
    unfold deleteFrom
    rw [Act.ends_bind]
    by_cases hentered : d.row ∈ t.entered
    · rw [Act.Ends, enter_of_mem hentered]
      exact ⟨h, .refl t, hentered⟩
    rw [Act.Ends, enter_of_not_mem hentered]
    obtain ⟨hopen, hgrows⟩ := h.enter d.row
    simp only [Bool.not_true, Bool.false_eq_true, if_false, Act.ends_bind, hloaded, Act.ends_pure]
    rw [Act.ends_ofExcept]
    refine ⟨fun key hkey => ?_, fun _ _ => trivial⟩
    refine (ends_prepareAll ih hloaded hs hopen).mono (fun owned t₁ h₁ => ?_) fun _ _ _ => trivial
    refine (ends_deleteTables hs (Schema.key_eq_ok_iff.1 hkey) h₁.1.1 h₁.2).mono (fun _ t₂ h₂ => ?_)
      fun _ _ _ => trivial
    refine (Act.ends_forM (I := fun s => Sound c link stack s ∧ Grows t₂ s) (fun o _ s hI => ?_)
      ⟨h₂.1, .refl t₂⟩).mono (fun _ t₃ h₃ => ?_) fun _ _ he => he
    · exact (ends_deleteOwned ih hloaded hI.1 o).mono (fun _ _ hs' => ⟨hs'.1, hI.2.trans hs'.2⟩)
        fun _ _ _ => trivial
    · have hall := h₁.1.2.trans (h₂.2.trans h₃.2)
      exact ⟨h₃.1, hgrows.trans hall, hall.entered _ List.mem_cons_self⟩

end Deletion

namespace Session

open Deletion

section trace

variable {σ : Type} [Connection σ]

/-- What a deletion by key deletes first. -/
def doomedByKey (ses : Session) (entity : String) (key : Value) : Except Error Doomed := do
  let schema ← ses.catalog.schema entity
  let a ← schema.key
  return ⟨schema, ← a.coerce schema.name key, none⟩

/-- The traversal that a deletion by key makes, with all that it sends. -/
def deleteByKeyTrace (ses : Session) (entity : String) (key : Value) (w : World σ) :
    Traversal (String × Value) σ :=
  match ses.doomedByKey entity key with
  | .ok d => (deleteFrom ses.catalog (depthBound ses.catalog w) d).final { world := w }
  | .error _ => { world := w }

omit [Connection σ] in
/-- What a deletion by key deletes is of the type, under the key brought into its kind. -/
theorem of_doomedByKey {ses : Session} {entity : String} {key : Value} {d : Doomed}
    (h : ses.doomedByKey entity key = .ok d) : ses.catalog.schema entity = .ok d.schema ∧
      d.loaded = none ∧ ∃ a, d.schema.primaryKey = some a ∧
        a.coerce d.schema.name key = .ok d.key := by
  obtain ⟨s, hs, h⟩ := bind_eq_ok_iff.1 h
  obtain ⟨a, ha, h⟩ := bind_eq_ok_iff.1 h
  obtain ⟨v, hv, h⟩ := bind_eq_ok_iff.1 h
  obtain rfl := Except.ok.inj h
  exact ⟨hs, rfl, a, Schema.key_eq_ok_iff.1 ha, hv⟩

/-- A deletion by key that succeeds has resolved the type, and leaves the world of its traversal. -/
theorem of_deleteByKey {ses : Session} {entity : String} {key : Value} {w w' : World σ}
    (h : ses.deleteByKey entity key w = .ok () w') :
    ∃ d, ses.doomedByKey entity key = .ok d ∧
      deleteFrom ses.catalog (depthBound ses.catalog w) d { world := w } =
        .ok () (ses.deleteByKeyTrace entity key w) ∧
      (ses.deleteByKeyTrace entity key w).world = w' := by
  have hends : (ses.deleteByKey entity key).Ends w (fun _ w' => ∃ d,
      ses.doomedByKey entity key = .ok d ∧ Deletion.run ses.catalog d w = .ok () w')
      fun _ _ => True := by
    unfold deleteByKey
    simp only [Act.ends_bind, Act.ends_ofExcept]
    refine ⟨fun schema hschema => ⟨fun a ha => ⟨fun v hv => ?_, fun _ _ => trivial⟩,
      fun _ _ => trivial⟩, fun _ _ => trivial⟩
    have hdoomed : ses.doomedByKey entity key = .ok ⟨schema, v, none⟩ := by
      simp [doomedByKey, hschema, ha, hv, bind, Except.bind, pure, Except.pure]
    cases hrun : Deletion.run ses.catalog ⟨schema, v, none⟩ w with
    | ok _ w' => simpa [Act.Ends, hrun] using ⟨_, hdoomed, hrun⟩
    | error _ _ => simp [Act.Ends, hrun]
  obtain ⟨d, hdoomed, hrun⟩ := hends.of_ok h
  obtain ⟨t, ht, rfl⟩ := run_ok_iff.1 hrun
  have htrace : ses.deleteByKeyTrace entity key w = t := by
    simp [deleteByKeyTrace, hdoomed, Act.final, ht]
  exact ⟨d, hdoomed, htrace ▸ ht, htrace ▸ rfl⟩

end trace

variable {ses : Session} {entity : String} {key : Value} {w w' : World Database}

/-- When a deletion by key has succeeded, the rows that it was to delete are gone, and so is what
referred to them. -/
theorem sound_deleteByKey (hkeys : w.wire.link.KeysHold ses.catalog)
    (h : ses.deleteByKey entity key w = .ok () w') :
    Sound ses.catalog w.wire.link [] (ses.deleteByKeyTrace entity key w) := by
  obtain ⟨d, hdoomed, hrun, -⟩ := of_deleteByKey h
  obtain ⟨hschema, hloaded, -⟩ := of_doomedByKey hdoomed
  have hstart : Sound ses.catalog w.wire.link [] ({ world := w } : Traversal _ Database) :=
    ⟨rfl, hkeys, fun p hp => absurd hp List.not_mem_nil, fun q hq => absurd hq List.not_mem_nil⟩
  have hdeletes := deletes_deleteFrom ses.catalog w.wire.link (depthBound ses.catalog w)
  exact ((hdeletes d [] _ hloaded (Catalog.schema_schema_name hschema) hstart).of_ok hrun).1

/-- The journal of a deletion by key accounts for what has become of the database. -/
theorem link_of_deleteByKey (hkeys : w.wire.link.KeysHold ses.catalog)
    (h : ses.deleteByKey entity key w = .ok () w') :
    w'.wire.link = replay w.wire.link (ses.deleteByKeyTrace entity key w).journal := by
  obtain ⟨_, -, -, rfl⟩ := of_deleteByKey h
  exact (sound_deleteByKey hkeys h).wire

/-- **Nothing refers to a removed row.** When a deletion by key has succeeded on a database in which all
types have their keys, then for every row that it removed on behalf of a type and key, and every relation
of the type that has its foreign key on the other side and a policy, no row is left that holds the value
that the row had where the relation refers to it. -/
theorem unreferenced_of_deleteByKey (hkeys : w.wire.link.KeysHold ses.catalog)
    (h : ses.deleteByKey entity key w = .ok () w') {type : String} {k : Value} {row : StoredRow}
    (hremoved : ((type, k), row) ∈ removed w.wire.link (ses.deleteByKeyTrace entity key w).journal)
    {s target : Schema} {comp : Component} {foreignKey referenced : Atomic}
    (hs : ses.catalog.schema type = .ok s)
    (hdepends : s.Depends ses.catalog comp target foreignKey referenced)
    (htable : row.table = s.tableOf referenced) (hnull : row.value referenced.column ≠ .null) :
    w'.wire.link.Absent (target.tableOf foreignKey) foreignKey.column
      (row.value referenced.column) := by
  have hsound := sound_deleteByKey hkeys h
  obtain ⟨_, -, -, rfl⟩ := of_deleteByKey h
  obtain ⟨key', hkey', -⟩ := Catalog.key_of_schema hdepends.found
  have htarget := Catalog.schema_schema_name hdepends.found
  intro row' hrow' hrow'table hvalue
  -- a row that still refers to the removed one has been entered, and so it is gone
  have hentered := hsound.answered _ hremoved s comp target foreignKey referenced hs hdepends htable
    hnull row' hrow' hrow'table hvalue key' hkey'
  rcases hsound.closed _ hentered with hopen | hgone
  · cases hopen
  · exact hgone target htarget key' hkey' _ hdepends.table_mem row' hrow' hrow'table rfl

end Session

/-! ### Authors and notes -/

namespace Press

/-- The key of every type of the press. -/
def key : Atomic :=
  { name := "id", column := "id", kind := .int, primaryKey := true }

/-- The pen name of an author, which is stored apart and told by every note of the author. -/
def pen : Atomic :=
  { name := "pen", column := "pen", kind := .string, table := some "Pen",
    constraints := { unique := true } }

/-- The mentor of an author. -/
def mentor : Atomic :=
  { name := "mentor", column := "mentor", kind := .int }

/-- The pen name that a note tells. -/
def signature : Atomic :=
  { name := "signature", column := "signature", kind := .string }

/-- The notes of an author go with the author. -/
def notes : Component :=
  { name := "notes", target := "Note", cardinality := .oneToMany, joinColumn := some "signature",
    referenced := some "pen", onDelete := .cascade }

/-- The pupils of an author stay without a mentor. -/
def pupils : Component :=
  { name := "pupils", target := "Author", cardinality := .oneToMany, joinColumn := some "mentor",
    onDelete := .setNull }

/-- The author of a note goes with the note. -/
def author : Component :=
  { name := "author", target := "Author", cardinality := .manyToOne, mappedBy := some "notes",
    onDelete := .cascade }

/-- Authors have pupils and notes. -/
def catalog : Catalog where
  definitions := [
    { name := "Author", steps := [.secondary "Pen", .atomic key, .atomic pen, .atomic mentor,
        .component notes, .component pupils] },
    { name := "Note", steps := [.atomic key, .atomic signature, .component author] }]

/-- Two authors, the first of whom is the mentor of the second, and a note of each. -/
def database : Database where
  dialect := .mysql
  required := [("Author", "id"), ("Pen", "id"), ("Note", "id")]
  rows := [
    ⟨"Author", [("id", .int 1)]⟩, ⟨"Pen", [("id", .int 1), ("pen", .text "Hare")]⟩,
    ⟨"Author", [("id", .int 2), ("mentor", .int 1)]⟩, ⟨"Pen", [("id", .int 2), ("pen", .text "Fox")]⟩,
    ⟨"Note", [("id", .int 7), ("signature", .text "Hare")]⟩,
    ⟨"Note", [("id", .int 8), ("signature", .text "Fox")]⟩]

/-- A session of the press. -/
def session : Session :=
  { catalog }

/-- Nothing has been loaded. -/
def world : World Database :=
  { wire := ⟨database, []⟩ }

end Press

/-- No note tells the pen name of an author who has been deleted. -/
theorem Session.unreferenced_of_deleteByKey_author :
    (Press.session.deleteByKey "Author" (.int 1)).succeeds Press.world = true ∧
      ((Press.session.deleteByKey "Author" (.int 1)).final Press.world).wire.link.Absent "Note"
        "signature" (.text "Hare") := by
  have hok : (Press.session.deleteByKey "Author" (.int 1)).succeeds Press.world = true := by
    decide +kernel
  have hkeys : Press.world.wire.link.KeysHold Press.catalog := by decide
  have hremoved : (("Author", .int 1), ⟨"Pen", [("id", .int 1), ("pen", .text "Hare")]⟩) ∈
      removed Press.database
        (Press.session.deleteByKeyTrace "Author" (.int 1) Press.world).journal := by
    decide +kernel
  obtain ⟨s, hs⟩ : ∃ s, Press.catalog.schema "Author" = .ok s := ⟨_, rfl⟩
  obtain ⟨target, htarget⟩ : ∃ s, Press.catalog.schema "Note" = .ok s := ⟨_, rfl⟩
  obtain ⟨_, w', hw'⟩ := Act.exists_of_succeeds hok
  have hdepends : s.Depends Press.catalog Press.notes target Press.signature Press.pen := by
    cases hs
    cases htarget
    exact ⟨List.mem_cons_self, by decide, rfl, ⟨.there, "signature", "pen"⟩, rfl, rfl, rfl, rfl⟩
  refine ⟨hok, ?_⟩
  have habsent := unreferenced_of_deleteByKey hkeys hw' hremoved hs hdepends
    (by cases hs; rfl) (by decide)
  rw [Act.final, hw']
  cases htarget
  exact habsent

end EntityGraph
