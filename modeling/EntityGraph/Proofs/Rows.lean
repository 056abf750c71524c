import EntityGraph.Proofs.Built
import EntityGraph.Proofs.Sending
import EntityGraph.Proofs.Tour
import EntityGraph.Session.Save

/-!
# Writing the rows of one entity

What `Save.insertRows` and `Save.updateRows` send, and what they do to the graph. Everything that they
send is noted in the journal for the entity that is being written; the graph changes where the entity
takes over a generated key and its listeners hear of it, and where its parts are marked at the end.

* `ends_announceKey` — what each listener keeps is kept by all of them;
* `announced_assignGeneratedKey` — what taking over a generated key does to the other entities;
* `ends_insertRows`, `ends_updateRows` — how writing an entity ends, from how its steps end.
-/

namespace EntityGraph

namespace Graph

variable {g : Graph} {e : EntityId} {I : Graph → Prop}

/-- A property of graphs that is kept when listeners of an entity hear of its key. -/
structure KeptByHearing (e : EntityId) (listeners : List KeyListener) (I : Graph → Prop) : Prop where
  receive : ∀ g holder name referenced k a w, I g →
    .foreignKey holder name referenced ∈ listeners →
    (g.entity holder).pending.get? name = some e → g.value e referenced = .ok k →
    (g.entity holder).schema.atomic name = .ok a →
    a.coerce (g.entity holder).schema.name k = .ok w →
    I (g.modifyEntity holder (·.receive name w))
  index : ∀ g i f, I g →
    (∀ x : Collection, (f x).members = x.members ∧ (f x).component = x.component) →
    I (g.modifyCollection i f)

/-- An entity has a key that storage has, and its listeners are gone. -/
def takeKey (g : Graph) (e : EntityId) (name : String) (w : Value) : Graph :=
  g.modifyEntity e fun x => { x.loadAtomic name w with listeners := [] }

/-- Loading the key and dropping the listeners is one change. -/
theorem takeKey_eq (g : Graph) (e : EntityId) (name : String) (w : Value) :
    (g.modifyEntity e (·.loadAtomic name w)).modifyEntity e (fun x => { x with listeners := [] }) =
      g.takeKey e name w := by
  simp [takeKey, modifyEntity, List.modify_modify_eq, Function.comp_def]

/-- What every listener keeps is kept by all of them. -/
theorem ends_announceKey (h : KeptByHearing e (g.entity e).listeners I)
    (hstart : I (g.modifyEntity e fun x => { x with listeners := [] })) :
    (announceKey e).Ends g (fun _ => I) (fun _ => I) := by
  unfold announceKey
  simp only [Act.ends_bind, Act.ends_get, Act.ends_modify]
  refine Act.ends_forAll (fun l hl g' hg' => ?_) hstart
  cases l with
  | foreignKey holder name referenced =>
    unfold hear
    simp only [Act.ends_bind, Act.ends_get, Act.ends_ite, Act.ends_ofExcept]
    refine ⟨fun hwaits => ⟨fun k hk => ?_, fun _ _ => hg'⟩, fun _ => hg'⟩
    refine ends_writeForeignKey (fun a w ha hw => ?_) fun _ => hg'
    exact h.receive g' holder name referenced k a w hg' hl hwaits hk ha hw
  | collection i =>
    unfold hear indexMember
    rw [Act.ends_modify]
    split
    · exact h.index g' i _ hg' fun _ => ⟨rfl, rfl⟩
    · exact hg'

/-! ### What a generated key does to the other entities -/

/-- A foreign key that was waiting for an entity has taken the entity's key, brought into its kind. -/
structure Took (e : EntityId) (w : Value) (x x' : Entity) (name : String) : Prop where
  waited : x.pending.get? name = some e
  settled : x'.pending.get? name = none
  value : ∃ a v, x.schema.atomic name = .ok a ∧ a.coerce x.schema.name w = .ok v ∧
    x'.atomics.get? name =
      some (if x.atomics.get? name = some (.loaded v) then .loaded v else .dirty v)

/-- Where every foreign key of an entity is as it was or has taken a key, they are so too after one that
still waits has taken it. -/
theorem Took.receive {x x' : Entity} {w v : Value} {name : String} {a : Atomic}
    (h : ∀ other, (x'.pending.get? other = x.pending.get? other ∧
      x'.atomics.get? other = x.atomics.get? other) ∨ Took e w x x' other)
    (hwaits : x'.pending.get? name = some e) (ha : x.schema.atomic name = .ok a)
    (hv : a.coerce x.schema.name w = .ok v) (other : String) :
    ((x'.receive name v).pending.get? other = x.pending.get? other ∧
      (x'.receive name v).atomics.get? other = x.atomics.get? other) ∨
    Took e w x (x'.receive name v) other := by
  by_cases hname : other = name
  · -- the foreign key that is taking the value had not taken one before
    subst hname
    rcases h other with ⟨hpending, hslot⟩ | htook
    · refine .inr ⟨hpending ▸ hwaits, by simp, a, v, ha, hv, ?_⟩
      rw [← hslot]
      exact atomics_receive _ _ _
    · rw [htook.settled] at hwaits
      cases hwaits
  · have hpending : (x'.receive name v).pending.get? other = x'.pending.get? other := by
      rw [pending_receive, Assoc.get?_erase_of_ne _ hname]
    have hslot := atomics_receive_of_ne x' name v hname
    rcases h other with ⟨hp, hs⟩ | ⟨hw, hset, b, u, hb, hu, hval⟩
    · exact .inl ⟨hpending.trans hp, hslot.trans hs⟩
    · exact .inr ⟨hw, hpending.trans hset, b, u, hb, hu, hslot.trans hval⟩

/-- An entity has taken over a key, and its listeners have heard of it, as far as they got. -/
structure Announced (e : EntityId) (key : String) (w : Value) (g g' : Graph) : Prop where
  shape : g.SameShape g'
  self : g'.entity e = { (g.entity e).loadAtomic key w with listeners := [] }
  stored : ∀ x, (g'.entity x).stored = (g.entity x).stored
  listeners : ∀ x, x ≠ e → (g'.entity x).listeners = (g.entity x).listeners
  settled : ∀ x, x ≠ e → (g.entity x).pending = [] → g'.entity x = g.entity x
  other : ∀ x name, x ≠ e →
    ((g'.entity x).pending.get? name = (g.entity x).pending.get? name ∧
      (g'.entity x).atomics.get? name = (g.entity x).atomics.get? name) ∨
    Took e w (g.entity x) (g'.entity x) name
  unheard : ∀ x name, x ≠ e → ¬g.Heard e x name →
    (g'.entity x).pending.get? name = (g.entity x).pending.get? name

namespace Announced

variable {key : String} {w : Value} {g' : Graph}

/-- Before any listener has heard of a key, only its entity has changed. -/
theorem takeKey (hlt : e.index < g.entities.length) : Announced e key w g (g.takeKey e key w) where
  shape := .modifyEntity g e fun _ => ⟨rfl, rfl, rfl, fun _ => rfl⟩
  self := entity_modifyEntity_self _ hlt
  stored _ := view_modifyEntity (v := (·.stored)) rfl
  listeners _ hx := by rw [Graph.takeKey, entity_modifyEntity_of_ne _ hx]
  settled _ hx _ := entity_modifyEntity_of_ne _ hx
  other x _ hx := by
    rw [Graph.takeKey, entity_modifyEntity_of_ne _ hx]
    exact .inl ⟨rfl, rfl⟩
  unheard x name hx _ := by rw [Graph.takeKey, entity_modifyEntity_of_ne _ hx]

/-- A foreign key that still waits for the entity is one of another entity, and has taken nothing. -/
theorem still_waits (h : Announced e key w g g') (hpending : (g.entity e).pending = [])
    {holder : EntityId} {name : String} (hwaits : (g'.entity holder).pending.get? name = some e) :
    holder ≠ e ∧ (g.entity holder).pending.get? name = some e ∧
      (g'.entity holder).atomics.get? name = (g.entity holder).atomics.get? name := by
  have hne : holder ≠ e := by
    rintro rfl
    have hnil : (g'.entity holder).pending = [] := by rw [h.self]; exact hpending
    rw [hnil] at hwaits
    cases hwaits
  rcases h.other holder name hne with ⟨hsame, hslot⟩ | htook
  · exact ⟨hne, hsame ▸ hwaits, hslot⟩
  · rw [htook.settled] at hwaits
    cases hwaits

/-- A foreign key that waits for the entity takes its key. -/
theorem receive (h : Announced e key w g g') (hpending : (g.entity e).pending = [])
    {holder : EntityId} {name : String} {a : Atomic} {v : Value} (hheard : g.Heard e holder name)
    (hwaits : (g'.entity holder).pending.get? name = some e)
    (ha : (g'.entity holder).schema.atomic name = .ok a)
    (hv : a.coerce (g'.entity holder).schema.name w = .ok v) :
    Announced e key w g (g'.modifyEntity holder (·.receive name v)) := by
  obtain ⟨hne, -, -⟩ := h.still_waits hpending hwaits
  have hlt : holder.index < g'.entities.length := index_lt_of_pending hwaits
  have hself := entity_modifyEntity_self (e := holder) (·.receive name v) hlt
  refine ⟨h.shape.trans (.receive g' holder name v), ?_, fun x => ?_, fun x hx => ?_,
    fun x hx hnil => ?_, fun x other hx => ?_, fun x other hx hunheard => ?_⟩
  · rw [entity_modifyEntity_of_ne _ (Ne.symm hne)]
    exact h.self
  · rw [view_modifyEntity (v := (·.stored)) (receive_frame _ _ _).2.2.2.2.2]
    exact h.stored x
  · rw [view_modifyEntity (v := (·.listeners)) (receive_frame _ _ _).2.2.1]
    exact h.listeners x hx
  · have hxh : x ≠ holder := by
      rintro rfl
      rw [h.settled x hx hnil, hnil] at hwaits
      cases hwaits
    rw [entity_modifyEntity_of_ne _ hxh]
    exact h.settled x hx hnil
  · by_cases hxh : x = holder
    · subst hxh
      rw [hself]
      exact Took.receive (fun other => h.other x other hx) hwaits (h.shape.schema x ▸ ha)
        (h.shape.schema x ▸ hv) other
    · rw [entity_modifyEntity_of_ne _ hxh]
      exact h.other x other hx
  · rw [← h.unheard x other hx hunheard]
    by_cases hxh : x = holder
    · have hname : other ≠ name := by
        rintro rfl
        exact hunheard (hxh ▸ hheard)
      rw [hxh, hself, pending_receive, Assoc.get?_erase_of_ne _ hname]
    · rw [entity_modifyEntity_of_ne _ hxh]

/-- A collection notes the position of a member. -/
theorem index (h : Announced e key w g g') (i : CollectionId) {f : Collection → Collection}
    (hf : ∀ x, (f x).members = x.members) : Announced e key w g (g'.modifyCollection i f) where
  shape := h.shape.trans (.modifyCollection g' i hf)
  self := h.self
  stored := h.stored
  listeners := h.listeners
  settled := h.settled
  other := h.other
  unheard := h.unheard

/-- The entity has the key. -/
theorem atomicValue (h : Announced e key w g g') : (g'.entity e).atomicValue key = w := by
  rw [h.self]
  simp [Entity.atomicValue, Entity.loadAtomic, Slot.loaded]

/-- The entity has the key, unless that is null. -/
theorem key?_self {a : Atomic} {g g' : Graph} (h : Announced e a.name w g g')
    (hkey : (g.entity e).schema.primaryKey = some a) :
    g'.key? e = if w.isNull then none else some w := by
  unfold key?
  rw [h.self]
  simp [Entity.key?, Entity.loadAtomic, Schema.keyName?, hkey, Slot.loaded]

/-- No entity loses its key when another one takes over a key. -/
theorem key?_isSome {a : Atomic} {g g' : Graph} (h : Announced e a.name w g g')
    (hkey : (g.entity e).schema.primaryKey = some a) (hw : w ≠ .null) {x : EntityId}
    (hx : (g.key? x).isSome) : (g'.key? x).isSome := by
  by_cases hxe : x = e
  · subst hxe
    rw [h.key?_self hkey, if_neg (by simpa using hw)]
    rfl
  · unfold key? Entity.key? at hx ⊢
    rw [h.shape.schema x]
    cases hname : (g.entity x).schema.keyName? with
    | none => simp [hname] at hx
    | some name =>
      simp only [hname, Option.bind_eq_bind, Option.bind_some] at hx ⊢
      rcases h.other x name hxe with ⟨-, hslot⟩ | ⟨-, -, b, v, -, hv, hslot⟩
      · rw [hslot]
        exact hx
      · have hne := Atomic.ne_null_of_coerce hv hw
        rw [hslot]
        split <;> simp [Slot.loaded, Slot.dirty, hne]

end Announced

/-- An atomic that is looked up by its name has that name. -/
theorem atomic?_of_atomic {t : Schema} {name : String} {a : Atomic}
    (h : Entity.atomic t name = .ok a) : t.atomic? name = some a ∧ a.name = name := by
  rw [Entity.atomic] at h
  split at h
  · next b hb => exact Except.ok.inj h ▸ ⟨hb, (Schema.mem_of_atomic? hb).2⟩
  · cases h

/-- What a graph answers as the value of an atomic. -/
theorem value_eq_ok {name : String} {k : Value} (h : g.value e name = .ok k) :
    k = (g.entity e).atomicValue name := by
  rw [value] at h
  obtain ⟨a, ha, h⟩ := bind_eq_ok_iff.1 h
  rw [← (atomic?_of_atomic ha).2]
  exact (Except.ok.inj h).symm

/-- Taking over a key announces it, unless the key cannot be converted. -/
theorem announced_assignGeneratedKey {c : Catalog} {v : Value} {key : Atomic}
    (hwf : g.WellFormed c) (hkey : (g.entity e).schema.primaryKey = some key)
    (hpending : (g.entity e).pending = []) :
    (assignGeneratedKey e v).Ends g
      (fun _ g' => ∃ w, key.coerce (g.entity e).schema.name v = .ok w ∧
        Announced e key.name w g g')
      (fun _ g' => g' = g ∨ ∃ w, key.coerce (g.entity e).schema.name v = .ok w ∧
        Announced e key.name w g g') := by
  unfold assignGeneratedKey
  simp only [Act.ends_bind, Act.ends_get, Act.ends_modify]
  rw [Schema.key_eq_ok_iff.2 hkey, Act.ends_ofExcept_ok, Act.ends_ofExcept]
  refine ⟨fun w hw => ?_, fun _ _ => .inl rfl⟩
  have hann : (announceKey e).Ends (g.modifyEntity e (·.loadAtomic key.name w))
      (fun _ => Announced e key.name w g) (fun _ => Announced e key.name w g) := by
    refine ends_announceKey ⟨fun g' holder name referenced k a v' h hl hwaits hk ha hv => ?_,
      fun g' i f h hf => h.index i fun x => (hf x).1⟩
      (takeKey_eq g e key.name w ▸ .takeKey (index_lt_of_primaryKey hkey))
    -- what a foreign key waits for is the primary key, which is the value that was loaded
    rw [view_modifyEntity (v := (·.listeners)) rfl] at hl
    have hreferenced := hwf.listeners e holder name referenced hl
    obtain rfl : key.name = referenced := by simpa [Schema.keyName?, hkey] using hreferenced
    rw [value_eq_ok hk, h.atomicValue] at hv
    exact h.receive hpending ⟨_, hl⟩ hwaits ha hv
  exact hann.mono (fun _ _ h => ⟨w, hw, h⟩) fun _ _ h => .inr ⟨w, hw, h⟩

end Graph

namespace Save

open Traversal

variable {σ : Type} [Connection σ] {ses : Session} {e : EntityId} {t : Traversal EntityId σ}
  {key : Atomic} {v : Value} {tables : List (String × List (String × Value))}
  {P : Unit → Traversal EntityId σ → Prop} {E : Error → Traversal EntityId σ → Prop}

/-- The connection refuses an insert in some state. -/
def Refused (σ : Type) [Connection σ] : Prop :=
  ∃ (i : Insert) (link : σ) (message : String), (Connection.insert i link).1 = .error message

/-- The insert into a table other than the first. -/
def restInsert (key : Atomic) (v : Value) (table : String × List (String × Value)) : Insert :=
  Insert.single table.1 ((key.column, v) :: table.2)

/-- The update of a table. -/
def tableUpdate (key : Atomic) (v : Value) (table : String × List (String × Value)) : Update :=
  ({ table := table.1, conditions := [Expr.columnEq key.column v] } : Update).setAll table.2

/-- The updates of the tables that change. -/
def updates (key : Atomic) (v : Value) (tables : List (String × List (String × Value))) :
    List Update :=
  (tables.map (tableUpdate key v)).filter (!·.columns.isEmpty)

/-- The rows after the first are inserted in order, up to the first refusal. -/
theorem ends_insertRest
    (hok : ∀ t', Executed e (tables.map fun x => .insert (restInsert key v x)) t t' → P () t')
    (herr : ∀ error t' l, Refused σ → l <+: tables.map (fun x => .insert (restInsert key v x)) →
      Sent e l t t' → E error t') :
    (insertRest e key v tables).Ends t P E := by
  unfold insertRest
  induction tables generalizing t with
  | nil => exact hok t (.refl e t)
  | cons table tables ih =>
    rw [Act.ends_forM_cons, Act.ends_bind]
    refine ends_onWire_insert (fun _ t' _ hsent => ?_) fun error message t' hrefused hsent => ?_
    · refine ih (fun t'' hrest => hok t'' (hsent.trans hrest)) fun error t'' l hrefused hl hrest => ?_
      refine herr error t'' (_ :: l) hrefused ?_ (hsent.toSent.trans hrest)
      exact (List.cons_prefix_cons).2 ⟨rfl, hl⟩
    · exact herr error t' _ ⟨_, _, message, hrefused⟩ (List.prefix_append [_] _) hsent

/-- The tables that change are updated in order, up to the first refusal. -/
theorem ends_updateTables
    (hok : ∀ t', Executed e ((updates key v tables).map .update) t t' → P () t')
    (herr : ∀ error t' l, l <+: (updates key v tables).map .update → Sent e l t t' → E error t') :
    (updateTables e key v tables).Ends t P E := by
  unfold updateTables
  induction tables generalizing t with
  | nil => exact hok t (.refl e t)
  | cons table tables ih =>
    rw [Act.ends_forM_cons, Act.ends_bind]
    by_cases hnone : (tableUpdate key v table).columns = []
    · have hskip : updates key v (table :: tables) = updates key v tables := by
        simp [updates, hnone]
      rw [hskip] at hok herr
      exact ends_onWire_update (fun _ => ih hok herr) (fun _ _ hsome => absurd hnone hsome)
        fun _ _ hsome => absurd hnone hsome
    · have htake : updates key v (table :: tables) =
          tableUpdate key v table :: updates key v tables := by
        simp [updates, hnone]
      rw [htake] at hok herr
      refine ends_onWire_update (fun h => absurd h hnone) (fun _ t' _ hsent => ?_)
        fun error t' _ hsent => ?_
      · refine ih (fun t'' hrest => hok t'' (hsent.trans hrest)) fun error t'' l hl hrest => ?_
        exact herr error t'' (_ :: l) (List.cons_prefix_cons.2 ⟨rfl, hl⟩) (hsent.toSent.trans hrest)
      · exact herr error t' _ (List.prefix_append [_] _) hsent

/-- The row of the primary table is inserted, and the entity takes over the key that is made. -/
theorem ends_insertFirst {table : String} {columns : List (String × Value)}
    (hset : ∀ t', Executed e [.insert (Insert.single table columns)] t t' →
      (t.world.graph.key? e).isSome → P () t')
    (hmade : ∀ t' v, Executed e [.insert (Insert.single table columns)] t t' →
      t.world.graph.key? e = none →
      (Connection.insert (Insert.single table columns) t.world.wire.link).1 = .ok (some v) →
      (Graph.assignGeneratedKey e v).Ends t.world.graph
        (fun _ graph => P () { t' with world := { t'.world with graph } })
        (fun error graph => E error { t' with world := { t'.world with graph } }))
    (herr : ∀ error t', Sent e [.insert (Insert.single table columns)] t t' →
      (Refused σ ∨ ∃ link : σ, (Connection.insert (Insert.single table columns) link).1 = .ok none) →
      E error t') :
    (insertFirst e table columns).Ends t P E := by
  unfold insertFirst
  rw [Act.ends_bind]
  refine ends_onWire_insert (fun made t' hanswer hsent => ?_) fun error message t' hrefused hsent => ?_
  · rw [Act.ends_bind]
    show Act.Ends _ t' P E
    rw [Act.ends_ite]
    have hkey : t'.world.graph.key? e = t.world.graph.key? e := by rw [hsent.graph]
    refine ⟨fun hnone => ?_, fun hsome => ?_⟩
    · have hnone : t.world.graph.key? e = none := by simpa [hkey] using hnone
      cases made with
      | none => exact herr _ t' hsent.toSent (.inr ⟨_, hanswer⟩)
      | some v =>
        have hgoal := hmade t' v hsent hnone hanswer
        simp only [onGraph, onWorld, SessionM.onGraph, Act.ends_onPart]
        rwa [hsent.graph]
    · have hsome : (t.world.graph.key? e).isSome := by
        rw [← hkey]
        simpa [Option.isSome_iff_ne_none] using hsome
      exact hset t' hsent hsome
  · exact herr error t' hsent (.inl ⟨_, _, message, hrefused⟩)

/-! ### Columns by table -/

/-- The columns and values that a schema stores in a table. -/
def columnsIn (s : Schema) (values : List (Atomic × Value)) (table : String) :
    List (String × Value) :=
  values.filterMap fun p => if s.tableOf p.1 = table then some (p.1.column, p.2) else none

/-- The tables after the first, with what is stored in them. -/
def restColumns (s : Schema) (values : List (Atomic × Value)) :
    List (String × List (String × Value)) :=
  columnsByTable.columnsFrom s values s.secondary [s.table]

/-- The primary table comes first. -/
theorem columnsByTable_eq (s : Schema) (values : List (Atomic × Value)) :
    columnsByTable s values = (s.table, columnsIn s values s.table) :: restColumns s values := rfl

/-- A table has the columns that are stored in it, unless it came earlier. -/
theorem columnsFrom_cons (s : Schema) (values : List (Atomic × Value)) (table : String)
    (tables earlier : List String) :
    columnsByTable.columnsFrom s values (table :: tables) earlier =
      (table, if earlier.contains table then [] else columnsIn s values table) ::
        columnsByTable.columnsFrom s values tables (table :: earlier) := rfl

/-- Values are split over the tables as they are listed. -/
theorem tables_columnsFrom (s : Schema) (values : List (Atomic × Value))
    (tables earlier : List String) :
    (columnsByTable.columnsFrom s values tables earlier).map (·.1) = tables := by
  induction tables generalizing earlier with
  | nil => rfl
  | cons table tables ih => rw [columnsFrom_cons, List.map_cons, ih]

/-- What is stored in a table are values of atomics in it. -/
theorem mem_columnsIn_iff {s : Schema} {values : List (Atomic × Value)} {table column : String}
    {v : Value} : (column, v) ∈ columnsIn s values table ↔
      ∃ a, (a, v) ∈ values ∧ s.tableOf a = table ∧ a.column = column := by
  unfold columnsIn
  rw [List.mem_filterMap]
  constructor
  · rintro ⟨⟨a, w⟩, hmem, heq⟩
    split at heq
    · next htable =>
      obtain ⟨rfl, rfl⟩ := Prod.mk.inj (Option.some.inj heq)
      exact ⟨a, hmem, htable, rfl⟩
    · cases heq
  · rintro ⟨a, hmem, htable, rfl⟩
    exact ⟨(a, v), hmem, by simp [htable]⟩

/-- A table has its columns or none. -/
theorem mem_columnsFrom {s : Schema} {values : List (Atomic × Value)} {tables earlier : List String}
    {x : String × List (String × Value)}
    (hx : x ∈ columnsByTable.columnsFrom s values tables earlier) :
    x.1 ∈ tables ∧ (x.2 = columnsIn s values x.1 ∨ x.2 = []) := by
  induction tables generalizing earlier with
  | nil => cases hx
  | cons table tables ih =>
    rw [columnsFrom_cons] at hx
    rcases List.mem_cons.1 hx with rfl | hx
    · refine ⟨List.mem_cons_self, ?_⟩
      by_cases h : table ∈ earlier
      · exact .inr (by simp [h])
      · exact .inl (by simp [h])
    · exact ⟨List.mem_cons_of_mem _ (ih hx).1, (ih hx).2⟩

/-- A table that came earlier has no columns. -/
theorem columnsFrom_of_mem {s : Schema} {values : List (Atomic × Value)}
    {tables earlier : List String} {x : String × List (String × Value)}
    (hx : x ∈ columnsByTable.columnsFrom s values tables earlier) (hmem : x.1 ∈ earlier) :
    x.2 = [] := by
  induction tables generalizing earlier with
  | nil => cases hx
  | cons table tables ih =>
    rw [columnsFrom_cons] at hx
    rcases List.mem_cons.1 hx with rfl | hx
    · simp [show table ∈ earlier from hmem]
    · exact ih hx (List.mem_cons_of_mem _ hmem)

/-- A table has its columns where it comes first, and none where it is listed again. -/
theorem columnsFrom_split (s : Schema) (values : List (Atomic × Value)) (earlier : List String)
    {tables : List String} {table : String} (hmem : table ∈ tables) (hnew : table ∉ earlier) :
    ∃ before after, columnsByTable.columnsFrom s values tables earlier =
        before ++ (table, columnsIn s values table) :: after ∧
      (∀ x ∈ before, x.1 ≠ table) ∧ ∀ x ∈ after, x.1 = table → x.2 = [] := by
  induction tables generalizing earlier with
  | nil => cases hmem
  | cons first tables ih =>
    rw [columnsFrom_cons]
    by_cases heq : first = table
    · subst heq
      refine ⟨[], columnsByTable.columnsFrom s values tables (first :: earlier), ?_,
        fun x hx => absurd hx List.not_mem_nil, fun x hx hfirst => ?_⟩
      · simp [hnew]
      · exact columnsFrom_of_mem hx (hfirst ▸ List.mem_cons_self)
    · have hmem' : table ∈ tables := (List.mem_cons.1 hmem).resolve_left (Ne.symm heq)
      have hnew' : table ∉ first :: earlier := by
        rw [List.mem_cons, not_or]
        exact ⟨Ne.symm heq, hnew⟩
      obtain ⟨before, after, hsplit, hbefore, hafter⟩ := ih (first :: earlier) hmem' hnew'
      refine ⟨_ :: before, after, by rw [hsplit]; rfl, fun x hx => ?_, hafter⟩
      rcases List.mem_cons.1 hx with rfl | hx
      · exact heq
      · exact hbefore x hx

/-- A table has its columns where it comes first. -/
theorem find?_columnsFrom {s : Schema} {values : List (Atomic × Value)}
    {tables earlier : List String} {table : String} (hmem : table ∈ tables)
    (hnew : table ∉ earlier) :
    (columnsByTable.columnsFrom s values tables earlier).find? (·.1 == table) =
      some (table, columnsIn s values table) := by
  obtain ⟨before, after, hsplit, hbefore, -⟩ := columnsFrom_split s values earlier hmem hnew
  have hnone : before.find? (·.1 == table) = none :=
    List.find?_eq_none.2 fun x hx => by simpa using hbefore x hx
  rw [hsplit, List.find?_append, hnone, Option.none_or]
  exact List.find?_cons_of_pos (beq_self_eq_true table)

/-! ### All rows of an entity -/

/-- Only an empty list of names lacks a least one. -/
theorem least?_eq_none_iff {names : List String} : least? names = none ↔ names = [] := by
  -- a step from some name leads to some name
  have hsome : ∀ (f : Option String → String → Option String), (∀ a b, (f (some a) b).isSome) →
      ∀ (l : List String) (a : String), (l.foldl f (some a)).isSome := by
    intro f hf l
    induction l with
    | nil => exact fun _ => rfl
    | cons b l ih =>
      intro a
      obtain ⟨a', ha'⟩ := Option.isSome_iff_exists.1 (hf a b)
      rw [List.foldl_cons, ha']
      exact ih a'
  cases names with
  | nil => simp [least?]
  | cons name names =>
    refine iff_of_false (Option.isSome_iff_ne_none.1 (hsome _ (fun a b => ?_) names name))
      (List.cons_ne_nil _ _)
    by_cases h : b < a <;> simp [h]

/-- The check of an entity's foreign keys passes when none of them waits. -/
theorem checkPending_eq_ok_iff {g : Graph} :
    checkPending g e = .ok () ↔ (g.entity e).pending = [] := by
  unfold checkPending
  simp only
  cases h : least? ((g.entity e).pending.map (·.1)) with
  | none => simpa using least?_eq_none_iff.1 h
  | some name =>
    simp only [reduceCtorEq, false_iff]
    intro hnil
    rw [hnil] at h
    cases h

/-- The check of some values passes when each of them keeps its constraints. -/
theorem checkAll_eq_ok_iff {entity : String} {values : List (Atomic × Value)} :
    checkAll entity values = .ok () ↔ ∀ q ∈ values, q.1.check entity q.2 = .ok () := by
  induction values with
  | nil => simp [checkAll]
  | cons q values ih =>
    obtain ⟨a, v⟩ := q
    unfold checkAll
    rw [bind_eq_ok_iff, List.forall_mem_cons, ← ih]
    constructor
    · rintro ⟨⟨⟩, hfirst, hrest⟩
      exact ⟨hfirst, hrest⟩
    · rintro ⟨hfirst, hrest⟩
      exact ⟨(), hfirst, hrest⟩

/-- An entity that may be inserted waits for nothing, and has a schema with a primary key. -/
theorem of_checkInsert {g : Graph} (h : checkInsert ses g e = .ok ()) :
    (g.entity e).pending = [] ∧ ∃ key, (g.entity e).schema.primaryKey = some key := by
  unfold checkInsert at h
  simp only [bind_eq_ok_iff] at h
  obtain ⟨_, hpending, key, hkey, -⟩ := h
  exact ⟨checkPending_eq_ok_iff.1 hpending, key, Schema.key_eq_ok_iff.1 hkey⟩

/-- Everything of an entity agrees with storage. -/
def marked (e : EntityId) (t : Traversal EntityId σ) : Traversal EntityId σ :=
  { t with world := { t.world with graph := (t.world.graph.markClean e).markStored e } }

/-- How inserting the rows of an entity ends. -/
theorem ends_insertRows
    (hcheck : ∀ error, checkInsert ses t.world.graph e = .error error → E error t)
    (hrows : ∀ key s values, (t.world.graph.entity e).schema = s → s.primaryKey = some key →
      t.world.graph.dirtyAtomics e = values → checkInsert ses t.world.graph e = .ok () →
      (insertFirst e s.table (columnsIn s values s.table)).Ends t
        (fun _ t' => (t'.world.graph.key? e = none → ∀ error, E error t') ∧
          ∀ v, t'.world.graph.key? e = some v →
            (insertRest e key v (restColumns s values)).Ends t'
              (fun _ t'' => P () (marked e t'')) E) E) :
    (insertRows ses e).Ends t P E := by
  unfold insertRows
  simp only [Act.ends_bind, ends_graph]
  rw [Act.ends_ofExcept]
  refine ⟨fun _ hok => ?_, hcheck⟩
  obtain ⟨-, key, hkey⟩ := of_checkInsert hok
  rw [Schema.key_eq_ok_iff.2 hkey, Act.ends_ofExcept_ok]
  simp only [columnsByTable_eq, Act.ends_bind, ends_graph, ends_onGraph, Act.ends_modify,
    List.tail_cons]
  refine (hrows key _ _ rfl hkey rfl hok).mono (fun _ t' ht' => ?_) fun _ _ h => h
  unfold Graph.requireKey
  cases hv : t'.world.graph.key? e with
  | none => exact ht'.1 hv _
  | some v => exact ht'.2 v hv

/-- How writing the changes of an entity ends. -/
theorem ends_updateRows
    (hfail : (t.world.graph.entity e).pending ≠ [] ∨ changes t.world.graph e ≠ [] →
      ∀ error, E error t)
    (hclean : (t.world.graph.entity e).pending = [] → changes t.world.graph e = [] →
      P () (marked e t))
    (hrows : ∀ key s v, (t.world.graph.entity e).schema = s → s.primaryKey = some key →
      t.world.graph.key? e = some v → (t.world.graph.entity e).pending = [] →
      changes t.world.graph e ≠ [] →
      (updateTables e key v (columnsByTable s (changes t.world.graph e))).Ends t
        (fun _ t' => P () (marked e t')) E) :
    (updateRows ses e).Ends t P E := by
  unfold updateRows
  simp only [Act.ends_bind, ends_graph]
  rw [Act.ends_ofExcept]
  refine ⟨fun _ hok => ?_, fun error herror => hfail (.inl fun hnil => ?_) error⟩
  · have hpending := checkPending_eq_ok_iff.1 hok
    simp only [ends_onGraph, Act.ends_modify, Act.ends_bind, Act.ends_ite, Bool.not_eq_true']
    refine ⟨fun hdirty => ?_, fun hnil => hclean hpending (by simpa using hnil)⟩
    have hsome : changes t.world.graph e ≠ [] := fun hnil => by simp [hnil] at hdirty
    have hfail' := hfail (.inr hsome)
    have hupdate : (Act.ofExcept (t.world.graph.entity e).schema.key).Ends t
        (fun key t' => (Act.ofExcept (t.world.graph.requireKey e)).Ends t' (fun v t' =>
          (updateTables e key v (columnsByTable (t.world.graph.entity e).schema
            (changes t.world.graph e))).Ends t' (fun _ t' => P () (marked e t')) E) E) E := by
      simp only [Act.ends_ofExcept]
      refine ⟨fun key hkey => ⟨fun v hv => ?_, fun error _ => hfail' error⟩,
        fun error _ => hfail' error⟩
      unfold Graph.requireKey at hv
      split at hv
      · next w hw =>
        obtain rfl := Except.ok.inj hv
        exact hrows key _ w rfl (Schema.key_eq_ok_iff.1 hkey) hw hpending hsome
      · cases hv
    exact ⟨fun _ => Act.ends_ofExcept.2 ⟨fun _ _ => hupdate, fun error _ => hfail' error⟩,
      fun _ => hupdate⟩
  · rw [checkPending_eq_ok_iff.2 hnil] at herror
    cases herror

end Save

end EntityGraph
