import EntityGraph.Proofs.Deleting
import EntityGraph.Proofs.Memory
import EntityGraph.Proofs.Persistent
import EntityGraph.Proofs.Together

/-!
# Deleting a loaded entity and deleting by key

A deletion of a loaded entity and one by its key, side by side on one database, send different
statements: the former compares with values from memory where the latter asks the database. Where memory
says what the database has, the statements are about the same rows, and both deletions leave the same
database, whatever else is in memory.

* `Deletion.Alike` — what the two have in common at corresponding moments;
* `Deletion.conditions_alike` — their conditions are met by the same rows;
* `Deletion.alike_deleteFrom` — they go on alike, by induction on the depth of the first one;
* `Session.delete_agrees` — they leave the same database;
* `Session.delete_disagrees` — not so when a policy reads what has been edited in memory.
-/

namespace EntityGraph

open Traversal

/-- The loaded relations of an entity lead to entities of the type that they say, in collections that
have the relation's join. -/
structure Graph.Typed (c : Catalog) (g : Graph) (x : EntityId) : Prop where
  target : ∀ r ∈ g.loadedRelations x, ∀ y ∈ g.targets r.2,
    c.schema r.1.target = .ok (g.entity y).schema
  join : ∀ r ∈ g.loadedRelations x, ∀ i, r.2 = .many i →
    c.join (g.entity x).schema r.1 = .ok (g.collection i).join

/-- Relations of one name have loaded the same. -/
theorem Graph.mem_loadedRelations {g : Graph} {x : EntityId} {comp : Component}
    (hcomp : comp ∈ (g.entity x).schema.components) {r : Component × Graph.Loaded}
    (hr : r ∈ g.loadedRelations x) (hname : r.1.name = comp.name) :
    (comp, r.2) ∈ g.loadedRelations x := by
  obtain ⟨other, -, hother⟩ := List.mem_filterMap.1 hr
  refine List.mem_filterMap.2 ⟨comp, hcomp, ?_⟩
  rw [← hname]
  split at hother
  · next hmany =>
    cases hother
    simp [hmany]
  · next hmany hone =>
    cases hother
    simp [hmany, hone]
  · cases hother

namespace Deletion

variable {c : Catalog} {g : Graph} {e : EntityId} {stack : List (String × Value)} {d : Doomed}
  {comp : Component} {delete delete' : Doomed → DeletionM Database Unit}
  {t t' u u' : Traversal (String × Value) Database}

/-- The rows alone, without the entity that they were loaded as. -/
def Doomed.byKey (d : Doomed) : Doomed :=
  { d with loaded := none }

/-- A doomed entity that is known is one that the deleted entity leads to, of the type and key. -/
def Fits (g : Graph) (e : EntityId) (d : Doomed) : Prop :=
  ∀ x ∈ d.loaded, g.LeadsTo e x ∧ (g.entity x).schema = d.schema ∧ g.key? x = some d.key

/-- Two deletions have the same database and have entered the same; and the first one's memory goes on
to say what that database has. -/
structure Alike (c : Catalog) (g : Graph) (e : EntityId) (stack : List (String × Value))
    (t t' : Traversal (String × Value) Database) : Prop where
  link : t'.world.wire.link = t.world.wire.link
  entered : t'.entered = t.entered
  opened : ∀ p ∈ stack, p ∈ t.entered
  remembers : g.Remembers c e t.world.graph
  upheld : Upheld c g e stack t.entered t.world.wire.link

/-- Deletions of a loaded entity and by key go on alike. -/
def DeletesAlike (c : Catalog) (g : Graph) (e : EntityId)
    (delete delete' : Doomed → DeletionM Database Unit) : Prop :=
  ∀ d stack t t', c.schema d.schema.name = .ok d.schema → Fits g e d → Alike c g e stack t t' →
    Act.Together (delete d) (delete' d.byKey) t t' fun _ _ => Alike c g e stack

/-- What has been sent on both sides, to the same effect. -/
theorem Alike.sent {k k' : String × Value} {l l' : List Statement} (h : Alike c g e stack t t')
    (hu : Sent k l t u) (hu' : Sent k' l' t' u') (hlink : u'.world.wire.link = u.world.wire.link)
    (hupheld : Upheld c g e stack t.entered u.world.wire.link) : Alike c g e stack u u' where
  link := hlink
  entered := by rw [hu.entered, hu'.entered, h.entered]
  opened := hu.entered ▸ h.opened
  remembers := hu.graph ▸ h.remembers
  upheld := hu.entered ▸ hupheld

/-- What has been done in memory, on the first side alone. -/
theorem Alike.inMemory (h : Alike c g e stack t t') {g' : Graph} (hremembers : g.Remembers c e g') :
    Alike c g e stack { t with world := { t.world with graph := g' } } t' :=
  ⟨h.link, h.entered, h.opened, hremembers, h.upheld⟩

/-- What memory says of a doomed entity. -/
theorem Alike.says (h : Alike c g e stack t t') (hs : c.schema d.schema.name = .ok d.schema)
    (hfits : Fits g e d) {x : EntityId} (hx : d.loaded = some x) {a : Atomic}
    (ha : a ∈ d.schema.policyReads c) :
    g.Says c e d.schema d.key a ((t.world.graph.entity x).atomicValue a.name) := by
  obtain ⟨hleads, hschema, hkey⟩ := hfits x hx
  exact ⟨hs, ha, x, hleads, hschema, hkey, (h.remembers.value x hleads a (hschema ▸ ha)).symm⟩

/-- What memory says of a doomed entity that is open is what the database has. -/
theorem Alike.tells (h : Alike c g e stack t t') (hs : c.schema d.schema.name = .ok d.schema)
    (hfits : Fits g e d) (hopen : d.row ∈ stack) {x : EntityId} (hx : d.loaded = some x) {a : Atomic}
    (ha : a ∈ d.schema.policyReads c) {v : Value} (hv : t.world.graph.value x a.name = .ok v) :
    t.world.wire.link.Tells d.schema a d.key v ∧
      (v ≠ .null → t.world.wire.link.rowsAt d.schema a d.key ≠ []) := by
  rw [Graph.value_eq_ok hv]
  have hsays := h.says hs hfits hx ha
  exact ⟨h.upheld.tells hsays, fun hne => h.upheld.found hsays hne fun _ => hopen⟩

/-- A known entity that is found by its key fits. -/
theorem Alike.fits (h : Alike c g e stack t t') {target : Schema} {known : List EntityId} {v : Value}
    (hknown : ∀ x ∈ known, g.LeadsTo e x ∧ (g.entity x).schema = target) :
    Fits g e ⟨target, v, withKey? t.world.graph known v⟩ := by
  intro x hx
  obtain ⟨hleads, hschema⟩ := hknown x (List.mem_of_find?_eq_some hx)
  exact ⟨hleads, hschema, h.remembers.key x v (by simpa using List.find?_some hx)⟩

/-- A key in memory is not null. -/
theorem Fits.key_ne_null (hfits : Fits g e d) {x : EntityId} (hx : d.loaded = some x) :
    d.key ≠ .null :=
  Graph.ne_null_of_key? (hfits x hx).2.2

/-- Both conditions are met by the same rows, if there is one on the first side at all. -/
theorem conditions_alike (h : Alike c g e stack t t') (hs : c.schema d.schema.name = .ok d.schema)
    (hfits : Fits g e d) (hopen : d.row ∈ stack) {g' : Graph} {join : Join} {column : String}
    (hread : ∀ a, d.schema.atomic join.referenced = .ok a → a.primaryKey = false →
      a ∈ d.schema.policyReads c)
    {condition? condition?' : Option Expr}
    (hcondition : referenceCondition? t.world.graph d comp join column = .ok condition?)
    (hcondition' : referenceCondition? g' d.byKey comp join column = .ok condition?') :
    ∃ q, condition?' = some q ∧
      ((condition? = none ∧ ∀ row, t.world.wire.link.meets row q = false) ∨
        ∃ p, condition? = some p ∧
          ∀ row, t.world.wire.link.meets row p = t.world.wire.link.meets row q) := by
  obtain ⟨key, hkey, -⟩ := Catalog.key_of_schema hs
  unfold referenceCondition? at hcondition hcondition'
  obtain ⟨a, ha, hcondition⟩ := bind_eq_ok_iff.1 hcondition
  obtain ⟨a', ha', hcondition'⟩ := bind_eq_ok_iff.1 hcondition'
  obtain rfl := Except.ok.inj (ha.symm.trans ha')
  split at hcondition
  · next hpk =>
    rw [if_pos hpk] at hcondition'
    exact ⟨_, (Except.ok.inj hcondition').symm, .inr ⟨_, (Except.ok.inj hcondition).symm, fun _ => rfl⟩⟩
  next hpk =>
  rw [if_neg hpk] at hcondition'
  have hasked : ¬(!a.constraints.unique) = true ∧ condition?' = some (.binary (.name column) .isIn
      (.query {
        columns := [(.name a.column, none)]
        tables := [{ name := d.schema.tableOf a }]
        conditions := [Expr.columnEq key.column d.key] })) := by
    simp only [Doomed.byKey] at hcondition'
    split at hcondition'
    · cases hcondition'
    · next hunique =>
      rw [Schema.key_eq_ok_iff.2 hkey] at hcondition'
      exact ⟨hunique, (Except.ok.inj hcondition').symm⟩
  obtain ⟨hunique, rfl⟩ := hasked
  refine ⟨_, rfl, ?_⟩
  cases hloaded : d.loaded with
  | none =>
    rw [hloaded] at hcondition
    dsimp only at hcondition
    rw [if_neg hunique, Schema.key_eq_ok_iff.2 hkey] at hcondition
    exact .inr ⟨_, (Except.ok.inj hcondition).symm, fun _ => rfl⟩
  | some x =>
    rw [hloaded] at hcondition
    obtain ⟨v, hv, hcondition⟩ := bind_eq_ok_iff.1 hcondition
    obtain ⟨htells, hfound⟩ := h.tells hs hfits hopen hloaded (hread a ha (by simpa using hpk)) hv
    have hmeets := fun row => htells.meets_question hfound hkey (hfits.key_ne_null hloaded) row column
    have hcondition := Except.ok.inj hcondition
    split at hcondition
    · next hnull =>
      refine .inl ⟨hcondition.symm, fun row => (hmeets row).trans ?_⟩
      rw [Value.isNull_iff.1 hnull, Bool.eq_false_iff]
      exact fun htrue => (Database.meets_columnEq.1 htrue).2 rfl
    · exact .inr ⟨_, hcondition.symm, fun row => (hmeets row).symm⟩

/-- Both sides ask, and each is answered. -/
theorem together_fetch {k k' : String × Value} {q q' : Select} (h : Alike c g e stack t t') :
    Act.Together (onWire k q.fetch) (onWire k' q'.fetch) t t' fun rows rows' u u' =>
      rows = t.world.wire.link.answer q ∧ rows' = t.world.wire.link.answer q' ∧
        Alike c g e stack u u' := by
  refine (Act.together_of_ends ends_fetch ends_fetch).mono fun rows rows' u u' hboth => ?_
  obtain ⟨⟨hrows, hu, hlink⟩, hrows', hu', hlink'⟩ := hboth
  rw [h.link] at hrows' hlink'
  exact ⟨hrows, hrows', h.sent hu.toSent hu'.toSent (hlink'.trans hlink.symm) (hlink ▸ h.upheld)⟩

/-- The second side asks alone. -/
theorem ends_fetch_right {k : String × Value} {q : Select} (h : Alike c g e stack t t') :
    (onWire k q.fetch).Ends t' (fun rows u' => rows = t.world.wire.link.answer q ∧
      Alike c g e stack t u') fun _ _ => True := by
  refine ends_fetch.mono (fun rows u' hu' => ?_) fun _ _ _ => trivial
  obtain ⟨hrows, hu', hlink'⟩ := hu'
  rw [h.link] at hrows hlink'
  exact ⟨hrows, h.sent (.refl k t) hu'.toSent hlink' h.upheld⟩

/-- The value that a policy reads is the same on both sides. -/
theorem together_storedValue (h : Alike c g e stack t t') (hs : c.schema d.schema.name = .ok d.schema)
    (hfits : Fits g e d) (hopen : d.row ∈ stack) {name : String}
    (hread : ∀ a, d.schema.atomic name = .ok a → a.primaryKey = false →
      a ∈ d.schema.policyReads c) :
    Act.Together (storedValue d name) (storedValue d.byKey name) t t' fun v v' u u' =>
      v = v' ∧ Alike c g e stack u u' := by
  unfold storedValue
  refine Act.together_lookup fun a ha => ?_
  have hname := (Schema.mem_of_atomic? (Schema.atomic_eq_ok_iff.1 ha)).2
  by_cases hpk : a.primaryKey = true
  · rw [if_pos hpk, if_pos hpk]
    exact Act.together_pure ⟨rfl, h⟩
  rw [if_neg hpk, if_neg hpk]
  cases hloaded : d.loaded with
  | none =>
    simp only [Doomed.byKey]
    refine Act.together_lookup fun key _ => ?_
    refine Act.together_bind (together_fetch h) fun rows rows' u u' hu => ?_
    obtain ⟨rfl, rfl, hu⟩ := hu
    exact Act.together_ofExcept fun v v' hv hv' => ⟨Except.ok.inj (hv.symm.trans hv'), hu⟩
  | some x =>
    simp only [Doomed.byKey]
    refine Act.together_left (ends_graph.2 ?_)
    refine Act.together_right (Act.ends_ofExcept.2 ⟨fun key hkey => ?_, fun _ _ => trivial⟩)
    refine Act.together_right ((ends_fetch_right h).mono (fun rows u' hu' => ?_) fun _ _ _ => trivial)
    obtain ⟨rfl, hu'⟩ := hu'
    refine Act.together_ofExcept fun v w hv hw => ⟨?_, hu'⟩
    have ha := hread a ha (by simpa using hpk)
    obtain ⟨htells, hfound⟩ := h.tells hs hfits hopen hloaded ha (hname ▸ hv)
    exact (htells.eq_of_answer hfound (Schema.key_eq_ok_iff.1 hkey) (hfits.key_ne_null hloaded) hw).symm

/-- The rows that meet a condition are deleted on both sides, if the conditions are met by the same
rows. -/
theorem together_deleteMatching (hdelete : DeletesAlike c g e delete delete') {target : Schema}
    {table : String} {p q : Expr} {known : List EntityId} (h : Alike c g e stack t t')
    (htarget : c.schema target.name = .ok target)
    (hmeets : ∀ row, t.world.wire.link.meets row p = t.world.wire.link.meets row q)
    (hknown : ∀ x ∈ known, g.LeadsTo e x ∧ (g.entity x).schema = target) :
    Act.Together (deleteMatching delete d target table p known)
      (deleteMatching delete' d.byKey target table q []) t t' fun _ _ => Alike c g e stack := by
  unfold deleteMatching
  refine Act.together_lookup fun key _ => ?_
  refine Act.together_bind (together_fetch h) fun rows rows' u u' hu => ?_
  obtain ⟨hrows, hrows', hu⟩ := hu
  have heq : rows' = rows := by
    rw [hrows, hrows', Database.answer_column, Database.answer_column]
    simp [Database.matching, hmeets]
  rw [heq]
  refine Act.together_forM (fun row _ u u' hu => ?_) hu
  refine Act.together_lookup fun v _ => ?_
  by_cases hnull : v.isNull = true
  · rw [if_pos hnull, if_pos hnull]
    exact Act.together_pure hu
  rw [if_neg hnull, if_neg hnull]
  refine Act.together_left (ends_graph.2 (Act.together_right (ends_graph.2 ?_)))
  exact hdelete ⟨target, v, withKey? u.world.graph known v⟩ stack u u' htarget (hu.fits hknown) hu

/-- What is known through a relation of a doomed entity is of the relation's target. -/
theorem Alike.known (h : Alike c g e stack t t') (htyped : ∀ x, g.LeadsTo e x → g.Typed c x)
    (hfits : Fits g e d) (hcomp : comp ∈ d.schema.components) {target : Schema}
    (htarget : c.schema comp.target = .ok target) :
    ∀ y ∈ known t.world.graph d comp, g.LeadsTo e y ∧ (g.entity y).schema = target := by
  intro y hy
  unfold Deletion.known at hy
  cases hloaded : d.loaded with
  | none =>
    rw [hloaded] at hy
    cases hy
  | some x =>
    rw [hloaded] at hy
    obtain ⟨hleads, hschema, -⟩ := hfits x hloaded
    obtain ⟨r, hr, hy⟩ := List.mem_flatMap.1 hy
    obtain ⟨hr, hname⟩ := List.mem_filter.1 hr
    have hshape := h.remembers.shape
    rw [hshape.loadedRelations_eq] at hr
    rw [hshape.targets_eq] at hy
    have hmem := Graph.mem_loadedRelations (hschema ▸ hcomp) hr (by simpa using hname)
    have hfound := (htyped x hleads).target _ hmem y hy
    exact ⟨hleads.tail (List.mem_flatMap.2 ⟨r, hr, hy⟩), Except.ok.inj (hfound.symm.trans htarget)⟩

/-- Releasing dependents changes nothing that policies read. -/
theorem ends_release {x : EntityId} {join : Join} {g' : Graph} (h : g.Remembers c e g')
    (htyped : g.Typed c x) (hcomp : comp ∈ (g.entity x).schema.components)
    (hjoin : c.join (g.entity x).schema comp = .ok join)
    (hread : ∀ target, c.schema comp.target = .ok target → ∀ a ∈ target.policyReads c,
      a.name ≠ join.foreignKey) :
    (release x comp join).Ends g' (fun _ => g.Remembers c e) fun _ _ => True := by
  have hclear : ∀ r ∈ g.loadedRelations x, r.1.name = comp.name → ∀ y ∈ g.targets r.2, ∀ g'',
      g.Remembers c e g'' → (Graph.clearForeignKey y join.foreignKey).Ends g''
        (fun _ => g.Remembers c e) fun _ _ => True := by
    intro r hr hname y hy g'' h''
    have htarget := htyped.target _ (Graph.mem_loadedRelations hcomp hr hname) y hy
    exact h''.clearForeignKey fun a ha => hread _ htarget a ha
  unfold release
  simp only [Act.ends_bind, Act.ends_get]
  rw [h.shape.loadedRelations_eq]
  refine Act.ends_forM (fun r hr g'' h'' => ?_) h
  rw [Act.ends_ite]
  refine ⟨fun hname => ?_, fun _ => h''⟩
  obtain ⟨c', loaded⟩ := r
  cases loaded with
  | many i =>
    have hcollection : g''.collection i = g.collection i := by
      unfold Graph.collection
      rw [h''.collections]
    have hsame := (htyped.join _ (Graph.mem_loadedRelations hcomp hr hname) i rfl).symm.trans hjoin
    unfold Graph.releaseMembers
    simp only [Act.ends_bind, Act.ends_get]
    rw [hcollection, Except.ok.inj hsame]
    exact Act.ends_forM (fun y hy g₁ h₁ => hclear _ hr hname y hy g₁ h₁) h''
  | one target =>
    cases target with
    | none => exact h''
    | some y => exact hclear _ hr hname y (List.mem_singleton.2 rfl) g'' h''

/-- A policy does nothing on the second side if no row meets its condition. -/
theorem ends_deleteMatching_right {k : Doomed} {target : Schema} {table : String} {q : Expr}
    {known : List EntityId} (h : Alike c g e stack t t')
    (hmeets : ∀ row, t.world.wire.link.meets row q = false) :
    (deleteMatching delete' k target table q known).Ends t'
      (fun _ u' => Alike c g e stack t u') fun _ _ => True := by
  unfold deleteMatching
  rw [Act.ends_bind, Act.ends_ofExcept]
  refine ⟨fun key _ => ?_, fun _ _ => trivial⟩
  rw [Act.ends_bind]
  refine (ends_fetch_right h).mono (fun rows u' hu' => ?_) fun _ _ _ => trivial
  obtain ⟨rfl, hu'⟩ := hu'
  have hnil : t.world.wire.link.matching table [q] = [] := by
    simp [Database.matching, hmeets]
  rw [Database.answer_column, hnil]
  exact hu'

/-- A column is emptied on both sides alike. -/
theorem together_empty (hsteady : c.Steady) (h : Alike c g e stack t t') {k k' : String × Value}
    {s : Schema} (hs : s ∈ c.schemas) {table column : String}
    (hcell : (table, column) ∈ s.policyEmpties c) {p q : Expr}
    (hmeets : ∀ row, t.world.wire.link.meets row p = t.world.wire.link.meets row q) :
    Act.Together (onWire k (({ table, conditions := [p] } : Update).set column .null).execute)
      (onWire k' (({ table, conditions := [q] } : Update).set column .null).execute) t t'
      fun _ _ => Alike c g e stack := by
  refine (Act.together_of_ends ends_empty ends_empty).mono fun _ _ u u' hboth => ?_
  obtain ⟨⟨hu, hlink, -⟩, hu', hlink', -⟩ := hboth
  rw [h.link, ← Database.updated_congr hmeets] at hlink'
  exact h.sent hu.toSent hu'.toSent (hlink'.trans hlink.symm)
    (hlink ▸ h.upheld.updated hsteady hs hcell)

/-- Both sides apply the policy of a relation alike. -/
theorem together_applyPolicy (hsteady : c.Steady) (hdelete : DeletesAlike c g e delete delete')
    (htyped : ∀ x, g.LeadsTo e x → g.Typed c x) (h : Alike c g e stack t t')
    (hs : c.schema d.schema.name = .ok d.schema) (hfits : Fits g e d) (hopen : d.row ∈ stack)
    (hcomp : comp ∈ d.schema.components) (hpolicy : comp.onDelete ≠ .keep) {join : Join}
    (hjoin : c.join d.schema comp = .ok join) (hside : join.side = .there) :
    Act.Together (applyPolicy c delete d comp join) (applyPolicy c delete' d.byKey comp join) t t'
      fun _ _ => Alike c g e stack := by
  unfold applyPolicy
  refine Act.together_lookup fun target htarget => Act.together_lookup fun foreignKey hforeignKey => ?_
  refine Act.together_left (ends_graph.2 (Act.together_right (ends_graph.2 ?_)))
  refine Act.together_left (Act.ends_ofExcept.2 ⟨fun condition? hcondition => ?_, fun _ _ => trivial⟩)
  refine Act.together_right (Act.ends_ofExcept.2 ⟨fun condition?' hcondition' => ?_, fun _ _ => trivial⟩)
  have hread : ∀ a, d.schema.atomic join.referenced = .ok a → a.primaryKey = false →
      a ∈ d.schema.policyReads c := by
    intro a ha hpk
    have hlocal : join.localAtomic = join.referenced := by rw [Join.localAtomic, hside]
    exact Schema.mem_policyReads hcomp hjoin (by simp [hside, Component.actsOn, hpolicy])
      (hlocal ▸ ha) hpk
  obtain ⟨q, rfl, hcases⟩ := conditions_alike h hs hfits hopen hread hcondition hcondition'
  rcases hcases with ⟨rfl, hmeets⟩ | ⟨p, rfl, hmeets⟩
  · -- nothing refers to the row, and only the second side sends anything
    cases hcase : comp.onDelete with
    | keep => exact absurd hcase hpolicy
    | setNull =>
      refine Act.together_right (ends_empty.mono (fun _ u' hu' => ?_) fun _ _ _ => trivial)
      obtain ⟨hu', hlink', -⟩ := hu'
      rw [h.link, Database.updated_of_not_meets hmeets] at hlink'
      exact Act.together_pure (h.sent (.refl d.row t) hu'.toSent hlink' h.upheld)
    | cascade =>
      refine Act.together_right (ends_graph.2 ?_)
      exact Act.together_pure_left (ends_deleteMatching_right h hmeets)
  · cases hcase : comp.onDelete with
    | keep => exact absurd hcase hpolicy
    | setNull =>
      have hcell := Schema.mem_policyEmpties hcomp hjoin hside hcase htarget hforeignKey
      refine Act.together_bind (together_empty hsteady h (Catalog.mem_schemas_iff.2 hs) hcell hmeets)
        fun _ _ u u' hu => ?_
      cases hloaded : d.loaded with
      | none => exact Act.together_pure hu
      | some x =>
        obtain ⟨hleads, hschema, -⟩ := hfits x hloaded
        have hrelease := ends_release hu.remembers (htyped x hleads) (hschema ▸ hcomp)
          (hschema ▸ hjoin) fun target htarget a ha =>
            hsteady.ne_foreignKey hs hcomp hjoin hside hcase htarget ha
        exact Act.together_pure_right (ends_onGraph.2 (hrelease.mono (fun _ _ => hu.inMemory)
          fun _ _ _ => trivial))
    | cascade =>
      refine Act.together_left (ends_graph.2 (Act.together_right (ends_graph.2 ?_)))
      exact together_deleteMatching hdelete h (Catalog.schema_schema_name htarget) hmeets
        (h.known htyped hfits hcomp htarget)

/-- Both sides prepare a relation alike, and find the same to delete later. -/
theorem together_prepare (hsteady : c.Steady) (hdelete : DeletesAlike c g e delete delete')
    (htyped : ∀ x, g.LeadsTo e x → g.Typed c x) (h : Alike c g e stack t t')
    (hs : c.schema d.schema.name = .ok d.schema) (hfits : Fits g e d) (hopen : d.row ∈ stack)
    (hcomp : comp ∈ d.schema.components) :
    Act.Together (prepare c delete d comp) (prepare c delete' d.byKey comp) t t'
      fun o? o?' u u' => (o? = o?' ∧ ∀ o ∈ o?, o.component ∈ d.schema.components) ∧
        Alike c g e stack u u' := by
  have hnone : ∀ o ∈ (none : Option Owned), o.component ∈ d.schema.components := fun o ho => by cases ho
  unfold prepare
  by_cases hkeep : comp.onDelete = .keep
  · rw [if_pos hkeep, if_pos hkeep]
    exact Act.together_pure ⟨⟨rfl, hnone⟩, h⟩
  rw [if_neg hkeep, if_neg hkeep]
  refine Act.together_lookup fun join hjoin => ?_
  cases hside : join.side with
  | there =>
    refine Act.together_bind (together_applyPolicy hsteady hdelete htyped h hs hfits hopen hcomp hkeep
      hjoin hside) fun _ _ u u' hu => ?_
    exact Act.together_pure ⟨⟨rfl, hnone⟩, hu⟩
  | here =>
    by_cases hcascade : comp.onDelete = .cascade
    · rw [if_neg (not_not.2 hcascade), if_neg (not_not.2 hcascade)]
      have hread : ∀ a, d.schema.atomic join.foreignKey = .ok a → a.primaryKey = false →
          a ∈ d.schema.policyReads c := by
        intro a ha hpk
        have hlocal : join.localAtomic = join.foreignKey := by rw [Join.localAtomic, hside]
        exact Schema.mem_policyReads hcomp hjoin (by simp [hside, Component.actsOn, hcascade])
          (hlocal ▸ ha) hpk
      refine Act.together_bind (together_storedValue h hs hfits hopen hread) fun v v' u u' hu => ?_
      obtain ⟨rfl, hu⟩ := hu
      refine Act.together_pure ⟨⟨rfl, fun o ho => ?_⟩, hu⟩
      split at ho
      · cases ho
      · obtain rfl := Option.some.inj ho
        exact hcomp
    · rw [if_pos hcascade, if_pos hcascade]
      exact Act.together_pure ⟨⟨rfl, hnone⟩, h⟩

/-- Both sides delete what a relation leads to alike. -/
theorem together_deleteOwned (hdelete : DeletesAlike c g e delete delete')
    (htyped : ∀ x, g.LeadsTo e x → g.Typed c x) (h : Alike c g e stack t t') (hfits : Fits g e d)
    {o : Owned} (hcomp : o.component ∈ d.schema.components) :
    Act.Together (deleteOwned c delete d o) (deleteOwned c delete' d.byKey o) t t'
      fun _ _ => Alike c g e stack := by
  unfold deleteOwned
  refine Act.together_lookup fun target htarget => ?_
  refine Act.together_left (ends_graph.2 (Act.together_right (ends_graph.2 ?_)))
  have hknown := h.known htyped hfits hcomp htarget
  refine Act.together_lookup fun a ha => ?_
  by_cases hpk : a.primaryKey = true
  · rw [if_pos hpk, if_pos hpk]
    exact hdelete ⟨target, o.value, withKey? t.world.graph _ o.value⟩ stack t t'
      (Catalog.schema_schema_name htarget) (h.fits hknown) h
  · rw [if_neg hpk, if_neg hpk]
    exact together_deleteMatching hdelete h (Catalog.schema_schema_name htarget) (fun _ => rfl) hknown

/-- The rows of a key in a table go on both sides. -/
theorem together_deleteTable (hsteady : c.Steady) (h : Alike c g e stack t t')
    (hs : c.schema d.schema.name = .ok d.schema) {key : Atomic} (hkey : d.schema.primaryKey = some key)
    {table : String} (htable : table ∈ d.schema.tables) (hentered : d.row ∈ t.entered)
    (hclosed : d.row ∉ stack) :
    Act.Together (onWire d.row (Delete.keyed table key.column d.key).execute)
      (onWire d.row (Delete.keyed table key.column d.key).execute) t t'
      fun _ _ u u' => Alike c g e stack u u' ∧ d.row ∈ u.entered := by
  refine (Act.together_of_ends ends_deleteKey ends_deleteKey).mono fun _ _ u u' hboth => ?_
  obtain ⟨⟨hu, hlink⟩, hu', hlink'⟩ := hboth
  rw [h.link] at hlink'
  exact ⟨h.sent hu.toSent hu'.toSent (hlink'.trans hlink.symm)
    (hlink ▸ h.upheld.without hsteady hs hkey htable hentered hclosed), hu.entered ▸ hentered⟩

/-- Entering opens a deletion on both sides. -/
theorem Alike.enter (h : Alike c g e stack t t') {p : String × Value} (hnew : p ∉ t.entered) :
    Alike c g e (p :: stack) { t with entered := p :: t.entered }
      { t' with entered := p :: t'.entered } where
  link := h.link
  entered := congrArg (p :: ·) h.entered
  opened q hq := by
    rcases List.mem_cons.1 hq with rfl | hq
    · exact List.mem_cons_self
    · exact List.mem_cons_of_mem _ (h.opened q hq)
  remembers := h.remembers
  upheld := h.upheld.enter hnew

/-- A deletion is closed on both sides. -/
theorem Alike.close {p : String × Value} (h : Alike c g e (p :: stack) t t') :
    Alike c g e stack t t' :=
  ⟨h.link, h.entered, fun q hq => h.opened q (List.mem_cons_of_mem _ hq), h.remembers, h.upheld.close⟩

/-- Deletions of a loaded entity and by key go on alike, whatever their depth. -/
theorem alike_deleteFrom (hsteady : c.Steady) (htyped : ∀ x, g.LeadsTo e x → g.Typed c x)
    (depth depth' : Nat) : DeletesAlike c g e (deleteFrom c depth) (deleteFrom c depth') := by
  induction depth generalizing depth' with
  | zero =>
    intro d stack t t' hs hfits h a u b u' ha hb
    cases ha
  | succ depth ih =>
    cases depth' with
    | zero =>
      intro d stack t t' hs hfits h a u b u' ha hb
      cases hb
    | succ depth' =>
    intro d stack t t' hs hfits h
    unfold deleteFrom
    by_cases hentered : d.row ∈ t.entered
    · refine Act.together_left ?_
      rw [Act.Ends, enter_of_mem hentered]
      refine Act.together_right ?_
      rw [Act.Ends, show d.byKey.row = d.row from rfl, enter_of_mem (h.entered ▸ hentered)]
      exact Act.together_pure h
    refine Act.together_left ?_
    rw [Act.Ends, enter_of_not_mem hentered]
    refine Act.together_right ?_
    rw [Act.Ends, show d.byKey.row = d.row from rfl, enter_of_not_mem (h.entered ▸ hentered)]
    have hopen := h.enter hentered
    have hclosed : d.row ∉ stack := fun hmem => hentered (h.opened _ hmem)
    refine Act.together_lookup fun key hkey => ?_
    refine Act.together_bind (Act.together_mapM (I := Alike c g e (d.row :: stack))
      (Q := fun o? => ∀ o ∈ o?, o.component ∈ d.schema.components) (fun comp hcomp u u' hu =>
        together_prepare hsteady (ih depth') htyped hu hs hfits List.mem_cons_self hcomp) hopen)
      fun owned owned' u u' hu => ?_
    obtain ⟨⟨rfl, howned⟩, hu⟩ := hu
    refine Act.together_bind (Act.together_forM
      (I := fun v v' => Alike c g e stack v v' ∧ d.row ∈ v.entered) (fun table htable v v' hv => ?_)
      ⟨hu.close, hu.opened _ List.mem_cons_self⟩) fun _ _ v v' hv => ?_
    · have hmem : table ∈ d.schema.tables := by
        rw [List.mem_append, List.mem_reverse, List.mem_singleton] at htable
        exact List.mem_cons.2 htable.symm
      exact Act.together_bind (together_deleteTable hsteady hv.1 hs (Schema.key_eq_ok_iff.1 hkey) hmem
        hv.2 hclosed) fun _ _ _ _ hw => Act.together_pure hw
    refine Act.together_bind (Act.together_forM (I := Alike c g e stack) (fun o ho v v' hv => ?_) hv.1)
      fun _ _ v v' hv => ?_
    · obtain ⟨o?, ho?, heq⟩ := List.mem_filterMap.1 ho
      exact together_deleteOwned (ih depth') htyped hv hfits (howned o? ho? o heq)
    -- in memory the entity is marked, which the other side does not know
    cases hloaded : d.loaded with
    | none => exact Act.together_pure hv
    | some x =>
      exact Act.together_pure_right
        (ends_onGraph.2 (Act.ends_modify.2 (hv.inMemory (hv.remembers.markDeleted x))))

end Deletion

/-- What memory says of an entity, and of those that it leads to, is what a database has, where policies
read it; its key is of the declared kind. -/
structure Graph.Recalls (c : Catalog) (g : Graph) (db : Database) (e : EntityId) : Prop where
  typed : ∀ x, g.LeadsTo e x → g.Typed c x
  values : ∀ {s k a v}, g.Says c e s k a v →
    db.Tells s a k v ∧ (v ≠ .null → db.rowsAt s a k ≠ [])
  key : ∀ key ∈ (g.entity e).schema.primaryKey, ∀ k ∈ g.key? e, key.kind.Holds k

namespace Session

open Deletion

variable {ses : Session} {e : EntityId} {w w' v v' : World Database} {k : Value}

/-- **Deleting from memory and by key agree.** In a catalog where policies and other types leave alone
what policies read, and where memory says of that what the database has, the deletion of a stored entity
and the deletion by its type and key leave the same database if both succeed, whatever else has been
edited or not been loaded in memory. -/
theorem delete_agrees (hbuilt : w.graph.Built ses.catalog) (hsteady : ses.catalog.Steady)
    (hrecalls : w.graph.Recalls ses.catalog w.wire.link e)
    (hstored : (w.graph.entity e).stored = true) (hkey : w.graph.key? e = some k)
    (hdelete : ses.delete e w = .ok () w') (hlink : v.wire.link = w.wire.link)
    (hdeleteByKey : ses.deleteByKey (w.graph.entity e).schema.name k v = .ok () v') :
    v'.wire.link = w'.wire.link := by
  rw [delete_eq hstored hkey] at hdelete
  obtain ⟨t, ht, rfl⟩ := run_ok_iff.1 hdelete
  obtain ⟨d, hdoomed, ht', rfl⟩ := of_deleteByKey hdeleteByKey
  obtain ⟨hschema, hloaded, key, hprimary, hcoerced⟩ := of_doomedByKey hdoomed
  -- both begin with the same type and key
  obtain ⟨hlt, hsome⟩ := Graph.of_key?_isSome (Option.isSome_of_mem hkey)
  obtain ⟨key', hprimary'⟩ := Option.isSome_iff_exists.1 hsome
  have hfound := (hbuilt.wellFormed.known e hlt).schema_of_key hprimary'
  have hs : d.schema = (w.graph.entity e).schema := Except.ok.inj (hschema.symm.trans hfound)
  have hkind := AtomicKind.coerce?_of_holds (hrecalls.key key (hs ▸ hprimary) k hkey)
  have hk : d.key = k :=
    (Option.some.inj (hkind.symm.trans (Atomic.coerce_eq_ok_iff.1 hcoerced))).symm
  have hd : d = Doomed.byKey ⟨(w.graph.entity e).schema, k, some e⟩ := by
    cases d
    simp_all [Doomed.byKey]
  have hfits : Fits w.graph e ⟨(w.graph.entity e).schema, k, some e⟩ := by
    intro x hx
    obtain rfl := Option.some.inj hx
    exact ⟨.refl, rfl, hkey⟩
  have hstart : Alike ses.catalog w.graph e [] { world := w } { world := v } :=
    ⟨hlink, rfl, fun p hp => absurd hp List.not_mem_nil, .refl _ _ _,
      fun hsays => (hrecalls.values hsays).1, fun hsays hne _ => (hrecalls.values hsays).2 hne⟩
  have halike := alike_deleteFrom hsteady hrecalls.typed (depthBound ses.catalog w)
    (depthBound ses.catalog v) _ [] _ _ hfound hfits hstart
  exact (halike () t () _ ht (hd ▸ ht')).link

end Session

/-! ### An author and a note in memory -/

namespace Press

/-- How the first author and the note are loaded, the note as one of the author's. -/
def loading : List Graph.Operation :=
  [.create "Author", .create "Note", .loadAtomics ⟨0⟩ [("id", .int 1), ("pen", .text "Hare")],
    .loadAtomics ⟨1⟩ [("id", .int 7), ("signature", .text "Hare")], .markStored ⟨0⟩, .markStored ⟨1⟩,
    .many ⟨0⟩ "notes", .append ⟨0⟩ ⟨1⟩]

/-- The author has been given a mentor, which storage does not know. -/
def mentored : World Database :=
  { graph := Graph.Operation.runAll catalog (loading ++ [.assign ⟨0⟩ "mentor" (.int 9)]) {}
    wire := ⟨database, []⟩ }

/-- The author has been given another pen name, which storage does not know. -/
def renamed : World Database :=
  { graph := Graph.Operation.runAll catalog (loading ++ [.assign ⟨0⟩ "pen" (.text "Fox")]) {}
    wire := ⟨database, []⟩ }

/-- The author leads to the note, and that to nothing else. -/
theorem mem_of_leadsTo_mentored {x : EntityId} (h : mentored.graph.LeadsTo ⟨0⟩ x) :
    x ∈ [(⟨0⟩ : EntityId), ⟨1⟩] :=
  h.mem_of_closed (by decide) (by decide)

/-- A mentor is not what policies read. -/
theorem recalls_mentored : mentored.graph.Recalls catalog database ⟨0⟩ where
  typed x hx := by
    have hauthor : mentored.graph.loadedRelations ⟨0⟩ = [(notes, .many ⟨0⟩)] := by decide
    have hnote : mentored.graph.loadedRelations ⟨1⟩ = [] := by decide
    have hmembers : mentored.graph.targets (.many ⟨0⟩) = [⟨1⟩] := by decide
    rcases List.mem_cons.1 (mem_of_leadsTo_mentored hx) with rfl | hx
    · refine ⟨fun r hr y hy => ?_, fun r hr i hi => ?_⟩
      · obtain rfl := List.mem_singleton.1 (hauthor ▸ hr)
        rw [hmembers, List.mem_singleton] at hy
        exact hy ▸ rfl
      · obtain rfl := List.mem_singleton.1 (hauthor ▸ hr)
        cases hi
        rfl
    · obtain rfl := List.mem_singleton.1 hx
      refine ⟨fun r hr => ?_, fun r hr => ?_⟩
      all_goals
        rw [hnote] at hr
        cases hr
  values := by
    rintro s k a v ⟨-, ha, x, hx, rfl, hk, rfl⟩
    have hall : ∀ x ∈ [(⟨0⟩ : EntityId), ⟨1⟩], ∀ k ∈ mentored.graph.key? x,
        ∀ a ∈ (mentored.graph.entity x).schema.policyReads catalog,
          let v := (mentored.graph.entity x).atomicValue a.name
          let rows := database.rowsAt (mentored.graph.entity x).schema a k
          a.kind.Holds v ∧ (∀ row ∈ rows, row.value a.column = v) ∧ (v ≠ .null → rows ≠ []) := by
      decide
    obtain ⟨hholds, hvalue, hfound⟩ := hall x (mem_of_leadsTo_mentored hx) k hk a ha
    exact ⟨⟨hholds, hvalue⟩, hfound⟩
  key := by decide

end Press

/-- An author whose new mentor is in memory alone is deleted as by key. -/
theorem Session.delete_agrees_author :
    (Press.session.delete ⟨0⟩).succeeds Press.mentored = true ∧
      (Press.session.deleteByKey "Author" (.int 1)).succeeds Press.mentored = true ∧
      ((Press.session.deleteByKey "Author" (.int 1)).final Press.mentored).wire.link =
        ((Press.session.delete ⟨0⟩).final Press.mentored).wire.link := by
  have hdelete : (Press.session.delete ⟨0⟩).succeeds Press.mentored = true := by decide +kernel
  have hdeleteByKey : (Press.session.deleteByKey "Author" (.int 1)).succeeds Press.mentored = true := by
    decide +kernel
  have hsteady : Press.catalog.Steady := by decide
  obtain ⟨_, w', hw'⟩ := Act.exists_of_succeeds hdelete
  obtain ⟨_, v', hv'⟩ := Act.exists_of_succeeds hdeleteByKey
  refine ⟨hdelete, hdeleteByKey, ?_⟩
  rw [Act.final, Act.final, hw', hv']
  exact Session.delete_agrees (.runAll _ .empty) hsteady Press.recalls_mentored rfl rfl hw' rfl hv'

/-- An author whose new pen name is in memory alone is not: the notes that tell the new name go, with
the author whose name it is in storage. -/
theorem Session.delete_disagrees :
    Press.renamed.graph.Built Press.catalog ∧ Press.catalog.Steady ∧
      (Press.renamed.graph.entity ⟨0⟩).stored = true ∧
      Press.renamed.graph.key? ⟨0⟩ = some (.int 1) ∧
      (Press.session.delete ⟨0⟩).succeeds Press.renamed = true ∧
      (Press.session.deleteByKey "Author" (.int 1)).succeeds Press.renamed = true ∧
      ((Press.session.delete ⟨0⟩).final Press.renamed).wire.link.rows =
        [⟨"Note", [("id", .int 7), ("signature", .text "Hare")]⟩] ∧
      ((Press.session.deleteByKey "Author" (.int 1)).final Press.renamed).wire.link.rows =
        [⟨"Author", [("id", .int 2), ("mentor", .null)]⟩,
          ⟨"Pen", [("id", .int 2), ("pen", .text "Fox")]⟩,
          ⟨"Note", [("id", .int 8), ("signature", .text "Fox")]⟩] := by
  refine ⟨.runAll _ .empty, ?_⟩
  decide +kernel

end EntityGraph
