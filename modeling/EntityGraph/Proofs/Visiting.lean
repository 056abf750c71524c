import EntityGraph.Proofs.Causes
import EntityGraph.Proofs.Deleting
import EntityGraph.Proofs.Persistent
import EntityGraph.Proofs.Shrinking
import EntityGraph.Proofs.Visits

/-!
# What visits do

Visits change a traversal one after the other. Between them there are statements that delete nothing, and
changes of the graph by which entities lose keys. What has been entered is not entered again, and rows
that are entered for the first time are deleted after the visits to their dependents and before those to
what they own.

A visit may be made of the target of a relation only, under a key that the relation hands on: the key
of the rows themselves, a value of the entity that they are loaded as, or a cell that the database has
answered with, brought into the form of some kind.

* `Deletion.Visited` — visits have been made, and these are the statements that were sent;
* `Deletion.Next` — what the visit of some rows may lead to;
* `Deletion.ends_visit_succ` — a visit makes what it answers with, if those below it do.
-/

namespace EntityGraph

/-- Whether a statement deletes rows. -/
def Statement.isDelete : Statement → Bool
  | delete _ => true
  | _ => false

/-- A statement that leaves no values in a database which it did not have before. -/
def Statement.AddsNothing : Statement → Prop
  | insert _ => False
  | update u => ∀ p ∈ u.columns, p.2 = .null
  | _ => True

/-- Work that fails for reasons of a sort does so wherever it ends. -/
theorem Act.Fails.ends {σ α : Type} {act : Act σ α} {s : σ} {S : Error → Prop} {P : α → σ → Prop}
    {E : Error → σ → Prop} (hfails : Act.Fails S act) (h : act.Ends s P E) :
    act.Ends s P (fun e t => S e ∧ E e t) :=
  (h.and (Act.fails_iff_ends.1 hfails s)).mono (fun _ _ ht => ht.1) fun _ _ ht => ⟨ht.2, ht.1⟩

/-! ### Losing keys -/

namespace Graph

variable {g g' g'' : Graph}

/-- Entities have lost their keys, perhaps, but none has come to one. -/
structure Forgets (g g' : Graph) : Prop where
  length : g'.entities.length = g.entities.length
  key : ∀ x k, g'.key? x = some k → g.key? x = some k

namespace Forgets

theorem refl (g : Graph) : Forgets g g :=
  ⟨rfl, fun _ _ h => h⟩

theorem trans (h : Forgets g g') (h' : Forgets g' g'') : Forgets g g'' :=
  ⟨h'.length.trans h.length, fun x k hk => h.key x k (h'.key x k hk)⟩

/-- A foreign key that is cleared may have been the key itself. -/
theorem cleared (g : Graph) (y : EntityId) (f : String) : Forgets g (g.cleared y f) where
  length := by simp [Graph.cleared, modifyEntity]
  key x k hk := by
    rcases entity_modifyEntity_cases g x y _ with hx | ⟨rfl, -, hx⟩
    · rwa [key?, Graph.cleared, hx] at hk
    · rw [key?, Graph.cleared, hx] at hk
      exact Entity.key?_of_cleared hk

/-- Rows that are gone leave the entity its key. -/
theorem markDeleted (g : Graph) (e : EntityId) : Forgets g (g.markDeleted e) where
  length := (SameShape.markDeleted g e).length
  key x _ hk := (key?_markDeleted g e x).symm.trans hk

end Forgets

end Graph

namespace Deletion

open Traversal

/-- Statements that were sent, each for the rows that it was sent for. -/
abbrev Journal := List ((String × Value) × Statement)

/-- The statements that delete rows under their key, one for each table, secondary tables first. -/
def Doomed.pass (d : Doomed) (key : Atomic) : List Statement :=
  (d.schema.secondary.reverse ++ [d.schema.table]).map fun table =>
    .delete { table, conditions := [Expr.columnEq key.column d.key] }

section made

variable {σ : Type} [Connection σ] {c : Catalog} {d : Doomed} {key : Atomic}
  {t t' t'' t₀ t₁ t₂ : Traversal (String × Value) σ} {l l' : Journal} {vs vs' : List Visit}

/-- What is done besides deleting: statements that add nothing, and changes of the graph by which
entities lose keys. -/
structure Aside (l : Journal) (t t' : Traversal (String × Value) σ) : Prop where
  entered : t'.entered = t.entered
  graph : t.world.graph.Forgets t'.world.graph
  journal : t'.journal = t.journal ++ l
  sent : t'.world.wire.sent = t.world.wire.sent ++ l.map (·.2)
  link : t'.world.wire.link = replay t.world.wire.link l
  mild : ∀ p ∈ l, p.2.AddsNothing ∧ p.2.isDelete = false

omit [Connection σ] in
/-- What was sent for some rows, without the rows. -/
theorem map_snd_sentFor (r : String × Value) (l : List Statement) : (l.map (r, ·)).map (·.2) = l := by
  rw [List.map_map]
  exact List.map_id l

/-- A statement that was executed, and neither deletes nor adds anything. -/
theorem Aside.of_executed {r : String × Value} {l : List Statement} (h : Executed r l t t')
    (hmild : ∀ s ∈ l, s.AddsNothing ∧ s.isDelete = false) : Aside (l.map (r, ·)) t t' where
  entered := h.entered
  graph := h.graph ▸ .refl _
  journal := h.journal
  sent := by rw [h.sent, map_snd_sentFor]
  link := h.link
  mild p hp := by
    obtain ⟨s, hs, rfl⟩ := List.mem_map.1 hp
    exact hmild s hs

/-- A change of the graph by which entities lose keys. -/
theorem Aside.of_forgets {g : Graph} (h : t.world.graph.Forgets g) :
    Aside [] t { t with world := { t.world with graph := g } } :=
  ⟨rfl, h, by simp, by simp, rfl, fun _ hp => absurd hp List.not_mem_nil⟩

/-- Visits have been made one after the other, and this is what was sent on the way. -/
inductive Visited : List Visit → Journal → Traversal (String × Value) σ →
    Traversal (String × Value) σ → Prop
  | done (t : Traversal (String × Value) σ) : Visited [] [] t t
  | aside {l l' : Journal} {vs : List Visit} {t t₁ t' : Traversal (String × Value) σ} :
      Aside l t t₁ → Visited vs l' t₁ t' → Visited vs (l ++ l') t t'
  | again {d : Doomed} {l : Journal} {vs : List Visit} {t t' : Traversal (String × Value) σ} :
      d.row ∈ t.entered → Visited vs l t t' → Visited (.again d :: vs) l t t'
  | first {d : Doomed} {key : Atomic} {dependents owned vs : List Visit} {l l' l'' : Journal}
      {t t₁ t₂ t₃ t' : Traversal (String × Value) σ} :
      d.row ∉ t.entered → d.schema.key = .ok key →
      Visited dependents l { t with entered := d.row :: t.entered } t₁ →
      Executed d.row (d.pass key) t₁ t₂ → Visited owned l' t₂ t₃ → Visited vs l'' t₃ t' →
      Visited (.first d key dependents owned :: vs) (l ++ ((d.pass key).map (d.row, ·) ++ (l' ++ l''))) t t'

/-- Nothing but what is done aside. -/
theorem Aside.visited (h : Aside l t t') : Visited [] l t t' := by
  simpa using Visited.aside h (.done t')

/-- Further visits come after those that have been made. -/
theorem Visited.append (h : Visited vs l t t') (h' : Visited vs' l' t' t'') :
    Visited (vs ++ vs') (l ++ l') t t'' := by
  induction h with
  | done _ => exact h'
  | aside ha _ ih =>
    rw [List.append_assoc]
    exact .aside ha (ih h')
  | again hd _ ih => exact .again hd (ih h')
  | first hd hkey hdependents hpass howned _ _ _ ih =>
    simp only [List.append_assoc]
    exact .first hd hkey hdependents hpass howned (ih h')

/-- The course of a traversal: it has entered more, entities have lost keys, and nothing was added to the
database. -/
structure Later (t t' : Traversal (String × Value) σ) : Prop where
  entered : t.entered ⊆ t'.entered
  graph : t.world.graph.Forgets t'.world.graph
  link : ∃ l : Journal, (∀ p ∈ l, p.2.AddsNothing) ∧ t'.world.wire.link = replay t.world.wire.link l

namespace Later

theorem refl (t : Traversal (String × Value) σ) : Later t t :=
  ⟨fun _ hr => hr, .refl _, [], fun _ hp => absurd hp List.not_mem_nil, rfl⟩

theorem trans (h : Later t t') (h' : Later t' t'') : Later t t'' where
  entered := List.Subset.trans h.entered h'.entered
  graph := h.graph.trans h'.graph
  link := by
    obtain ⟨l, hl, hlink⟩ := h.link
    obtain ⟨l', hl', hlink'⟩ := h'.link
    refine ⟨l ++ l', fun p hp => ?_, by rw [hlink', hlink, replay_append]⟩
    exact (List.mem_append.1 hp).elim (hl p) (hl' p)

theorem aside (h : Aside l t t') : Later t t' :=
  ⟨h.entered ▸ List.Subset.refl _, h.graph, l, fun p hp => (h.mild p hp).1, h.link⟩

theorem entering (t : Traversal (String × Value) σ) (r : String × Value) :
    Later t { t with entered := r :: t.entered } :=
  ⟨fun _ hr => List.mem_cons_of_mem _ hr, .refl _, [], fun _ hp => absurd hp List.not_mem_nil, rfl⟩

theorem pass (h : Executed d.row (d.pass key) t t') : Later t t' := by
  refine ⟨h.entered ▸ List.Subset.refl _, h.graph ▸ .refl _, _, fun p hp => ?_, h.link⟩
  obtain ⟨s, hs, rfl⟩ := List.mem_map.1 hp
  obtain ⟨table, -, rfl⟩ := List.mem_map.1 hs
  trivial

theorem visited (h : Visited vs l t t') : Later t t' := by
  induction h with
  | done t => exact .refl t
  | aside ha _ ih => exact (aside ha).trans ih
  | again _ _ ih => exact ih
  | first _ _ _ hpass _ _ ihdependents ihowned ih =>
    exact (entering _ _).trans (ihdependents.trans ((pass hpass).trans (ihowned.trans ih)))

end Later

/-- How a traversal that fails has gone on. What is done before the failure comes before it. -/
structure Faults (E : Traversal (String × Value) σ → Error → Traversal (String × Value) σ → Prop) :
    Prop where
  aside : ∀ {t t' r l error}, Error.Ordinary error → Sent r l t t' →
    (∀ s ∈ l, s.isDelete = false) → E t error t'
  after : ∀ {vs l t t₁ t' error}, Visited vs l t t₁ → E t₁ error t' → E t error t'
  entered : ∀ {d : Doomed} {t t' error}, d.row ∉ t.entered →
    E { t with entered := d.row :: t.entered } error t' → E t error t'
  pass : ∀ {d : Doomed} {key vs l l' t t₁ t' error}, d.row ∉ t.entered → d.schema.key = .ok key →
    Visited vs l { t with entered := d.row :: t.entered } t₁ → Error.Ordinary error →
    Sent d.row l' t₁ t' → l' <+: d.pass key → E t error t'
  owned : ∀ {d : Doomed} {key vs l t t₁ t₂ t' error}, d.row ∉ t.entered → d.schema.key = .ok key →
    Visited vs l { t with entered := d.row :: t.entered } t₁ → Executed d.row (d.pass key) t₁ t₂ →
    E t₂ error t' → E t error t'

/-- A key that rows hand on: their own, a value of the entity that they are loaded as, or a cell that was
answered, in the form of some kind. -/
def Handed (Cell : Value → Prop) (d : Doomed) (v : Value) : Prop :=
  d.loaded.isSome ∨ v = d.key ∨
    ∃ (kind : AtomicKind) (raw : Value), raw ≠ .null ∧ Cell raw ∧ kind.coerce? raw = some v

/-- What may be visited on behalf of rows. -/
structure Next (c : Catalog) (Cell : Value → Prop) (d x : Doomed) (g : Graph) : Prop where
  type : ∃ comp ∈ d.schema.components, c.schema comp.target = .ok x.schema
  key : Handed Cell d x.key
  loaded : ∀ e ∈ x.loaded, g.key? e = some x.key

/-- Rows that are looked up among entities may be visited. -/
theorem Next.withKey {Cell : Value → Prop} {comp : Component} {target : Schema} {v : Value}
    (hcomp : comp ∈ d.schema.components) (htarget : c.schema comp.target = .ok target)
    (hv : Handed Cell d v) (g : Graph) (l : List EntityId) :
    Next c Cell d ⟨target, v, withKey? g l v⟩ g :=
  ⟨⟨comp, hcomp, htarget⟩, hv, fun e he => by
    simpa using List.find?_some (show l.find? (fun e => g.key? e == some v) = some e from he)⟩

/-- A cell in the form of an atomic is handed on, unless it is null. -/
theorem Handed.of_coerce {Cell : Value → Prop} {a : Atomic} {name : String} {raw v : Value}
    (hraw : raw ≠ .null → Cell raw) (hv : a.coerce name raw = .ok v) (hne : v ≠ .null) :
    Handed Cell d v := by
  rw [Atomic.coerce_eq_ok_iff] at hv
  have hraw' : raw ≠ .null := by
    rintro rfl
    exact hne (Option.some.inj hv).symm
  exact .inr (.inr ⟨a.kind, raw, hraw', hraw hraw', hv⟩)

/-! ### The parts of a visit -/

section walk

variable {E : Traversal (String × Value) σ → Error → Traversal (String × Value) σ → Prop}
  {Cell : Value → Prop} {visit : Doomed → DeletionM σ Visit} {comp : Component} {join : Join}
  {target : Schema}

/-- A visit makes what it answers with. -/
def Visits (E : Traversal (String × Value) σ → Error → Traversal (String × Value) σ → Prop)
    (act : DeletionM σ Visit) (d : Doomed) (t : Traversal (String × Value) σ) : Prop :=
  act.Ends t (fun v t' => v.doomed = d ∧ ∃ l, Visited [v] l t t') (E t)

/-- Queries of a column are answered with cells of a sort. -/
def Answers (Cell : Value → Prop) (t : Traversal (String × Value) σ) : Prop :=
  ∀ column (q : Select) rows, q.columns = [(.name column, none)] →
    (Connection.select q t.world.wire.link).1 = .ok rows →
    ∀ row ∈ rows, firstCell row ≠ .null → Cell (firstCell row)

/-- Wherever a traversal has got to since some moment, queries are answered with cells of a sort, and a
visit of what may be visited makes what it answers with. -/
structure Proceeds (c : Catalog) (Cell : Value → Prop)
    (E : Traversal (String × Value) σ → Error → Traversal (String × Value) σ → Prop)
    (visit : Doomed → DeletionM σ Visit) (d : Doomed) (t₀ : Traversal (String × Value) σ) : Prop where
  cells : ∀ t, Later t₀ t → Answers Cell t
  visits : ∀ x t, Later t₀ t → Next c Cell d x t.world.graph → Visits E (visit x) x t

theorem Proceeds.later (h : Proceeds c Cell E visit d t₀) (hlater : Later t₀ t) :
    Proceeds c Cell E visit d t :=
  ⟨fun t' ht' => h.cells t' (hlater.trans ht'), fun x t' ht' => h.visits x t' (hlater.trans ht')⟩

variable (F : Faults E)

include F

/-- A computation without a state goes on with its result, or fails for an ordinary reason, with nothing
done. -/
theorem Faults.ends_ofExcept {α : Type} {x : Except Error α} {P : α → Traversal (String × Value) σ → Prop}
    (hordinary : ∀ {error}, x = .error error → error.Ordinary) (h : ∀ a, x = .ok a → P a t) :
    (Act.ofExcept x).Ends t P (E t) := by
  rw [Act.ends_ofExcept]
  refine ⟨h, fun error herror => ?_⟩
  exact F.aside (hordinary herror) (Sent.refl ("", .null) t) fun _ hs => absurd hs List.not_mem_nil

/-- A query is answered, and the work goes on, or it is refused. -/
theorem Faults.ends_fetch {α : Type} {r : String × Value} {q : Select}
    {f : List Row → DeletionM σ α} {P : α → Traversal (String × Value) σ → Prop}
    (h : ∀ rows t', (Connection.select q t.world.wire.link).1 = .ok rows →
      Aside [(r, .select q)] t t' → (f rows).Ends t' P (E t')) :
    (onWire r q.fetch >>= f).Ends t P (E t) := by
  have hmild : ∀ s ∈ [Statement.select q], s.AddsNothing ∧ s.isDelete = false := by
    intro s hs
    obtain rfl := List.mem_singleton.1 hs
    exact ⟨trivial, rfl⟩
  rw [Act.ends_bind]
  have hends := ends_onWire_select (k := r) (q := q) (t := t)
    (P := fun rows t' => (f rows).Ends t' P (E t)) (E := fun _ t' => Sent r [.select q] t t')
    (fun rows t' hrows hexecuted => ?_) fun _ _ hs => hs
  · refine ((Fails.onWire (fails_send _ _)).ends hends).mono (fun _ _ ht => ht) fun error t' ht => ?_
    exact F.aside ht.1.ordinary ht.2 fun s hs => (hmild s hs).2
  · have haside : Aside [(r, .select q)] t t' := .of_executed hexecuted hmild
    exact (h rows t' hrows haside).mono (fun _ _ ht => ht) fun _ _ he => F.after haside.visited he

/-- Visits for each item, one after the other. -/
theorem Faults.ends_mapM {ι β : Type} {f : ι → DeletionM σ β} {m : β → List Visit} {Q : β → Prop}
    {items : List ι}
    (hf : ∀ i ∈ items, ∀ t', Later t t' →
      (f i).Ends t' (fun b t'' => (∃ l, Visited (m b) l t' t'') ∧ Q b) (E t')) :
    (items.mapM f).Ends t (fun bs t' => (∃ l, Visited (bs.flatMap m) l t t') ∧ ∀ b ∈ bs, Q b) (E t) := by
  induction items generalizing t with
  | nil => exact ⟨⟨[], .done t⟩, fun _ hb => absurd hb List.not_mem_nil⟩
  | cons i items ih =>
    rw [List.mapM_cons]
    simp only [Act.ends_bind, Act.ends_pure]
    refine (hf i List.mem_cons_self t (.refl t)).mono (fun b t₁ hb => ?_) fun _ _ he => he
    obtain ⟨⟨l, hmade⟩, hb⟩ := hb
    refine (ih fun j hj t' ht' => hf j (List.mem_cons_of_mem _ hj) t' ((Later.visited hmade).trans ht')).mono
      (fun bs t' hbs => ?_) fun _ _ he => F.after hmade he
    obtain ⟨⟨l', hmade'⟩, hbs⟩ := hbs
    refine ⟨⟨l ++ l', hmade.append hmade'⟩, fun b' hb' => ?_⟩
    rcases List.mem_cons.1 hb' with rfl | hb'
    · exact hb
    · exact hbs b' hb'

/-- What meets a condition is visited. -/
theorem Faults.ends_eachMatching (h : Proceeds c Cell E visit d t) {table : String} {condition : Expr}
    {l : List EntityId} (hcomp : comp ∈ d.schema.components)
    (htarget : c.schema comp.target = .ok target) :
    (eachMatching visit d target table condition l).Ends t (fun vs t' => ∃ l, Visited vs l t t') (E t) := by
  unfold eachMatching
  rw [Act.ends_bind]
  refine F.ends_ofExcept Schema.ordinary_of_key fun key _ => ?_
  refine F.ends_fetch fun rows t₁ hrows haside => ?_
  have hcells := h.cells t (.refl t) key.column _ rows rfl hrows
  rw [Act.ends_bind]
  refine (F.ends_mapM (m := id) (Q := fun _ => True) fun row hrow t' ht' => ?_).mono
    (fun found t' hmade => ?_) fun _ _ he => he
  · rw [Act.ends_bind]
    refine F.ends_ofExcept Atomic.ordinary_of_coerce fun v hv => ?_
    simp only [Act.ends_ite, Value.isNull_iff, Act.ends_pure, Act.ends_bind, ends_graph]
    refine ⟨fun _ => ⟨⟨[], .done t'⟩, trivial⟩, fun hne => ?_⟩
    have hnext := Next.withKey hcomp htarget (.of_coerce (hcells row hrow) hv hne) t'.world.graph l
    exact (h.visits _ t' ((Later.aside haside).trans ht') hnext).mono
      (fun _ _ hv' => ⟨hv'.2, trivial⟩) fun _ _ he => he
  · obtain ⟨⟨l', hmade⟩, -⟩ := hmade
    rw [List.flatMap_id] at hmade
    exact ⟨_, haside.visited.append hmade⟩

/-- A foreign key is emptied, or the update is refused. -/
theorem Faults.ends_empty {r : String × Value} {table column : String} {condition : Expr}
    {P : Nat → Traversal (String × Value) σ → Prop}
    (h : ∀ {n} t', Aside [(r, .update (.emptying table column condition))] t t' → P n t') :
    (onWire r (({ table, conditions := [condition] } : Update).set column .null).execute).Ends t P
      (E t) := by
  have hmild : ∀ s ∈ [Statement.update (.emptying table column condition)],
      s.AddsNothing ∧ s.isDelete = false := by
    intro s hs
    obtain rfl := List.mem_singleton.1 hs
    refine ⟨fun p hp => ?_, rfl⟩
    obtain rfl := List.mem_singleton.1 hp
    rfl
  have hends := ends_onWire_update (k := r) (u := .emptying table column condition) (t := t) (P := P)
    (E := fun _ t' => Sent r [.update (.emptying table column condition)] t t')
    (fun hno => by cases hno) (fun _ t' _ hexecuted => h t' (.of_executed hexecuted hmild))
    fun _ _ _ hsent => hsent
  refine ((Fails.onWire (Save.fails_update _)).ends hends).mono (fun _ _ ht => ht) fun error t' ht => ?_
  exact F.aside ht.1.ordinary ht.2 fun s hs => (hmild s hs).2

omit F in
/-- Releasing the loaded dependents makes them lose keys at most. -/
theorem ends_release_forgets {E : Error → Traversal (String × Value) σ → Prop} (x : EntityId)
    (comp : Component) (join : Join) (t : Traversal (String × Value) σ) :
    (onGraph (release x comp join)).Ends t (fun _ => Aside [] t) E := by
  rw [ends_onGraph]
  exact (Graph.ends_release_keeps (J := fun g => t.world.graph.Forgets g ∧
      g.collections = t.world.graph.collections) (.refl _) (fun _ hg => hg.2)
    (fun y f _ g hg => ⟨hg.1.trans (.cleared g y f), hg.2⟩) ⟨.refl _, rfl⟩).mono
      (fun _ _ hg => .of_forgets hg.1) fun _ _ he => he

omit F in
/-- A condition is found, or refused for an ordinary reason. -/
theorem ordinary_of_referenceCondition {g : Graph} {column : String} {error : Error}
    (h : referenceCondition? g d comp join column = .error error) : error.Ordinary := by
  unfold referenceCondition? at h
  rcases bind_eq_error_iff.1 h with h | ⟨a, -, h⟩
  · exact Schema.ordinary_of_atomic h
  split at h
  · cases h
  cases hloaded : d.loaded with
  | some e =>
    rw [hloaded] at h
    rcases bind_eq_error_iff.1 h with h | ⟨_, -, h⟩
    · exact Graph.ordinary_of_value h
    · cases h
  | none =>
    simp only [hloaded] at h
    split at h
    · cases h
      trivial
    · rcases bind_eq_error_iff.1 h with h | ⟨_, -, h⟩
      · exact Schema.ordinary_of_key h
      · cases h

/-- The policy of a relation is applied. -/
theorem Faults.ends_eachDependent (h : Proceeds c Cell E visit d t)
    (hcomp : comp ∈ d.schema.components) :
    (eachDependent c visit d comp join).Ends t (fun vs t' => ∃ l, Visited vs l t t') (E t) := by
  unfold eachDependent
  rw [Act.ends_bind]
  refine F.ends_ofExcept Catalog.ordinary_of_schema fun target htarget => ?_
  rw [Act.ends_bind]
  refine F.ends_ofExcept Schema.ordinary_of_atomic fun foreignKey _ => ?_
  rw [Act.ends_bind, ends_graph, Act.ends_bind]
  refine F.ends_ofExcept ordinary_of_referenceCondition fun condition? _ => ?_
  cases condition? with
  | none => exact ⟨[], .done t⟩
  | some condition =>
    cases comp.onDelete with
    | keep => exact ⟨[], .done t⟩
    | setNull =>
      rw [Act.ends_bind]
      refine F.ends_empty fun t₁ haside => ?_
      cases d.loaded with
      | none => exact ⟨_, haside.visited⟩
      | some e =>
        rw [Act.ends_bind]
        exact (ends_release_forgets (E := E t) e comp join t₁).mono
          (fun _ _ haside' => ⟨_, haside.visited.append haside'.visited⟩) fun _ _ he => he
    | cascade =>
      rw [Act.ends_bind, ends_graph]
      exact F.ends_eachMatching h hcomp htarget

/-- A value is looked up in memory or asked for. -/
theorem Faults.ends_storedValue (h : Proceeds c Cell E visit d t) (name : String) :
    (storedValue d name).Ends t (fun v t' => (∃ l, Aside l t t') ∧ (v ≠ .null → Handed Cell d v))
      (E t) := by
  have hrefl : ∃ l, Aside l t t := ⟨[], .of_forgets (.refl _)⟩
  unfold storedValue
  rw [Act.ends_bind]
  refine F.ends_ofExcept Schema.ordinary_of_atomic fun a _ => ?_
  simp only [Act.ends_ite, Act.ends_pure]
  refine ⟨fun _ => ⟨hrefl, fun _ => .inr (.inl rfl)⟩, fun _ => ?_⟩
  cases hloaded : d.loaded with
  | some e =>
    rw [Act.ends_bind, ends_graph]
    exact F.ends_ofExcept Graph.ordinary_of_value fun v _ =>
      ⟨hrefl, fun _ => .inl (by rw [hloaded]; rfl)⟩
  | none =>
    rw [Act.ends_bind]
    refine F.ends_ofExcept Schema.ordinary_of_key fun key _ => ?_
    refine F.ends_fetch fun rows t₁ hrows haside => ?_
    refine F.ends_ofExcept Atomic.ordinary_of_coerce fun v hv => ⟨⟨_, haside⟩, .of_coerce (fun hne => ?_) hv⟩
    cases rows with
    | nil => exact absurd rfl hne
    | cons row rows => exact h.cells t (.refl t) a.column _ _ rfl hrows row List.mem_cons_self hne

/-- A relation is dealt with before the rows go. -/
theorem Faults.ends_eachPrepared (h : Proceeds c Cell E visit d t)
    (hcomp : comp ∈ d.schema.components) :
    (eachPrepared c visit d comp).Ends t (fun p t' => (∃ l, Visited p.1 l t t') ∧
        ∀ o ∈ p.2, o.component ∈ d.schema.components ∧ Handed Cell d o.value) (E t) := by
  have hnone : ∀ (vs : List Visit), ∀ o ∈ (vs, (none : Option Owned)).2,
      o.component ∈ d.schema.components ∧ Handed Cell d o.value := by
    rintro vs o ⟨⟩
  unfold eachPrepared
  simp only [Act.ends_ite, Act.ends_pure]
  refine ⟨fun _ => ⟨⟨[], .done t⟩, hnone []⟩, fun _ => ?_⟩
  rw [Act.ends_bind]
  refine F.ends_ofExcept Catalog.ordinary_of_join fun join _ => ?_
  cases join.side with
  | there =>
    simp only [Act.ends_bind, Act.ends_pure]
    exact (F.ends_eachDependent h hcomp).mono (fun vs _ hmade => ⟨hmade, hnone vs⟩) fun _ _ he => he
  | here =>
    simp only [Act.ends_ite, Act.ends_pure, Act.ends_bind]
    refine ⟨fun _ => ⟨⟨[], .done t⟩, hnone []⟩, fun _ => ?_⟩
    refine (F.ends_storedValue h join.foreignKey).mono (fun v t' ht => ⟨?_, fun o ho => ?_⟩)
      fun _ _ he => he
    · obtain ⟨⟨l, haside⟩, -⟩ := ht
      exact ⟨l, haside.visited⟩
    · split at ho
      · cases ho
      · next hnull =>
        obtain rfl := Option.some.inj ho
        exact ⟨hcomp, ht.2 fun hv => hnull (Value.isNull_iff.2 hv)⟩

/-- What a relation leads to is visited. -/
theorem Faults.ends_eachOwned (h : Proceeds c Cell E visit d t) {o : Owned}
    (hcomp : o.component ∈ d.schema.components) (hvalue : Handed Cell d o.value) :
    (eachOwned c visit d o).Ends t (fun vs t' => ∃ l, Visited vs l t t') (E t) := by
  unfold eachOwned
  rw [Act.ends_bind]
  refine F.ends_ofExcept Catalog.ordinary_of_schema fun target htarget => ?_
  rw [Act.ends_bind, ends_graph, Act.ends_bind]
  refine F.ends_ofExcept Schema.ordinary_of_atomic fun a _ => ?_
  simp only [Act.ends_ite, Act.ends_bind, Act.ends_pure]
  refine ⟨fun _ => ?_, fun _ => F.ends_eachMatching h hcomp htarget⟩
  have hnext := Next.withKey hcomp htarget hvalue t.world.graph (known t.world.graph d o.component)
  exact (h.visits _ t (.refl t) hnext).mono (fun _ _ hv => hv.2) fun _ _ he => he

omit F in
/-- The rows go, table by table, or some of the tables are left. -/
theorem ends_pass (key : Atomic) (tables : List String) :
    (tables.forM fun table => do
        let statement : Delete := { table, conditions := [Expr.columnEq key.column d.key] }
        let _ ← onWire d.row statement.execute).Ends t
      (fun _ t' => Executed d.row (tables.map fun table =>
        Statement.delete { table, conditions := [Expr.columnEq key.column d.key] }) t t')
      (fun error t' => error.Ordinary ∧ ∃ l, l <+: (tables.map fun table =>
        Statement.delete { table, conditions := [Expr.columnEq key.column d.key] }) ∧ Sent d.row l t t') := by
  induction tables generalizing t with
  | nil => exact .refl _ _
  | cons table tables ih =>
    rw [Act.ends_forM_cons]
    simp only [Act.ends_bind, Act.ends_pure]
    refine ((Fails.onWire (fails_send _ _)).ends (ends_onWire_delete (P := fun _ t' => Executed d.row
      [.delete { table, conditions := [Expr.columnEq key.column d.key] }] t t')
      (fun _ _ hdone => hdone) fun _ _ hsent => hsent)).mono (fun _ t₁ hdone => ?_) fun error t' he => ?_
    · refine ih.mono (fun _ _ hrest => hdone.trans hrest) fun error t' he => ?_
      obtain ⟨hordinary, l, hl, hsent⟩ := he
      exact ⟨hordinary, _, List.cons_prefix_cons.2 ⟨rfl, hl⟩, hdone.toSent.trans hsent⟩
    · exact ⟨he.1.ordinary, _, List.cons_prefix_cons.2 ⟨rfl, List.nil_prefix⟩, he.2⟩

/-- A visit makes what it answers with, if the visits below it do. -/
theorem Faults.ends_visit_succ (Cell : Value → Prop) {depth : Nat} (h : d.row ∉ t.entered →
      Proceeds c Cell E (Deletion.visit c depth) d { t with entered := d.row :: t.entered }) :
    Visits E (Deletion.visit c (depth + 1) d) d t := by
  unfold Visits Deletion.visit
  rw [Act.ends_bind]
  by_cases hentered : d.row ∈ t.entered
  · rw [Act.Ends, enter_of_mem hentered]
    exact ⟨rfl, [], .again hentered (.done t)⟩
  rw [Act.Ends, enter_of_not_mem hentered]
  have hproceeds := h hentered
  simp only [Bool.not_true, Bool.false_eq_true, if_false]
  rw [Act.ends_bind]
  refine (F.ends_ofExcept Schema.ordinary_of_key fun key hkey => ?_).mono (fun _ _ hv => hv)
    fun _ _ he => F.entered hentered he
  rw [Act.ends_bind]
  refine (F.ends_mapM (m := Prod.fst) fun comp hcomp t' ht' =>
    F.ends_eachPrepared (hproceeds.later ht') hcomp).mono (fun prepared t₁ hprepared => ?_)
      fun _ _ he => F.entered hentered he
  obtain ⟨⟨l, hdependents⟩, howned⟩ := hprepared
  rw [Act.ends_bind]
  refine (ends_pass key _).mono (fun _ t₂ hpass => ?_) fun error t' he => ?_
  · have hlater := (Later.visited hdependents).trans (.pass hpass)
    rw [Act.ends_bind]
    refine (F.ends_mapM (m := id) (Q := fun _ => True) fun o ho t' ht' => ?_).mono
      (fun owned t₃ hmade => ?_) fun _ _ he => F.owned hentered hkey hdependents hpass he
    · obtain ⟨p, hp, ho⟩ := List.mem_filterMap.1 ho
      obtain ⟨hcomp, hvalue⟩ := howned p hp o ho
      exact (F.ends_eachOwned ((hproceeds.later hlater).later ht') hcomp hvalue).mono
        (fun _ _ hmade => ⟨hmade, trivial⟩) fun _ _ he => he
    · obtain ⟨⟨l', hmade⟩, -⟩ := hmade
      rw [List.flatMap_id] at hmade
      have hfirst : ∀ {t' : Traversal (String × Value) σ}, Aside [] t₃ t' →
          ∃ l, Visited [.first d key (prepared.flatMap (·.1)) owned.flatten] l t t' := fun haside =>
        ⟨_, .first hentered hkey hdependents hpass hmade haside.visited⟩
      cases d.loaded with
      | none => exact ⟨rfl, hfirst (.of_forgets (.refl _))⟩
      | some e => exact ⟨rfl, hfirst (.of_forgets (.markDeleted _ e))⟩
  · obtain ⟨hordinary, l', hl', hsent⟩ := he
    exact F.pass hentered hkey hdependents hordinary hsent hl'

end walk

end made

end Deletion

end EntityGraph
