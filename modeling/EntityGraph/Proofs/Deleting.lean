import EntityGraph.Proofs.Causes
import EntityGraph.Proofs.Shape
import EntityGraph.Session.Deletion

/-!
# What a deletion keeps

A deletion sends statements, releases loaded dependents and marks the deleted entities, along relations
that it follows to further rows. An invariant that each of these steps keeps is kept by the whole
deletion, whether it succeeds or fails.

The key of further rows is an answer of storage that has been coerced, or what the doomed entity stores
under a foreign key, which is handed on as it is.

* `Graph.ends_release_keeps` — what clearing each listed foreign key keeps, releasing keeps;
* `Deletion.Found`, `Deletion.KeyFor` — where the keys of further rows come from;
* `Deletion.Reason` — why a deletion fails;
* `Deletion.Rules` — the steps of a deletion, and what an invariant must satisfy for each;
* `Deletion.ends_deleteFrom` — what the steps keep, a deletion keeps.
-/

namespace EntityGraph

/-- A run ends as its traversal does, with the world of the traversal. -/
theorem Traversal.ends_run_iff {κ σ α : Type} {act : TraversalM κ σ α} {w : World σ}
    {P : α → World σ → Prop} {E : Error → World σ → Prop} :
    (Traversal.run act).Ends w P E ↔
      act.Ends { world := w } (fun a t => P a t.world) (fun e t => E e t.world) := by
  unfold Act.Ends Traversal.run
  cases act { world := w } <;> rfl

/-- A run leaves the world of its traversal. -/
theorem Traversal.final_run {κ σ α : Type} (act : TraversalM κ σ α) (w : World σ) :
    (Traversal.run act).final w = (act.final { world := w }).world := by
  unfold Act.final Traversal.run
  cases act { world := w } <;> rfl

namespace Graph

variable {g g' : Graph} {x : EntityId} {comp : Component} {join : Join}

/-- The loaded relations of a name list an entity, whose foreign key is a certain one of its atomics. A
collection knows its own foreign key. -/
def Lists (g : Graph) (x : EntityId) (comp : Component) (join : Join) (y : EntityId) (f : String) :
    Prop :=
  ∃ r ∈ g.loadedRelations x, r.1.name = comp.name ∧ y ∈ g.targets r.2 ∧
    match r.2 with
    | .one _ => join.foreignKey = f
    | .many i => (g.collection i).join.foreignKey = f

/-- A foreign key that storage has nulled is null and does not wait. -/
def cleared (g : Graph) (y : EntityId) (f : String) : Graph :=
  g.modifyEntity y fun z => (z.settle f).loadAtomic f .null

/-- What clearing each listed foreign key keeps, releasing the dependents of a relation keeps. It does
not fail. -/
theorem ends_release_keeps {J : Graph → Prop} {E : Error → Graph → Prop} (hshape : g.SameShape g')
    (hcollections : ∀ g', J g' → g'.collections = g.collections)
    (hclear : ∀ y f, g.Lists x comp join y f → ∀ g', J g' → J (g'.cleared y f)) (h : J g') :
    (Deletion.release x comp join).Ends g' (fun _ => J) E := by
  unfold Deletion.release
  simp only [Act.ends_bind, Act.ends_get]
  rw [hshape.loadedRelations_eq]
  refine Act.ends_forM (fun r hr g'' h'' => ?_) h
  rw [Act.ends_ite]
  refine ⟨fun hname => ?_, fun _ => h''⟩
  obtain ⟨c', loaded⟩ := r
  cases loaded with
  | many i =>
    have hcollection : g''.collection i = g.collection i := by
      unfold Graph.collection
      rw [hcollections _ h'']
    unfold Graph.releaseMembers
    simp only [Act.ends_bind, Act.ends_get]
    rw [hcollection]
    exact Act.ends_forM (fun y hy g₁ h₁ => hclear y _ ⟨_, hr, hname, hy, rfl⟩ g₁ h₁) h''
  | one target =>
    cases target with
    | none => exact h''
    | some y => exact hclear y _ ⟨_, hr, hname, List.mem_singleton.2 rfl, rfl⟩ g'' h''

end Graph

namespace Deletion

open Traversal

variable {σ : Type} [Connection σ]

/-! ### Keys of further rows -/

/-- What a deletion finds a doomed entity to store under an atomic: the key of its rows, what it has in
memory at some time in the course of the deletion, or an answer of storage that has been coerced. -/
inductive Found (I : Traversal (String × Value) σ → Prop) (d : Doomed) (a : Atomic) : Value → Prop
  | key {v : Value} : a.primaryKey = true → v = d.key → Found I d a v
  | loaded {x : EntityId} {t : Traversal (String × Value) σ} {v : Value} :
      d.loaded = some x → I t → t.world.graph.value x a.name = .ok v → Found I d a v
  | answered {cell v : Value} : a.coerce d.schema.name cell = .ok v → Found I d a v

/-- A cascading relation of the doomed entity stores a value that it is followed by. -/
structure Owned.Due (c : Catalog) (I : Traversal (String × Value) σ → Prop) (d : Doomed) (o : Owned) :
    Prop where
  component : o.component ∈ d.schema.components
  cascades : o.component.onDelete = .cascade
  join : c.join d.schema o.component = .ok o.join
  here : o.join.side = .here
  found : ∃ a, d.schema.atomic o.join.foreignKey = .ok a ∧ Found I d a o.value
  value : o.value ≠ .null

/-- A relation of the doomed entity leads to rows under a key: one that storage has answered, or the
value of the foreign key, where this refers to the key of the target. -/
inductive KeyFor (c : Catalog) (I : Traversal (String × Value) σ → Prop) (d : Doomed)
    (comp : Component) (target : Schema) : Value → Prop
  | answered {key : Atomic} {cell v : Value} : target.key = .ok key →
      key.coerce target.name cell = .ok v → KeyFor c I d comp target v
  | owned {o : Owned} {a : Atomic} : o.component = comp → o.Due c I d →
      target.atomic o.join.referenced = .ok a → a.primaryKey = true → KeyFor c I d comp target o.value

/-- Why the deletion of rows fails that satisfy `D`. -/
inductive Reason (c : Catalog) (D : Doomed → Prop) (I : Traversal (String × Value) σ → Prop) :
    Error → Prop
  | exhausted : Reason c D I .exhausted
  | refused (sql message : String) : Reason c D I (.database sql message)
  | ambiguous (entity property referenced : String) :
      Reason c D I (.malformedRelation entity property (.policyNeedsUnique referenced))
  | key {s : Schema} {e : Error} : s.key = .error e → Reason c D I e
  | coerce {a : Atomic} {entity : String} {v : Value} {e : Error} :
      a.coerce entity v = .error e → Reason c D I e
  | join {d : Doomed} {comp : Component} {e : Error} : D d → comp ∈ d.schema.components →
      c.join d.schema comp = .error e → Reason c D I e
  | target {d : Doomed} {comp : Component} {join : Join} {e : Error} : D d →
      comp ∈ d.schema.components → c.join d.schema comp = .ok join →
      c.schema comp.target = .error e → Reason c D I e
  | localAtomic {d : Doomed} {comp : Component} {join : Join} {e : Error} : D d →
      comp ∈ d.schema.components → c.join d.schema comp = .ok join →
      d.schema.atomic join.localAtomic = .error e → Reason c D I e
  | remoteAtomic {d : Doomed} {comp : Component} {join : Join} {target : Schema} {e : Error} : D d →
      comp ∈ d.schema.components → c.join d.schema comp = .ok join →
      c.schema comp.target = .ok target → target.atomic join.remoteAtomic = .error e → Reason c D I e
  | value {d : Doomed} {x : EntityId} {t : Traversal (String × Value) σ} {name : String} {a : Atomic}
      {e : Error} : D d → d.loaded = some x → I t → d.schema.atomic name = .ok a →
      t.world.graph.value x a.name = .error e → Reason c D I e

/-- An invariant `I` of the deletions of rows that satisfy `D`, and what holds where one fails. -/
structure Rules (c : Catalog) (D : Doomed → Prop) (I : Traversal (String × Value) σ → Prop)
    (E : Error → Traversal (String × Value) σ → Prop) : Prop where
  fail : ∀ e t, I t → Reason c D I e → E e t
  enter : ∀ d t, D d → I t → I { t with entered := d.row :: t.entered }
  ask : ∀ d t t' q, D d → I t → Sent d.row [.select q] t t' → I t'
  empty : ∀ d t t' u, D d → I t → Sent d.row [.update u] t t' → I t'
  delete : ∀ d key t t' table, D d → d.schema.primaryKey = some key → I t →
    Sent d.row [.delete { table, conditions := [Expr.columnEq key.column d.key] }] t t' → I t'
  release : ∀ d x comp join t, D d → d.loaded = some x → comp ∈ d.schema.components →
    comp.onDelete = .setNull → c.join d.schema comp = .ok join → join.side = .there → I t →
    (onGraph (release x comp join)).Ends t (fun _ => I) E
  mark : ∀ d x t, D d → d.loaded = some x → I t →
    I { t with world := { t.world with graph := t.world.graph.markDeleted x } }
  next : ∀ d comp target t v, D d → comp ∈ d.schema.components → comp.onDelete = .cascade →
    c.schema comp.target = .ok target → I t → v ≠ .null → KeyFor c I d comp target v →
    D ⟨target, v, none⟩ ∧ ∀ x ∈ known t.world.graph d comp, D ⟨target, v, some x⟩

variable {c : Catalog} {D : Doomed → Prop} {I : Traversal (String × Value) σ → Prop}
  {E : Error → Traversal (String × Value) σ → Prop} {delete : Doomed → DeletionM σ Unit} {d : Doomed}
  {comp : Component} {join : Join} {target : Schema} {t : Traversal (String × Value) σ}

omit [Connection σ] in
/-- Of what is not loaded, nothing is found in memory. -/
theorem Owned.Due.of_not_loaded {I' : Traversal (String × Value) σ → Prop} {o : Owned}
    (h : o.Due c I d) (hloaded : d.loaded = none) : o.Due c I' d := by
  obtain ⟨a, ha, hfound⟩ := h.found
  refine { h with found := ⟨a, ha, ?_⟩ }
  cases hfound with
  | key hkey hv => exact .key hkey hv
  | loaded hx =>
    rw [hloaded] at hx
    cases hx
  | answered hv => exact .answered hv

/-! ### The walk -/

/-- A deletion keeps the invariant wherever it is called. -/
def Keeps (D : Doomed → Prop) (I : Traversal (String × Value) σ → Prop)
    (E : Error → Traversal (String × Value) σ → Prop) (delete : Doomed → DeletionM σ Unit) : Prop :=
  ∀ d t, D d → I t → (delete d).Ends t (fun _ => I) E

omit [Connection σ] in
/-- What is looked up among known entities is one of them, or none. -/
theorem doomed_withKey? {l : List EntityId} {v : Value} (hnone : D ⟨target, v, none⟩)
    (hsome : ∀ x ∈ l, D ⟨target, v, some x⟩) (g : Graph) : D ⟨target, v, withKey? g l v⟩ := by
  cases h : withKey? g l v with
  | none => exact hnone
  | some x => exact hsome x (List.mem_of_find?_eq_some h)

omit [Connection σ] in
/-- What a condition on referring rows fails for. -/
theorem reason_of_referenceCondition? (hd : D d) (hcomp : comp ∈ d.schema.components)
    (hjoin : c.join d.schema comp = .ok join) (hside : join.side = .there) {column : String} {e : Error}
    (h : I t) (he : referenceCondition? t.world.graph d comp join column = .error e) :
    Reason c D I e := by
  have hlocal : join.localAtomic = join.referenced := by rw [Join.localAtomic, hside]
  unfold referenceCondition? at he
  rcases bind_eq_error_iff.1 he with he | ⟨a, ha, he⟩
  · exact .localAtomic hd hcomp hjoin (hlocal ▸ he)
  split at he
  · cases he
  cases hloaded : d.loaded with
  | some x =>
    simp only [hloaded] at he
    rcases bind_eq_error_iff.1 he with he | ⟨v, -, he⟩
    · exact .value hd hloaded h ha he
    · split at he <;> cases he
  | none =>
    simp only [hloaded] at he
    split at he
    · cases he
      exact .ambiguous _ _ _
    · rcases bind_eq_error_iff.1 he with he | ⟨_, -, he⟩
      · exact .key he
      · cases he

section rules

variable (R : Rules c D I E)

include R

omit [Connection σ] in
/-- A statement that fails is refused by the database. -/
theorem ends_onWire_keeps {α : Type} {k : String × Value} {act : WireM σ α}
    {P : α → Traversal (String × Value) σ → Prop} (hact : Act.Fails (Reason c D I) act)
    (h : (onWire k act).Ends t P fun _ => I) : (onWire k act).Ends t P E :=
  (h.and (Act.fails_iff_ends.1 (Fails.onWire hact) t)).mono (fun _ _ h' => h'.1)
    fun e t' h' => R.fail e t' h'.1 h'.2

/-- A query is answered or refused, and changes nothing else. -/
theorem ends_ask_keeps (hd : D d) {q : Select} {P : List Row → Traversal (String × Value) σ → Prop}
    (h : I t) (hanswer : ∀ rows t', I t' → P rows t') : (onWire d.row q.fetch).Ends t P E :=
  ends_onWire_keeps R (fails_send_of_database Reason.refused _ _)
    (ends_onWire_select (fun rows t' _ hsent => hanswer rows t' (R.ask d t t' q hd h hsent.toSent))
      fun _ t' hsent => R.ask d t t' q hd h hsent)

/-- Rows that meet a condition are asked for, and deleted one after the other. -/
theorem ends_deleteMatching_keeps (hdelete : Keeps D I E delete) (hd : D d)
    (hcomp : comp ∈ d.schema.components) (hpolicy : comp.onDelete = .cascade)
    (htarget : c.schema comp.target = .ok target) {table : String} {condition : Expr} (h : I t) :
    (deleteMatching delete d target table condition (known t.world.graph d comp)).Ends t
      (fun _ => I) E := by
  unfold deleteMatching
  rw [Act.ends_bind, Act.ends_ofExcept]
  refine ⟨fun key hkey => ?_, fun e he => R.fail e t h (.key he)⟩
  rw [Act.ends_bind]
  refine ends_ask_keeps R hd h fun rows t' h' => Act.ends_forM (fun row _ t' h' => ?_) h'
  rw [Act.ends_bind, Act.ends_ofExcept]
  refine ⟨fun v hv => ?_, fun e he => R.fail e t' h' (.coerce he)⟩
  simp only [Act.ends_ite, Act.ends_pure, Act.ends_bind, ends_graph]
  refine ⟨fun _ => h', fun hnull => ?_⟩
  have hnext := R.next d comp target t v hd hcomp hpolicy htarget h (mt Value.isNull_iff.2 hnull)
    (.answered hkey hv)
  exact hdelete _ t' (doomed_withKey? hnext.1 hnext.2 _) h'

/-- A policy is applied to the rows that refer to the doomed ones. -/
theorem ends_applyPolicy_keeps (hdelete : Keeps D I E delete) (hd : D d)
    (hcomp : comp ∈ d.schema.components) (hjoin : c.join d.schema comp = .ok join)
    (hside : join.side = .there) (h : I t) :
    (applyPolicy c delete d comp join).Ends t (fun _ => I) E := by
  unfold applyPolicy
  simp only [Act.ends_bind, ends_graph, Act.ends_ofExcept]
  refine ⟨fun target htarget => ⟨fun foreignKey _ => ⟨fun condition? _ => ?_, fun e he => ?_⟩,
    fun e he => ?_⟩, fun e he => R.fail e t h (.target hd hcomp hjoin he)⟩
  rotate_left
  · exact R.fail e t h (reason_of_referenceCondition? hd hcomp hjoin hside h he)
  · refine R.fail e t h (.remoteAtomic hd hcomp hjoin htarget ?_)
    rwa [Join.remoteAtomic, hside]
  cases condition? with
  | none => exact h
  | some condition =>
    cases hpolicy : comp.onDelete with
    | keep => exact h
    | setNull =>
      -- the referring rows are emptied first, and what is loaded of them follows
      have hempty : ∀ t' u, Sent d.row [.update u] t t' → I t' := fun t' u => R.empty d t t' u hd h
      rw [Act.ends_bind]
      refine ends_onWire_keeps R (.ite (Act.fails_pure 0) (fails_send_of_database .refused _ _)) ?_
      cases hloaded : d.loaded with
      | none =>
        exact ends_onWire_update (fun _ => h) (fun _ t' _ hsent => hempty t' _ hsent.toSent)
          fun _ t' _ hsent => hempty t' _ hsent
      | some x =>
        have hrelease : ∀ t', I t' → (onGraph (release x comp join)).Ends t' (fun _ => I) E :=
          fun t' => R.release d x comp join t' hd hloaded hcomp hpolicy hjoin hside
        exact ends_onWire_update (fun _ => hrelease t h)
          (fun _ t' _ hsent => hrelease t' (hempty t' _ hsent.toSent))
          fun _ t' _ hsent => hempty t' _ hsent
    | cascade =>
      rw [Act.ends_bind, ends_graph]
      exact ends_deleteMatching_keeps R hdelete hd hcomp hpolicy htarget h

/-- A value is looked up in memory or asked for. -/
theorem ends_storedValue_keeps (hd : D d) (hcomp : comp ∈ d.schema.components)
    (hjoin : c.join d.schema comp = .ok join) (hside : join.side = .here) (h : I t) :
    (storedValue d join.foreignKey).Ends t
      (fun v t' => I t' ∧ ∃ a, d.schema.atomic join.foreignKey = .ok a ∧ Found I d a v) E := by
  have hlocal : join.localAtomic = join.foreignKey := by rw [Join.localAtomic, hside]
  unfold storedValue
  rw [Act.ends_bind, Act.ends_ofExcept]
  refine ⟨fun a ha => ?_, fun e he =>
    R.fail e t h (.localAtomic hd hcomp hjoin (hlocal ▸ he))⟩
  have hname : a.name = join.foreignKey := (Schema.mem_of_atomic? (Schema.atomic_eq_ok_iff.1 ha)).2
  simp only [Act.ends_ite, Act.ends_pure]
  refine ⟨fun hkey => ⟨h, a, ha, .key hkey rfl⟩, fun _ => ?_⟩
  cases hloaded : d.loaded with
  | some x =>
    simp only [Act.ends_bind, ends_graph, Act.ends_ofExcept, ← hname]
    exact ⟨fun v hv => ⟨h, a, hname ▸ ha, .loaded hloaded h hv⟩, fun e he =>
      R.fail e t h (.value hd hloaded h ha he)⟩
  | none =>
    simp only [Act.ends_bind]
    rw [Act.ends_ofExcept]
    refine ⟨fun key _ => ?_, fun e he => R.fail e t h (.key he)⟩
    refine ends_ask_keeps R hd h fun rows t' h' => ?_
    rw [Act.ends_ofExcept]
    exact ⟨fun v hv => ⟨h', a, ha, .answered hv⟩, fun e he => R.fail e t' h' (.coerce he)⟩

/-- A relation is dealt with before the rows go. What is left to do after that is due. -/
theorem ends_prepare_keeps (hdelete : Keeps D I E delete) (hd : D d)
    (hcomp : comp ∈ d.schema.components) (h : I t) :
    (prepare c delete d comp).Ends t (fun owned t' => I t' ∧ ∀ o ∈ owned, o.Due c I d) E := by
  unfold prepare
  simp only [Act.ends_ite, Act.ends_pure]
  refine ⟨fun _ => ⟨h, by rintro o ⟨⟩⟩, fun _ => ?_⟩
  rw [Act.ends_bind, Act.ends_ofExcept]
  refine ⟨fun join hjoin => ?_, fun e he => R.fail e t h (.join hd hcomp he)⟩
  cases hside : join.side with
  | there =>
    simp only [Act.ends_bind, Act.ends_pure]
    exact (ends_applyPolicy_keeps R hdelete hd hcomp hjoin hside h).mono
      (fun _ _ ht => ⟨ht, by rintro o ⟨⟩⟩) fun _ _ ht => ht
  | here =>
    simp only [Act.ends_ite, Act.ends_pure, Act.ends_bind]
    refine ⟨fun _ => ⟨h, by rintro o ⟨⟩⟩, fun hcascade => ?_⟩
    refine (ends_storedValue_keeps R hd hcomp hjoin hside h).mono (fun v t' ht => ⟨ht.1, fun o ho => ?_⟩)
      fun _ _ ht => ht
    split at ho
    · cases ho
    · next hnull =>
      obtain rfl := Option.some.inj ho
      exact ⟨hcomp, not_not.1 hcascade, hjoin, hside, ht.2, mt Value.isNull_iff.2 hnull⟩

/-- All relations are dealt with before the rows go. What is left to do after that is due. -/
theorem ends_prepareAll_keeps (hdelete : Keeps D I E delete) (hd : D d) {l : List Component}
    (hl : l ⊆ d.schema.components) (h : I t) :
    (l.mapM (prepare c delete d)).Ends t
      (fun owned t' => I t' ∧ ∀ o ∈ owned.filterMap id, o.Due c I d) E := by
  have hall := Act.ends_mapM (E := E) (R := fun t t' => I t → I t')
    (Q := fun _ owned _ => ∀ o ∈ owned, o.Due c I d)
    (l := l) (f := prepare c delete d) (s := t) (fun _ h => h) (fun _ _ _ h h' h₀ => h' (h h₀))
    (fun _ _ _ _ _ hq => hq) fun comp hcomp t' h' =>
      (ends_prepare_keeps R hdelete hd (hl hcomp) (h' h)).mono
        (fun _ _ ht => ⟨fun _ => ht.1, ht.2⟩) fun _ _ ht => ht
  refine hall.mono (fun owned t' hend => ⟨hend.1 h, fun o ho => ?_⟩) fun _ _ ht => ht
  obtain ⟨owned?, howned?, ho⟩ := List.mem_filterMap.1 ho
  exact ((List.forall₂_and_left (R := fun _ _ => True) _ _).1
    (hend.2.flip.imp fun _ _ ho => ⟨ho, trivial⟩)).1 owned? howned? o ho

/-- What a relation leads to is deleted as well. -/
theorem ends_deleteOwned_keeps (hdelete : Keeps D I E delete) (hd : D d) {o : Owned}
    (hdue : o.Due c I d) (h : I t) : (deleteOwned c delete d o).Ends t (fun _ => I) E := by
  have hcomp := hdue.component
  unfold deleteOwned
  simp only [Act.ends_bind, ends_graph, Act.ends_ofExcept, Act.ends_ite]
  refine ⟨fun target htarget => ⟨fun a ha => ?_, fun e he => ?_⟩, fun e he =>
    R.fail e t h (.target hd hcomp hdue.join he)⟩
  · refine ⟨fun hkey => ?_, fun _ => ?_⟩
    · have hnext := R.next d o.component target t o.value hd hcomp hdue.cascades htarget h hdue.value
        (.owned rfl hdue ha hkey)
      exact hdelete _ t (doomed_withKey? hnext.1 hnext.2 _) h
    · exact ends_deleteMatching_keeps R hdelete hd hcomp hdue.cascades htarget h
  · refine R.fail e t h (.remoteAtomic hd hcomp hdue.join htarget ?_)
    rwa [Join.remoteAtomic, hdue.here]

/-- What the steps of a deletion keep, the deletion keeps. -/
theorem ends_deleteFrom (depth : Nat) : Keeps D I E (deleteFrom c depth) := by
  induction depth with
  | zero => exact fun d t _ h => R.fail _ t h .exhausted
  | succ depth ih =>
    intro d t hd h
    unfold deleteFrom
    rw [Act.ends_bind]
    by_cases hentered : d.row ∈ t.entered
    · rw [Act.Ends, enter_of_mem hentered]
      exact h
    rw [Act.Ends, enter_of_not_mem hentered]
    simp only [Bool.not_true, Bool.false_eq_true, if_false]
    rw [Act.ends_bind, Act.ends_ofExcept]
    have hopen := R.enter d t hd h
    refine ⟨fun key hkey => ?_, fun e he => R.fail e _ hopen (.key he)⟩
    rw [Act.ends_bind]
    refine (ends_prepareAll_keeps R ih hd (List.Subset.refl _) hopen).mono (fun owned t₁ h₁ => ?_)
      fun _ _ ht => ht
    obtain ⟨h₁, howned⟩ := h₁
    rw [Act.ends_bind]
    refine (Act.ends_forM (I := I) (fun table _ t h => ?_) h₁).mono (fun _ t₂ h₂ => ?_)
      fun _ _ ht => ht
    · simp only [Act.ends_bind, Act.ends_pure]
      have hdeleted : ∀ t', Sent d.row
          [.delete { table, conditions := [Expr.columnEq key.column d.key] }] t t' → I t' :=
        fun t' hsent => R.delete d key t t' table hd (Schema.key_eq_ok_iff.1 hkey) h hsent
      refine ends_onWire_keeps R (fails_send_of_database .refused _ _) ?_
      exact ends_onWire_delete (fun _ t' hsent => hdeleted t' hsent.toSent) fun _ t' hsent =>
        hdeleted t' hsent
    rw [Act.ends_bind]
    refine (Act.ends_forM (I := I) (fun o ho t h => ?_) h₂).mono (fun _ t₃ h₃ => ?_) fun _ _ ht => ht
    · exact ends_deleteOwned_keeps R ih hd (howned o ho) h
    · cases hloaded : d.loaded with
      | none => exact h₃
      | some x => exact R.mark d x t₃ hd hloaded h₃

end rules

end Deletion

namespace Session

variable {σ : Type} [Connection σ] {ses : Session} {e : EntityId} {w : World σ} {k : Value}

/-- A deletion of a stored entity deletes the rows of its key. -/
theorem delete_eq (hstored : (w.graph.entity e).stored = true) (hkey : w.graph.key? e = some k) :
    ses.delete e w = Deletion.run ses.catalog ⟨(w.graph.entity e).schema, k, some e⟩ w := by
  unfold delete
  simp only [bind, EStateM.bind, Act.get_apply, hstored, if_true, Graph.requireKey, hkey,
    Act.ofExcept]

end Session

end EntityGraph
