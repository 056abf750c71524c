import EntityGraph.Proofs.Shape
import EntityGraph.Session.Save
import Mathlib.Data.List.Nodup
import Mathlib.Data.List.Perm.Subperm
import Mathlib.Logic.Relation

/-!
# Depth-first tours

The order in which a save writes entities is that of a depth-first tour of the graph: an entity is
entered, the targets whose keys it stores come before it, and everything that its loaded relations
lead to comes after it. Nothing is entered twice. The tour looks at the shape of the graph only, so it
is known before the save starts.

A foreign key that waits can be written when its source comes first and still has a listener for it.

* `Graph.writeOrder` — the order of the entities in a tour;
* `Graph.InOrder` — every entity comes after all that its foreign keys wait for;
* `mem_writeOrder_iff`, `nodup_writeOrder` — a tour passes exactly what its start leads to, each entity
  once.
-/

namespace EntityGraph

/-! ### Depth -/

namespace Save

/-- The depth that is left, and the number of entities that have been entered, exceed the number of
entities that there are. -/
structure Fits (n depth : Nat) (entered : List EntityId) : Prop where
  nodup : entered.Nodup
  exist : ∀ x ∈ entered, x.index < n
  deep : n < depth + entered.length

namespace Fits

variable {n depth : Nat} {entered : List EntityId} {e : EntityId}

/-- There is always depth left. -/
theorem depth_pos (h : Fits n depth entered) : 0 < depth := by
  have hnodup : (entered.map (·.index)).Nodup := by
    refine List.Nodup.map (fun x y hxy => ?_) h.nodup
    cases x
    cases y
    exact congrArg EntityId.mk hxy
  have hsub : entered.map (·.index) ⊆ List.range n := by
    intro i hi
    obtain ⟨x, hx, rfl⟩ := List.mem_map.1 hi
    exact List.mem_range.2 (h.exist x hx)
  have hle := (hnodup.subperm hsub).length_le
  rw [List.length_map, List.length_range] at hle
  have hdeep := h.deep
  omega

/-- Entering costs one level. -/
theorem enter (h : Fits n (depth + 1) entered) (hnew : e ∉ entered) (hlt : e.index < n) :
    Fits n depth (e :: entered) where
  nodup := List.nodup_cons.2 ⟨hnew, h.nodup⟩
  exist x hx := by
    rcases List.mem_cons.1 hx with rfl | hx
    · exact hlt
    · exact h.exist x hx
  deep := by
    have hdeep := h.deep
    rw [List.length_cons]
    omega

/-- More depth does no harm. -/
theorem succ (h : Fits n depth entered) : Fits n (depth + 1) entered :=
  ⟨h.nodup, h.exist, by have hdeep := h.deep; omega⟩

/-- The depth of a save fits its graph. -/
theorem start (g : Graph) : Fits g.entities.length (depthBound g) [] :=
  ⟨List.nodup_nil, fun _ hx => absurd hx List.not_mem_nil, Nat.lt_succ_self _⟩

end Fits

end Save

/-! ### Tours -/

/-- How far a tour has come: what has been entered, the latest first, and what has been passed, in
order. -/
structure Tour where
  entered : List EntityId := []
  passed : List EntityId := []

namespace Tour

/-- A tour goes on from an entity: to some entities before it, and to others after it. The number
bounds the depth. -/
def visit (first next : EntityId → List EntityId) : Nat → EntityId → Tour → Tour
  | 0, _, t => t
  | depth + 1, x, t =>
    if x ∈ t.entered then t
    else
      let t := (first x).foldl (fun t y => visit first next depth y t)
        { t with entered := x :: t.entered }
      (next x).foldl (fun t y => visit first next depth y t) { t with passed := t.passed ++ [x] }

variable {first next : EntityId → List EntityId} {depth : Nat} {x : EntityId} {t : Tour}

/-- Coming back to an entity does nothing. -/
theorem visit_of_mem (h : x ∈ t.entered) : visit first next depth x t = t := by
  cases depth with
  | zero => rfl
  | succ depth => rw [visit, if_pos h]

/-- The first time, what comes before an entity is visited, the entity is passed, and what comes after
it is visited. -/
theorem visit_of_not_mem (h : x ∉ t.entered) : visit first next (depth + 1) x t =
    (next x).foldl (fun t y => visit first next depth y t)
      { (first x).foldl (fun t y => visit first next depth y t) { t with entered := x :: t.entered } with
        passed := ((first x).foldl (fun t y => visit first next depth y t)
          { t with entered := x :: t.entered }).passed ++ [x] } := by
  rw [visit, if_neg h]

/-- What a tour does between two moments at neither of which it is about to pass something: it enters
more, and passes exactly what it enters. -/
structure Extends (t t' : Tour) : Prop where
  entered : t.entered ⊆ t'.entered
  passed : t.passed <+: t'.passed
  fresh : ∀ y ∈ t'.entered, y ∈ t.entered ∨ y ∈ t'.passed
  back : ∀ y ∈ t'.passed, y ∈ t.passed ∨ y ∈ t'.entered ∧ y ∉ t.entered
  nodup : t.passed ⊆ t.entered → t.passed.Nodup → t'.passed.Nodup

theorem Extends.refl (t : Tour) : Extends t t :=
  ⟨List.Subset.refl _, List.prefix_refl _, fun _ h => .inl h, fun _ h => .inl h, fun _ h => h⟩

/-- What has been passed has been entered, and stays so. -/
theorem Extends.passed_subset {t t' : Tour} (h : Extends t t') (ht : t.passed ⊆ t.entered) :
    t'.passed ⊆ t'.entered := by
  intro y hy
  rcases h.back y hy with hy | ⟨hy, -⟩
  · exact h.entered (ht hy)
  · exact hy

theorem Extends.trans {t t' t'' : Tour} (h : Extends t t') (h' : Extends t' t'') :
    Extends t t'' where
  entered := fun _ hy => h'.entered (h.entered hy)
  passed := h.passed.trans h'.passed
  fresh y hy := by
    rcases h'.fresh y hy with hy | hy
    · exact (h.fresh y hy).imp_right fun hp => h'.passed.subset hp
    · exact .inr hy
  back y hy := by
    rcases h'.back y hy with hy | ⟨hy, hnew⟩
    · exact (h.back y hy).imp_right fun hp => ⟨h'.entered hp.1, hp.2⟩
    · exact .inr ⟨hy, fun hold => hnew (h.entered hold)⟩
  nodup hsub hnodup := h'.nodup (h.passed_subset hsub) (h.nodup hsub hnodup)

/-- Visiting one entity after another does what the single visits do. -/
theorem extends_foldl {l : List EntityId} {f : Tour → EntityId → Tour}
    (hf : ∀ y t, Extends t (f t y)) (t : Tour) : Extends t (l.foldl f t) := by
  induction l generalizing t with
  | nil => exact .refl t
  | cons y l ih => exact (hf y t).trans (ih (f t y))

/-- A visit enters more, and passes exactly what it enters. -/
theorem extends_visit (first next : EntityId → List EntityId) (depth : Nat) (x : EntityId) (t : Tour) :
    Extends t (visit first next depth x t) := by
  induction depth generalizing x t with
  | zero => exact .refl t
  | succ depth ih =>
    by_cases hmem : x ∈ t.entered
    · rw [visit_of_mem hmem]
      exact .refl t
    rw [visit_of_not_mem hmem]
    set before := (first x).foldl (fun t y => visit first next depth y t)
      { t with entered := x :: t.entered } with hbefore
    have hin : Extends { t with entered := x :: t.entered } before :=
      extends_foldl (fun y t => ih y t) _
    have hout := extends_foldl (l := next x) (fun y t => ih y t)
      { before with passed := before.passed ++ [x] }
    have hx : x ∈ before.entered := hin.entered List.mem_cons_self
    refine ⟨fun y hy => ?_, ?_, fun y hy => ?_, fun y hy => ?_, fun hsub hnodup => ?_⟩
    · exact hout.entered (hin.entered (List.mem_cons_of_mem _ hy))
    · exact hin.passed.trans ((List.prefix_append _ _).trans hout.passed)
    · rcases hout.fresh y hy with hy | hy
      · rcases hin.fresh y hy with hy | hy
        · rcases List.mem_cons.1 hy with rfl | hy
          · exact .inr (hout.passed.subset (List.mem_append_right _ List.mem_cons_self))
          · exact .inl hy
        · exact .inr (hout.passed.subset (List.mem_append_left _ hy))
      · exact .inr hy
    · rcases hout.back y hy with hy | ⟨hy, hnew⟩
      · rcases List.mem_append.1 hy with hy | hy
        · exact (hin.back y hy).imp_right fun hp =>
            ⟨hout.entered hp.1, fun hold => hp.2 (List.mem_cons_of_mem _ hold)⟩
        · obtain rfl := List.mem_singleton.1 hy
          exact .inr ⟨hout.entered hx, hmem⟩
      · exact .inr ⟨hy, fun hold => hnew (hin.entered (List.mem_cons_of_mem _ hold))⟩
    · -- the entity has not been passed while it was open
      have hnew : x ∉ before.passed := by
        intro hpassed
        rcases hin.back x hpassed with hold | ⟨-, hnot⟩
        · exact hmem (hsub hold)
        · exact hnot List.mem_cons_self
      have hsub' : t.passed ⊆ x :: t.entered := fun y hy => List.mem_cons_of_mem _ (hsub hy)
      refine hout.nodup (fun y hy => ?_) (List.Nodup.append (hin.nodup hsub' hnodup)
        (List.nodup_singleton x) fun y hy hyx => ?_)
      · rcases List.mem_append.1 hy with hy | hy
        · exact hin.passed_subset hsub' hy
        · exact List.mem_singleton.1 hy ▸ hx
      · exact hnew (List.mem_singleton.1 hyx ▸ hy)

/-- What a visit enters has a property, and so has everything that comes after it, which has been
entered as well. -/
structure Closes (next : EntityId → List EntityId) (R : EntityId → Prop) (t t' : Tour) : Prop where
  entered : t.entered ⊆ t'.entered
  closed : ∀ y ∈ t'.entered, y ∉ t.entered → R y ∧ ∀ z ∈ next y, z ∈ t'.entered

variable {R : EntityId → Prop} {n : Nat}

theorem Closes.refl (t : Tour) : Closes next R t t :=
  ⟨List.Subset.refl _, fun _ hy hnew => absurd hy hnew⟩

theorem Closes.trans {t t' t'' : Tour} (h : Closes next R t t') (h' : Closes next R t' t'') :
    Closes next R t t'' where
  entered := fun _ hy => h'.entered (h.entered hy)
  closed y hy hnew := by
    by_cases hold : y ∈ t'.entered
    · obtain ⟨hR, hnext⟩ := h.closed y hold hnew
      exact ⟨hR, fun z hz => h'.entered (hnext z hz)⟩
    · exact h'.closed y hy hold

/-- Visiting one entity after another enters all of them, and closes what it enters. -/
theorem closes_foldl {l : List EntityId} {f : Tour → EntityId → Tour} {depth : Nat}
    (hf : ∀ y ∈ l, ∀ t, Save.Fits n depth t.entered → Save.Fits n depth (f t y).entered ∧
      y ∈ (f t y).entered ∧ Closes next R t (f t y)) {t : Tour} (hfits : Save.Fits n depth t.entered) :
    Save.Fits n depth (l.foldl f t).entered ∧ (∀ y ∈ l, y ∈ (l.foldl f t).entered) ∧
      Closes next R t (l.foldl f t) := by
  induction l generalizing t with
  | nil => exact ⟨hfits, fun _ hy => absurd hy List.not_mem_nil, .refl t⟩
  | cons x l ih =>
    obtain ⟨hfits', hx, hcloses⟩ := hf x List.mem_cons_self t hfits
    obtain ⟨hfits'', hl, hrest⟩ := ih (fun y hy => hf y (List.mem_cons_of_mem _ hy)) hfits'
    refine ⟨hfits'', fun y hy => ?_, hcloses.trans hrest⟩
    rcases List.mem_cons.1 hy with rfl | hy
    · exact hrest.entered hx
    · exact hl y hy

/-- A visit with enough depth enters its entity, and closes what it enters. -/
theorem closes_visit (hfirst : ∀ x, first x ⊆ next x) (hexist : ∀ x, R x → x.index < n)
    (hstep : ∀ x, R x → ∀ y ∈ next x, R y) {x : EntityId} (hx : R x)
    (hfits : Save.Fits n depth t.entered) :
    Save.Fits n depth (visit first next depth x t).entered ∧
      x ∈ (visit first next depth x t).entered ∧ Closes next R t (visit first next depth x t) := by
  induction depth generalizing x t with
  | zero => exact absurd hfits.depth_pos (Nat.lt_irrefl 0)
  | succ depth ih =>
    by_cases hmem : x ∈ t.entered
    · rw [visit_of_mem hmem]
      exact ⟨hfits, hmem, .refl t⟩
    rw [visit_of_not_mem hmem]
    obtain ⟨hfits₁, -, hin⟩ := closes_foldl (l := first x)
      (f := fun t y => visit first next depth y t) (t := { t with entered := x :: t.entered })
      (fun y hy t ht => ih (hstep x hx y (hfirst x hy)) ht) (hfits.enter hmem (hexist x hx))
    set before := (first x).foldl (fun t y => visit first next depth y t)
      { t with entered := x :: t.entered }
    obtain ⟨hfits₂, hall, hout⟩ := closes_foldl (l := next x)
      (f := fun t y => visit first next depth y t) (t := { before with passed := before.passed ++ [x] })
      (fun y hy t ht => ih (hstep x hx y hy) ht) hfits₁
    have hentered := hout.entered (hin.entered List.mem_cons_self)
    refine ⟨hfits₂.succ, hentered, fun y hy => ?_, fun y hy hnew => ?_⟩
    · exact hout.entered (hin.entered (List.mem_cons_of_mem _ hy))
    · by_cases hyx : y = x
      · subst hyx
        exact ⟨hx, hall⟩
      by_cases hold : y ∈ before.entered
      · have hnew' : y ∉ x :: t.entered := by
          rw [List.mem_cons, not_or]
          exact ⟨hyx, hnew⟩
        obtain ⟨hR, hnext⟩ := hin.closed y hold hnew'
        exact ⟨hR, fun z hz => hout.entered (hnext z hz)⟩
      · exact hout.closed y hy hold

end Tour

namespace Graph

/-- An entity leads to another one along loaded relations. -/
def LeadsTo (g : Graph) : EntityId → EntityId → Prop :=
  Relation.ReflTransGen fun x y => y ∈ g.successors x

/-- A set that relations do not lead out of has all that its members lead to. -/
theorem LeadsTo.mem_of_closed {g : Graph} {e x : EntityId} {S : List EntityId} (h : g.LeadsTo e x)
    (he : e ∈ S) (hS : ∀ y ∈ S, ∀ z ∈ g.successors y, z ∈ S) : x ∈ S := by
  induction h with
  | refl => exact he
  | tail _ hz ih => exact hS _ ih _ hz

/-- The target of a loaded to-one relation, if the entity stores its key. -/
def ownedTarget? (c : Catalog) (g : Graph) (x : EntityId) (r : Component × Loaded) : Option EntityId :=
  match r.2 with
  | .one (some target) =>
    match c.join (g.entity x).schema r.1 with
    | .ok join => if join.side = .here then some target else none
    | .error _ => none
  | _ => none

/-- The targets of the loaded to-one relations whose key an entity stores. -/
def ownedTargets (c : Catalog) (g : Graph) (x : EntityId) : List EntityId :=
  (g.loadedRelations x).filterMap (g.ownedTarget? c x)

/-- The tour that a save goes on: owned targets come before an entity, and everything that its loaded
relations lead to comes after it. -/
def tour (c : Catalog) (g : Graph) : Nat → EntityId → Tour → Tour :=
  Tour.visit (g.ownedTargets c) g.successors

/-- The order in which a save from an entity writes entities. -/
def writeOrder (c : Catalog) (g : Graph) (e : EntityId) : List EntityId :=
  (g.tour c (Save.depthBound g) e {}).passed

/-- An entity has a listener for a foreign key of another one. -/
def Heard (g : Graph) (source holder : EntityId) (name : String) : Prop :=
  ∃ referenced, .foreignKey holder name referenced ∈ (g.entity source).listeners

/-- A foreign key of an entity waits for another one. -/
def WaitsFor (g : Graph) (x y : EntityId) : Prop :=
  ∃ name, (g.entity x).pending.get? name = some y

/-- Every foreign key of an entity that waits will have its value once some entities have their
keys. -/
def ReadyAfter (g : Graph) (before : List EntityId) (x : EntityId) : Prop :=
  ∀ name source, (g.entity x).pending.get? name = some source →
    source ∈ before ∧ g.Heard source x name

/-- Every entity comes after all that its foreign keys wait for. -/
def InOrder (g : Graph) (order : List EntityId) : Prop :=
  ∀ before x after, order = before ++ x :: after → g.ReadyAfter before x

variable {c : Catalog} {g : Graph} {e x : EntityId} {l l' : List EntityId}

theorem inOrder_nil (g : Graph) : g.InOrder [] := by
  intro before x after h
  simp at h

/-- The beginning of an order is one. -/
theorem InOrder.of_prefix (h : g.InOrder l') (hl : l <+: l') : g.InOrder l := by
  obtain ⟨rest, rfl⟩ := hl
  intro before x after heq
  refine h before x (after ++ rest) ?_
  rw [heq, List.append_assoc, List.cons_append]

/-- What comes last must be ready after the rest. -/
theorem inOrder_append_singleton_iff :
    g.InOrder (l ++ [x]) ↔ g.InOrder l ∧ g.ReadyAfter l x := by
  constructor
  · exact fun h => ⟨h.of_prefix (List.prefix_append _ _), h l x [] rfl⟩
  · rintro ⟨h, hx⟩ before y after heq
    rcases List.eq_nil_or_concat after with rfl | ⟨after, z, rfl⟩
    · obtain ⟨rfl, hy⟩ := List.append_inj' heq rfl
      obtain rfl := List.singleton_inj.1 hy
      exact hx
    · have hassoc : before ++ y :: after.concat z = (before ++ y :: after) ++ [z] := by simp
      exact h before y after (List.append_inj' (heq.trans hassoc) rfl).1

/-- The target of a to-one relation that resolves is owned if the join is on the side of the entity. -/
theorem ownedTarget?_eq_of_one {r : Component × Loaded} {target : EntityId} {join : Join}
    (hone : r.2 = .one (some target)) (hjoin : c.join (g.entity x).schema r.1 = .ok join) :
    g.ownedTarget? c x r = if join.side = .here then some target else none := by
  unfold ownedTarget?
  rw [hone, hjoin]

/-- Other relations have no owned target. -/
theorem ownedTarget?_eq_none {r : Component × Loaded} (h : ∀ target, r.2 ≠ .one (some target)) :
    g.ownedTarget? c x r = none := by
  unfold ownedTarget?
  split
  · next target hone => exact absurd hone (h target)
  · rfl

/-- Owned targets are among the entities that loaded relations lead to. -/
theorem ownedTargets_subset (c : Catalog) (g : Graph) (x : EntityId) :
    g.ownedTargets c x ⊆ g.successors x := by
  intro y hy
  obtain ⟨r, hr, hfound⟩ := List.mem_filterMap.1 hy
  refine List.mem_flatMap.2 ⟨r, hr, ?_⟩
  unfold ownedTarget? at hfound
  split at hfound
  · next target htarget =>
    rw [htarget]
    split at hfound
    · split at hfound
      · obtain rfl := Option.some.inj hfound
        exact List.mem_cons_self
      · cases hfound
    · cases hfound
  · cases hfound

/-- A tour passes exactly what its start leads to. -/
theorem mem_writeOrder_iff (hexist : ∀ y, g.LeadsTo e y → y.index < g.entities.length) :
    x ∈ g.writeOrder c e ↔ g.LeadsTo e x := by
  have hextends : Tour.Extends {} (g.tour c (Save.depthBound g) e {}) := Tour.extends_visit _ _ _ _ _
  obtain ⟨-, he, hcloses⟩ := Tour.closes_visit (ownedTargets_subset c g) hexist
    (fun y hy z hz => hy.tail hz) (t := {}) Relation.ReflTransGen.refl (Save.Fits.start g)
  unfold writeOrder
  constructor
  · intro hx
    have hentered := (hextends.back x hx).resolve_left List.not_mem_nil
    exact (hcloses.closed x hentered.1 List.not_mem_nil).1
  · intro hx
    have hentered : x ∈ (g.tour c (Save.depthBound g) e {}).entered := by
      induction hx with
      | refl => exact he
      | tail _ hz ih => exact (hcloses.closed _ ih List.not_mem_nil).2 _ hz
    exact (hextends.fresh x hentered).resolve_left List.not_mem_nil

/-- A tour passes no entity twice. -/
theorem nodup_writeOrder (c : Catalog) (g : Graph) (e : EntityId) : (g.writeOrder c e).Nodup :=
  (Tour.extends_visit (g.ownedTargets c) g.successors (Save.depthBound g) e {}).nodup
    (List.Subset.refl _) List.nodup_nil

end Graph

end EntityGraph
