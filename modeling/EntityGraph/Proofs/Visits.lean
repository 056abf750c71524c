import EntityGraph.Proofs.Ends
import EntityGraph.Session.Deletion

/-!
# The visits of a deletion

A deletion that comes to some rows visits them. If the traversal has entered them before, the visit does
nothing more. If not, it visits what depends on the rows, then deletes them, then visits what they own. So
a deletion that succeeds has made a tree of visits. The functions here mirror those of a deletion clause
for clause, and answer with what was made of each visit.

* `Deletion.Visit` — a visit, with the visits that it has made in turn;
* `Deletion.visit` — the deletion of rows, which answers with its visit;
* `Deletion.deleteFrom_eq` — apart from its answer it is the deletion itself.
-/

namespace EntityGraph

namespace Deletion

open Traversal

/-- What came of rows that a deletion has come to. -/
inductive Visit where
  /-- They had been entered before. -/
  | again (d : Doomed)
  /-- They were deleted under their key, after the rows that depend on them and before those that they
  own. -/
  | first (d : Doomed) (key : Atomic) (dependents owned : List Visit)

/-- The rows that were visited. -/
def Visit.doomed : Visit → Doomed
  | again d => d
  | first d _ _ _ => d

variable {σ α : Type} [Connection σ]

/-- `deleteMatching`, with what was made of each visit. -/
def eachMatching (visit : Doomed → DeletionM σ α) (d : Doomed) (target : Schema) (table : String)
    (condition : Expr) (known : List EntityId) : DeletionM σ (List α) := do
  let key ← Act.ofExcept target.key
  let rows ← onWire d.row (Select.fetch {
    columns := [(.name key.column, none)]
    tables := [{ name := table }]
    conditions := [condition] })
  let visits ← rows.mapM fun row => do
    let v ← Act.ofExcept (key.coerce target.name (firstCell row))
    if v.isNull then return []
    return [← visit ⟨target, v, withKey? (← graph) known v⟩]
  return visits.flatten

/-- `applyPolicy`, with what was made of each visit. -/
def eachDependent (c : Catalog) (visit : Doomed → DeletionM σ α) (d : Doomed) (comp : Component)
    (join : Join) : DeletionM σ (List α) := do
  let target ← Act.ofExcept (c.schema comp.target)
  let foreignKey ← Act.ofExcept (target.atomic join.foreignKey)
  let table := target.tableOf foreignKey
  match ← Act.ofExcept (referenceCondition? (← graph) d comp join foreignKey.column) with
  | none => return []
  | some condition =>
    match comp.onDelete with
    | .keep => return []
    | .setNull =>
      let u : Update := { table, conditions := [condition] }
      let _ ← onWire d.row (u.set foreignKey.column .null).execute
      if let some e := d.loaded then onGraph (release e comp join)
      return []
    | .cascade =>
      eachMatching visit d target table condition (known (← graph) d comp)

/-- `prepare`, with what was made of each visit. -/
def eachPrepared (c : Catalog) (visit : Doomed → DeletionM σ α) (d : Doomed) (comp : Component) :
    DeletionM σ (List α × Option Owned) := do
  if comp.onDelete = .keep then return ([], none)
  let join ← Act.ofExcept (c.join d.schema comp)
  match join.side with
  | .there => return (← eachDependent c visit d comp join, none)
  | .here =>
    if comp.onDelete ≠ .cascade then return ([], none)
    let v ← storedValue d join.foreignKey
    return ([], if v.isNull then none else some ⟨comp, join, v⟩)

/-- `deleteOwned`, with what was made of each visit. -/
def eachOwned (c : Catalog) (visit : Doomed → DeletionM σ α) (d : Doomed) (o : Owned) :
    DeletionM σ (List α) := do
  let target ← Act.ofExcept (c.schema o.component.target)
  let g ← graph
  let known := known g d o.component
  let a ← Act.ofExcept (target.atomic o.join.referenced)
  if a.primaryKey then return [← visit ⟨target, o.value, withKey? g known o.value⟩]
  else
    eachMatching visit d target (target.tableOf a) (Expr.columnEq a.column o.value) known

/-- `deleteFrom`, with the visit that it makes. -/
def visit (c : Catalog) : Nat → Doomed → DeletionM σ Visit
  | 0, _ => throw .exhausted
  | depth + 1, d => do
    if !(← enter d.row) then return .again d
    let key ← Act.ofExcept d.schema.key
    let prepared ← d.schema.components.mapM (eachPrepared c (visit c depth) d)
    (d.schema.secondary.reverse ++ [d.schema.table]).forM fun table => do
      let statement : Delete := { table, conditions := [Expr.columnEq key.column d.key] }
      let _ ← onWire d.row statement.execute
    let owned ← (prepared.filterMap (·.2)).mapM (eachOwned c (visit c depth) d)
    if let some e := d.loaded then onGraph (modify (·.markDeleted e))
    return .first d key (prepared.flatMap (·.1)) owned.flatten

/-! ### The answers left out -/

/-- Some work without its answer. -/
def silent {τ : Type} (act : Act τ α) : Act τ Unit := do
  let _ ← act
  return

section silent

variable {τ β : Type}

theorem silent_bind (act : Act τ β) (f : β → Act τ α) :
    silent (act >>= f) = act >>= fun b => silent (f b) := by
  simp only [silent, bind_assoc]

theorem silent_bind_pure (act : Act τ β) (f : β → α) :
    silent (act >>= fun b => pure (f b)) = silent act := by
  simp only [silent, bind_assoc, pure_bind]

theorem silent_pure (a : α) : silent (pure a : Act τ α) = pure () := by
  simp only [silent, pure_bind]

/-- Work that succeeds without its answer has one. -/
theorem exists_of_silent {act : Act τ α} {s t : τ} (h : silent act s = .ok () t) :
    ∃ a, act s = .ok a t := by
  unfold silent at h
  simp only [bind, EStateM.bind] at h
  split at h
  · next a t' hact =>
    obtain ⟨-, rfl⟩ := EStateM.Result.ok.inj h
    exact ⟨a, hact⟩
  · cases h

theorem silent_ite {p : Prop} [Decidable p] (act act' : Act τ α) :
    silent (if p then act else act') = if p then silent act else silent act' :=
  apply_ite silent p act act'

/-- Without its answers, work for each item is a loop. -/
theorem silent_mapM (f : β → Act τ α) (l : List β) :
    silent (l.mapM f) = l.forM fun b => silent (f b) := by
  induction l with
  | nil => exact silent_pure _
  | cons b l ih =>
    have hcons : (b :: l).forM (fun b => silent (f b)) =
        silent (f b) >>= fun _ => l.forM fun b => silent (f b) := rfl
    rw [List.mapM_cons, silent_bind, hcons, ← ih]
    simp only [silent, bind_assoc, pure_bind]

end silent

variable {visit : Doomed → DeletionM σ α} {c : Catalog} {d : Doomed}

theorem deleteMatching_eq (target : Schema) (table : String) (condition : Expr)
    (known : List EntityId) :
    deleteMatching (fun x => silent (visit x)) d target table condition known =
      silent (eachMatching visit d target table condition known) := by
  unfold deleteMatching eachMatching
  simp only [silent_bind]
  refine bind_congr fun key => bind_congr fun rows => ?_
  rw [← silent_bind, silent_bind_pure, silent_mapM]
  simp only [silent_bind, silent_ite, silent_pure]
  rfl

theorem applyPolicy_eq (comp : Component) (join : Join) :
    applyPolicy c (fun x => silent (visit x)) d comp join =
      silent (eachDependent c visit d comp join) := by
  unfold applyPolicy eachDependent
  simp only [silent_bind]
  refine bind_congr fun target => bind_congr fun foreignKey => bind_congr fun g =>
    bind_congr fun condition? => ?_
  cases condition? with
  | none => exact (silent_pure _).symm
  | some condition =>
    cases comp.onDelete with
    | keep => exact (silent_pure _).symm
    | setNull =>
      cases d.loaded <;> simp only [silent, bind_assoc, pure_bind, bind_pure_unit]
    | cascade =>
      simp only [silent_bind, deleteMatching_eq]

/-- What is left to do is the same, and the visits are left out. -/
theorem prepare_eq (comp : Component) :
    prepare c (fun x => silent (visit x)) d comp = Prod.snd <$> eachPrepared c visit d comp := by
  unfold prepare eachPrepared
  rw [apply_ite (Prod.snd <$> ·), map_pure, map_bind]
  refine if_congr Iff.rfl rfl (bind_congr fun join => ?_)
  cases join.side with
  | there =>
    simp only [applyPolicy_eq, map_bind, map_pure]
    simp only [silent, bind_assoc, pure_bind]
  | here =>
    rw [apply_ite (Prod.snd <$> ·)]
    simp only [map_bind, map_pure]

theorem deleteOwned_eq (o : Owned) :
    deleteOwned c (fun x => silent (visit x)) d o = silent (eachOwned c visit d o) := by
  unfold deleteOwned eachOwned
  simp only [silent_bind, silent_ite, silent_pure, deleteMatching_eq]
  rfl

/-- Where a part of each answer is looked at, the rest may be left out. -/
theorem mapM_map {τ β γ : Type} (g : α → β) (f : γ → Act τ α) (l : List γ) (k : List β → Act τ Unit) :
    (l.mapM fun b => g <$> f b) >>= k = l.mapM f >>= fun as => k (as.map g) := by
  induction l generalizing k with
  | nil => simp
  | cons b l ih =>
    rw [List.mapM_cons, List.mapM_cons]
    simp only [bind_assoc, pure_bind, bind_map_left]
    refine bind_congr fun a => ?_
    exact ih fun bs => k (g a :: bs)

/-- A deletion makes a visit, and leaves it at that. -/
theorem deleteFrom_eq (c : Catalog) (depth : Nat) (d : Doomed) :
    (deleteFrom c depth d : DeletionM σ Unit) = silent (Deletion.visit c depth d) := by
  induction depth generalizing d with
  | zero => rfl
  | succ depth ih =>
    have hdelete : (deleteFrom c depth : Doomed → DeletionM σ Unit) =
        fun x => silent (Deletion.visit c depth x) := funext ih
    rw [deleteFrom, Deletion.visit, hdelete]
    simp only [silent_bind, silent_ite, silent_pure]
    refine bind_congr fun entered => if_congr Iff.rfl rfl (bind_congr fun key => ?_)
    have hprepare : prepare c (fun x => silent (Deletion.visit c depth x)) d =
        fun comp => Prod.snd <$> eachPrepared (σ := σ) c (Deletion.visit c depth) d comp :=
      funext fun comp => prepare_eq comp
    rw [hprepare, mapM_map]
    refine bind_congr fun prepared => bind_congr fun _ => ?_
    have howned : (prepared.map Prod.snd).filterMap id = prepared.filterMap (·.2) := by
      rw [List.filterMap_map]
      rfl
    rw [howned, funext deleteOwned_eq, ← silent_mapM]
    cases d.loaded <;> simp only [silent, bind_assoc, pure_bind, bind_pure_unit]

end Deletion

end EntityGraph
