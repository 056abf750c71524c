import EntityGraph.Proofs.Once
import EntityGraph.Proofs.Passes
import Mathlib.Data.List.ProdSigma

/-!
# A deletion ends

Along a path of visits, each of which is made by the one before, no type and key come twice. The types are
those of the catalog, and that of the first visit. A key is the one before, or a form of a cell that the
database has answered with, or a value of the entity that the rows before are loaded as; and an entity is
met at most once under each type, since it keeps its key as long as it has one. So where cells come from a
finite list, a path is not longer than these let it be, and a deletion with more depth than that is not
exhausted.

* `Connection.Draws` — the cells that a connection answers with come from a list;
* `Deletion.Path` — visits, each of which is made by the one before;
* `Deletion.Path.length_le` — a path without repetition is not longer than `Deletion.reach`;
* `Deletion.deleteFrom_deep` — a deletion with more depth than that is not exhausted;
* `Deletion.deleteFrom_eq_deep` — whatever the depth, it does the same.
-/

namespace EntityGraph

/-! ### Forms of values -/

namespace AtomicKind

/-- The forms that the kinds give to values. -/
def forms (V : List Value) : List Value :=
  V.flatMap fun raw => [string, int, float, bool, datetime].filterMap (·.coerce? raw)

theorem mem_forms {V : List Value} {kind : AtomicKind} {raw v : Value} (hraw : raw ∈ V)
    (h : kind.coerce? raw = some v) : v ∈ forms V := by
  refine List.mem_flatMap.2 ⟨raw, hraw, List.mem_filterMap.2 ⟨kind, ?_, h⟩⟩
  cases kind <;> simp

theorem length_forms_le (V : List Value) : (forms V).length ≤ 5 * V.length := by
  induction V with
  | nil => exact Nat.le_refl _
  | cons raw V ih =>
    have hkinds : (List.filterMap (·.coerce? raw) [string, int, float, bool, datetime]).length ≤ 5 :=
      List.length_filterMap_le _ _
    have hcons : (forms (raw :: V)).length = (List.filterMap (·.coerce? raw)
        [string, int, float, bool, datetime]).length + (forms V).length := by
      simp [forms]
    rw [hcons, List.length_cons]
    omega

end AtomicKind

/-- Every type that is found is defined. -/
theorem Catalog.mem_names_of_schema {c : Catalog} {name : String} {s : Schema}
    (h : c.schema name = .ok s) : s.name ∈ c.names := by
  obtain ⟨e, he, -⟩ := builtAs_of_schema h
  have hdef := (Option.filter_eq_some_iff.1 he).1
  rw [schema_name h, ← definition?_name hdef]
  exact List.mem_map_of_mem (List.mem_of_find?_eq_some hdef)

namespace Deletion

/-! ### Paths -/

section path

variable {c : Catalog} {Cell : Value → Prop} {V : List Value} {g : Graph} {start d : Doomed}
  {ds : List Doomed}

/-- Visits, the latest first, each of which is made by the one before. -/
inductive Path (c : Catalog) (Cell : Value → Prop) (g : Graph) (start : Doomed) :
    List Doomed → Prop
  | start : Path c Cell g start [start]
  | next {x d : Doomed} {ds : List Doomed} {g' : Graph} : Path c Cell g start (d :: ds) →
      g.Forgets g' → Next c Cell d x g' → Path c Cell g start (x :: d :: ds)

namespace Path

/-- The types along a path are those of the catalog, and that of the first visit. -/
theorem type (h : Path c Cell g start ds) (hd : d ∈ ds) :
    d.schema.name ∈ start.schema.name :: c.names := by
  induction h with
  | start =>
    obtain rfl := List.mem_singleton.1 hd
    exact List.mem_cons_self
  | next _ _ hnext ih =>
    rcases List.mem_cons.1 hd with rfl | hd
    · obtain ⟨comp, -, htarget⟩ := hnext.type
      exact List.mem_cons_of_mem _ (Catalog.mem_names_of_schema htarget)
    · exact ih hd

/-- What rows are loaded as had their key to begin with. -/
theorem loaded (h : Path c Cell g start ds) (hstart : ∀ e ∈ start.loaded, g.key? e = some start.key)
    (hd : d ∈ ds) : ∀ e ∈ d.loaded, g.key? e = some d.key := by
  induction h with
  | start =>
    obtain rfl := List.mem_singleton.1 hd
    exact hstart
  | next _ hforgets hnext ih =>
    rcases List.mem_cons.1 hd with rfl | hd
    · exact fun e he => hforgets.key e _ (hnext.loaded e he)
    · exact ih hd

/-- The keys along a path are the first one, forms of cells, and one more for each visit of rows that are
loaded. -/
theorem keys (h : Path c (· ∈ V) g start ds) : ∃ values : List Value,
    values.length ≤ ds.countP (·.loaded.isSome) ∧
      ∀ d ∈ ds, d.key ∈ start.key :: AtomicKind.forms V ++ values := by
  -- what the latest rows are loaded as does not matter yet
  suffices htail : ∃ values : List Value, values.length ≤ ds.tail.countP (·.loaded.isSome) ∧
      ∀ d ∈ ds, d.key ∈ start.key :: AtomicKind.forms V ++ values by
    obtain ⟨values, hlength, hvalues⟩ := htail
    exact ⟨values, Nat.le_trans hlength (List.tail_sublist ds).countP_le, hvalues⟩
  induction h with
  | start =>
    refine ⟨[], Nat.le_refl _, fun d hd => ?_⟩
    obtain rfl := List.mem_singleton.1 hd
    simp
  | @next x d ds _ _ _ hnext ih =>
    obtain ⟨values, hlength, hvalues⟩ := ih
    rw [List.tail_cons] at hlength ⊢
    have hsame : x.key ∈ start.key :: AtomicKind.forms V ++ values →
        ∃ values : List Value, values.length ≤ (d :: ds).countP (·.loaded.isSome) ∧
          ∀ y ∈ x :: d :: ds, y.key ∈ start.key :: AtomicKind.forms V ++ values := fun hx =>
      ⟨values, Nat.le_trans hlength (List.sublist_cons_self d ds).countP_le,
        List.forall_mem_cons.2 ⟨hx, hvalues⟩⟩
    rcases hnext.key with hloaded | heq | ⟨kind, raw, -, hraw, hform⟩
    · refine ⟨x.key :: values, ?_, List.forall_mem_cons.2 ⟨by simp, fun y hy => ?_⟩⟩
      · have hcount : (d :: ds).countP (·.loaded.isSome) = ds.countP (·.loaded.isSome) + 1 :=
          List.countP_cons_of_pos hloaded
        rw [hcount]
        exact Nat.succ_le_succ hlength
      · have hy := hvalues y hy
        simp only [List.cons_append, List.mem_cons, List.mem_append] at hy ⊢
        tauto
    · exact hsame (heq ▸ hvalues d List.mem_cons_self)
    · exact hsame (by simp [AtomicKind.mem_forms hraw hform])

/-- Each entity is met at most once under each type. -/
theorem loaded_le (h : Path c Cell g start ds)
    (hstart : ∀ e ∈ start.loaded, g.key? e = some start.key) (hnodup : (ds.map Doomed.row).Nodup) :
    ds.countP (·.loaded.isSome) ≤ (c.definitions.length + 1) * g.entities.length := by
  let met := ds.filterMap fun d => d.loaded.map fun e => (d.schema.name, e.index)
  have hcount : met.length = ds.countP (·.loaded.isSome) := by
    simp [met, List.length_filterMap_eq_countP]
  have hmet : met ⊆ (start.schema.name :: c.names) ×ˢ List.range g.entities.length := by
    intro p hp
    obtain ⟨d, hd, hp⟩ := List.mem_filterMap.1 hp
    obtain ⟨e, he, rfl⟩ := Option.map_eq_some_iff.1 hp
    have hkey := h.loaded hstart hd e he
    have hlt := (Graph.of_key?_isSome (by rw [hkey]; rfl)).1
    exact List.mem_product.2 ⟨h.type hd, List.mem_range.2 hlt⟩
  -- an entity has one key, and so the same type and entity mean the same rows
  have hdifferent : met.Nodup := by
    rw [List.Nodup, List.pairwise_filterMap]
    rw [List.Nodup, List.pairwise_map] at hnodup
    refine hnodup.imp_of_mem fun {d d'} hd hd' hne p hp p' hp' heq => hne ?_
    obtain ⟨e, he, rfl⟩ := Option.map_eq_some_iff.1 hp
    obtain ⟨e', he', rfl⟩ := Option.map_eq_some_iff.1 hp'
    obtain ⟨hname, hindex⟩ := Prod.mk.inj heq
    obtain rfl : e = e' := by
      cases e
      cases e'
      exact congrArg _ hindex
    have hkey := (h.loaded hstart hd e he).symm.trans (h.loaded hstart hd' e he')
    rw [Doomed.row, Doomed.row, hname, Option.some.inj hkey]
  have hle := (hdifferent.subperm hmet).length_le
  rwa [hcount, List.length_product, List.length_range, List.length_cons, Catalog.names,
    List.length_map] at hle

end Path

/-- How long a path can be. -/
def reach (c : Catalog) (g : Graph) (V : List Value) : Nat :=
  let types := c.definitions.length + 1
  types * (1 + types * g.entities.length + 5 * V.length)

/-- A path on which no type and key come twice is not longer than types and keys let it be. -/
theorem Path.length_le (h : Path c (· ∈ V) g start ds)
    (hstart : ∀ e ∈ start.loaded, g.key? e = some start.key) (hnodup : (ds.map Doomed.row).Nodup) :
    ds.length ≤ reach c g V := by
  obtain ⟨values, hlength, hvalues⟩ := h.keys
  have hrows : ds.map Doomed.row ⊆
      (start.schema.name :: c.names) ×ˢ (start.key :: AtomicKind.forms V ++ values) := by
    intro r hr
    obtain ⟨d, hd, rfl⟩ := List.mem_map.1 hr
    exact List.mem_product.2 ⟨h.type hd, hvalues d hd⟩
  have hle := (hnodup.subperm hrows).length_le
  rw [List.length_map, List.length_product] at hle
  refine Nat.le_trans hle ?_
  have hforms := AtomicKind.length_forms_le V
  have hloaded := Nat.le_trans hlength (h.loaded_le hstart hnodup)
  have htypes : (start.schema.name :: c.names).length = c.definitions.length + 1 := by
    simp [Catalog.names]
  rw [htypes]
  refine Nat.mul_le_mul_left _ ?_
  simp only [List.cons_append, List.length_cons, List.length_append]
  omega

end path

/-! ### More depth -/

section depth

open Act Traversal

variable {σ : Type} [Connection σ] {c : Catalog} {delete delete' : Doomed → DeletionM σ Unit}

/-- What meets a condition is deleted in the same way if all rows are. -/
theorem agrees_deleteMatching (h : ∀ x, Agrees (delete x) (delete' x)) (d : Doomed) (target : Schema)
    (table : String) (condition : Expr) (known : List EntityId) :
    Agrees (deleteMatching delete d target table condition known)
      (deleteMatching delete' d target table condition known) := by
  refine (Agrees.refl _).bind fun key => (Agrees.refl _).bind fun rows => agrees_forM fun row => ?_
  exact (Agrees.refl _).bind fun v => .ite (.refl _) ((Agrees.refl _).bind fun g => h _)

/-- A policy is applied in the same way if all rows are deleted in the same way. -/
theorem agrees_applyPolicy (h : ∀ x, Agrees (delete x) (delete' x)) (d : Doomed) (comp : Component)
    (join : Join) : Agrees (applyPolicy c delete d comp join) (applyPolicy c delete' d comp join) := by
  refine (Agrees.refl _).bind fun target => (Agrees.refl _).bind fun foreignKey =>
    (Agrees.refl _).bind fun g => (Agrees.refl _).bind fun condition? => ?_
  cases condition? with
  | none => exact .refl _
  | some condition =>
    cases comp.onDelete with
    | keep => exact .refl _
    | setNull => exact .refl _
    | cascade => exact (Agrees.refl _).bind fun g => agrees_deleteMatching h _ _ _ _ _

theorem agrees_prepare (h : ∀ x, Agrees (delete x) (delete' x)) (d : Doomed) (comp : Component) :
    Agrees (prepare c delete d comp) (prepare c delete' d comp) := by
  refine .ite (.refl _) ((Agrees.refl _).bind fun join => ?_)
  cases join.side with
  | there => exact (agrees_applyPolicy h d comp join).bind fun _ => .refl _
  | here => exact .refl _

theorem agrees_deleteOwned (h : ∀ x, Agrees (delete x) (delete' x)) (d : Doomed) (o : Owned) :
    Agrees (deleteOwned c delete d o) (deleteOwned c delete' d o) := by
  refine (Agrees.refl _).bind fun target => (Agrees.refl _).bind fun g =>
    (Agrees.refl _).bind fun a => .ite (h _) ?_
  exact agrees_deleteMatching h _ _ _ _ _

/-- A deletion with one more level agrees. -/
theorem agrees_deleteFrom_succ (depth : Nat) (d : Doomed) :
    Agrees (deleteFrom c depth d : DeletionM σ Unit) (deleteFrom c (depth + 1) d) := by
  induction depth generalizing d with
  | zero => exact fun s => .inl ⟨s, rfl⟩
  | succ depth ih =>
    rw [deleteFrom, deleteFrom]
    refine (Agrees.refl _).bind fun first => .ite (.refl _) ((Agrees.refl _).bind fun key => ?_)
    refine (agrees_mapM fun comp => agrees_prepare ih d comp).bind fun owned =>
      (Agrees.refl _).bind fun _ => ?_
    exact (agrees_forM fun o => agrees_deleteOwned ih d o).bind fun _ => .refl _

/-- A deletion with more depth agrees. -/
theorem agrees_deleteFrom {depth depth' : Nat} (h : depth ≤ depth') (d : Doomed) :
    Agrees (deleteFrom c depth d : DeletionM σ Unit) (deleteFrom c depth' d) := by
  induction h with
  | refl => exact .refl _
  | step _ ih => exact ih.trans (agrees_deleteFrom_succ _ d)

end depth

end Deletion

/-! ### Enough depth -/

/-- The first cells of what a connection answers to queries of a column are null or come from a list,
whatever has been sent before that adds nothing. -/
def Connection.Draws {σ : Type} [Connection σ] (V : List Value) (link : σ) : Prop :=
  ∀ (l : Deletion.Journal) column (q : Select) rows, (∀ p ∈ l, p.2.AddsNothing) →
    q.columns = [(.name column, none)] → (Connection.select q (replay link l)).1 = .ok rows →
    ∀ row ∈ rows, Deletion.firstCell row ≠ .null → Deletion.firstCell row ∈ V

namespace Deletion

open Traversal

variable {σ : Type} [Connection σ] {c : Catalog} {V : List Value} {start d : Doomed} {ds : List Doomed}
  {t t₀ : Traversal (String × Value) σ}

/-- What a connection draws on it goes on to draw on. -/
theorem answers_of_draws (hdraws : Connection.Draws V t₀.world.wire.link) (hlater : Later t₀ t) :
    Answers (· ∈ V) t := by
  obtain ⟨l, hl, hlink⟩ := hlater.link
  intro column q rows hq hrows
  rw [hlink] at hrows
  exact hdraws l column q rows hl hq hrows

/-- No failure but that of a depth of nothing exhausts the depth. -/
theorem faults_deep : Faults (σ := σ) fun _ error _ => error ≠ .exhausted where
  aside := by
    rintro _ _ _ _ error hordinary _ _ rfl
    exact hordinary
  after _ hne := hne
  entered _ hne := hne
  pass := by
    rintro _ _ _ _ _ _ _ _ error _ _ _ hordinary _ _ rfl
    exact hordinary
  owned _ _ _ _ hne := hne

/-- The visit at the end of a path does not exhaust the depth that is left. -/
theorem ends_visit_deep (hdraws : Connection.Draws V t₀.world.wire.link)
    (hstart : ∀ e ∈ start.loaded, t₀.world.graph.key? e = some start.key) {depth : Nat}
    (hpath : Path c (· ∈ V) t₀.world.graph start (d :: ds)) (hnodup : (ds.map Doomed.row).Nodup)
    (hentered : ds.map Doomed.row ⊆ t.entered) (hlater : Later t₀ t)
    (hdepth : reach c t₀.world.graph V < depth + ds.length) :
    Visits (fun _ error _ => error ≠ .exhausted) (visit c depth d) d t := by
  induction depth generalizing d ds t with
  | zero =>
    have hle : ds.length ≤ reach c t₀.world.graph V := by
      cases hpath with
      | start => exact Nat.zero_le _
      | next hpath => exact hpath.length_le hstart hnodup
    omega
  | succ depth ih =>
    refine faults_deep.ends_visit_succ (· ∈ V) fun hnew => ⟨fun t' ht' => ?_, fun x t' ht' hnext => ?_⟩
    · exact answers_of_draws hdraws (hlater.trans ((Later.entering t d.row).trans ht'))
    · have hlater' := hlater.trans ((Later.entering t d.row).trans ht')
      refine ih (hpath.next hlater'.graph hnext) ?_ ?_ hlater' ?_
      · exact List.nodup_cons.2 ⟨fun hmem => hnew (hentered hmem), hnodup⟩
      · refine List.Subset.trans ?_ ht'.entered
        exact List.cons_subset_cons _ hentered
      · rw [List.length_cons]
        omega

/-- A deletion with enough depth is not exhausted. -/
theorem deleteFrom_deep {w : World σ} (hdraws : Connection.Draws V w.wire.link)
    (hstart : ∀ e ∈ d.loaded, w.graph.key? e = some d.key) {depth : Nat}
    (hdepth : reach c w.graph V < depth) (t : Traversal (String × Value) σ) :
    deleteFrom c depth d { world := w } ≠ .error .exhausted t := by
  have hvisits : Visits (fun _ error _ => error ≠ .exhausted) (visit c depth d) d { world := w } :=
    ends_visit_deep hdraws hstart .start List.nodup_nil (List.nil_subset _) (.refl _) hdepth
  have hends : (deleteFrom c depth d).Ends { world := w } (fun _ _ => True)
      fun error _ => error ≠ .exhausted := by
    rw [deleteFrom_eq, silent, Act.ends_bind]
    exact Act.Ends.mono hvisits (fun _ _ _ => trivial) fun _ _ hne => hne
  exact fun heq => hends.of_error heq rfl

/-- All deletions with enough depth do the same. -/
theorem deleteFrom_eq_deep {w : World σ} (hdraws : Connection.Draws V w.wire.link)
    (hstart : ∀ e ∈ d.loaded, w.graph.key? e = some d.key) {depth : Nat}
    (hdepth : reach c w.graph V < depth) :
    deleteFrom c depth d { world := w } =
      deleteFrom c (reach c w.graph V + 1) d { world := w } := by
  rcases agrees_deleteFrom (c := c) hdepth d { world := w } with ⟨t, hout⟩ | heq
  · exact absurd hout (deleteFrom_deep hdraws hstart (Nat.lt_succ_self _) t)
  · exact heq

end Deletion

end EntityGraph
