import EntityGraph.Proofs.Cells
import EntityGraph.Query.Mapper

/-!
# Occurrences of atomics

An atomic that a schema embeds occurs at a path of embedded properties. Saving, selecting and loading
an entity go through embedded components each in a way of its own; all of them come down to the one
list of occurrences, own ones first.

* `Schema.occurrences` — the paths and atomics of a schema and of all that it embeds;
* `dirtyAtomics_eq_filterMap` — what is saved are the occurrences whose values storage does not have;
* `allAtomics_eq_filterMap` — what is checked are the occurrences whose components have been used;
* `columnsOf_eq` — what is selected is one column for each occurrence.
-/

namespace EntityGraph

namespace Schema

mutual

/-- The atomics of a schema that is embedded at a path, and of all that it embeds, each with its
path. -/
def occurrences : Schema → List String → List (List String × Atomic)
  | ⟨_, _, _, _, _, atomics, _, embedded⟩, path =>
    atomics.map (path, ·) ++ occurrencesOf embedded path

/-- The part for a list of embedded schemas. -/
def occurrencesOf : List (String × Schema) → List String → List (List String × Atomic)
  | [], _ => []
  | (name, s) :: rest, path => occurrences s (path ++ [name]) ++ occurrencesOf rest path

end

/-- The occurrences in embedded schemas, one schema after the other. -/
theorem occurrencesOf_eq (l : List (String × Schema)) (path : List String) :
    occurrencesOf l path = l.flatMap fun p => p.2.occurrences (path ++ [p.1]) := by
  induction l with
  | nil => rfl
  | cons p l ih => exact congrArg (p.2.occurrences (path ++ [p.1]) ++ ·) ih

/-- All occurrences are those of the own atomics and those in the embedded schemas. -/
theorem occurrences_eq (s : Schema) (path : List String) :
    s.occurrences path =
      s.atomics.map (path, ·) ++ s.embedded.flatMap fun p => p.2.occurrences (path ++ [p.1]) := by
  rw [← occurrencesOf_eq]
  cases s
  rfl

/-- The atomics that occur are all atomics. -/
theorem map_occurrences (s : Schema) (path : List String) :
    (s.occurrences path).map (·.2) = s.deepAtomics := by
  induction s using Schema.induction generalizing path with
  | _ s ih =>
    rw [occurrences_eq, deepAtomics_eq, List.map_append, List.map_map, List.map_flatMap]
    have hown : (s.atomics.map fun a => (path, a).2) = s.atomics := List.map_id' _
    exact congrArg₂ (· ++ ·) hown (List.flatMap_congr fun p hp => ih p hp _)

/-- An occurrence is an own atomic, or one in an embedded schema. -/
theorem mem_occurrences_iff {s : Schema} {path : List String} {q : List String × Atomic} :
    q ∈ s.occurrences path ↔ (∃ a ∈ s.atomics, q = (path, a)) ∨
      ∃ p ∈ s.embedded, q ∈ p.2.occurrences (path ++ [p.1]) := by
  rw [occurrences_eq, List.mem_append, List.mem_map, List.mem_flatMap]
  simp only [eq_comm]

/-- The occurrences of a schema that is embedded at a path are its own ones, further down. -/
theorem occurrences_append (s : Schema) (path rest : List String) :
    s.occurrences (path ++ rest) = (s.occurrences rest).map fun q => (path ++ q.1, q.2) := by
  induction s using Schema.induction generalizing rest with
  | _ s ih =>
    rw [occurrences_eq, occurrences_eq, List.map_append, List.map_map, List.map_flatMap]
    refine congrArg₂ (· ++ ·) rfl (List.flatMap_congr fun p hp => ?_)
    rw [List.append_assoc]
    exact ih p hp (rest ++ [p.1])

/-- An occurrence is an own atomic, or one of an embedded schema further down. -/
theorem cases_of_mem_occurrences {s : Schema} {q : List String × Atomic} (hq : q ∈ s.occurrences []) :
    (∃ a ∈ s.atomics, q = ([], a)) ∨
      ∃ p ∈ s.embedded, ∃ r ∈ p.2.occurrences [], q = (p.1 :: r.1, r.2) := by
  refine (mem_occurrences_iff.1 hq).imp_right fun ⟨p, hp, hq⟩ => ⟨p, hp, ?_⟩
  have hshift := occurrences_append p.2 [p.1] []
  rw [List.append_nil] at hshift
  rw [List.nil_append, hshift] at hq
  obtain ⟨r, hr, rfl⟩ := List.mem_map.1 hq
  exact ⟨r, hr, rfl⟩

/-- Paths of occurrences begin where the schema is embedded. -/
theorem path_of_mem_occurrences {s : Schema} {path : List String} {q : List String × Atomic}
    (hq : q ∈ s.occurrences path) : path <+: q.1 := by
  induction s using Schema.induction generalizing path with
  | _ s ih =>
    rcases mem_occurrences_iff.1 hq with ⟨a, -, rfl⟩ | ⟨p, hp, hq⟩
    · exact List.prefix_refl _
    · exact (List.prefix_append _ _).trans (ih p hp hq)

/-- The atomics of the schema that is embedded at the end of a path occur there. -/
theorem mem_occurrences_of_embeddedAt? {s t : Schema} {path : List String} {a : Atomic}
    (h : s.embeddedAt? path = some t) (ha : a ∈ t.atomics) : (path, a) ∈ s.occurrences [] := by
  induction path generalizing s with
  | nil =>
    obtain rfl := Option.some.inj h
    exact mem_occurrences_iff.2 (.inl ⟨a, ha, rfl⟩)
  | cons name path ih =>
    obtain ⟨u, hu, ht⟩ := Option.bind_eq_some_iff.1 h
    have hshift := occurrences_append u [name] []
    rw [List.append_nil] at hshift
    refine mem_occurrences_iff.2 (.inr ⟨(name, u), mem_of_embedded? hu, ?_⟩)
    rw [List.nil_append, hshift]
    exact List.mem_map.2 ⟨(path, a), ih ht, rfl⟩

/-- Occurrences are told apart by their cells. -/
theorem eq_of_cell {s : Schema} {q q' : List String × Atomic} (hcells : s.CellsDiffer)
    (hq : q ∈ s.occurrences []) (hq' : q' ∈ s.occurrences []) (hcell : s.cell q.2 = s.cell q'.2) :
    q = q' := by
  have hnodup : ((s.occurrences []).map fun q => s.cell q.2).Nodup := by
    have hmap : (s.occurrences []).map (fun q => s.cell q.2) = s.deepAtomics.map s.cell := by
      rw [← map_occurrences s [], List.map_map]
      rfl
    rw [hmap]
    exact hcells
  exact List.inj_on_of_nodup_map hnodup hq hq' hcell

end Schema

namespace Graph

variable {c : Catalog} {g : Graph} {e x : EntityId}

/-- The embedded component at the end of a path, if it has been used. -/
def partAt? (g : Graph) : EntityId → List String → Option EntityId
  | e, [] => some e
  | e, name :: path => ((g.entity e).embedded.get? name).bind fun x => g.partAt? x path

theorem partAt?_cons (g : Graph) (e : EntityId) (name : String) (path : List String) :
    g.partAt? e (name :: path) =
      ((g.entity e).embedded.get? name).bind fun x => g.partAt? x path := rfl

/-- A path is followed in two parts. -/
theorem partAt?_append (g : Graph) (e : EntityId) (path rest : List String) :
    g.partAt? e (path ++ rest) = (g.partAt? e path).bind fun x => g.partAt? x rest := by
  induction path generalizing e with
  | nil => rfl
  | cons name path ih =>
    rw [List.cons_append, partAt?_cons, partAt?_cons]
    cases (g.entity e).embedded.get? name with
    | none => rfl
    | some y => exact ih y

/-- What is known of the value at an occurrence. -/
def slotAt (g : Graph) (e : EntityId) (q : List String × Atomic) : Option (Slot Value) :=
  (g.partAt? e q.1).bind fun x => (g.entity x).atomics.get? q.2.name

/-- The value of an atomic of the embedded component at the end of a path; null while it is unset. -/
def valueAt (g : Graph) (e : EntityId) (q : List String × Atomic) : Value :=
  ((g.slotAt e q).map (·.value)).getD .null

/-- Where a path leads depends on embedded components alone, of the entities that they lead to. -/
theorem partAt?_congr {g' : Graph} {P : EntityId → Prop}
    (heq : ∀ d, P d → (g'.entity d).embedded = (g.entity d).embedded)
    (hclosed : ∀ d, P d → ∀ name y, (g.entity d).embedded.get? name = some y → P y)
    (he : P e) (path : List String) :
    g'.partAt? e path = g.partAt? e path ∧ ∀ y, g.partAt? e path = some y → P y := by
  induction path generalizing e with
  | nil => exact ⟨rfl, fun y hy => Option.some.inj hy ▸ he⟩
  | cons name path ih =>
    rw [partAt?_cons, partAt?_cons, heq e he]
    cases hy : (g.entity e).embedded.get? name with
    | none => exact ⟨rfl, fun _ h => nomatch h⟩
    | some y => exact ih (hclosed e he name y hy)

/-- What is known of a value depends on values and embedded components alone, of the entities that
embedded components lead to. -/
theorem slotAt_congr {g' : Graph} {P : EntityId → Prop}
    (heq : ∀ d, P d → (g'.entity d).atomics = (g.entity d).atomics ∧
      (g'.entity d).embedded = (g.entity d).embedded)
    (hclosed : ∀ d, P d → ∀ name y, (g.entity d).embedded.get? name = some y → P y)
    (he : P e) (q : List String × Atomic) : g'.slotAt e q = g.slotAt e q := by
  obtain ⟨hpart, hP⟩ := partAt?_congr (fun d hd => (heq d hd).2) hclosed he q.1
  unfold slotAt
  rw [hpart]
  cases hy : g.partAt? e q.1 with
  | none => rfl
  | some y => exact congrArg (·.get? q.2.name) (heq y (hP y hy)).1

/-- The atomic and value of an occurrence whose value storage does not have. -/
def dirtyAt (g : Graph) (e : EntityId) (q : List String × Atomic) : Option (Atomic × Value) :=
  (g.slotAt e q).bind fun slot => if slot.clean then none else some (q.2, slot.value)

/-- No component is at the end of a path of which a part has not been used. -/
theorem filterMap_eq_nil_of_partAt? {β : Type} {f : EntityId → Atomic → Option β} {s : Schema}
    {path : List String} (h : g.partAt? e path = none) :
    ((s.occurrences path).filterMap fun q => (g.partAt? e q.1).bind fun y => f y q.2) = [] := by
  refine List.filterMap_eq_nil_iff.2 fun q hq => ?_
  obtain ⟨rest, hrest⟩ := Schema.path_of_mem_occurrences hq
  rw [← hrest, partAt?_append, h]
  rfl

/-- What is gathered from the own atomics of a part and of its own parts is gathered from the
occurrences whose components have been used. -/
theorem filterMap_partsOf {β : Type} (hwf : g.WellFormed c) (f : EntityId → Atomic → Option β)
    {s : Schema} {path : List String} (hx : g.partAt? e path = some x) (hs : (g.entity x).schema = s) :
    ((g.partsOf s x).flatMap fun y => (g.entity y).schema.atomics.filterMap (f y)) =
      (s.occurrences path).filterMap fun q => (g.partAt? e q.1).bind fun y => f y q.2 := by
  induction s using Schema.induction generalizing path x with
  | _ s ih =>
    rw [partsOf_eq, Schema.occurrences_eq, List.flatMap_cons, List.filterMap_append,
      List.flatMap_assoc, List.filterMap_flatMap]
    refine congrArg₂ (· ++ ·) ?_ (List.flatMap_congr fun p hp => ?_)
    · rw [hs, List.filterMap_map]
      refine List.filterMap_congr fun a _ => ?_
      simp only [Function.comp_apply, hx, Option.bind_some]
    · have hstep : g.partAt? e (path ++ [p.1]) = (g.entity x).embedded.get? p.1 := by
        rw [partAt?_append, hx]
        show ((g.entity x).embedded.get? p.1).bind (fun y => some y) = _
        cases (g.entity x).embedded.get? p.1 <;> rfl
      cases hy : (g.entity x).embedded.get? p.1 with
      | none =>
        rw [hy] at hstep
        rw [filterMap_eq_nil_of_partAt? hstep]
        rfl
      | some y =>
        rw [hy] at hstep
        show ((g.partsOf p.2 y ++ []).flatMap _) = _
        rw [List.append_nil]
        exact ih p hp hstep (hwf.schema_of_embedded (hs ▸ hp) hy)

/-- What an entity has to save are its occurrences whose values storage does not have. -/
theorem dirtyAtomics_eq_filterMap (hwf : g.WellFormed c) (e : EntityId) :
    g.dirtyAtomics e = ((g.entity e).schema.occurrences []).filterMap (g.dirtyAt e) := by
  refine (filterMap_partsOf hwf _ rfl rfl).trans (List.filterMap_congr fun q _ => ?_)
  unfold dirtyAt slotAt
  cases g.partAt? e q.1 with
  | none => rfl
  | some y =>
    simp only [Option.bind_some]
    cases (g.entity y).atomics.get? q.2.name <;> rfl

/-- All values of an entity are those at its occurrences whose components have been used. -/
theorem allAtomics_eq_filterMap (hwf : g.WellFormed c) (e : EntityId) :
    g.allAtomics e = ((g.entity e).schema.occurrences []).filterMap fun q =>
      (g.partAt? e q.1).map fun _ => (q.2, g.valueAt e q) := by
  have hall : g.allAtomics e = (g.parts e).flatMap fun y =>
      (g.entity y).schema.atomics.filterMap fun a => some (a, (g.entity y).atomicValue a.name) :=
    List.flatMap_congr fun y _ => (congrFun List.filterMap_eq_map (g.entity y).schema.atomics).symm
  refine hall.trans ((filterMap_partsOf hwf _ rfl rfl).trans (List.filterMap_congr fun q _ => ?_))
  unfold valueAt slotAt
  cases g.partAt? e q.1 <;> rfl

end Graph

namespace Planner

variable {n : PlanNode} {r s : Schema} {path : List String}

/-- The column of an atomic depends on the table of its schema alone. -/
theorem column_of_table {a : Atomic} {name : String} (htable : s.table = r.table)
    (h : n.column r a = .ok name) : n.column s a = .ok name := by
  have htableOf : s.tableOf a = r.tableOf a := by
    unfold Schema.tableOf
    rw [htable]
  unfold PlanNode.column at h ⊢
  rw [htableOf]
  split at h
  · exact h
  · cases h

/-- The columns of a list of embedded schemas, one schema after the other. -/
theorem columnsOfEmbedded_eq (path : List String) {l : List (String × Schema)}
    {f : String × Schema → List (Operand × Option String)}
    (h : ∀ p ∈ l, columnsOf n (path ++ [p.1]) p.2 = .ok (f p)) :
    columnsOfEmbedded n path l = .ok (l.flatMap f) := by
  induction l with
  | nil => rfl
  | cons p l ih =>
    rw [columnsOfEmbedded_cons, h p List.mem_cons_self,
      ih fun q hq => h q (List.mem_cons_of_mem _ hq)]
    rfl

/-- What is selected at a node is one column for each occurrence, where the tables of all atomics
are joined. -/
theorem columnsOf_eq (path : List String) {reference : Atomic → String}
    (htable : ∀ t : Schema, t.Within s → t.table = r.table)
    (hcolumn : ∀ a ∈ s.deepAtomics, n.column r a = .ok (reference a)) :
    columnsOf n path s = .ok ((s.occurrences path).map fun q =>
      (.name (reference q.2), some (n.label q.1 q.2.name))) := by
  induction s using Schema.induction generalizing path with
  | _ s ih =>
    have hown : (s.atomics.mapM fun a => do
        return (Operand.name (← n.column s a), some (n.label path a.name))) =
        .ok (s.atomics.map fun a => (Operand.name (reference a), some (n.label path a.name))) := by
      refine mapM_eq_ok fun a ha => ?_
      have hmem : a ∈ s.deepAtomics := by
        rw [Schema.deepAtomics_eq]
        exact List.mem_append_left _ ha
      rw [column_of_table (htable s (.refl s)) (hcolumn a hmem)]
      rfl
    have hembedded := columnsOfEmbedded_eq (n := n) path (l := s.embedded) fun p hp =>
      ih p hp (path ++ [p.1]) (fun t ht => htable t (ht.trans (.embedded (.refl s) hp)))
        fun a ha => hcolumn a (by
          rw [Schema.deepAtomics_eq]
          exact List.mem_append_right _ (List.mem_flatMap.2 ⟨p, hp, ha⟩))
    rw [Schema.occurrences_eq, List.map_append, List.map_map, List.map_flatMap, columnsOf_def, hown,
      hembedded]
    rfl

/-- Embedded schemas whose columns are selected are selected one after the other. -/
theorem columnsOfEmbedded_ok {path : List String} {l : List (String × Schema)}
    {columns : List (Operand × Option String)} (h : columnsOfEmbedded n path l = .ok columns) :
    ∀ p ∈ l, ∃ part, columnsOf n (path ++ [p.1]) p.2 = .ok part := by
  induction l generalizing columns with
  | nil => exact fun _ hp => absurd hp List.not_mem_nil
  | cons p l ih =>
    rw [columnsOfEmbedded_cons] at h
    obtain ⟨part, hpart, h⟩ := bind_eq_ok_iff.1 h
    obtain ⟨rest, hrest, -⟩ := bind_eq_ok_iff.1 h
    exact List.forall_mem_cons.2 ⟨⟨part, hpart⟩, ih hrest⟩

/-- Where the columns of a schema are selected, the tables of all its atomics are joined. -/
theorem column_of_columnsOf {columns : List (Operand × Option String)}
    (htable : ∀ t : Schema, t.Within s → t.table = r.table) (h : columnsOf n path s = .ok columns) :
    ∀ a ∈ s.deepAtomics, ∃ reference, n.column r a = .ok reference := by
  induction s using Schema.induction generalizing path columns with
  | _ s ih =>
    rw [columnsOf_def] at h
    obtain ⟨own, hown, h⟩ := bind_eq_ok_iff.1 h
    obtain ⟨parts, hparts, -⟩ := bind_eq_ok_iff.1 h
    intro a ha
    rw [Schema.deepAtomics_eq] at ha
    rcases List.mem_append.1 ha with ha | ha
    · obtain ⟨x, hx⟩ := exists_of_mapM_ok hown ha
      obtain ⟨reference, hreference, -⟩ := bind_eq_ok_iff.1 hx
      exact ⟨reference, column_of_table (htable s (.refl s)).symm hreference⟩
    · obtain ⟨p, hp, ha⟩ := List.mem_flatMap.1 ha
      obtain ⟨part, hpart⟩ := columnsOfEmbedded_ok hparts p hp
      exact ih p hp (fun t ht => htable t (ht.trans (.embedded (.refl s) hp))) hpart a ha

end Planner

end EntityGraph
