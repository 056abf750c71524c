import EntityGraph.Proofs.Answer
import EntityGraph.Proofs.Persistent

/-!
# Reading an entity from a row

Loading an entity makes its embedded components as it goes, so an entity that is new when loading
begins owns all that is made meanwhile. The graph only *grows*: what was there before stays as it is,
and what is new is clean and leads to new entities only. What has been read into one component is
therefore not touched when the next one is read.

## Main results

* `ends_loadPart`: a new entity that is loaded has at every occurrence the value under its label.
* `ends_mapRows`: a row of one root becomes one tuple, with a new entity that storage has.
-/

namespace EntityGraph

namespace Graph

variable {g g' g'' : Graph} {e x : EntityId}

/-- All values of an entity agree with storage. -/
def Clean (x : Entity) : Prop :=
  ∀ p ∈ x.atomics, p.2.clean = true

/-- An entity has the components that its schema embeds, at any depth. -/
def Spreads (g : Graph) (e : EntityId) (s : Schema) : Prop :=
  ∀ path t, s.embeddedAt? path = some t → ∃ x, g.partAt? e path = some x ∧ (g.entity x).schema = t

/-- A graph has grown below an entity: other entities are as they were, and the new ones are clean and
lead to new ones. Relations are not touched. -/
structure Grown (e : EntityId) (g g' : Graph) : Prop where
  length : g.entities.length ≤ g'.entities.length
  same : ∀ d, d.index < g.entities.length → d ≠ e → g'.entity d = g.entity d
  schema : ∀ d, d.index < g.entities.length → (g'.entity d).schema = (g.entity d).schema
  clean : ∀ d, d = e ∨ g.entities.length ≤ d.index → Clean (g.entity d) → Clean (g'.entity d)
  embedded : ∀ d name y, d = e ∨ g.entities.length ≤ d.index →
    (g'.entity d).embedded.get? name = some y →
      (g.entity d).embedded.get? name = some y ∨
        (g.entities.length ≤ y.index ∧ y.index < g'.entities.length)
  relations : ∀ d, (g'.entity d).toMany = (g.entity d).toMany ∧
    (g'.entity d).toOne = (g.entity d).toOne
  collections : g'.collections = g.collections

namespace Grown

theorem refl (e : EntityId) (g : Graph) : Grown e g g :=
  ⟨Nat.le_refl _, fun _ _ _ => rfl, fun _ _ => rfl, fun _ _ h => h, fun _ _ _ _ h => .inl h,
    fun _ => ⟨rfl, rfl⟩, rfl⟩

/-- A graph that goes on growing below the entity, or below a new one, has grown below the entity. -/
theorem trans (h : Grown e g g') (h' : Grown x g' g'') (hx : x = e ∨ g.entities.length ≤ x.index) :
    Grown e g g'' := by
  have hold : ∀ d, d.index < g.entities.length → d ≠ e → g''.entity d = g'.entity d := by
    intro d hlt hne
    refine h'.same d (Nat.lt_of_lt_of_le hlt h.length) ?_
    rintro rfl
    rcases hx with rfl | hle
    · exact hne rfl
    · omega
  -- an entity that grows in the second part does, or stays as it is
  have hstep : ∀ d, (d = x ∨ g'.entities.length ≤ d.index) ∨ g''.entity d = g'.entity d := by
    intro d
    by_cases hdx : d = x
    · exact .inl (.inl hdx)
    · by_cases hle : g'.entities.length ≤ d.index
      · exact .inl (.inr hle)
      · exact .inr (h'.same d (by omega) hdx)
  refine ⟨Nat.le_trans h.length h'.length, fun d hlt hne => ?_, fun d hlt => ?_,
    fun d hd hclean => ?_, fun d name y hd hy => ?_, fun d => ?_, h'.collections.trans h.collections⟩
  · rw [hold d hlt hne, h.same d hlt hne]
  · rw [h'.schema d (Nat.lt_of_lt_of_le hlt h.length), h.schema d hlt]
  · have hclean' := h.clean d hd hclean
    rcases hstep d with hd' | heq
    · exact h'.clean d hd' hclean'
    · rwa [heq]
  · have hy' : (g'.entity d).embedded.get? name = some y ∨
        (g'.entities.length ≤ y.index ∧ y.index < g''.entities.length) := by
      rcases hstep d with hd' | heq
      · exact h'.embedded d name y hd' hy
      · exact .inl (heq ▸ hy)
    have hlength := h.length
    have hlength' := h'.length
    rcases hy' with hy' | hy'
    · exact (h.embedded d name y hd hy').imp_right fun hy' => ⟨hy'.1, by omega⟩
    · exact .inr ⟨by omega, hy'.2⟩
  · exact ⟨(h'.relations d).1.trans (h.relations d).1, (h'.relations d).2.trans (h.relations d).2⟩

/-- A change of the values of an entity. -/
theorem modifyEntity (g : Graph) (e : EntityId) {f : Entity → Entity}
    (hf : ∀ x, (f x).schema = x.schema ∧ (f x).embedded = x.embedded ∧ (f x).toMany = x.toMany ∧
      (f x).toOne = x.toOne)
    (hclean : ∀ x, Clean x → Clean (f x)) : Grown e g (g.modifyEntity e f) where
  length := Nat.le_of_eq (length_modifyEntity g e f).symm
  same _ _ hne := entity_modifyEntity_of_ne f hne
  schema _ _ := view_modifyEntity (v := (·.schema)) (hf _).1
  clean _ _ h := forall_modifyEntity h fun _ => hclean _ h
  embedded _ _ _ _ hy := .inl (view_modifyEntity (v := (·.embedded)) (hf _).2.1 ▸ hy)
  relations _ := ⟨view_modifyEntity (v := (·.toMany)) (hf _).2.2.1,
    view_modifyEntity (v := (·.toOne)) (hf _).2.2.2⟩
  collections := rfl

/-- New entities lead to new entities. -/
theorem closed (h : Grown e g g') (d : EntityId)
    (hd : g.entities.length ≤ d.index ∧ d.index < g'.entities.length) (name : String) (y : EntityId)
    (hy : (g'.entity d).embedded.get? name = some y) :
    g.entities.length ≤ y.index ∧ y.index < g'.entities.length := by
  rcases h.embedded d name y (.inr hd.1) hy with hy | hy
  · rw [entity_of_length_le hd.1] at hy
    cases hy
  · exact hy

/-- New entities stay as they are while the graph goes on growing below the entity. -/
theorem same_new (h' : Grown e g' g'') (he : e.index < g.entities.length) {d : EntityId}
    (hd : g.entities.length ≤ d.index ∧ d.index < g'.entities.length) :
    g''.entity d = g'.entity d := by
  refine h'.same d hd.2 ?_
  rintro rfl
  omega

/-- What has been loaded into a new entity stays as it is while the graph goes on growing below the
entity that has got the new one. -/
theorem slotAt_eq (h : Grown e g g') (h' : Grown e g' g'') (he : e.index < g.entities.length)
    (hx : g.entities.length ≤ x.index ∧ x.index < g'.entities.length)
    (q : List String × Atomic) : g''.slotAt x q = g'.slotAt x q := by
  refine slotAt_congr
    (P := fun d => g.entities.length ≤ d.index ∧ d.index < g'.entities.length)
    (fun d hd => ?_) h.closed hx q
  rw [h'.same_new he hd]
  exact ⟨rfl, rfl⟩

/-- The components of what has been loaded stay where they are, too. -/
theorem spreads (h : Grown e g g') (h' : Grown e g' g'') (he : e.index < g.entities.length)
    (hx : g.entities.length ≤ x.index ∧ x.index < g'.entities.length) {s : Schema}
    (hs : Spreads g' x s) : Spreads g'' x s := by
  intro path t ht
  obtain ⟨y, hy, hschema⟩ := hs path t ht
  obtain ⟨hpart, hP⟩ := partAt?_congr
    (P := fun d => g.entities.length ≤ d.index ∧ d.index < g'.entities.length)
    (fun d hd => by rw [h'.same_new he hd]) h.closed hx path
  exact ⟨y, hpart.trans hy, by rw [h'.same_new he (hP y hy), hschema]⟩

/-- A new embedded component. -/
theorem withPart {name : String} {s : Schema} (he : e.index < g.entities.length) :
    Grown e g (g.withPart e name s) := by
  have hnew := entity_withPart_new name s he
  have hself := entity_withPart_self name s he
  have hlength := length_withPart g e name s
  refine ⟨by omega, fun d hlt hne => ?_, fun d hlt => ?_, fun d _ h => ?_, fun d other y _ hy => ?_,
    fun d => ?_, rfl⟩
  · refine entity_withPart_of_ne ?_ hne
    rintro rfl
    exact Nat.lt_irrefl _ hlt
  all_goals by_cases hde : d = e
  · rw [hde, hself]
  · rw [entity_withPart_of_ne (by rintro rfl; exact Nat.lt_irrefl _ hlt) hde]
  · rw [hde, hself]
    exact hde ▸ h
  · by_cases hdnew : d = ⟨g.entities.length⟩
    · rw [hdnew, hnew]
      exact fun p hp => absurd hp List.not_mem_nil
    · rwa [entity_withPart_of_ne hdnew hde]
  · rw [hde, hself] at hy
    by_cases hname : other = name
    · subst hname
      obtain rfl := Option.some.inj ((Assoc.get?_put_self _ _ _).symm.trans hy)
      exact .inr ⟨Nat.le_refl _, by simp [hlength]⟩
    · exact .inl (hde ▸ (Assoc.get?_put_of_ne _ _ hname).symm.trans hy)
  · by_cases hdnew : d = ⟨g.entities.length⟩
    · rw [hdnew, hnew] at hy
      cases hy
    · exact .inl (entity_withPart_of_ne hdnew hde ▸ hy)
  · rw [hde, hself]
    exact ⟨rfl, rfl⟩
  · by_cases hdnew : d = ⟨g.entities.length⟩
    · rw [hdnew, hnew, entity_of_length_le (Nat.le_refl _)]
      exact ⟨rfl, rfl⟩
    · rw [entity_withPart_of_ne hdnew hde]
      exact ⟨rfl, rfl⟩

end Grown

/-- An entity of a schema of which nothing is known yet. -/
structure Unread (g : Graph) (e : EntityId) (s : Schema) : Prop where
  lt : e.index < g.entities.length
  schema : (g.entity e).schema = s
  atomics : (g.entity e).atomics = []
  embedded : (g.entity e).embedded = []

/-- Nothing is known of a new entity. -/
theorem Unread.newEntity (g : Graph) (s : Schema) :
    ({ g with entities := g.entities ++ [{ schema := s }] } : Graph).Unread
      ⟨g.entities.length⟩ s := by
  have hnew := entity_append g s ⟨g.entities.length⟩
  rw [if_pos rfl] at hnew
  exact ⟨by simp, by rw [hnew], by rw [hnew], by rw [hnew]⟩

/-- Nothing is known of a new component. -/
theorem Unread.withPart {name : String} {s : Schema} (he : e.index < g.entities.length) :
    (g.withPart e name s).Unread ⟨g.entities.length⟩ s := by
  have hnew := entity_withPart_new name s he
  have hlength := length_withPart g e name s
  exact ⟨by simp [hlength], by rw [hnew], by rw [hnew], by rw [hnew]⟩

end Graph

namespace Mapper

open EntityGraph.Graph

variable {n : PlanNode} {row : Row} {v : List String × Atomic → Value} {g : Graph} {e : EntityId}
  {s : Schema} {path : List String}

/-- A row has a value for every occurrence, of the kind of its atomic. -/
def Shows (n : PlanNode) (row : Row) (v : List String × Atomic → Value) (s : Schema)
    (path : List String) : Prop :=
  ∀ q ∈ s.occurrences path, ∀ t : Schema, cell t q.2 row (n.label q.1 q.2.name) = .ok (v q)

/-- An entity has the values of a row, from a path on. -/
def HasRead (g : Graph) (e : EntityId) (v : List String × Atomic → Value) (s : Schema)
    (path : List String) : Prop :=
  ∀ q ∈ s.occurrences [], g.slotAt e q = some (.loaded (v (path ++ q.1, q.2)))

/-- Loading an entity that nothing is known of makes it have the values of the row. -/
def Loads (n : PlanNode) (row : Row) (v : List String × Atomic → Value) (s : Schema)
    (path : List String) : Prop :=
  ∀ g e, Unread g e s → (loadPart n row path s e).Ends g
    (fun _ g' => Grown e g g' ∧ HasRead g' e v s path ∧ Spreads g' e s) (fun _ _ => False)

/-- Own atomics are loaded first, and then one embedded schema after the other. -/
theorem loadPart_eq (n : PlanNode) (row : Row) (path : List String) (s : Schema) (e : EntityId) :
    loadPart n row path s e = (do
      let values ← s.atomics.mapM fun a => do
        return (a.name, ← Act.ofExcept (cell s a row (n.label path a.name)))
      Graph.loadAtomics e values
      loadEmbedded n row path s.embedded e) := by
  cases s
  rw [loadPart]

/-- Embedded components are made and loaded one after the other. -/
theorem ends_loadEmbedded {l : List (String × Schema)} (hl : (l.map (·.1)).Nodup)
    (hloads : ∀ p ∈ l, Loads n row v p.2 (path ++ [p.1])) (he : e.index < g.entities.length)
    (hs : ∀ p ∈ l, (g.entity e).schema.embedded? p.1 = some p.2)
    (hnew : ∀ p ∈ l, (g.entity e).embedded.get? p.1 = none) :
    (loadEmbedded n row path l e).Ends g (fun _ g' => Grown e g g' ∧
      (g'.entity e).atomics = (g.entity e).atomics ∧
      (∀ name, name ∉ l.map (·.1) →
        (g'.entity e).embedded.get? name = (g.entity e).embedded.get? name) ∧
      ∀ p ∈ l, ∃ x, (g'.entity e).embedded.get? p.1 = some x ∧
        HasRead g' x v p.2 (path ++ [p.1]) ∧ Spreads g' x p.2) (fun _ _ => False) := by
  induction l generalizing g with
  | nil => exact ⟨.refl e g, rfl, fun _ _ => rfl, fun p hp => absurd hp List.not_mem_nil⟩
  | cons p l ih =>
    obtain ⟨hnot, hl⟩ := List.nodup_cons.1 hl
    rw [loadEmbedded, Act.ends_bind, Act.Ends, embedded_eq (hs p List.mem_cons_self)
      (hnew p List.mem_cons_self)]
    show Act.Ends _ (g.withPart e p.1 p.2) _ _
    rw [Act.ends_bind]
    refine (hloads p List.mem_cons_self _ _ (.withPart he)).mono (fun _ g' h' => ?_)
      fun _ _ h => h
    obtain ⟨hgrown, hread, hspreads⟩ := h'
    -- the component has been loaded, and its owner has not changed since it got it
    have hlength := length_withPart g e p.1 p.2
    have hbelow : Grown e g g' := (Grown.withPart he).trans hgrown (.inr (Nat.le_refl _))
    have hself : g'.entity e = { g.entity e with
        embedded := (g.entity e).embedded.put p.1 ⟨g.entities.length⟩ } := by
      rw [hgrown.same e (by omega) (by rintro rfl; exact Nat.lt_irrefl _ he),
        entity_withPart_self _ _ he]
    have he' : e.index < g'.entities.length := Nat.lt_of_lt_of_le he hbelow.length
    have hs' : ∀ q ∈ l, (g'.entity e).schema.embedded? q.1 = some q.2 := by
      rw [hself]
      exact fun q hq => hs q (List.mem_cons_of_mem _ hq)
    have hnew' : ∀ q ∈ l, (g'.entity e).embedded.get? q.1 = none := by
      intro q hq
      have hne : q.1 ≠ p.1 := fun h => hnot (List.mem_map.2 ⟨q, hq, h⟩)
      rw [hself]
      exact (Assoc.get?_put_of_ne _ _ hne).trans (hnew q (List.mem_cons_of_mem _ hq))
    refine (ih hl (fun q hq => hloads q (List.mem_cons_of_mem _ hq)) he' hs' hnew').mono
      (fun _ g'' h'' => ?_) fun _ _ h => h
    obtain ⟨hgrown', hatomics, hothers, hall⟩ := h''
    refine ⟨hbelow.trans hgrown' (.inl rfl), by rw [hatomics, hself], fun name hname => ?_,
      fun q hq => ?_⟩
    · rw [List.map_cons, List.mem_cons, not_or] at hname
      rw [hothers name hname.2, hself]
      exact Assoc.get?_put_of_ne _ _ hname.1
    · rcases List.mem_cons.1 hq with rfl | hq
      · have hnew : g.entities.length < g'.entities.length :=
          Nat.lt_of_lt_of_le (hlength ▸ Nat.lt_succ_self _) hgrown.length
        refine ⟨⟨g.entities.length⟩, ?_, fun r hr => ?_,
          hbelow.spreads hgrown' he ⟨Nat.le_refl _, hnew⟩ hspreads⟩
        · rw [hothers q.1 hnot, hself]
          exact Assoc.get?_put_self _ _ _
        · rw [hbelow.slotAt_eq hgrown' he ⟨Nat.le_refl _, hnew⟩]
          exact hread r hr
      · exact hall q hq

/-- Loading own atomics changes values alone. -/
theorem loadAtomics_frame (x : Entity) (values : List (String × Value)) :
    (values.foldl (fun x p => x.loadAtomic p.1 p.2) x).schema = x.schema ∧
      (values.foldl (fun x p => x.loadAtomic p.1 p.2) x).embedded = x.embedded ∧
      (values.foldl (fun x p => x.loadAtomic p.1 p.2) x).toMany = x.toMany ∧
      (values.foldl (fun x p => x.loadAtomic p.1 p.2) x).toOne = x.toOne := by
  induction values generalizing x with
  | nil => exact ⟨rfl, rfl, rfl, rfl⟩
  | cons p values ih => exact ih (x.loadAtomic p.1 p.2)

/-- Loaded values agree with storage. -/
theorem clean_loadAtomics {x : Entity} (values : List (String × Value)) (hx : Clean x) :
    Clean (values.foldl (fun x p => x.loadAtomic p.1 p.2) x) := by
  induction values generalizing x with
  | nil => exact hx
  | cons p values ih =>
    refine ih fun q hq => ?_
    rcases Assoc.mem_put hq with rfl | hq
    · rfl
    · exact hx q hq

/-- What is loaded under names that differ is found under them. -/
theorem get?_loadAtomics {x : Entity} {values : List (String × Value)}
    (hnodup : (values.map (·.1)).Nodup) {p : String × Value} (hp : p ∈ values) :
    (values.foldl (fun x p => x.loadAtomic p.1 p.2) x).atomics.get? p.1 = some (.loaded p.2) := by
  have hkept : ∀ (values : List (String × Value)) (x : Entity) (name : String),
      name ∉ values.map (·.1) →
      (values.foldl (fun x p => x.loadAtomic p.1 p.2) x).atomics.get? name = x.atomics.get? name := by
    intro values
    induction values with
    | nil => exact fun _ _ _ => rfl
    | cons q values ih =>
      intro x name hname
      rw [List.map_cons, List.mem_cons, not_or] at hname
      exact (ih _ name hname.2).trans (Assoc.get?_put_of_ne _ _ hname.1)
  induction values generalizing x with
  | nil => cases hp
  | cons q values ih =>
    obtain ⟨hnot, hnodup⟩ := List.nodup_cons.1 hnodup
    rcases List.mem_cons.1 hp with rfl | hp
    · exact (hkept values _ p.1 hnot).trans (Assoc.get?_put_self _ _ _)
    · exact ih hnodup hp

/-- An entity of a coherent schema is loaded as the row shows it. -/
theorem ends_loadPart (hcoherent : ∀ t : Schema, t.Within s → t.Coherent)
    (hshows : Shows n row v s path) : Loads n row v s path := by
  induction s using Schema.induction generalizing path with
  | _ s ih =>
    intro g e hunread
    have hs := hcoherent s (.refl s)
    have hvalues : (s.atomics.mapM fun a => do
        return (a.name, ← Act.ofExcept (cell s a row (n.label path a.name)))) g =
        .ok (s.atomics.map fun a => (a.name, v (path, a))) g := by
      refine Act.mapM_eq_ok fun a ha => ?_
      have hmem : (path, a) ∈ s.occurrences path := Schema.mem_occurrences_iff.2 (.inl ⟨a, ha, rfl⟩)
      have hcell := hshows _ hmem s
      simp only at hcell
      rw [hcell]
      rfl
    rw [loadPart_eq, Act.ends_bind, Act.Ends, hvalues]
    show Act.Ends _ g _ _
    rw [Act.ends_bind, Graph.loadAtomics, Act.ends_modify]
    generalize hloaded : s.atomics.map (fun a => (a.name, v (path, a))) = values
    have hself := entity_modifyEntity_self
      (fun x => values.foldl (fun x p => x.loadAtomic p.1 p.2) x) hunread.lt
    have hbelow : Grown e g (g.modifyEntity e fun x =>
        values.foldl (fun x p => x.loadAtomic p.1 p.2) x) :=
      .modifyEntity g e (fun x => loadAtomics_frame x values) fun x hx => clean_loadAtomics values hx
    obtain ⟨hschema, hembedded, -⟩ := loadAtomics_frame (g.entity e) values
    rw [hunread.schema] at hschema
    rw [hunread.embedded] at hembedded
    refine (ends_loadEmbedded (v := v) (l := s.embedded) hs.embedded (fun p hp => ?_) (by simpa using hunread.lt)
      (fun p hp => ?_) fun p hp => ?_).mono (fun _ g' h' => ?_) fun _ _ h => h
    · refine ih p hp (fun t ht => hcoherent t (ht.trans (.embedded (.refl s) hp))) fun q hq => ?_
      exact hshows q (Schema.mem_occurrences_iff.2 (.inr ⟨p, hp, hq⟩))
    · rw [hself, hschema]
      exact hs.embedded?_name hp
    · rw [hself, hembedded]
      rfl
    · obtain ⟨hgrown, hatomics, -, hall⟩ := h'
      refine ⟨hbelow.trans hgrown (.inl rfl), fun q hq => ?_, fun rest t ht => ?_⟩
      rcases Schema.cases_of_mem_occurrences hq with ⟨a, ha, rfl⟩ | ⟨p, hp, r, hr, rfl⟩
      · have hfound : (g'.entity e).atomics.get? a.name = some (.loaded (v (path, a))) := by
          have hmem : (a.name, v (path, a)) ∈ values := hloaded ▸ List.mem_map_of_mem ha
          have hnodup : (values.map (·.1)).Nodup := by
            rw [← hloaded, List.map_map]
            exact hs.atomics
          rw [hatomics, hself]
          exact get?_loadAtomics hnodup hmem
        simpa [slotAt, partAt?] using hfound
      · obtain ⟨x, hx, hread, -⟩ := hall p hp
        have hvalue := hread r hr
        have hslot : g'.slotAt e (p.1 :: r.1, r.2) = g'.slotAt x r := by
          simp [slotAt, partAt?, hx]
        rw [hslot, hvalue, List.append_assoc]
        rfl
      · cases rest with
        | nil =>
          obtain rfl := Option.some.inj ht
          exact ⟨e, rfl, by rw [hgrown.schema e (by simpa using hunread.lt), hself, hschema]⟩
        | cons name rest =>
          obtain ⟨u, hu, ht⟩ := Option.bind_eq_some_iff.1 ht
          obtain ⟨x, hx, -, hspreads⟩ := hall (name, u) (Schema.mem_of_embedded? hu)
          obtain ⟨y, hy, hyt⟩ := hspreads rest t ht
          exact ⟨y, by simp [partAt?, hx, hy], hyt⟩

end Mapper

/-! ### A row of one entity -/

namespace Graph

variable {g g' : Graph} {e y : EntityId} {s : Schema}

/-- What holds of an entity, and is handed down to embedded components, holds of its parts. -/
theorem forall_mem_partsOf {P : EntityId → Prop}
    (hclosed : ∀ d, P d → ∀ name z, (g.entity d).embedded.get? name = some z → P z) (he : P e)
    (hy : y ∈ g.partsOf s e) : P y := by
  induction s using Schema.induction generalizing e with
  | _ s ih =>
    rcases mem_partsOf_iff.1 hy with rfl | ⟨p, hp, x, hx, hy⟩
    · exact he
    · exact ih p hp (hclosed e he p.1 x hx) hy

/-- Whether storage has an entity makes no difference to the values that are known of it. -/
theorem slotAt_markStored (g : Graph) (e d : EntityId) (q : List String × Atomic) :
    (g.markStored e).slotAt d q = g.slotAt d q := by
  refine slotAt_congr (P := fun _ => True) (fun x _ => ?_) (fun _ _ _ _ _ => trivial) trivial q
  unfold markStored modifyParts
  rcases entity_foldl_modifyEntity (f := fun x => { x with stored := true }) (fun _ => rfl)
    (g.parts e) g x with hx | ⟨-, hx⟩ <;> rw [hx] <;> exact ⟨rfl, rfl⟩

/-- An entity that has been loaded and marked as stored agrees with storage. -/
theorem Grown.isPersistent (h : Grown e g g') (hunread : Unread g e s)
    (hparts : (g'.entity e).schema = s) : (g'.markStored e).isPersistent e = true := by
  have hshape := SameShape.markStored g' e
  have hlt : e.index < g'.entities.length := Nat.lt_of_lt_of_le hunread.lt h.length
  have hstored : ((g'.markStored e).entity e).stored = true := by
    unfold markStored modifyParts
    rw [entity_foldl_modifyEntity_of_mem (f := fun x => { x with stored := true }) (fun _ => rfl)
      (mem_parts_self g' e) hlt]
  unfold Graph.isPersistent
  rw [hstored, Bool.true_and, Bool.not_eq_true']
  unfold Graph.isDirty
  rw [hshape.parts_eq, List.any_eq_false]
  intro y hy
  -- parts of the entity are itself and entities that are new
  have hnew : y = e ∨ g.entities.length ≤ y.index := by
    unfold parts at hy
    refine forall_mem_partsOf (P := fun d => d = e ∨ g.entities.length ≤ d.index)
      (fun d hd name z hz => ?_) (.inl rfl) hy
    rcases h.embedded d name z hd hz with hz | hz
    · rcases hd with rfl | hle
      · rw [hunread.embedded] at hz
        cases hz
      · rw [entity_of_length_le hle] at hz
        cases hz
    · exact .inr hz.1
  have hclean : Clean (g'.entity y) := by
    refine h.clean y hnew fun p hp => ?_
    rcases hnew with rfl | hle
    · rw [hunread.atomics] at hp
      cases hp
    · rw [entity_of_length_le hle] at hp
      cases hp
  have hatomics : ((g'.markStored e).entity y).atomics = (g'.entity y).atomics := by
    unfold markStored modifyParts
    rcases entity_foldl_modifyEntity (f := fun x => { x with stored := true }) (fun _ => rfl)
      (g'.parts e) g' y with hy | ⟨-, hy⟩ <;> rw [hy]
  unfold Entity.hasDirtyAtomic
  rw [hatomics, List.any_eq_true]
  rintro ⟨p, hp, hdirty⟩
  rw [hclean p hp] at hdirty
  cases hdirty

end Graph

namespace Lookup

open EntityGraph.Graph Mapper

variable {c : Catalog} {s : Schema} {key : Atomic} {type : String} {row : Row}
  {v : List String × Atomic → Value} {g : Graph}

/-- An entity that storage has, with the values of a row. -/
structure Found (s : Schema) (v : List String × Atomic → Value) (g : Graph) (e : EntityId) :
    Prop where
  persistent : g.isPersistent e = true
  read : HasRead g e v s []
  schema : (g.entity e).schema = s

/-- An entity has the key that is read for it. -/
theorem Found.key? {e : EntityId} (h : Found s v g e) (hkey : s.primaryKey = some key)
    (hmem : key ∈ s.atomics) (hv : v ([], key) ≠ .null) : g.key? e = some (v ([], key)) := by
  have hslot : (g.entity e).atomics.get? key.name = some (.loaded (v ([], key))) := by
    have hread := h.read _ (Schema.mem_occurrences_iff.2 (.inl ⟨key, hmem, rfl⟩))
    simpa [slotAt, partAt?] using hread
  unfold Graph.key? Entity.key? Schema.keyName?
  simp [h.schema, hkey, hslot, Slot.loaded, hv]

/-- The only node of the query has a new entity, with the values of the row. -/
theorem ends_entityAt (hs : c.schema type = .ok s) (hkey : s.primaryKey = some key)
    (hshows : Shows (node s) row v s []) (hv : v ([], key) ≠ .null) (m : Mapper)
    (hm : m.identity = []) : (entityAt c (node s) row).Ends ⟨m, g⟩
      (fun found m' => ∃ e, found = some e ∧ m'.mapper.plan = m.plan ∧
        m'.mapper.lastRoots = m.lastRoots ∧ Found s v m'.graph e) (fun _ _ => False) := by
  have hmem := Catalog.mem_of_primaryKey hs hkey
  have hcell : Mapper.cell s key row ((node s).label [] key.name) = .ok (v ([], key)) :=
    hshows _ (Schema.mem_occurrences_iff.2 (.inl ⟨key, hmem, rfl⟩)) s
  unfold entityAt
  rw [Act.ends_bind, show (node s).schema = s from rfl, Schema.key_eq_ok_iff.2 hkey,
    Act.ends_ofExcept_ok, Act.ends_bind, hcell, Act.ends_ofExcept_ok, Act.ends_ite]
  refine ⟨fun hnull => absurd (by simpa using hnull) hv, fun _ => ?_⟩
  rw [Act.ends_bind, Act.ends_get]
  simp only [hm, Assoc.get?_nil]
  rw [Act.ends_bind, Mapper.onGraph, Act.ends_onPart, Act.ends_bind, Act.Ends, newEntity_eq]
  show Act.Ends _ ({ g with entities := g.entities ++ [{ schema := s }] } : Graph) _ _
  have hunread := Unread.newEntity g s
  rw [Act.ends_bind]
  refine (ends_loadPart (fun t ht => Catalog.coherent_of_within hs ht) hshows _ _ hunread).mono
    (fun _ g' h => ?_) fun _ _ h => h
  have hschema : (g'.entity ⟨g.entities.length⟩).schema = s := by
    rw [h.1.schema _ hunread.lt, hunread.schema]
  have hfound : Found s v (g'.markStored ⟨g.entities.length⟩) ⟨g.entities.length⟩ := by
    refine ⟨h.1.isPersistent hunread hschema, fun q hq => ?_, ?_⟩
    · rw [slotAt_markStored]
      exact h.2.1 q hq
    · rw [(SameShape.markStored g' _).schema, hschema]
  -- the plan asks for no collections
  exact ⟨_, rfl, rfl, rfl, hfound⟩

/-- A row of the query becomes one tuple, of a new entity. -/
theorem ends_mapRows (hs : c.schema type = .ok s) (hkey : s.primaryKey = some key)
    (hshows : Shows (node s) row v s []) (hv : v ([], key) ≠ .null) :
    (mapRows c [row]).Ends ⟨(⟨select s key (v ([], key)), plan s⟩ : CompiledQuery).mapper, g⟩
      (fun tuples m => ∃ e, tuples = [[(s.name, .entity e)]] ∧ Found s v m.graph e)
      (fun _ _ => False) := by
  have hmem := Catalog.mem_of_primaryKey hs hkey
  have hentities : entitiesAt c row [node s] [] =
      (do let e ← entityAt c (node s) row; return [e]) := rfl
  unfold mapRows mapRow
  rw [Act.ends_bind, Act.ends_bind, Act.ends_get, Act.ends_bind]
  show Act.Ends (entitiesAt c row [node s] []) _ _ _
  rw [hentities, Act.ends_bind]
  refine (ends_entityAt hs hkey hshows hv _ rfl).mono (fun _ m h => ?_) fun _ _ h => h
  obtain ⟨e, rfl, -, hroots, hfound⟩ := h
  -- the node has no parent to be connected with, and the key is the first one
  have hnew : isNew m.mapper.lastRoots [(entityOf [some e] 0).bind m.graph.key?] = true := by
    rw [hroots]
    show isNew [none] [m.graph.key? e] = true
    rw [hfound.key? hkey hmem hv]
    rfl
  show Act.Ends (if isNew m.mapper.lastRoots [(entityOf [some e] 0).bind m.graph.key?] then _ else _) _ _ _
  rw [if_pos hnew]
  exact ⟨e, rfl, hfound⟩

end Lookup

end EntityGraph
