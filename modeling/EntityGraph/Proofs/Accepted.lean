import EntityGraph.Proofs.Ends
import EntityGraph.Schema.Catalog

/-!
# Accepted schemas

What is known of a schema that a catalog has built, and of every schema embedded in it at any depth:
which names differ, which schemas have a primary key, and in which table embedded schemas live.

## Main results

* `Catalog.schema_induct`: what holds of every checked draft, given that it holds of the drafts that
  it embeds, holds of every built schema.
* `Catalog.coherent_of_within`: in a built schema, and in all that it embeds, names are not shared.
* `Catalog.key_of_schema`: a built schema has exactly one atomic that is marked as primary key.
* `Catalog.embedded_of_within`: embedded schemas have no primary key, live in the table of their
  owner, and are those of embeddable types.
-/

namespace EntityGraph

namespace Schema

/-- What holds of a schema whenever it holds of all that the schema embeds holds of every schema. -/
theorem induction {P : Schema → Prop} (h : ∀ s : Schema, (∀ p ∈ s.embedded, P p.2) → P s)
    (s : Schema) : P s :=
  @Schema.rec P (fun l => ∀ p ∈ l, P p.2) (fun p => P p.2)
    (fun _ _ _ _ _ _ _ _ hl => h _ hl) (fun _ hp => nomatch hp)
    (fun _ _ hp hl => List.forall_mem_cons.2 ⟨hp, hl⟩) (fun _ _ hs => hs) s

/-- A schema is another one, or is embedded in it at some depth. -/
inductive Within : Schema → Schema → Prop
  | refl (r : Schema) : Within r r
  | embedded {r s t : Schema} {name : String} :
      Within s r → (name, t) ∈ s.embedded → Within t r

/-- What is embedded in an embedded schema is embedded in the whole. -/
theorem Within.trans {r s t : Schema} (h : Within t s) (h' : Within s r) : Within t r := by
  induction h with
  | refl => exact h'
  | embedded _ hmem ih => exact .embedded (ih h') hmem

/-- A schema is embedded by the embedded schema that it is reached through. -/
theorem Within.cases_head {r t : Schema} (h : Within t r) :
    t = r ∨ ∃ p ∈ r.embedded, Within t p.2 := by
  induction h with
  | refl => exact .inl rfl
  | embedded _ hmem ih =>
    refine .inr ?_
    rcases ih with rfl | ⟨p, hp, hw⟩
    · exact ⟨_, hmem, .refl _⟩
    · exact ⟨p, hp, .embedded hw hmem⟩

/-- The names of a schema's own properties are not shared. -/
structure Coherent (s : Schema) : Prop where
  atomics : (s.atomics.map (·.name)).Nodup
  embedded : (s.embedded.map (·.1)).Nodup
  embedded_ne_atomic : ∀ p ∈ s.embedded, ∀ a ∈ s.atomics, p.1 ≠ a.name
  component_ne_atomic : ∀ c ∈ s.components, ∀ a ∈ s.atomics, c.name ≠ a.name

/-- An atomic of a coherent schema is found by its name. -/
theorem Coherent.atomic?_name {s : Schema} (hs : s.Coherent) {a : Atomic} (ha : a ∈ s.atomics) :
    s.atomic? a.name = some a := by
  have hnodup := hs.atomics
  unfold atomic?
  generalize s.atomics = l at ha hnodup
  induction l with
  | nil => cases ha
  | cons b l ih =>
    rw [List.map_cons, List.nodup_cons] at hnodup
    rcases List.mem_cons.1 ha with rfl | hmem
    · simp
    · have hne : b.name ≠ a.name := fun h => hnodup.1 (h ▸ List.mem_map_of_mem hmem)
      simp [hne, ih hmem hnodup.2]

/-- An embedded schema of a coherent schema is found by its name. -/
theorem Coherent.embedded?_name {s : Schema} (hs : s.Coherent) {p : String × Schema}
    (hp : p ∈ s.embedded) : s.embedded? p.1 = some p.2 := by
  have hnodup := hs.embedded
  unfold embedded?
  generalize s.embedded = l at hp hnodup
  induction l with
  | nil => cases hp
  | cons q l ih =>
    rw [List.map_cons, List.nodup_cons] at hnodup
    rcases List.mem_cons.1 hp with rfl | hmem
    · simp
    · have hne : q.1 ≠ p.1 := fun h => hnodup.1 (h ▸ List.mem_map_of_mem hmem)
      simpa [hne] using ih hmem hnodup.2

/-- What is found by a name is declared. -/
theorem mem_of_atomic? {s : Schema} {name : String} {a : Atomic} (h : s.atomic? name = some a) :
    a ∈ s.atomics ∧ a.name = name :=
  ⟨List.mem_of_find?_eq_some h, by simpa using List.find?_some h⟩

/-- An embedded schema that is found by a name is declared under it. -/
theorem mem_of_embedded? {s t : Schema} {name : String} (h : s.embedded? name = some t) :
    (name, t) ∈ s.embedded := by
  unfold embedded? at h
  obtain ⟨p, hp, rfl⟩ := Option.map_eq_some_iff.1 h
  have hname : p.1 = name := by simpa using List.find?_some hp
  exact hname ▸ List.mem_of_find?_eq_some hp

/-- A component that is found by a name has it. -/
theorem name_of_component? {s : Schema} {name : String} {comp : Component}
    (h : s.component? name = some comp) : comp.name = name := by
  simpa using List.find?_some h

/-- The schema that is embedded at the end of a path. -/
def embeddedAt? : Schema → List String → Option Schema
  | s, [] => some s
  | s, name :: path => (s.embedded? name).bind fun t => t.embeddedAt? path

/-- A path is followed in two parts. -/
theorem embeddedAt?_append (s : Schema) (path rest : List String) :
    s.embeddedAt? (path ++ rest) = (s.embeddedAt? path).bind fun t => t.embeddedAt? rest := by
  induction path generalizing s with
  | nil => rfl
  | cons name path ih =>
    simp only [List.cons_append, embeddedAt?]
    cases s.embedded? name with
    | none => rfl
    | some t => exact ih t

/-- What a path leads to is embedded in the whole. -/
theorem within_of_embeddedAt? {s t : Schema} {path : List String} (h : s.embeddedAt? path = some t) :
    t.Within s := by
  induction path generalizing s with
  | nil => exact Option.some.inj h ▸ .refl s
  | cons name path ih =>
    obtain ⟨u, hu, ht⟩ := Option.bind_eq_some_iff.1 h
    exact (ih ht).trans (.embedded (.refl s) (mem_of_embedded? hu))

end Schema

/-- A schema answers its primary key if it has one. -/
theorem Schema.key_eq_ok_iff {s : Schema} {key : Atomic} :
    s.key = .ok key ↔ s.primaryKey = some key := by
  unfold Schema.key
  cases s.primaryKey <;> simp

/-- A converted value is one of the kind. -/
theorem Atomic.coerce_eq_ok_iff {entity : String} {a : Atomic} {v w : Value} :
    a.coerce entity v = .ok w ↔ a.kind.coerce? v = some w := by
  unfold Atomic.coerce
  cases a.kind.coerce? v <;> simp

/-- Only null is converted to null. -/
theorem Atomic.ne_null_of_coerce {entity : String} {a : Atomic} {v w : Value}
    (h : a.coerce entity v = .ok w) (hv : v ≠ .null) : w ≠ .null := by
  rw [coerce_eq_ok_iff] at h
  unfold AtomicKind.coerce? at h
  rw [if_neg (by simpa using hv)] at h
  cases hkind : a.kind <;> simp only [hkind, Option.some.injEq, Option.map_eq_some_iff] at h <;>
    aesop

/-! ### What a check establishes -/

namespace Draft

/-- Checked atomics have names of their own, and tables that are declared. -/
theorem nodup_of_checkAtomics {d : Draft} {earlier : List String} {l : List Atomic}
    (h : d.checkAtomics earlier l = .ok ()) :
    (l.map (·.name)).Nodup ∧
      ∀ a ∈ l, a.name ∉ earlier ∧ a.tableOr d.table ∈ d.table :: d.secondary := by
  induction l generalizing earlier with
  | nil => simp
  | cons a l ih =>
    unfold checkAtomics at h
    split at h
    · cases h
    next hnew =>
    simp only at h
    split at h
    · cases h
    next htable =>
    obtain ⟨hnodup, hlater⟩ := ih h
    have ha : a.name ∉ l.map (·.name) := by
      intro hmem
      obtain ⟨b, hb, hname⟩ := List.mem_map.1 hmem
      exact (hlater b hb).1 (hname ▸ List.mem_cons_self)
    refine ⟨List.nodup_cons.2 ⟨ha, hnodup⟩, fun b hb => ?_⟩
    rcases List.mem_cons.1 hb with rfl | hb
    · refine ⟨by simpa using hnew, ?_⟩
      by_contra hmem
      rw [List.mem_cons, not_or] at hmem
      exact htable ⟨hmem.1, by simpa using hmem.2⟩
    · exact ⟨fun hmem => (hlater b hb).1 (List.mem_cons_of_mem _ hmem), (hlater b hb).2⟩

/-- Checked embedded properties have names of their own, which no atomic has. -/
theorem nodup_of_checkEmbeds {d : Draft} {earlier : List String} {l : List (String × String)}
    (h : d.checkEmbeds earlier l = .ok ()) :
    (l.map (·.1)).Nodup ∧ ∀ p ∈ l, p.1 ∉ earlier ∧ d.hasAtomic p.1 = false := by
  induction l generalizing earlier with
  | nil => simp
  | cons p l ih =>
    obtain ⟨name, type⟩ := p
    unfold checkEmbeds at h
    split at h
    · cases h
    next hnew =>
    simp only [Bool.or_eq_true, not_or, Bool.not_eq_true] at hnew
    obtain ⟨hnodup, hlater⟩ := ih h
    have hname : name ∉ l.map (·.1) := by
      intro hmem
      obtain ⟨q, hq, hname⟩ := List.mem_map.1 hmem
      exact (hlater q hq).1 (hname ▸ List.mem_cons_self)
    refine ⟨List.nodup_cons.2 ⟨hname, hnodup⟩, fun q hq => ?_⟩
    rcases List.mem_cons.1 hq with rfl | hq
    · exact ⟨by simpa using hnew.2, hnew.1.1⟩
    · exact ⟨fun hmem => (hlater q hq).1 (List.mem_cons_of_mem _ hmem), (hlater q hq).2⟩

/-- A checked component has no fault. -/
theorem componentFault?_of_checkComponents {d : Draft} {l : List Component}
    (h : d.checkComponents l = .ok ()) : ∀ comp ∈ l, d.componentFault? comp = none := by
  induction l with
  | nil => simp
  | cons comp l ih =>
    unfold checkComponents at h
    split at h
    · cases h
    next hfault => exact List.forall_mem_cons.2 ⟨hfault, ih h⟩

/-- No checked component has the name of an atomic. -/
theorem hasAtomic_of_checkComponents {d : Draft} {l : List Component}
    (h : d.checkComponents l = .ok ()) : ∀ c ∈ l, d.hasAtomic c.name = false := by
  intro c hc
  have hfault := componentFault?_of_checkComponents h c hc
  unfold componentFault? at hfault
  split at hfault
  · cases hfault
  · next hatomic => simpa using hatomic

/-- A draft has no atomic of a name that it does not declare. -/
theorem hasAtomic_eq_false_iff {d : Draft} {name : String} :
    d.hasAtomic name = false ↔ ∀ a ∈ d.atomics, name ≠ a.name := by
  simp only [hasAtomic, List.any_eq_false, beq_iff_eq]
  exact forall₂_congr fun _ _ => not_congr eq_comm

variable {d : Draft} {embedded : List (String × Schema)} {s : Schema}

/-- A finished schema is the draft, which has passed each of its checks. -/
theorem finish_eq_ok_iff : d.finish embedded = .ok s ↔
    d.checkKeys = .ok () ∧ d.checkAtomics [] d.atomics = .ok () ∧
      d.checkEmbeds [] d.embeds = .ok () ∧ d.checkComponents d.components = .ok () ∧
      s = d.toSchema d.keys.head? embedded := by
  unfold finish check
  simp only [bind_eq_ok_iff, pure, Except.pure, Except.ok.injEq]
  constructor
  · rintro ⟨_, ⟨_, hkeys, _, hatomics, _, hembeds, hcomponents⟩, rfl⟩
    exact ⟨hkeys, hatomics, hembeds, hcomponents, rfl⟩
  · rintro ⟨hkeys, hatomics, hembeds, hcomponents, rfl⟩
    exact ⟨(), ⟨(), hkeys, (), hatomics, (), hembeds, hcomponents⟩, rfl⟩

/-- A finished schema stores its own atomics in its tables. -/
theorem tableOf_mem_of_finish (h : d.finish embedded = .ok s) {a : Atomic} (ha : a ∈ s.atomics) :
    s.tableOf a ∈ s.tables := by
  obtain ⟨-, hatomics, -, -, rfl⟩ := finish_eq_ok_iff.1 h
  exact ((nodup_of_checkAtomics hatomics).2 a ha).2

/-- A finished schema is coherent. -/
theorem coherent_of_finish (h : d.finish embedded = .ok s)
    (hnames : embedded.map (·.1) = d.embeds.map (·.1)) : s.Coherent := by
  obtain ⟨-, hatomics, hembeds, hcomponents, rfl⟩ := finish_eq_ok_iff.1 h
  obtain ⟨hnodup, hapart⟩ := nodup_of_checkEmbeds hembeds
  refine ⟨(nodup_of_checkAtomics hatomics).1, hnames ▸ hnodup, fun p hp a ha => ?_,
    fun c hc => hasAtomic_eq_false_iff.1 (hasAtomic_of_checkComponents hcomponents c hc)⟩
  have hmem : p.1 ∈ d.embeds.map (·.1) := hnames ▸ List.mem_map_of_mem hp
  obtain ⟨e, he, hname⟩ := List.mem_map.1 hmem
  exact hasAtomic_eq_false_iff.1 (hname ▸ (hapart e he).2) a ha

/-- The finished schema of an embeddable type has no primary key. -/
theorem key_of_finish_embeddable (h : d.finish embedded = .ok s) (hd : d.embeddable = true) :
    s.primaryKey = none := by
  obtain ⟨hkeys, -, -, -, rfl⟩ := finish_eq_ok_iff.1 h
  simp only [checkKeys, hd, if_true] at hkeys
  split at hkeys
  · next hempty => simp [toSchema, List.isEmpty_iff.1 hempty]
  · cases hkeys

/-- The first atomic that is marked as primary key, of which there is at most one, is the key of a
finished schema. -/
theorem primaryKey_of_finish (h : d.finish embedded = .ok s) {a : Atomic} (ha : a ∈ s.atomics)
    (hmarked : a.primaryKey = true) : s.primaryKey = some a := by
  obtain ⟨hkeys, -, -, -, rfl⟩ := finish_eq_ok_iff.1 h
  have hmem : a ∈ d.keys := List.mem_filter.2 ⟨ha, hmarked⟩
  unfold checkKeys at hkeys
  split at hkeys <;> split at hkeys
  · next hempty =>
    rw [List.isEmpty_iff.1 hempty] at hmem
    cases hmem
  · cases hkeys
  · next hone =>
    obtain ⟨key, hkey⟩ := List.length_eq_one_iff.1 hone
    rw [hkey, List.mem_singleton] at hmem
    rw [toSchema, hkey, hmem]
    rfl
  · cases hkeys

/-- The finished schema of an entity type has one atomic that is marked as primary key. -/
theorem key_of_finish_entity (h : d.finish embedded = .ok s) (hd : d.embeddable = false) :
    ∃ key, s.primaryKey = some key ∧ key ∈ s.atomics ∧
      ∀ a ∈ s.atomics, a.primaryKey = true ↔ a = key := by
  obtain ⟨hkeys, -, -, -, rfl⟩ := finish_eq_ok_iff.1 h
  simp only [checkKeys, hd, Bool.false_eq_true, if_false] at hkeys
  split at hkeys
  · next hone =>
    obtain ⟨key, hkey⟩ := List.length_eq_one_iff.1 hone
    have hiff : ∀ a, (a ∈ d.atomics ∧ a.primaryKey = true) ↔ a = key := by
      intro a
      have hmem : a ∈ d.keys ↔ a ∈ d.atomics ∧ a.primaryKey = true := List.mem_filter
      rw [← hmem, hkey, List.mem_singleton]
    exact ⟨key, by simp [toSchema, hkey], ((hiff key).2 rfl).1,
      fun a ha => ⟨fun hp => (hiff a).1 ⟨ha, hp⟩, fun he => ((hiff a).2 he).2⟩⟩
  · cases hkeys

/-! ### What declarations do -/

variable (d : Draft) (steps : List Declaration)

/-- Declarations do not change the name and the sort of a type. -/
theorem setUp_name_embeddable :
    (d.setUp steps).name = d.name ∧ (d.setUp steps).embeddable = d.embeddable := by
  unfold setUp
  induction steps generalizing d with
  | nil => exact ⟨rfl, rfl⟩
  | cons step steps ih =>
    obtain ⟨hname, hembeddable⟩ := ih (d.declare step)
    rw [List.foldl_cons, hname, hembeddable]
    cases step with
    | secondary => simp only [declare]; split <;> exact ⟨rfl, rfl⟩
    | _ => exact ⟨rfl, rfl⟩

/-- The relations of a draft are those that it had and those that are declared. -/
theorem components_setUp {x : Component} (h : x ∈ (d.setUp steps).components) :
    x ∈ d.components ∨ .component x ∈ steps := by
  unfold setUp at h
  induction steps generalizing d with
  | nil => exact .inl h
  | cons step steps ih =>
    rcases ih (d.declare step) h with hd | hsteps
    · cases step with
      | component y =>
        rcases List.mem_append.1 hd with hd | hy
        · exact .inl hd
        · exact .inr (List.mem_singleton.1 hy ▸ List.mem_cons_self)
      | secondary =>
        simp only [declare] at hd
        split at hd <;> exact .inl hd
      | _ => exact .inl hd
    · exact .inr (List.mem_cons_of_mem _ hsteps)

/-- A secondary table is listed once, however often it is declared. -/
theorem nodup_secondary_setUp (h : d.secondary.Nodup) : (d.setUp steps).secondary.Nodup := by
  unfold setUp
  induction steps generalizing d with
  | nil => exact h
  | cons step steps ih =>
    refine ih (d.declare step) ?_
    cases step with
    | secondary name =>
      simp only [declare]
      split
      · exact h
      · next hnew =>
        have hname : name ∉ d.secondary := by simpa using hnew
        rw [List.nodup_append]
        refine ⟨h, by simp, fun a ha b hb => ?_⟩
        rintro rfl
        exact hname (List.mem_singleton.1 hb ▸ ha)
    | _ => exact h

end Draft

/-! ### What a build establishes -/

namespace Catalog

variable {c : Catalog} {name : String} {s t : Schema}

/-- Resolved embeds are finished drafts of embeddable types, in the order of the declarations. -/
theorem resolveEmbeds_induct {P : Draft → Schema → Prop}
    (step : ∀ (d : Draft) (embedded : List (String × Schema)) (s : Schema),
      d.finish embedded = .ok s → embedded.map (·.1) = d.embeds.map (·.1) →
      (∀ p ∈ embedded, ∃ type e, c.embeddable? type = some e ∧ P (e.draftIn d.table) p.2) → P d s)
    {depth : Nat} {path : List String} {owner : Draft} {embedded : List (String × Schema)}
    (h : c.resolveEmbeds depth path owner = .ok embedded) :
    embedded.map (·.1) = owner.embeds.map (·.1) ∧
      ∀ p ∈ embedded, ∃ type e, c.embeddable? type = some e ∧ P (e.draftIn owner.table) p.2 := by
  induction depth generalizing path owner embedded with
  | zero => cases h
  | succ depth ih =>
    unfold resolveEmbeds at h
    have hall := mapM_ok_forall₂ h
    clear h
    generalize owner.embeds = embeds at hall
    induction hall with
    | nil => simp
    | @cons e p es ps hep _ ihrest =>
      obtain ⟨property, type⟩ := e
      simp only at hep
      split at hep
      · cases hep
      split at hep
      · cases hep
      next d hd =>
      obtain ⟨parts, hparts, hep⟩ := bind_eq_ok_iff.1 hep
      obtain ⟨s, hs, hep⟩ := bind_eq_ok_iff.1 hep
      obtain rfl := Except.ok.inj hep
      obtain ⟨hnames, hpart⟩ := ih hparts
      have hP : P (d.draftIn owner.table) s := step _ _ _ hs hnames hpart
      refine ⟨by rw [List.map_cons, List.map_cons, ihrest.1], fun q hq => ?_⟩
      rcases List.mem_cons.1 hq with rfl | hq
      · exact ⟨type, d, hd, hP⟩
      · exact ihrest.2 q hq

/-- What holds of every finished draft, given that it holds of what the draft embeds, holds of every
built schema and its draft. -/
theorem schema_induct {P : Draft → Schema → Prop}
    (step : ∀ (d : Draft) (embedded : List (String × Schema)) (s : Schema),
      d.finish embedded = .ok s → embedded.map (·.1) = d.embeds.map (·.1) →
      (∀ p ∈ embedded, ∃ type e, c.embeddable? type = some e ∧ P (e.draftIn d.table) p.2) → P d s)
    (h : c.schema name = .ok s) : ∃ e, c.entity? name = some e ∧ P e.draft s := by
  unfold schema at h
  split at h
  · cases h
  next e he =>
  obtain ⟨embedded, hembedded, h⟩ := bind_eq_ok_iff.1 h
  obtain ⟨hnames, hparts⟩ := resolveEmbeds_induct step hembedded
  exact ⟨e, he, step _ _ _ h hnames hparts⟩

/-- A type that is found by a name has that name, and is found by it again. -/
theorem definition?_name {d : Definition} (h : c.definition? name = some d) : d.name = name := by
  simpa using List.find?_some h

/-- An embeddable type is no entity type. -/
theorem not_entity_of_embeddable {d e : Definition} (hd : c.embeddable? name = some d) :
    c.entity? name ≠ some e := by
  intro he
  obtain ⟨hd, hd'⟩ := Option.filter_eq_some_iff.1 hd
  obtain ⟨he, he'⟩ := Option.filter_eq_some_iff.1 he
  obtain rfl := Option.some.inj (hd.symm.trans he)
  simp [hd'] at he'

/-- What a catalog establishes of a schema that it has embedded in an owner's table. -/
structure EmbeddedIn (c : Catalog) (table : String) (t : Schema) : Prop where
  coherent : t.Coherent
  table_eq : t.table = table
  noKey : t.primaryKey = none
  type : ∃ e, c.embeddable? t.name = some e ∧ t.components = (e.draftIn table).components

/-- What a catalog establishes of a schema that it has built. -/
structure BuiltAs (c : Catalog) (d : Draft) (s : Schema) : Prop where
  coherent : s.Coherent
  embedded : ∀ p ∈ s.embedded, ∀ t, t.Within p.2 → c.EmbeddedIn d.table t

/-- What is embedded in a built schema is embedded in the table of its draft. -/
theorem builtAs_of_schema (h : c.schema name = .ok s) :
    ∃ e, c.entity? name = some e ∧ (∃ parts, e.draft.finish parts = .ok s) ∧
      c.BuiltAs e.draft s := by
  let P (d : Draft) (s : Schema) : Prop := (∃ parts, d.finish parts = .ok s) ∧ c.BuiltAs d s
  refine schema_induct (P := P) (fun d embedded s hs hnames hparts => ?_) h
  have hfinish := Draft.finish_eq_ok_iff.1 hs
  refine ⟨⟨embedded, hs⟩, Draft.coherent_of_finish hs hnames, fun p hp t ht => ?_⟩
  obtain ⟨-, -, -, -, rfl⟩ := hfinish
  obtain ⟨type, e, he, ⟨parts, hpart⟩, hbuilt⟩ := hparts p hp
  rcases ht.cases_head with rfl | ⟨q, hq, hw⟩
  · -- the embedded schema itself is a finished draft
    obtain ⟨hname, hembeddable⟩ := Draft.setUp_name_embeddable (.embeddableIn e.name d.table) e.steps
    have hkey := Draft.key_of_finish_embeddable hpart hembeddable
    obtain ⟨-, -, -, -, hp2⟩ := Draft.finish_eq_ok_iff.1 hpart
    have hpname : p.2.name = type := by
      rw [hp2]
      exact hname.trans (definition?_name (Option.filter_eq_some_iff.1 he).1)
    exact ⟨hbuilt.coherent, by rw [hp2]; rfl, hkey, e, hpname ▸ he, by rw [hp2]; rfl⟩
  · exact hbuilt.embedded q hq t hw

/-- A built schema has the name that it was asked for by. -/
theorem schema_name (h : c.schema name = .ok s) : s.name = name := by
  obtain ⟨e, he, ⟨parts, hs⟩, -⟩ := builtAs_of_schema h
  obtain ⟨-, -, -, -, rfl⟩ := Draft.finish_eq_ok_iff.1 hs
  have hname := (Draft.setUp_name_embeddable (.entity e.name) e.steps).1
  exact hname.trans (definition?_name (Option.filter_eq_some_iff.1 he).1)

/-- A built schema is found again under its name. -/
theorem schema_schema_name (h : c.schema name = .ok s) : c.schema s.name = .ok s := by
  rw [schema_name h, h]

/-- The schemas of the entity types that can be built. -/
def schemas (c : Catalog) : List Schema :=
  c.definitions.filterMap fun d => (c.schema d.name).toOption

/-- These are the schemas that are found under their names. -/
theorem mem_schemas_iff : s ∈ c.schemas ↔ c.schema s.name = .ok s := by
  unfold schemas
  rw [List.mem_filterMap]
  constructor
  · rintro ⟨d, -, hd⟩
    cases hs : c.schema d.name with
    | ok s' =>
      rw [hs] at hd
      exact Option.some.inj hd ▸ schema_schema_name hs
    | error _ =>
      rw [hs] at hd
      cases hd
  · intro hs
    obtain ⟨d, hd, -⟩ := builtAs_of_schema hs
    have hdef := (Option.filter_eq_some_iff.1 hd).1
    refine ⟨d, List.mem_of_find?_eq_some hdef, ?_⟩
    rw [definition?_name hdef, hs]
    rfl

/-- A built schema has exactly one atomic that is marked as primary key. -/
theorem key_of_schema (h : c.schema name = .ok s) :
    ∃ key, s.primaryKey = some key ∧ key ∈ s.atomics ∧
      ∀ a ∈ s.atomics, a.primaryKey = true ↔ a = key := by
  obtain ⟨e, -, ⟨parts, hs⟩, -⟩ := builtAs_of_schema h
  exact Draft.key_of_finish_entity hs (Draft.setUp_name_embeddable (.entity e.name) e.steps).2

/-- The primary key of a built schema is one of its atomics. -/
theorem mem_of_primaryKey (h : c.schema name = .ok s) {key : Atomic} (hkey : s.primaryKey = some key) :
    key ∈ s.atomics := by
  obtain ⟨key', hkey', hmem, -⟩ := key_of_schema h
  exact Option.some.inj (hkey'.symm.trans hkey) ▸ hmem

/-- No other atomic of a built schema is marked as primary key. -/
theorem primaryKey_iff (h : c.schema name = .ok s) {key a : Atomic} (hkey : s.primaryKey = some key)
    (ha : a ∈ s.atomics) : a.primaryKey = true ↔ a = key := by
  obtain ⟨key', hkey', -, hiff⟩ := key_of_schema h
  exact Option.some.inj (hkey'.symm.trans hkey) ▸ hiff a ha

/-- A built schema stores its own atomics in its tables. -/
theorem tableOf_mem_tables (h : c.schema name = .ok s) {a : Atomic} (ha : a ∈ s.atomics) :
    s.tableOf a ∈ s.tables := by
  obtain ⟨e, -, ⟨parts, hs⟩, -⟩ := builtAs_of_schema h
  exact Draft.tableOf_mem_of_finish hs ha

/-- A built schema lists a secondary table once. -/
theorem nodup_secondary (h : c.schema name = .ok s) : s.secondary.Nodup := by
  obtain ⟨e, -, ⟨parts, hs⟩, -⟩ := builtAs_of_schema h
  obtain ⟨-, -, -, -, rfl⟩ := Draft.finish_eq_ok_iff.1 hs
  exact Draft.nodup_secondary_setUp _ _ List.nodup_nil

/-- What is embedded in a built schema, at any depth, is a schema of an embeddable type, without a
primary key, in the table of the whole. -/
theorem embeddedIn_of_within (h : c.schema name = .ok s) {p : String × Schema}
    (hp : p ∈ s.embedded) (ht : t.Within p.2) : c.EmbeddedIn s.table t := by
  obtain ⟨e, -, ⟨parts, hs⟩, hbuilt⟩ := builtAs_of_schema h
  have htable : s.table = e.draft.table := by
    obtain ⟨-, -, -, -, rfl⟩ := Draft.finish_eq_ok_iff.1 hs
    rfl
  exact htable ▸ hbuilt.embedded p hp t ht

/-- A built schema and all that it embeds are stored in one table, unless an atomic says otherwise. -/
theorem table_of_within (h : c.schema name = .ok s) (ht : t.Within s) : t.table = s.table := by
  rcases ht.cases_head with rfl | ⟨p, hp, hw⟩
  · rfl
  · exact (embeddedIn_of_within h hp hw).table_eq

/-- In a built schema, and in all that it embeds, names are not shared. -/
theorem coherent_of_within (h : c.schema name = .ok s) (ht : t.Within s) : t.Coherent := by
  rcases ht.cases_head with rfl | ⟨p, hp, hw⟩
  · obtain ⟨e, -, -, hbuilt⟩ := builtAs_of_schema h
    exact hbuilt.coherent
  · exact (embeddedIn_of_within h hp hw).coherent

/-- A schema that a catalog has built or embedded. -/
def Known (c : Catalog) (t : Schema) : Prop :=
  ∃ name s, c.schema name = .ok s ∧ t.Within s

/-- What a known schema embeds is known. -/
theorem Known.embedded (h : c.Known s) {p : String × Schema} (hp : p ∈ s.embedded) :
    c.Known p.2 := by
  obtain ⟨name, r, hr, hw⟩ := h
  exact ⟨name, r, hr, .embedded hw hp⟩

/-- A known schema is coherent. -/
theorem Known.coherent (h : c.Known s) : s.Coherent := by
  obtain ⟨name, r, hr, hw⟩ := h
  exact coherent_of_within hr hw

/-- A known schema is one of an entity type, or an embedded one without a primary key. -/
theorem Known.cases (h : c.Known s) :
    c.schema s.name = .ok s ∨ ∃ table, c.EmbeddedIn table s := by
  obtain ⟨name, r, hr, hw⟩ := h
  rcases hw.cases_head with rfl | ⟨p, hp, hw⟩
  · exact .inl (schema_schema_name hr)
  · exact .inr ⟨r.table, embeddedIn_of_within hr hp hw⟩

/-- A known schema with a primary key is one of an entity type. -/
theorem Known.schema_of_key (h : c.Known s) {key : Atomic} (hkey : s.primaryKey = some key) :
    c.schema s.name = .ok s := by
  rcases h.cases with h | ⟨table, h⟩
  · exact h
  · rw [h.noKey] at hkey
    cases hkey

/-- A known schema is that of a draft that has passed its checks. -/
theorem Known.finished (h : c.Known t) :
    ∃ (d : Draft) (parts : List (String × Schema)), d.finish parts = .ok t := by
  obtain ⟨name, s, hs, hw⟩ := h
  let P (_ : Draft) (s : Schema) : Prop :=
    ∀ t : Schema, t.Within s → ∃ (d : Draft) (parts : List (String × Schema)), d.finish parts = .ok t
  suffices h : ∃ e, c.entity? name = some e ∧ P e.draft s by
    obtain ⟨_, -, hP⟩ := h
    exact hP t hw
  refine schema_induct (P := P) (fun d embedded s hfinish _ hparts t ht => ?_) hs
  rcases ht.cases_head with rfl | ⟨p, hp, hw⟩
  · exact ⟨d, embedded, hfinish⟩
  · obtain ⟨-, -, -, -, rfl⟩ := Draft.finish_eq_ok_iff.1 hfinish
    obtain ⟨_, _, -, hpart⟩ := hparts p hp
    exact hpart t hw

/-- An atomic of a known schema that is marked as primary key is the key. -/
theorem Known.primaryKey_eq (h : c.Known t) {a : Atomic} (ha : a ∈ t.atomics)
    (hmarked : a.primaryKey = true) : t.primaryKey = some a := by
  obtain ⟨d, parts, hfinish⟩ := h.finished
  exact Draft.primaryKey_of_finish hfinish ha hmarked

/-- A known schema stores its own atomics in its tables: in its primary table, or in a secondary one
that its own type declares. -/
theorem Known.tableOf_mem_tables (h : c.Known t) {a : Atomic} (ha : a ∈ t.atomics) :
    t.tableOf a ∈ t.tables := by
  obtain ⟨d, parts, hfinish⟩ := h.finished
  exact Draft.tableOf_mem_of_finish hfinish ha

/-- What is embedded in a known schema has no primary key. -/
theorem Known.noKey_of_embedded (h : c.Known s) {p : String × Schema} (hp : p ∈ s.embedded) :
    p.2.primaryKey = none := by
  obtain ⟨name, r, hr, hw⟩ := h
  rcases hw.cases_head with rfl | ⟨q, hq, hw⟩
  · exact (embeddedIn_of_within hr hp (.refl _)).noKey
  · exact (embeddedIn_of_within hr hq (.embedded hw hp)).noKey

/-- Embeddable types declare no relations. -/
def Plain (c : Catalog) : Prop :=
  ∀ d ∈ c.definitions, d.embeddable = true → ∀ x, .component x ∉ d.steps

/-- Where embeddable types declare no relations, embedded schemas have none. -/
theorem EmbeddedIn.components_eq_nil {table : String} (h : c.EmbeddedIn table t) (hc : c.Plain) :
    t.components = [] := by
  obtain ⟨e, he, hcomponents⟩ := h.type
  obtain ⟨hdef, hembeddable⟩ := Option.filter_eq_some_iff.1 he
  rw [hcomponents]
  refine List.eq_nil_iff_forall_not_mem.2 fun x hx => ?_
  rcases Draft.components_setUp _ _ hx with hx | hx
  · cases hx
  · exact hc e (List.mem_of_find?_eq_some hdef) (by simpa using hembeddable) x hx

end Catalog

end EntityGraph
