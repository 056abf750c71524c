import EntityGraph.Proofs.Built
import EntityGraph.Proofs.Memoized
import Mathlib.Data.List.Nodup

/-!
# Names of properties

Atomics, relations and embedded schemas share the names of a schema, and are looked up in different
orders: `Schema.property` asks for an atomic first, the walk of a path and that of a query for a
relation, and the accessors of an entity for one kind only. The orders do not matter, because a finished
draft shares no name between two kinds.

Within a kind, the names of atomics differ, and so do those of embedded schemas. Relations are not
compared with each other, and a schema that is accepted may declare two of one name. The first is then
the one that is looked up, but `Graph.loadedRelations` goes through all of them.

* `Schema.Picks` — what every look-up of a name answers;
* `Schema.Unshared` — nothing else is declared under a name.

## Main results

* `Registry.Reached.picks_of_schema`: in an accepted schema, and in all that it embeds, the look-ups
  agree, and names are shared by relations only.
* `Registry.accepts_twins`: an accepted schema with two relations of one name.
-/

namespace EntityGraph

/-! ### Kinds of properties -/

/-- The names of a schema's own properties are not shared, but for those of relations. -/
structure Schema.Distinct (s : Schema) : Prop extends s.Coherent where
  embedded_ne_component : ∀ p ∈ s.embedded, ∀ comp ∈ s.components, p.1 ≠ comp.name

namespace Draft

/-- No checked embedded property has the name of a relation. -/
theorem ne_component_of_checkEmbeds {d : Draft} {earlier : List String}
    {l : List (String × String)} (h : d.checkEmbeds earlier l = .ok ()) :
    ∀ p ∈ l, ∀ comp ∈ d.components, p.1 ≠ comp.name := by
  induction l generalizing earlier with
  | nil => simp
  | cons p l ih =>
    obtain ⟨name, type⟩ := p
    unfold checkEmbeds at h
    split at h
    · cases h
    next hnew =>
    simp only [Bool.or_eq_true, not_or, List.any_eq_true, beq_iff_eq, not_exists, not_and] at hnew
    refine List.forall_mem_cons.2 ⟨fun comp hcomp hname => ?_, ih h⟩
    exact hnew.1.2 comp hcomp hname.symm

/-- The names of a finished schema are distinct, but for those of relations. -/
theorem distinct_of_finish {d : Draft} {embedded : List (String × Schema)} {s : Schema}
    (h : d.finish embedded = .ok s) (hnames : embedded.map (·.1) = d.embeds.map (·.1)) :
    s.Distinct := by
  refine ⟨coherent_of_finish h hnames, fun p hp comp hcomp => ?_⟩
  obtain ⟨-, -, hembeds, -, rfl⟩ := finish_eq_ok_iff.1 h
  have hmem : p.1 ∈ d.embeds.map (·.1) := hnames ▸ List.mem_map_of_mem hp
  obtain ⟨e, he, hname⟩ := List.mem_map.1 hmem
  exact hname ▸ ne_component_of_checkEmbeds hembeds e he comp hcomp

end Draft

/-- The names of a built schema, and of all that it embeds, are distinct, but for those of relations. -/
theorem Catalog.distinct_of_within {c : Catalog} {name : String} {s t : Schema}
    (h : c.schema name = .ok s) (ht : t.Within s) : t.Distinct := by
  let P (_ : Draft) (s : Schema) : Prop := ∀ t : Schema, t.Within s → t.Distinct
  suffices h : ∃ e, c.entity? name = some e ∧ P e.draft s by
    obtain ⟨_, -, hP⟩ := h
    exact hP t ht
  refine schema_induct (P := P) (fun d embedded s hs hnames hparts t ht => ?_) h
  rcases ht.cases_head with rfl | ⟨p, hp, hw⟩
  · exact Draft.distinct_of_finish hs hnames
  · obtain ⟨-, -, -, -, rfl⟩ := Draft.finish_eq_ok_iff.1 hs
    obtain ⟨_, _, -, hpart⟩ := hparts p hp
    exact hpart t hw

namespace Property

/-- The atomic that a property is. -/
def atomic? : Property → Option Atomic
  | atomic a => some a
  | _ => none

/-- The relation that a property is. -/
def component? : Property → Option Component
  | component comp => some comp
  | _ => none

/-- The schema that a property embeds. -/
def embedded? : Property → Option Schema
  | embedded _ t => some t
  | _ => none

variable {p : Option Property}

theorem bind_atomic? {a : Atomic} : p.bind (·.atomic?) = some a ↔ p = some (.atomic a) := by
  rcases p with _ | _ | _ | _ <;> simp [atomic?]

theorem bind_component? {comp : Component} :
    p.bind (·.component?) = some comp ↔ p = some (.component comp) := by
  rcases p with _ | _ | _ | _ <;> simp [component?]

theorem bind_embedded? {t : Schema} :
    p.bind (·.embedded?) = some t ↔ ∃ name, p = some (.embedded name t) := by
  rcases p with _ | _ | _ | _ <;> simp [embedded?]

end Property

namespace Schema

variable {s t : Schema} {name : String}

/-- The property of a name, if one is declared. -/
def property? (s : Schema) (name : String) : Option Property :=
  (s.property name).toOption

/-- The names of the properties that a schema declares. -/
def propertyNames (s : Schema) : List String :=
  s.atomics.map (·.name) ++ s.components.map (·.name) ++ s.embedded.map (·.1)

/-- A property is declared under a name. -/
def Declares (s : Schema) (name : String) : Property → Prop
  | .atomic a => a ∈ s.atomics ∧ a.name = name
  | .component comp => comp ∈ s.components ∧ comp.name = name
  | .embedded n t => n = name ∧ (name, t) ∈ s.embedded

namespace Distinct

/-- What is declared under the name of an atomic is that atomic. -/
theorem lookups_of_atomic (hs : s.Distinct) {a : Atomic} (ha : s.atomic? name = some a) :
    s.component? name = none ∧ s.embedded? name = none := by
  obtain ⟨hmem, rfl⟩ := mem_of_atomic? ha
  constructor
  · refine List.find?_eq_none.2 fun comp hcomp => ?_
    simpa using hs.component_ne_atomic comp hcomp a hmem
  · refine Option.map_eq_none_iff.2 (List.find?_eq_none.2 fun p hp => ?_)
    simpa using hs.embedded_ne_atomic p hp a hmem

/-- No schema is embedded under the name of a relation. -/
theorem embedded?_of_component (hs : s.Distinct) {comp : Component}
    (hcomp : s.component? name = some comp) : s.embedded? name = none := by
  have hmem : comp ∈ s.components := List.mem_of_find?_eq_some hcomp
  refine Option.map_eq_none_iff.2 (List.find?_eq_none.2 fun p hp => ?_)
  simpa [name_of_component? hcomp] using hs.embedded_ne_component p hp comp hmem

/-- Each of the three look-ups finds the property of the name, if that is of its kind. -/
theorem lookups (hs : s.Distinct) (name : String) :
    s.atomic? name = (s.property? name).bind (·.atomic?) ∧
      s.component? name = (s.property? name).bind (·.component?) ∧
      s.embedded? name = (s.property? name).bind (·.embedded?) := by
  unfold property? property
  cases ha : s.atomic? name with
  | some a =>
    obtain ⟨hcomp, hembedded⟩ := hs.lookups_of_atomic ha
    exact ⟨rfl, hcomp, hembedded⟩
  | none =>
    cases hcomp : s.component? name with
    | some comp => exact ⟨rfl, rfl, hs.embedded?_of_component hcomp⟩
    | none => cases s.embedded? name <;> exact ⟨rfl, rfl, rfl⟩

end Distinct

/-- The property of a name embeds a schema under that name. -/
theorem eq_of_property? {n : String} (h : s.property? name = some (.embedded n t)) : n = name := by
  unfold property? property at h
  cases ha : s.atomic? name with
  | some a => simp [ha, Except.toOption] at h
  | none =>
    cases hcomp : s.component? name with
    | some comp => simp [ha, hcomp, Except.toOption] at h
    | none =>
      cases hembedded : s.embedded? name <;> simp_all [Except.toOption]

end Schema

/-! ### What looks a name up -/

/-- Where a path goes from a schema, by the property that its next segment is. -/
def Resolution.along (c : Catalog) (path : String) (s : Schema) :
    Option Property → Except Error Resolution
  | some (.atomic a) => .ok (.scalar s a)
  | some (.component comp) => (c.schema comp.target).map .entity
  | some (.embedded _ t) => .ok (.entity t)
  | none => .error (.unresolved path)

/-- Where a query goes from a node, by the property that the next segment is. -/
def Planner.walkAlong (c : Catalog) (chain : String) (mapped : Bool) (i : Nat) (key : String)
    (path : List String) (s : Schema) (rest : List String) : Option Property → PlanM Reached
  | some (.atomic a) => return .scalar i path s a
  | some (.component comp) => do
    if ¬path.isEmpty then throw (.unresolved chain)
    let key := if key.isEmpty then comp.name else key ++ "." ++ comp.name
    let j ← child c i key comp
    if mapped then modify (·.setMapped j)
    walkFrom c chain mapped j key path ((← get).node j).schema rest
  | some (.embedded name t) => walkFrom c chain mapped i key (path ++ [name]) t rest
  | none => throw (.unresolved chain)

namespace Schema

variable {s t : Schema} {name : String} {p : Option Property}

/-- What every look-up of a name answers, where `p` is the property that it picks: the property itself,
the next segment of a path, that of a query, and the accessors of an entity, of which the one for an
embedded component makes it on first use. -/
structure Picks (s : Schema) (name : String) (p : Option Property) : Prop where
  property : s.property name = p.elim (.error (s.unknown name)) .ok
  resolved : ∀ c path, (Resolution.entity s).step c path name = Resolution.along c path s p
  walked : ∀ c chain mapped i key path rest, Planner.walkFrom c chain mapped i key path s (name :: rest) =
    Planner.walkAlong c chain mapped i key path s rest p
  atomic : ∀ a, Entity.atomic s name = .ok a ↔ p = some (.atomic a)
  relation : ∀ comp toMany, Entity.relation s name toMany = .ok comp ↔
    p = some (.component comp) ∧ comp.isToMany = toMany
  embedded : ∀ g e, (Graph.entity g e).schema = s → (g.entity e).embedded.get? name = none →
    (Graph.embedded e name).Ends g
      (fun part g' => p = some (.embedded name (g'.entity part).schema))
      (fun _ _ => ∀ t, p ≠ some (.embedded name t))

/-- Nothing but `p` is declared under a name, and no relation of the name but `p` is ever loaded. -/
structure Unshared (s : Schema) (name : String) (p : Option Property) : Prop where
  declared : ∀ q, s.Declares name q ↔ p = some q
  loaded : ∀ g e, (Graph.entity g e).schema = s → ∀ l ∈ g.loadedRelations e,
    l.1.name = name → p = some (.component l.1)

/-- Where the names of the kinds are distinct, every look-up of a name picks its property. -/
theorem Distinct.picks (hs : s.Distinct) (name : String) : s.Picks name (s.property? name) := by
  obtain ⟨hatomic, hcomponent, hembedded⟩ := hs.lookups name
  have hname : ∀ n t, s.property? name = some (.embedded n t) → n = name :=
    fun n t => eq_of_property?
  have hproperty : s.property name = (s.property? name).elim (.error (s.unknown name)) .ok := by
    unfold property? property
    cases s.atomic? name <;> cases s.component? name <;> cases s.embedded? name <;> rfl
  generalize s.property? name = p at hatomic hcomponent hembedded hproperty hname
  refine ⟨hproperty, fun c path => ?_, fun c chain mapped i key path rest => ?_, fun a => ?_,
    fun comp toMany => ?_, fun g e he hnew => ?_⟩
  · simp only [Resolution.step]
    rw [hatomic, hcomponent, hembedded]
    rcases p with _ | _ | _ | _ <;> rfl
  · unfold Planner.walkFrom
    rw [hatomic, hcomponent, hembedded]
    rcases p with _ | _ | comp | ⟨n, t⟩
    · rfl
    · rfl
    · rfl
    · rw [hname n t rfl]
      rfl
  · rw [← Property.bind_atomic?, ← hatomic]
    unfold Entity.atomic
    cases s.atomic? name <;> simp
  · rw [← Property.bind_component?, ← hcomponent]
    unfold Entity.relation
    cases s.component? name with
    | none => simp
    | some other =>
      by_cases hmany : other.isToMany = toMany
      · simp only [hmany, if_true, Except.ok.injEq, Option.some.injEq]
        exact ⟨fun h => ⟨h, h ▸ hmany⟩, And.left⟩
      · simp only [hmany, if_false, reduceCtorEq, Option.some.injEq, false_iff, not_and]
        exact fun h => h ▸ hmany
  · cases ht : s.embedded? name with
    | some t =>
      obtain ⟨n, hp⟩ := Property.bind_embedded?.1 (hembedded ▸ ht)
      obtain rfl := hname n t hp
      have hlt := Graph.index_lt_of_embedded? (he ▸ ht)
      unfold Act.Ends
      rw [Graph.embedded_eq (he ▸ ht) hnew]
      simp only [Graph.entity_withPart_new n t hlt]
      exact hp
    | none =>
      unfold Graph.embedded
      simp only [Act.ends_bind, Act.ends_get, hnew, he, ht, Act.ends_throw]
      rintro t rfl
      exact absurd (hembedded.symm.trans ht) (by simp [Property.embedded?])

/-- A property that is found is declared. -/
theorem declares_of_property? {q : Property} (h : s.property? name = some q) : s.Declares name q := by
  unfold property? property at h
  cases ha : s.atomic? name with
  | some a =>
    simp only [ha, Except.toOption, Option.some.injEq] at h
    exact h ▸ mem_of_atomic? ha
  | none =>
    cases hcomp : s.component? name with
    | some comp =>
      simp only [ha, hcomp, Except.toOption, Option.some.injEq] at h
      exact h ▸ ⟨List.mem_of_find?_eq_some hcomp, name_of_component? hcomp⟩
    | none =>
      cases hembedded : s.embedded? name with
      | some t =>
        simp only [ha, hcomp, hembedded, Except.toOption, Option.some.injEq] at h
        exact h ▸ ⟨rfl, mem_of_embedded? hembedded⟩
      | none =>
        simp only [ha, hcomp, hembedded, Except.toOption] at h
        cases h

/-- A relation is found by its name if no other relation has it. -/
theorem component?_name (hs : (s.components.map (·.name)).Nodup) {comp : Component}
    (hcomp : comp ∈ s.components) : s.component? comp.name = some comp := by
  obtain ⟨other, hother⟩ := Option.isSome_iff_exists.1
    (List.find?_isSome (p := (·.name == comp.name)).2 ⟨comp, hcomp, beq_self_eq_true _⟩)
  have hname : other.name = comp.name := name_of_component? hother
  obtain rfl := List.inj_on_of_nodup_map hs (List.mem_of_find?_eq_some hother) hcomp hname
  exact hother

/-- Where relations have names of their own too, nothing else is declared under the name of a
property. -/
theorem Distinct.unshared (hs : s.Distinct) (hcomponents : (s.components.map (·.name)).Nodup)
    (name : String) : s.Unshared name (s.property? name) := by
  obtain ⟨hatomic, hcomponent, hembedded⟩ := hs.lookups name
  have hdeclared : ∀ q, s.Declares name q ↔ s.property? name = some q := by
    refine fun q => ⟨fun hq => ?_, declares_of_property?⟩
    cases q with
    | atomic a =>
      obtain ⟨ha, rfl⟩ := hq
      exact Property.bind_atomic?.1 (hatomic ▸ hs.atomic?_name ha)
    | component comp =>
      obtain ⟨hcomp, rfl⟩ := hq
      exact Property.bind_component?.1 (hcomponent ▸ component?_name hcomponents hcomp)
    | embedded n t =>
      obtain ⟨rfl, ht⟩ := hq
      obtain ⟨n', hn'⟩ := Property.bind_embedded?.1 (hembedded ▸ hs.embedded?_name ht)
      rw [hn', eq_of_property? hn']
  refine ⟨hdeclared, fun g e he l hl hname => ?_⟩
  obtain ⟨comp, hcomp, hl⟩ := List.mem_filterMap.1 hl
  have hfst : comp = l.1 := by
    split at hl
    · exact congrArg Prod.fst (Option.some.inj hl)
    · exact congrArg Prod.fst (Option.some.inj hl)
    · cases hl
  exact (hdeclared (.component l.1)).1 ⟨hfst ▸ he ▸ hcomp, hname⟩

/-- Where the names of the kinds are distinct, only relations may share names. -/
theorem Distinct.nodup_propertyNames_iff (hs : s.Distinct) :
    s.propertyNames.Nodup ↔ (s.components.map (·.name)).Nodup := by
  unfold propertyNames
  constructor
  · intro h
    exact (List.nodup_append.1 (List.nodup_append.1 h).1).2.1
  · intro h
    refine List.nodup_append.2 ⟨List.nodup_append.2 ⟨hs.atomics, h, ?_⟩, hs.embedded, ?_⟩
    · intro x hx y hy
      obtain ⟨a, ha, rfl⟩ := List.mem_map.1 hx
      obtain ⟨comp, hcomp, rfl⟩ := List.mem_map.1 hy
      exact (hs.component_ne_atomic comp hcomp a ha).symm
    · intro x hx y hy
      obtain ⟨p, hp, rfl⟩ := List.mem_map.1 hy
      rcases List.mem_append.1 hx with hx | hx
      · obtain ⟨a, ha, rfl⟩ := List.mem_map.1 hx
        exact (hs.embedded_ne_atomic p hp a ha).symm
      · obtain ⟨comp, hcomp, rfl⟩ := List.mem_map.1 hx
        exact (hs.embedded_ne_component p hp comp hcomp).symm

end Schema

namespace Registry

/-- In a schema that a registry answers, and in all that it embeds, the look-ups of every name pick one
property. Names are shared by relations only; where these have names of their own, nothing else has the
name of a property. -/
theorem Reached.picks_of_schema {r : Registry} {type : String} {s t : Schema} (hr : r.Reached)
    (h : (r.schema type).1 = .ok s) (ht : t.Within s) :
    (∀ name, t.Picks name (t.property? name)) ∧
      (t.propertyNames.Nodup ↔ (t.components.map (·.name)).Nodup) ∧
      ((t.components.map (·.name)).Nodup → ∀ name, t.Unshared name (t.property? name)) := by
  have hdistinct : t.Distinct := Catalog.distinct_of_within (hr.schema_eq type ▸ h) ht
  exact ⟨hdistinct.picks, hdistinct.nodup_propertyNames_iff, hdistinct.unshared⟩

end Registry

namespace Shop

/-- Users have an address, and relations that may share their names. -/
def user (relations : List Component) : Definition where
  name := "User"
  steps := .atomic key :: .embed "home" "Address" :: relations.map .component

/-- The posts that a foreign key leads to from their user. -/
def posts (name foreignKey : String) : Component where
  name
  target := "Post"
  cardinality := .oneToMany
  joinColumn := some foreignKey

/-- Users, their addresses and posts, each with its author and its editor. -/
def journal (relations : List Component) : Registry where
  catalog := ⟨[user relations,
    { name := "Address", embeddable := true,
      steps := [.atomic { name := "city", column := "city", kind := .string }] },
    { name := "Post",
      steps := [.atomic key, .atomic (reference "author_fk"), .atomic (reference "editor_fk")] }]⟩

/-- The schema of a user. -/
def userSchema (relations : List Component) : Schema :=
  ((journal relations).schema "User").1.toOption.getD default

end Shop

namespace Registry

open Shop

/-- A user whose posts are written under one name and edited under another one. -/
theorem picks_of_schema_user :
    let s := userSchema [posts "posts" "author_fk", posts "edited" "editor_fk"]
    (∀ name, s.Picks name (s.property? name)) ∧ s.propertyNames.Nodup ∧
      ∀ name, s.Unshared name (s.property? name) := by
  intro s
  have hs : ((journal [posts "posts" "author_fk", posts "edited" "editor_fk"]).schema "User").1 =
      .ok s := rfl
  have hnames : (s.components.map (·.name)).Nodup := by decide
  obtain ⟨hpicks, hiff, hunshared⟩ := Reached.picks_of_schema (.of_catalog _) hs (.refl s)
  exact ⟨hpicks, hiff.2 hnames, hunshared hnames⟩

/-- Two relations of one name are accepted. The second one is never looked up, but it is among the
loaded ones as soon as the first one is. -/
theorem accepts_twins :
    let relations := [posts "posts" "author_fk", posts "posts" "editor_fk"]
    let s := userSchema relations
    let g := Graph.Operation.runAll (journal relations).catalog
      [.create "User", .many ⟨0⟩ "posts"] {}
    (journal relations).Reached ∧ ((journal relations).schema "User").1 = .ok s ∧
      ¬s.propertyNames.Nodup ∧ (g.entity ⟨0⟩).schema = s ∧
      s.component? "posts" = some (posts "posts" "author_fk") ∧
      (g.loadedRelations ⟨0⟩).map (·.1) = relations := by
  exact ⟨.of_catalog _, rfl, by decide, rfl, by decide, by decide⟩

end Registry

end EntityGraph
