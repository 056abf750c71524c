import EntityGraph.Proofs.Naming
import EntityGraph.Schema.Registry
import Mathlib.Data.List.Induction
import Mathlib.Data.Set.Card

/-!
# Registries keep what they have built

A registry has three maps: the definitions, the slots of the types that have been asked for, and the
schemas that have been built. A build fills the slot of its name and puts the schema among the built ones,
or fails and leaves the slot empty. Nothing else is done to either, so they hold the same; and what they
hold is what the catalog builds, however often a name is defined again.

* `Registry.Reached` — the registries that definitions and questions lead to;
* `Registry.Sound` — what slots and built schemas have to do with each other and with the catalog;
* `Registry.Request` — whatever callers ask of a registry; joining a relation asks for its target;
* `Registry.Answered` — some request of a history has been answered with a schema of a name.

## Main results

* `Registry.Reached.schema_eq`: a registry answers what its catalog builds.
* `Registry.schema_memoized`: a name that has been answered with a schema is answered with it from then
  on, its declarations do not run again, and one schema is kept for every such name.
-/

namespace EntityGraph

namespace Registry

/-- The registries that definitions and questions lead to, in any order. -/
inductive Reached : Registry → Prop
  | empty : Reached {}
  | define {r : Registry} (d : Definition) : Reached r → Reached (r.define d)
  | schema {r : Registry} (name : String) : Reached r → Reached (r.schema name).2

/-- Definitions alone lead to every catalog. -/
theorem Reached.of_catalog (c : Catalog) : Reached { catalog := c } := by
  suffices h : ∀ l : List Definition, Reached { catalog := ⟨l⟩ } from h c.definitions
  intro l
  induction l using List.reverseRecOn with
  | nil => exact .empty
  | append_singleton l d ih => exact ih.define d

variable {r : Registry} {name : String} {s : Schema}

/-- A question is answered from what has been built, refused, or leads to a build. -/
theorem schema_cases (h : r.slot? name = r.built? name) :
    (∃ s, r.built? name = some s ∧ r.schema name = (.ok s, r)) ∨
      r.built? name = none ∧
        (r.catalog.entity? name = none ∧ r.schema name = (.error (.unknownEntity name), r) ∨
          (∃ d, r.catalog.entity? name = some d) ∧ r.schema name = (r.reserve name).build name) := by
  cases hbuilt : r.built? name with
  | some s => exact .inl ⟨s, rfl, schema_of_built? hbuilt⟩
  | none =>
    have hisEntity : r.catalog.isEntity name = (r.catalog.entity? name).isSome := by
      unfold Catalog.isEntity Catalog.entity?
      cases r.catalog.definition? name with
      | none => rfl
      | some d => cases hd : d.embeddable <;> simp [hd]
    refine .inr ⟨rfl, ?_⟩
    unfold Registry.schema
    rw [hbuilt, hisEntity]
    cases hd : r.catalog.entity? name with
    | none => exact .inl ⟨rfl, rfl⟩
    | some d =>
      refine .inr ⟨⟨d, rfl⟩, ?_⟩
      simp only [Option.isSome_some, if_true, slot?_reserve, h, hbuilt]

/-- A build keeps the schema that the catalog builds, if it builds one. -/
theorem build_cases (r : Registry) (name : String) :
    (∃ s, r.catalog.schema name = .ok s ∧
      r.build name = (.ok s, { r with setups := r.setups ++ r.catalog.setups name }.keep name s)) ∨
      ∃ e, r.catalog.schema name = .error e ∧
        r.build name = (.error e, { r with setups := r.setups ++ r.catalog.setups name }) := by
  unfold build
  cases hanswer : r.catalog.schema name with
  | ok s => exact .inl ⟨s, rfl, by simp only [hanswer]⟩
  | error e => exact .inr ⟨e, rfl, by simp only [hanswer]⟩

/-- What questions keep: the slots hold what has been built, and that is what the catalog builds. -/
structure Sound (r : Registry) : Prop where
  slot : ∀ name, r.slot? name = r.built? name
  built : ∀ name s, r.built? name = some s → r.catalog.schema name = .ok s

/-- An empty slot changes nothing. -/
theorem Sound.reserve (h : r.Sound) (name : String) : (r.reserve name).Sound := by
  refine ⟨fun other => ?_, fun other s hs => ?_⟩
  · rw [slot?_reserve, built?_reserve, h.slot]
  · rw [built?_reserve] at hs
    rw [catalog_reserve, h.built other s hs]

/-- What the catalog builds may be kept. -/
theorem Sound.keep (h : r.Sound) (hs : r.catalog.schema name = .ok s) : (r.keep name s).Sound := by
  have hsame : ∀ t, r.built? name = some t → t = s := fun t ht =>
    Except.ok.inj ((h.built name t ht).symm.trans hs)
  refine ⟨fun other => ?_, fun other t ht => ?_⟩
  · rw [slot?_keep, built?_keep, h.slot]
    by_cases hother : other = name
    · subst hother
      cases hbuilt : r.built? other with
      | none => simp
      | some t => simp [hsame t hbuilt]
    · simp [hother]
  · rw [built?_keep, Option.or_eq_some_iff] at ht
    rcases ht with ht | ⟨-, ht⟩
    · exact h.built other t ht
    · obtain ⟨rfl, rfl⟩ : other = name ∧ s = t := by simpa using ht
      exact hs

/-- A build fills the slot of its name with what the catalog builds. -/
theorem Sound.build (h : r.Sound) (name : String) : (r.build name).2.Sound := by
  have hnoted : Sound { r with setups := r.setups ++ r.catalog.setups name } := ⟨h.slot, h.built⟩
  rcases r.build_cases name with ⟨s, hs, hbuild⟩ | ⟨e, he, hbuild⟩ <;> rw [hbuild]
  · exact hnoted.keep hs
  · exact hnoted

/-- Every registry that definitions and questions lead to is sound. -/
theorem Reached.sound (hr : r.Reached) : r.Sound := by
  induction hr with
  | empty => exact ⟨fun _ => rfl, fun _ _ h => nomatch h⟩
  | @define r d _ ih =>
    exact ⟨ih.slot, fun name s hs => r.catalog.grows_define d name s (ih.built name s hs)⟩
  | @schema r asked _ ih =>
    rcases schema_cases (ih.slot asked) with ⟨s, -, hs⟩ | ⟨-, ⟨-, hs⟩ | ⟨-, hs⟩⟩ <;> rw [hs]
    · exact ih
    · exact ih
    · exact (ih.reserve asked).build asked

/-- A registry answers what its catalog builds. -/
theorem Reached.schema_eq (hr : r.Reached) (name : String) :
    (r.schema name).1 = r.catalog.schema name := by
  rcases schema_cases (hr.sound.slot name) with ⟨s, hbuilt, hs⟩ | ⟨-, ⟨hd, hs⟩ | ⟨-, hs⟩⟩ <;> rw [hs]
  · exact (hr.sound.built name s hbuilt).symm
  · unfold Catalog.schema
    rw [hd]
  · rcases (r.reserve name).build_cases name with ⟨t, ht, hbuild⟩ | ⟨e, he, hbuild⟩ <;> rw [hbuild]
    · rw [← ht, catalog_reserve]
    · rw [← he, catalog_reserve]

/-! ### Histories -/

/-- What callers ask of a registry, with registrations of either sort among the definitions. -/
inductive Request where
  | define (d : Definition)
  | schema (name : String)
  | property (entity name : String)
  | join (owner : Schema) (c : Component)

/-- The type whose schema a request asks for. -/
def Request.type? : Request → Option String
  | define _ => none
  | schema name => some name
  | property entity _ => some entity
  | join _ c => some c.target

/-- What a request leaves, whatever it is answered. -/
def Request.run (r : Registry) : Request → Registry
  | define d => r.define d
  | schema name => (r.schema name).2
  | property entity name => (r.property entity name).2
  | join owner c => (r.join owner c).2

/-- What requests leave, one after the other. -/
def afterAll (r : Registry) (l : List Request) : Registry :=
  l.foldl Request.run r

/-- A request of a history has been answered with a schema of a name. -/
def Answered (l : List Request) (name : String) : Prop :=
  ∃ l₁ q l₂ s, l = l₁ ++ q :: l₂ ∧ q.type? = some name ∧ ((afterAll {} l₁).schema name).1 = .ok s

/-- What a history has answered, every longer one has. -/
theorem Answered.append {l : List Request} (h : Answered l name) (l' : List Request) :
    Answered (l ++ l') name := by
  obtain ⟨l₁, q, l₂, s, rfl, hq, hs⟩ := h
  exact ⟨l₁, q, l₂ ++ l', s, by simp, hq, hs⟩

/-- A request defines a type or asks for a schema. -/
theorem Request.run_cases (r : Registry) (q : Request) :
    (∃ d, q.type? = none ∧ q.run r = r.define d) ∨
      ∃ name, q.type? = some name ∧ q.run r = (r.schema name).2 := by
  cases q with
  | define d => exact .inl ⟨d, rfl, rfl⟩
  | schema name => exact .inr ⟨name, rfl, rfl⟩
  | property entity name => exact .inr ⟨entity, rfl, rfl⟩
  | join owner c => exact .inr ⟨c.target, rfl, rfl⟩

/-- A request for a schema leaves what asking for the schema leaves. -/
theorem Request.run_eq {q : Request} (h : q.type? = some name) : q.run r = (r.schema name).2 := by
  rcases q.run_cases r with ⟨_, hnone, -⟩ | ⟨_, hsome, hrun⟩
  · cases hnone.symm.trans h
  · exact Option.some.inj (hsome.symm.trans h) ▸ hrun

/-- What definitions and questions keep is kept by every history. -/
theorem afterAll_induct {P : Registry → Prop} (hdefine : ∀ r d, P r → P (r.define d))
    (hschema : ∀ r name, P r → P (r.schema name).2) (l : List Request) (h : P r) :
    P (r.afterAll l) := by
  unfold afterAll
  induction l generalizing r with
  | nil => exact h
  | cons q l ih =>
    refine ih ?_
    rcases q.run_cases r with ⟨d, -, hrun⟩ | ⟨name, -, hrun⟩ <;> rw [hrun]
    · exact hdefine r d h
    · exact hschema r name h

/-- A history may be split after a request. -/
theorem afterAll_append (r : Registry) (l₁ : List Request) (q : Request) (l₂ : List Request) :
    r.afterAll (l₁ ++ q :: l₂) = (q.run (r.afterAll l₁)).afterAll l₂ := by
  simp [afterAll]

/-- Histories lead to reached registries. -/
theorem Reached.afterAll (hr : r.Reached) (l : List Request) : (r.afterAll l).Reached :=
  afterAll_induct (fun _ d h => h.define d) (fun _ name h => h.schema name) l hr

/-! ### What stays -/

/-- A schema that has been built stays. -/
theorem built?_mono (h : r.built? name = some s) (asked : String) :
    (r.schema asked).2.built? name = some s := by
  unfold Registry.schema
  split
  · exact h
  split
  · simp only
    split
    · rwa [built?_reserve]
    · have hreserve : (r.reserve asked).built? name = r.built? name := built?_reserve
      rw [← hreserve] at h
      rcases (r.reserve asked).build_cases asked with ⟨t, -, hbuild⟩ | ⟨e, -, hbuild⟩ <;> rw [hbuild]
      · rw [built?_keep]
        exact Option.or_eq_some_iff.2 (.inl h)
      · exact h
  · exact h

/-- A schema that is answered has been built. -/
theorem Sound.built?_of_answer (hr : r.Sound) (h : (r.schema name).1 = .ok s) :
    (r.schema name).2.built? name = some s := by
  rcases schema_cases (hr.slot name) with ⟨t, hbuilt, ht⟩ | ⟨hnew, ⟨-, ht⟩ | ⟨-, ht⟩⟩ <;> rw [ht] at h ⊢
  · obtain rfl := Except.ok.inj h
    exact hbuilt
  · cases h
  · rcases (r.reserve name).build_cases name with ⟨t, -, hbuild⟩ | ⟨e, -, hbuild⟩ <;> rw [hbuild] at h ⊢
    · obtain rfl := Except.ok.inj h
      rw [built?_keep]
      have hnew' : (r.reserve name).built? name = none := built?_reserve.trans hnew
      exact Option.or_eq_some_iff.2 (.inr ⟨hnew', if_pos rfl⟩)
    · cases h

end Registry

namespace Catalog

variable {c : Catalog} {name other : String}

/-- Resolving embeds sets up embeddable types only. -/
theorem exists_of_mem_embedSetups {depth : Nat} {path : List String} {owner : Draft}
    (h : name ∈ c.embedSetups depth path owner) : ∃ d, c.embeddable? name = some d := by
  induction depth generalizing path owner with
  | zero => simp [embedSetups] at h
  | succ depth ih =>
    rw [embedSetups] at h
    generalize owner.embeds = embeds at h
    induction embeds with
    | nil => simp [embedSetups.ofDecls] at h
    | cons e embeds ihrest =>
      obtain ⟨property, type⟩ := e
      rw [embedSetups.ofDecls] at h
      split at h
      · cases h
      split at h
      · cases h
      next d hd =>
      rcases List.mem_cons.1 h with rfl | h
      · exact ⟨d, hd⟩
      rcases List.mem_append.1 h with h | h
      · exact ih h
      · split at h
        · exact ihrest h
        · cases h

/-- Building the schema of another type does not set up an entity type. -/
theorem not_mem_setups {d : Definition} (hd : c.entity? name = some d) (hne : other ≠ name) :
    name ∉ c.setups other := by
  intro h
  unfold setups at h
  split at h
  · cases h
  · rcases List.mem_cons.1 h with rfl | h
    · exact hne rfl
    · obtain ⟨e, he⟩ := exists_of_mem_embedSetups h
      exact not_entity_of_embeddable he hd

end Catalog

namespace Registry

variable {r : Registry} {name : String} {s : Schema}

/-- An entity type whose schema has been built is not set up again. -/
theorem Sound.count_setups (hr : r.Sound) (h : r.built? name = some s) (asked : String) :
    (r.schema asked).2.setups.count name = r.setups.count name := by
  rcases schema_cases (hr.slot asked) with ⟨t, -, ht⟩ | ⟨hnew, ⟨-, ht⟩ | ⟨-, ht⟩⟩ <;> rw [ht]
  have hne : asked ≠ name := by
    rintro rfl
    cases hnew.symm.trans h
  obtain ⟨d, hd, -⟩ := Catalog.builtAs_of_schema (hr.built name s h)
  have hnot : name ∉ r.catalog.setups asked := Catalog.not_mem_setups hd hne
  have hcount : (r.setups ++ r.catalog.setups asked).count name = r.setups.count name := by
    rw [List.count_append, List.count_eq_zero.2 hnot, Nat.add_zero]
  rcases (r.reserve asked).build_cases asked with ⟨t, -, hbuild⟩ | ⟨e, -, hbuild⟩ <;>
    rw [hbuild, ← hcount, catalog_reserve, setups_reserve]
  rfl

/-- No request sets it up again. -/
theorem Reached.count_setups_afterAll (hr : r.Reached) (h : r.built? name = some s) (l : List Request) :
    (r.afterAll l).setups.count name = r.setups.count name := by
  let P (r' : Registry) : Prop := r'.Reached ∧ r'.built? name = some s ∧
    r'.setups.count name = r.setups.count name
  suffices hP : P (r.afterAll l) from hP.2.2
  refine afterAll_induct (P := P) (fun r' d h => ⟨h.1.define d, h.2⟩) (fun r' asked h => ?_) l
    ⟨hr, h, rfl⟩
  obtain ⟨hr', hbuilt, hcount⟩ := h
  exact ⟨hr'.schema asked, built?_mono hbuilt asked,
    (hr'.sound.count_setups hbuilt asked).trans hcount⟩

/-- A schema that has been answered has been built, also after later requests. -/
theorem built?_of_answered {before : List Request} {q : Request} (hq : q.type? = some name)
    (hs : ((afterAll {} before).schema name).1 = .ok s) (after : List Request) :
    (afterAll {} (before ++ q :: after)).built? name = some s := by
  have hbuilt := (Reached.empty.afterAll before).sound.built?_of_answer hs
  rw [← Request.run_eq hq] at hbuilt
  rw [afterAll_append]
  exact afterAll_induct (P := fun r => r.built? name = some s) (fun _ _ h => h)
    (fun _ asked h => built?_mono h asked) after hbuilt

/-! ### How many schemas are kept -/

/-- The names of the built schemas. -/
def builtNames (r : Registry) : List String :=
  r.built.map (·.1)

/-- These are the names under which a built schema is found. -/
theorem mem_builtNames_iff : name ∈ r.builtNames ↔ ∃ s, r.built? name = some s := by
  unfold builtNames built?
  simp only [Option.map_eq_some_iff, List.mem_map]
  constructor
  · rintro ⟨p, hp, rfl⟩
    obtain ⟨q, hq⟩ := Option.isSome_iff_exists.1 (List.find?_isSome (p := (·.1 == p.1)).2
      ⟨p, hp, beq_self_eq_true _⟩)
    exact ⟨q.2, q, hq, rfl⟩
  · rintro ⟨s, p, hp, rfl⟩
    exact ⟨p, List.mem_of_find?_eq_some hp, by simpa using List.find?_some hp⟩

/-- A schema is built once for each name. -/
theorem Reached.nodup_builtNames (hr : r.Reached) : r.builtNames.Nodup := by
  induction hr with
  | empty => exact List.nodup_nil
  | define d _ ih => exact ih
  | @schema r asked hr ih =>
    rcases schema_cases (hr.sound.slot asked) with ⟨t, -, ht⟩ | ⟨hnew, ⟨-, ht⟩ | ⟨-, ht⟩⟩ <;> rw [ht]
    · exact ih
    · exact ih
    · have hnot : asked ∉ r.builtNames := fun hmem => by
        obtain ⟨s, hs⟩ := mem_builtNames_iff.1 hmem
        cases hnew.symm.trans hs
      rcases (r.reserve asked).build_cases asked with ⟨t, -, hbuild⟩ | ⟨e, -, hbuild⟩ <;> rw [hbuild]
      · simpa [builtNames, Registry.keep, List.nodup_append] using
          ⟨ih, fun a b hab ha => hnot (ha ▸ List.mem_map_of_mem hab)⟩
      · simpa [builtNames] using ih

/-- A schema that is there after a question was there before, or is the answer. -/
theorem Sound.built?_schema (hr : r.Sound) {asked : String}
    (h : (r.schema asked).2.built? name = some s) :
    r.built? name = some s ∨ asked = name ∧ (r.schema asked).1 = .ok s := by
  rcases schema_cases (hr.slot asked) with ⟨t, -, ht⟩ | ⟨hnew, ⟨-, ht⟩ | ⟨-, ht⟩⟩ <;> rw [ht] at h ⊢
  · exact .inl h
  · exact .inl h
  · have hreserve : (r.reserve asked).built? name = r.built? name := built?_reserve
    rw [← hreserve]
    rcases (r.reserve asked).build_cases asked with ⟨t, -, hbuild⟩ | ⟨e, -, hbuild⟩ <;> rw [hbuild] at h ⊢
    · rw [built?_keep, Option.or_eq_some_iff] at h
      rcases h with h | ⟨-, h⟩
      · exact .inl h
      · obtain ⟨rfl, rfl⟩ : name = asked ∧ t = s := by simpa using h
        exact .inr ⟨rfl, rfl⟩
    · exact .inl h

/-- A schema has been built under a name iff a request was answered with one. -/
theorem mem_builtNames_afterAll_iff {l : List Request} :
    name ∈ (afterAll {} l).builtNames ↔ Answered l name := by
  constructor
  · intro h
    induction l using List.reverseRecOn with
    | nil => cases h
    | append_singleton l q ih =>
      rw [afterAll_append] at h
      rcases q.run_cases (afterAll {} l) with ⟨d, -, hrun⟩ | ⟨asked, hq, hrun⟩ <;>
        rw [hrun] at h
      · exact (ih h).append [q]
      · obtain ⟨s, hs⟩ := mem_builtNames_iff.1 h
        rcases (Reached.empty.afterAll l).sound.built?_schema hs with hbefore | ⟨rfl, hanswer⟩
        · exact (ih (mem_builtNames_iff.2 ⟨s, hbefore⟩)).append [q]
        · exact ⟨l, q, [], s, rfl, hq, hanswer⟩
  · rintro ⟨l₁, q, l₂, s, rfl, hq, hs⟩
    exact mem_builtNames_iff.2 ⟨s, built?_of_answered hq hs l₂⟩

/-- **Schemas are kept for good.** Whatever has been asked before and is asked afterwards, a name that has
been answered with a schema, be it asked for itself, for a property or as the target of a relation, is
answered with that schema, its properties and the joins with it, and the answer changes nothing. Its own
declarations are not run again. As many schemas have been built as there are names that were answered with
one. -/
theorem schema_memoized (before after : List Request) (q : Request) {name : String} {s : Schema}
    (hq : q.type? = some name) (hs : ((afterAll {} before).schema name).1 = .ok s) :
    let r := afterAll {} (before ++ q :: after)
    r.schema name = (.ok s, r) ∧
      (∀ property, r.property name property = (s.property property, r)) ∧
      (∀ owner comp, comp.target = name → r.join owner comp = (Join.resolve owner comp s, r)) ∧
      r.setups.count name = (afterAll {} (before ++ [q])).setups.count name ∧
      r.builtCount = {n | Answered (before ++ q :: after) n}.ncard := by
  intro r
  have hbuilt : r.built? name = some s := built?_of_answered hq hs after
  have hschema := schema_of_built? hbuilt
  refine ⟨hschema, fun property => ?_, fun owner comp htarget => ?_, ?_, ?_⟩
  · rw [Registry.property, hschema]
    rfl
  · rw [Registry.join, htarget, hschema]
    rfl
  · have hcount := (Reached.empty.afterAll (before ++ [q])).count_setups_afterAll
      (built?_of_answered hq hs []) after
    rwa [afterAll, afterAll, ← List.foldl_append, List.append_assoc] at hcount
  · have hset : {n | Answered (before ++ q :: after) n} = ↑r.builtNames.toFinset := by
      ext n
      simp [r, mem_builtNames_afterAll_iff]
    rw [hset, Set.ncard_coe_finset,
      List.toFinset_card_of_nodup (Reached.empty.afterAll _).nodup_builtNames]
    exact (List.length_map _).symm

end Registry

namespace Shop

/-- A stamp with an ink of its own. -/
def stamp (table : String) : Definition where
  name := "Stamp"
  steps := [.table table, .atomic { name := "id", column := "id", kind := .int, primaryKey := true },
    .embed "ink" "Ink"]

/-- The color of an ink, in one column or another. -/
def ink (column : String) : Definition where
  name := "Ink"
  embeddable := true
  steps := [.atomic { name := "color", column, kind := .string }]

/-- A stamp is asked for before its ink is defined, and again afterwards. -/
def stampedOnce : List Registry.Request :=
  [.define (stamp "stamps"), .schema "Stamp", .define (ink "color"), .schema "Ink"]

/-- Stamps and inks are defined again. Then an unknown property of a stamp, an unknown type and the stamp
that another one is linked to are asked for. -/
def stampedAgain : List Registry.Request :=
  [.define (stamp "seals"), .define (ink "colour"), .property "Stamp" "price", .schema "Letter",
    .join default { name := "next", target := "Stamp", cardinality := .oneToOne }]

/-- The schema that a stamp is first answered. -/
def stampSchema : Schema :=
  ((Registry.afterAll {} stampedOnce).schema "Stamp").1.toOption.getD default

end Shop

namespace Registry

open Shop

/-- A stamp is kept as it was first answered, although the build before that has failed. Its declarations
do not run again; it is the only schema that has been built. -/
theorem schema_memoized_stamp :
    let r := afterAll {} (stampedOnce ++ .property "Stamp" "ink" :: stampedAgain)
    r.schema "Stamp" = (.ok stampSchema, r) ∧ stampSchema.table = "stamps" ∧
      r.setups.count "Stamp" =
        (afterAll {} (stampedOnce ++ [.property "Stamp" "ink"])).setups.count "Stamp" ∧
      r.builtCount = 1 := by
  obtain ⟨hschema, -, -, hcount, -⟩ := schema_memoized stampedOnce stampedAgain
    (.property "Stamp" "ink") (s := stampSchema) rfl rfl
  exact ⟨hschema, rfl, hcount, by decide⟩

end Registry

end EntityGraph
