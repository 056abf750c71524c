import EntityGraph.Proofs.Causes
import EntityGraph.Proofs.Properties
import Mathlib.Data.Finset.Card
import Mathlib.Logic.Relation

/-!
# Embedded types

The schema of an entity type holds the schemas of the types that it embeds, which hold those of the types
that they embed in turn, and every place where a type is embedded gets a schema of its own. Nothing is
kept from one place to the next: what ends the recursion is that a type that is open, because its own
embeds are being resolved, is refused. `Catalog.resolveEmbeds` bounds the depth of the recursion instead of
leaving that to the types that are open.

The measure is the number of embeddable types that are not open. It falls whenever a type is opened, so
that no bound on the depth above it is ever met, and the recursion without a bound has one solution.

* `Catalog.embedAll` — the body of the recursion, for whatever answers the inner embeds;
* `Catalog.Resolves` — a solution of the recursion without a bound;
* `Catalog.Embeds` — the graph of embed declarations, which may have cycles;
* `Schema.Bounded` — how deep the schemas are that a schema embeds.

## Main results

* `Catalog.existsUnique_resolves`: the recursion without a bound has exactly one solution.
* `Catalog.not_cyclic_of_resolveEmbeds`: where embeds are resolved, no type that they lead to leads to
  itself.
* `Registry.Reached.embedding_sound`: embedding ends, refuses cycles, and puts every embedded schema into
  the table of the whole.
-/

namespace EntityGraph

namespace Draft

/-- What has been declared to be embedded stays so. -/
theorem mem_embeds_of_mem {d : Draft} (steps : List Declaration) {p : String × String}
    (h : p ∈ d.embeds) : p ∈ (d.setUp steps).embeds := by
  unfold setUp
  induction steps generalizing d with
  | nil => exact h
  | cons step steps ih =>
    refine ih ?_
    cases step with
    | secondary =>
      simp only [declare]
      split <;> exact h
    | embed => exact List.mem_append_left _ h
    | _ => exact h

/-- Every declaration of an embedded type is followed. -/
theorem mem_embeds_setUp {d : Draft} {steps : List Declaration} {property type : String}
    (h : .embed property type ∈ steps) : (property, type) ∈ (d.setUp steps).embeds := by
  induction steps generalizing d with
  | nil => cases h
  | cons step steps ih =>
    rcases List.mem_cons.1 h with rfl | h
    · exact mem_embeds_of_mem steps (List.mem_append_right _ (List.mem_singleton_self _))
    · exact ih h

end Draft

namespace Catalog

variable {c : Catalog}

/-! ### The recursion and its measure -/

/-- The schemas of embedded types, in order, where `resolve` answers what each of them embeds in turn. -/
def embedAll (c : Catalog) (resolve : List String → Draft → Except Error (List (String × Schema)))
    (path : List String) (owner : Draft) : Except Error (List (String × Schema)) :=
  owner.embeds.mapM fun (property, type) => do
    if path.contains type then
      throw (.malformedRelation owner.name property (.embedsItself type))
    match c.embeddable? type with
    | none => throw (.malformedRelation owner.name property (.notEmbeddable type))
    | some d =>
      let draft := d.draftIn owner.table
      let embedded ← resolve (type :: path) draft
      return (property, ← draft.finish embedded)

/-- A function answers what embeds are resolved to, whatever the number of types that are open. -/
def Resolves (c : Catalog)
    (resolve : List String → Draft → Except Error (List (String × Schema))) : Prop :=
  ∀ path owner, resolve path owner = c.embedAll resolve path owner

/-- The schema of an entity type, where `resolve` answers what it embeds. -/
def schemaBy (c : Catalog) (resolve : List String → Draft → Except Error (List (String × Schema)))
    (name : String) : Except Error Schema :=
  match c.entity? name with
  | none => .error (.unknownEntity name)
  | some d => do d.draft.finish (← resolve [] d.draft)

/-- The embeddable types that are not open. -/
def closed (c : Catalog) (path : List String) : Finset String :=
  c.names.toFinset.filter fun type => (c.embeddable? type).isSome ∧ type ∉ path

variable {path : List String} {owner : Draft} {depth : Nat}

/-- Opening a type leaves fewer types that can be opened. -/
theorem card_closed_cons {type : String} {d : Definition} (hd : c.embeddable? type = some d)
    (hnew : type ∉ path) : (c.closed (type :: path)).card < (c.closed path).card := by
  refine Finset.card_lt_card ((Finset.ssubset_iff_of_subset fun t ht => ?_).2 ⟨type, ?_, ?_⟩)
  · simp only [closed, Finset.mem_filter, List.mem_cons, not_or] at ht ⊢
    exact ⟨ht.1, ht.2.1, ht.2.2.2⟩
  · simp [closed, hd, hnew, mem_names_of_embeddable? hd]
  · simp [closed]

/-- What answers the inner embeds matters only for embeddable types that are not open. -/
theorem embedAll_congr {f g : List String → Draft → Except Error (List (String × Schema))}
    (h : ∀ type d, c.embeddable? type = some d → type ∉ path →
      f (type :: path) (d.draftIn owner.table) = g (type :: path) (d.draftIn owner.table)) :
    c.embedAll f path owner = c.embedAll g path owner := by
  unfold embedAll
  congr 1
  funext ⟨property, type⟩
  by_cases hopen : path.contains type = true
  · simp only [hopen, if_true]
    rfl
  · simp only [hopen, Bool.false_eq_true, if_false]
    cases hd : c.embeddable? type with
    | none => rfl
    | some d => simp only [h type d hd (by simpa using hopen)]

/-- The bounded recursion has that body. -/
theorem resolveEmbeds_succ (depth : Nat) (path : List String) (owner : Draft) :
    c.resolveEmbeds (depth + 1) path owner = c.embedAll (c.resolveEmbeds depth) path owner :=
  rfl

/-- Whatever solves the recursion answers what is answered within every depth above the measure. -/
theorem Resolves.eq_resolveEmbeds
    {resolve : List String → Draft → Except Error (List (String × Schema))} (h : c.Resolves resolve)
    (hdepth : (c.closed path).card < depth) :
    resolve path owner = c.resolveEmbeds depth path owner := by
  induction depth generalizing path owner with
  | zero => omega
  | succ depth ih =>
    rw [h, resolveEmbeds_succ]
    refine embedAll_congr fun type d hd hnew => ih ?_
    have hfewer := card_closed_cons hd hnew
    omega

/-- All depths above the measure answer the same. -/
theorem resolveEmbeds_eq {depth' : Nat} (hdepth : (c.closed path).card < depth)
    (hdepth' : (c.closed path).card < depth') :
    c.resolveEmbeds depth path owner = c.resolveEmbeds depth' path owner := by
  induction depth generalizing depth' path owner with
  | zero => omega
  | succ depth ih =>
    obtain ⟨depth', rfl⟩ := Nat.exists_eq_add_of_lt (Nat.zero_lt_of_lt hdepth')
    rw [Nat.zero_add, resolveEmbeds_succ, resolveEmbeds_succ]
    refine embedAll_congr fun type d hd hnew => ih ?_ ?_
    all_goals
      have hfewer := card_closed_cons hd hnew
      omega

/-- **The recursion ends.** Without any bound it has exactly one solution. -/
theorem existsUnique_resolves (c : Catalog) : ∃! resolve, c.Resolves resolve := by
  refine ⟨fun path owner => c.resolveEmbeds ((c.closed path).card + 1) path owner,
    fun path owner => embedAll_congr fun type d hd hnew => resolveEmbeds_eq ?_ (Nat.lt_succ_self _),
    fun resolve h => funext₂ fun path owner => h.eq_resolveEmbeds (Nat.lt_succ_self _)⟩
  exact card_closed_cons hd hnew

/-- There are no more embeddable types than definitions. -/
theorem card_closed_lt_depthBound (c : Catalog) : (c.closed []).card < c.depthBound := by
  have hfilter : (c.closed []).card ≤ c.names.toFinset.card := Finset.card_filter_le _ _
  have hnames : c.names.toFinset.card ≤ c.names.length := c.names.toFinset_card_le
  rw [names, List.length_map, ← names] at hnames
  exact Nat.lt_succ_of_le (hfilter.trans hnames)

/-- A catalog answers the schema that the recursion without a bound leads to. -/
theorem Resolves.schema_eq {resolve : List String → Draft → Except Error (List (String × Schema))}
    (h : c.Resolves resolve) (name : String) : c.schema name = c.schemaBy resolve name := by
  unfold schema schemaBy
  cases c.entity? name with
  | none => rfl
  | some d => simp only [h.eq_resolveEmbeds c.card_closed_lt_depthBound]

/-! ### Cycles -/

/-- A type declares that it embeds another one. -/
def Embeds (c : Catalog) (a b : String) : Prop :=
  ∃ d property, c.definition? a = some d ∧ .embed property b ∈ d.steps

/-- An embedded type has been opened and its schema finished. -/
structure Opens (c : Catalog) (depth : Nat) (path : List String) (owner : Draft)
    (e : String × String) (p : String × Schema) : Prop where
  new : e.2 ∉ path
  property : p.1 = e.1
  inner : ∃ d parts, c.embeddable? e.2 = some d ∧
    c.resolveEmbeds depth (e.2 :: path) (d.draftIn owner.table) = .ok parts ∧
      (d.draftIn owner.table).finish parts = .ok p.2

/-- Where embeds are resolved, each of them has been opened. -/
theorem opens_of_resolveEmbeds {embedded : List (String × Schema)}
    (h : c.resolveEmbeds (depth + 1) path owner = .ok embedded) :
    List.Forall₂ (c.Opens depth path owner) owner.embeds embedded := by
  rw [resolveEmbeds_succ] at h
  refine (mapM_ok_forall₂ h).imp fun ⟨property, type⟩ p hp => ?_
  simp only at hp
  split at hp
  · cases hp
  next hnew =>
  split at hp
  · cases hp
  next d hd =>
  obtain ⟨parts, hparts, hp⟩ := bind_eq_ok_iff.1 hp
  obtain ⟨s, hs, hp⟩ := bind_eq_ok_iff.1 hp
  obtain rfl := Except.ok.inj hp
  exact ⟨by simpa using hnew, rfl, d, parts, hd, hparts, hs⟩

/-- What an open type declares to embed is embedded in its draft. -/
theorem Embeds.mem_draftIn {a b : String} {d : Definition} (h : c.Embeds a b)
    (hd : c.embeddable? a = some d) (table : String) :
    ∃ property, (property, b) ∈ (d.draftIn table).embeds := by
  obtain ⟨d', property, hd', hmem⟩ := h
  obtain rfl := Option.some.inj (hd'.symm.trans (Option.filter_eq_some_iff.1 hd).1)
  exact ⟨property, Draft.mem_embeds_setUp hmem⟩

/-- Where embeds are resolved, they do not lead to a type that is open. -/
theorem not_open_of_resolveEmbeds {embedded : List (String × Schema)} {property type t : String}
    (h : c.resolveEmbeds depth path owner = .ok embedded) (hmem : (property, type) ∈ owner.embeds)
    (ht : Relation.ReflTransGen c.Embeds type t) : t ∉ path := by
  induction depth generalizing path owner embedded property type with
  | zero => cases h
  | succ depth ih =>
    obtain ⟨p, -, hopens⟩ := exists_of_forall₂ (opens_of_resolveEmbeds h) hmem
    obtain ⟨d, parts, hd, hparts, -⟩ := hopens.inner
    rcases ht.cases_head with rfl | ⟨next, hnext, ht⟩
    · exact hopens.new
    · obtain ⟨property', hmem'⟩ := hnext.mem_draftIn hd owner.table
      exact fun hopen => ih hparts hmem' ht (List.mem_cons_of_mem _ hopen)

/-- Where embeds are resolved, no type that they lead to leads to itself. -/
theorem not_cyclic_of_resolveEmbeds {embedded : List (String × Schema)} {property type t : String}
    (h : c.resolveEmbeds depth path owner = .ok embedded) (hmem : (property, type) ∈ owner.embeds)
    (ht : Relation.ReflTransGen c.Embeds type t) : ¬Relation.TransGen c.Embeds t t := by
  induction depth generalizing path owner embedded property type with
  | zero => cases h
  | succ depth ih =>
    obtain ⟨p, -, hopens⟩ := exists_of_forall₂ (opens_of_resolveEmbeds h) hmem
    obtain ⟨d, parts, hd, hparts, -⟩ := hopens.inner
    rcases ht.cases_head with rfl | ⟨next, hnext, ht⟩
    · intro hcycle
      obtain ⟨next, hnext, hback⟩ := Relation.TransGen.head'_iff.1 hcycle
      obtain ⟨property', hmem'⟩ := hnext.mem_draftIn hd owner.table
      exact not_open_of_resolveEmbeds hparts hmem' hback List.mem_cons_self
    · obtain ⟨property', hmem'⟩ := hnext.mem_draftIn hd owner.table
      exact ih hparts hmem' ht

/-- A catalog does not build what leads to a type that leads to itself. -/
theorem error_of_cyclic {name t : String} (ht : Relation.ReflTransGen c.Embeds name t)
    (hcycle : Relation.TransGen c.Embeds t t) : ∃ e, c.schema name = .error e := by
  cases hs : c.schema name with
  | error e => exact ⟨e, rfl⟩
  | ok s =>
    exfalso
    unfold schema at hs
    split at hs
    · cases hs
    next d hd =>
    obtain ⟨embedded, hembedded, -⟩ := bind_eq_ok_iff.1 hs
    -- the way to the cycle, or once around it, starts with an embed of the entity type
    obtain ⟨next, ⟨d', property, hd', hmem⟩, hnext, hcycle⟩ : ∃ next, c.Embeds name next ∧
        Relation.ReflTransGen c.Embeds next t ∧ Relation.TransGen c.Embeds t t := by
      rcases ht.cases_head with rfl | ⟨next, hnext, ht⟩
      · obtain ⟨next, hnext, hback⟩ := Relation.TransGen.head'_iff.1 hcycle
        exact ⟨next, hnext, hback, hcycle⟩
      · exact ⟨next, hnext, ht, hcycle⟩
    obtain rfl := Option.some.inj (hd'.symm.trans (Option.filter_eq_some_iff.1 hd).1)
    exact not_cyclic_of_resolveEmbeds hembedded (Draft.mem_embeds_setUp hmem) hnext hcycle

end Catalog

/-! ### What is embedded -/

/-- A schema embeds others to no more than a depth. -/
inductive Schema.Bounded : Nat → Schema → Prop
  | intro {n : Nat} {s : Schema} : (∀ p ∈ s.embedded, Bounded n p.2) → Bounded (n + 1) s

/-- A greater depth is a bound, too. -/
theorem Schema.Bounded.mono {m n : Nat} {s : Schema} (h : s.Bounded m) (hle : m ≤ n) :
    s.Bounded n := by
  induction h generalizing n with
  | intro _ ih =>
    obtain ⟨n, rfl⟩ := Nat.exists_eq_add_of_lt (Nat.zero_lt_of_lt hle)
    exact .intro fun p hp => ih p hp (by omega)

namespace Catalog

variable {c : Catalog} {name : String} {s t : Schema}

/-- No more schemas are nested in each other than there are types that can be opened. -/
theorem bounded_of_resolveEmbeds {depth : Nat} {path : List String} {owner : Draft}
    {embedded : List (String × Schema)} (h : c.resolveEmbeds depth path owner = .ok embedded) :
    ∀ p ∈ embedded, p.2.Bounded (c.closed path).card := by
  induction depth generalizing path owner embedded with
  | zero => cases h
  | succ depth ih =>
    intro p hp
    obtain ⟨e, -, hopens⟩ := exists_of_forall₂ (opens_of_resolveEmbeds h).flip hp
    obtain ⟨d, parts, hd, hparts, hfinish⟩ := hopens.inner
    obtain ⟨-, -, -, -, hs⟩ := Draft.finish_eq_ok_iff.1 hfinish
    have hbounded : p.2.Bounded ((c.closed (e.2 :: path)).card + 1) :=
      hs ▸ .intro (ih hparts)
    exact hbounded.mono (card_closed_cons hd hopens.new)

/-- In a built schema, no more schemas are nested in each other than there are embeddable types. -/
theorem bounded_of_schema (h : c.schema name = .ok s) : s.Bounded ((c.closed []).card + 1) := by
  unfold schema at h
  split at h
  · cases h
  next d hd =>
  obtain ⟨embedded, hembedded, h⟩ := bind_eq_ok_iff.1 h
  obtain ⟨-, -, -, -, rfl⟩ := Draft.finish_eq_ok_iff.1 h
  exact .intro (bounded_of_resolveEmbeds hembedded)

/-- What is embedded in a built schema, at any depth, is embeddable. -/
theorem embeddable_of_within (h : c.schema name = .ok s) {p : String × Schema}
    (hp : p ∈ s.embedded) (ht : t.Within p.2) : t.embeddable = true := by
  let P (d : Draft) (s : Schema) : Prop :=
    s.embeddable = d.embeddable ∧ ∀ p ∈ s.embedded, ∀ t : Schema, t.Within p.2 → t.embeddable = true
  suffices h : ∃ e, c.entity? name = some e ∧ P e.draft s by
    obtain ⟨_, -, hP⟩ := h
    exact hP.2 p hp t ht
  refine schema_induct (P := P) (fun d embedded s hs _ hparts => ?_) h
  obtain ⟨-, -, -, -, rfl⟩ := Draft.finish_eq_ok_iff.1 hs
  refine ⟨rfl, fun p hp t ht => ?_⟩
  obtain ⟨_, e, -, hown, hinner⟩ := hparts p hp
  rcases ht.cases_head with rfl | ⟨q, hq, hw⟩
  · exact hown.trans (Draft.setUp_name_embeddable (.embeddableIn e.name d.table) e.steps).2
  · exact hinner q hq t hw

end Catalog

namespace Registry

/-- **Embedding ends and is sound.** In every registry that definitions and questions lead to, the
recursion through embed declarations has one solution without any bound on its depth, and the answer is
what it leads to. An entity type that leads to a type that leads to itself is refused. The schemas that
an accepted one embeds are no deeper than there are embeddable types, and each of them is embeddable, has no
primary key and is stored in the table of the whole, whatever table its declarations name. -/
theorem Reached.embedding_sound {r : Registry} (hr : r.Reached) (name : String) :
    ((∃! resolve, r.catalog.Resolves resolve) ∧
      ∀ resolve, r.catalog.Resolves resolve →
        (r.schema name).1 = r.catalog.schemaBy resolve name ∧ (r.schema name).1 ≠ .error .exhausted) ∧
      (∀ type, Relation.ReflTransGen r.catalog.Embeds name type →
        Relation.TransGen r.catalog.Embeds type type → ∃ e, (r.schema name).1 = .error e) ∧
      ∀ s, (r.schema name).1 = .ok s →
        s.Bounded ((r.catalog.closed []).card + 1) ∧
        ∀ p ∈ s.embedded, ∀ t : Schema, t.Within p.2 →
          t.embeddable = true ∧ t.table = s.table ∧ t.primaryKey = none ∧
            ∀ a ∈ t.atomics, a.primaryKey = false := by
  rw [hr.schema_eq]
  refine ⟨⟨r.catalog.existsUnique_resolves, fun resolve h => ⟨h.schema_eq name, fun hexhausted => ?_⟩⟩,
    fun type htype hcycle => Catalog.error_of_cyclic htype hcycle, fun s hs => ⟨?_, fun p hp t ht => ?_⟩⟩
  · exact Catalog.structural_of_schema hexhausted
  · exact Catalog.bounded_of_schema hs
  · have hpart := Catalog.embeddedIn_of_within hs hp ht
    refine ⟨Catalog.embeddable_of_within hs hp ht, hpart.table_eq, hpart.noKey, fun a ha => ?_⟩
    refine Bool.eq_false_iff.2 fun hmarked => ?_
    have hknown : r.catalog.Known t := ⟨name, s, hs, ht.trans (.embedded (.refl s) hp)⟩
    cases hpart.noKey.symm.trans (hknown.primaryKey_eq ha hmarked)

end Registry

namespace Shop

/-- An address is embedded twice in an order and once in a depot, and embeds a point. Both name tables
that they are not stored in. A parcel is wrapped in a box, and every box in another one. -/
def mailing : Catalog where
  definitions := [
    { name := "Order",
      steps := [.table "orders", .atomic key, .embed "billing" "Address",
        .embed "shipping" "Address"] },
    { name := "Address", embeddable := true,
      steps := [.atomic { name := "city", column := "city", kind := .string },
        .table "addresses", .embed "position" "Point"] },
    { name := "Point", embeddable := true,
      steps := [.atomic { name := "x", column := "x", kind := .int }, .table "points"] },
    { name := "Parcel", steps := [.atomic key, .embed "wrapping" "Box"] },
    { name := "Box", embeddable := true, steps := [.embed "lid" "Point", .embed "outer" "Box"] }]

/-- The schema of an order. -/
def orderSchema : Schema :=
  (Registry.schema { catalog := mailing } "Order").1.toOption.getD default

/-- The schema of the address that an order is shipped to. -/
def shippingSchema : Schema :=
  (orderSchema.embedded? "shipping").getD default

end Shop

namespace Registry

open Shop

/-- The point of the second address of an order is stored with the order, in the table that the order
names. A parcel leads to a box, which leads to itself. -/
theorem embedding_sound_orders :
    (∃ point, shippingSchema.embedded? "position" = some point ∧ point.embeddable = true ∧
      point.table = "orders" ∧ point.primaryKey = none) ∧
      ∃ e, (Registry.schema { catalog := mailing } "Parcel").1 = .error e := by
  have hr := Reached.of_catalog mailing
  constructor
  · have hs : (Registry.schema { catalog := mailing } "Order").1 = .ok orderSchema := rfl
    obtain ⟨-, hparts⟩ := (hr.embedding_sound "Order").2.2 orderSchema hs
    have hshipping : ("shipping", shippingSchema) ∈ orderSchema.embedded :=
      Schema.mem_of_embedded? rfl
    obtain ⟨point, hpoint⟩ : ∃ point, shippingSchema.embedded? "position" = some point := ⟨_, rfl⟩
    obtain ⟨hembeddable, htable, hkey, -⟩ := hparts _ hshipping point
      (.embedded (.refl _) (Schema.mem_of_embedded? hpoint))
    exact ⟨point, hpoint, hembeddable, htable.trans rfl, hkey⟩
  · have hwraps : Catalog.Embeds mailing "Parcel" "Box" := ⟨_, "wrapping", rfl, by decide⟩
    have houter : Catalog.Embeds mailing "Box" "Box" := ⟨_, "outer", rfl, by decide⟩
    exact (hr.embedding_sound "Parcel").2.1 "Box" (.single hwraps) (.single houter)

end Registry

end EntityGraph
