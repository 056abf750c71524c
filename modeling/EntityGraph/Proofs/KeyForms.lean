import EntityGraph.Proofs.Kinds
import EntityGraph.Proofs.Onward
import EntityGraph.Proofs.Properties
import EntityGraph.Proofs.Removals

/-!
# Deletions and the form of keys

A deletion enters rows under a type and a key, and enters none twice; and it looks the key up among loaded
entities. Both compare values, so a row has to come under one value, whichever relation leads to it. That
is so where keys are in the form that the kind of the type's key stores, in which coercion leaves them.

The key that a caller hands over is coerced, and so is a cell that storage answers; an entity has its key
in that form. But the value of a foreign key that refers to the key of its target is handed on in the form
of the foreign key's own kind. If that is another one, then the row is entered under a key that the target
does not have. And if a type has two relations of one name, then the entity that is looked up may be of
another type than the rows, and so may the value be that is read from it.

* `Catalog.HandsOn` — a type that hands on keys in the form that its targets store;
* `Catalog.OnWay` — something holds of all types on the way to a type;
* `Deletion.Reaches`, `Deletion.Led` — what a deletion comes to;
* `Deletion.Formed` — what a deletion has entered.

## Main results

* `Session.Removal.keys_in_form`: where all types on the way hand on keys in their form, a row is entered
  under a key in the form of its kind, and is recognized.
* `Session.Removal.key_not_in_form`: a foreign key of another kind than the key that it refers to.
-/

namespace EntityGraph

/-- Every value in the form of the first kind is one in the form of the second. -/
def AtomicKind.Fits (k k' : AtomicKind) : Prop :=
  ∀ v, k.Holds v → k'.Holds v

/-! ### Types that hand on keys -/

namespace Catalog

/-- A cascading relation leads from one accepted type to another. -/
def Cascades (c : Catalog) (s t : Schema) : Prop :=
  ∃ comp ∈ s.components, comp.onDelete = .cascade ∧ c.schema comp.target = .ok t

/-- Something holds of every type on a way from the first one to another one, along cascading
relations. -/
def OnWay (c : Catalog) (P : Schema → Prop) (first t : Schema) : Prop :=
  ∀ s, Relation.ReflTransGen c.Cascades first s → Relation.TransGen c.Cascades s t → P s

/-- Relations have names of their own, and where a cascading one stores the key of its target, it does so
in a foreign key of a fitting kind. -/
structure HandsOn (c : Catalog) (s : Schema) : Prop where
  names : (s.components.map (·.name)).Nodup
  fits : ∀ comp ∈ s.components, comp.onDelete = .cascade → ∀ join t f key,
    c.join s comp = .ok join → join.side = .here → c.schema comp.target = .ok t →
    s.atomic? join.foreignKey = some f → t.atomic? join.referenced = some key →
    key.primaryKey = true → f.kind.Fits key.kind

/-- A key is in the form that the key of a type stores. -/
def InForm (s : Schema) (v : Value) : Prop :=
  ∀ key, s.primaryKey = some key → key.kind.Holds v

variable {c : Catalog} {P Q : Schema → Prop} {first s t : Schema} {v : Value}

namespace OnWay

theorem mono (h : c.OnWay P first t) (hPQ : ∀ s, P s → Q s) : c.OnWay Q first t :=
  fun s hs hway => hPQ s (h s hs hway)

/-- The way to a type is a part of the way to a type that it leads to. -/
theorem before (h : c.OnWay P first t) (hst : c.Cascades s t) : c.OnWay P first s :=
  fun s' hs' hway => h s' hs' (hway.tail hst)

/-- The type that leads to another one is on the way to it. -/
theorem last (h : c.OnWay P first t) (hs : Relation.ReflTransGen c.Cascades first s)
    (hst : c.Cascades s t) : P s :=
  h s hs (.single hst)

/-- What holds of all accepted types holds on every way from one of them. -/
theorem of_schemas (hfirst : c.schema first.name = .ok first) (h : ∀ s ∈ c.schemas, P s) :
    c.OnWay P first t := fun s hs _ => by
  refine h s (mem_schemas_iff.2 ?_)
  rcases hs.cases_tail with rfl | ⟨_, -, comp, -, -, htarget⟩
  · exact hfirst
  · exact schema_schema_name htarget

end OnWay

/-- A coerced key is in the form that the key of the type stores. -/
theorem inForm_of_coerce {key : Atomic} (hkey : s.key = .ok key) {cell : Value} {entity : String}
    (hv : key.coerce entity cell = .ok v) : InForm s v := by
  intro key' hkey'
  obtain rfl := Option.some.inj ((Schema.key_eq_ok_iff.1 hkey).symm.trans hkey')
  exact AtomicKind.coerce?_holds (Atomic.coerce_eq_ok_iff.1 hv)

end Catalog

namespace Graph.Kinded

variable {c : Catalog} {g : Graph} {x : EntityId} {a : Atomic} {v : Value}

/-- What an entity has for an atomic is in the form of its kind. -/
theorem holds_of_get? (h : g.Kinded) (hs : (g.entity x).schema.Coherent)
    (ha : a ∈ (g.entity x).schema.atomics) {slot : Slot Value}
    (hslot : (g.entity x).atomics.get? a.name = some slot) : a.kind.Holds slot.value := by
  rcases h x _ (Assoc.mem_of_get? hslot) with hnull | ⟨a', ha', hname, hholds⟩
  · exact (show slot.value = .null from hnull) ▸ trivial
  · have hname : a'.name = a.name := hname
    have hsame := (hs.atomic?_name ha').symm.trans (hname ▸ hs.atomic?_name ha)
    exact Option.some.inj hsame ▸ hholds

/-- What is answered as the value of an atomic is in the form of its kind. -/
theorem holds_of_value (h : g.Kinded) (hs : (g.entity x).schema.Coherent)
    (ha : a ∈ (g.entity x).schema.atomics) (hv : g.value x a.name = .ok v) : a.kind.Holds v := by
  obtain rfl := value_eq_ok hv
  unfold Entity.atomicValue
  cases hslot : (g.entity x).atomics.get? a.name with
  | none => trivial
  | some slot => exact h.holds_of_get? hs ha hslot

/-- The key that an entity has is in the form that the key of its type stores. -/
theorem inForm_of_key? (h : g.Kinded) (hs : c.schema (g.entity x).schema.name = .ok (g.entity x).schema)
    (hv : g.key? x = some v) : Catalog.InForm (g.entity x).schema v := by
  intro key hkey
  rw [key?_eq hkey] at hv
  obtain ⟨slot, hslot, hv⟩ := Option.bind_eq_some_iff.1 hv
  split at hv
  · cases hv
  · obtain rfl := Option.some.inj hv
    exact h.holds_of_get? (Catalog.coherent_of_within hs (.refl _))
      (Catalog.mem_of_primaryKey hs hkey) hslot

end Graph.Kinded

namespace Deletion

open Traversal

variable {σ : Type} {c : Catalog} {V : EntityId → Value → Prop} {first target : Schema}
  {g₀ : Graph} {d : Doomed} {t : Traversal (String × Value) σ} {comp : Component} {v : Value}

/-! ### Types that a deletion comes to -/

/-- Rows that a deletion comes to, from rows of the first type. -/
structure Reaches (c : Catalog) (first : Schema) (g₀ : Graph) (d : Doomed) : Prop where
  typed : d.Typed c g₀
  accepted : c.schema d.schema.name = .ok d.schema
  way : Relation.ReflTransGen c.Cascades first d.schema
  loaded : c.OnWay (fun s => (s.components.map (·.name)).Nodup) first d.schema →
    ∀ x ∈ d.loaded, (g₀.entity x).schema = d.schema

/-- A cascading relation leads on to the rows of its target, loaded or not. -/
theorem Reaches.next (hd : Reaches c first g₀ d) (h : Ongoing c V g₀ t)
    (hcomp : comp ∈ d.schema.components) (hpolicy : comp.onDelete = .cascade)
    (htarget : c.schema comp.target = .ok target) (v : Value) : Reaches c first g₀ ⟨target, v, none⟩ ∧
      ∀ x ∈ known t.world.graph d comp, Reaches c first g₀ ⟨target, v, some x⟩ := by
  have hcascades : c.Cascades d.schema target := ⟨comp, hcomp, hpolicy, htarget⟩
  have haccepted := Catalog.schema_schema_name htarget
  obtain ⟨hnone, hsome⟩ := h.typed_next hd.typed hcomp htarget v
  refine ⟨⟨hnone, haccepted, hd.way.tail hcascades, fun _ _ hx => nomatch hx⟩,
    fun x hx => ⟨hsome x hx, haccepted, hd.way.tail hcascades, fun hnames y hy => ?_⟩⟩
  -- the relation is the one that the entity was looked up by
  obtain rfl := Option.some.inj hy
  obtain ⟨z, hz, comp', hcomp', htarget'⟩ := h.leads_of_known hx
  rw [hd.loaded (hnames.before hcascades) z hz,
    Schema.component?_name (hnames.last hd.way hcascades) hcomp] at hcomp'
  obtain rfl := Option.some.inj hcomp'
  exact Except.ok.inj (htarget'.symm.trans htarget)

/-! ### Keys that a deletion enters -/

/-- Rows that a deletion comes to, under a key in its form if all types on the way to them hand on such
keys. -/
structure Led (c : Catalog) (first : Schema) (g₀ : Graph) (d : Doomed) : Prop
    extends Reaches c first g₀ d where
  form : c.OnWay c.HandsOn first d.schema → Catalog.InForm d.schema d.key

/-- A deletion under way that began with rows of the first type, and what it has entered. -/
structure Formed (c : Catalog) (V : EntityId → Value → Prop) (first : Schema) (g₀ : Graph)
    (t : Traversal (String × Value) σ) : Prop where
  ongoing : Ongoing c V g₀ t
  kinded : t.world.graph.Kinded
  entered : ∀ row ∈ t.entered, ∃ s, c.schema row.1 = .ok s ∧
    Relation.ReflTransGen c.Cascades first s ∧
      (c.OnWay c.HandsOn first s → Catalog.InForm s row.2)

/-- Where all types on the way hand on keys in their form, what is found of rows is in the form of the
atomic that it is found under. -/
theorem Led.holds_of_found (hd : Led c first g₀ d) (hsure : c.OnWay c.HandsOn first d.schema)
    {a : Atomic} (ha : a ∈ d.schema.atomics) (hv : Found (Formed (σ := σ) c V first g₀) d a v) :
    a.kind.Holds v := by
  cases hv with
  | key hkey hv =>
    have hprimary : d.schema.primaryKey = some a :=
      Catalog.Known.primaryKey_eq ⟨_, _, hd.accepted, .refl _⟩ ha hkey
    exact hv ▸ hd.form hsure a hprimary
  | @loaded x t v hx ht hv =>
    have hsame : (t.world.graph.entity x).schema = d.schema :=
      (ht.ongoing.shape.schema x).trans (hd.loaded (hsure.mono fun _ hs => hs.names) x hx)
    refine ht.kinded.holds_of_value ?_ (hsame ▸ ha) hv
    exact hsame ▸ Catalog.coherent_of_within hd.accepted (.refl _)
  | answered hv => exact AtomicKind.coerce?_holds (Atomic.coerce_eq_ok_iff.1 hv)

/-- Where all types on the way hand on keys in their form, a relation leads to rows under such a key. -/
theorem Led.inForm_of_keyFor (hd : Led c first g₀ d) (hpolicy : comp.onDelete = .cascade)
    (htarget : c.schema comp.target = .ok target) (hsure : c.OnWay c.HandsOn first target)
    (hcomp : comp ∈ d.schema.components) (hv : KeyFor c (Formed (σ := σ) c V first g₀) d comp target v) :
    Catalog.InForm target v := by
  have hcascades : c.Cascades d.schema target := ⟨comp, hcomp, hpolicy, htarget⟩
  cases hv with
  | answered hkey hv => exact Catalog.inForm_of_coerce hkey hv
  | @owned o a ho hdue ha hprimary =>
    subst ho
    intro key hkey
    obtain ⟨f, hf, hfound⟩ := hdue.found
    have hf? := Schema.atomic_eq_ok_iff.1 hf
    have ha? := Schema.atomic_eq_ok_iff.1 ha
    have hsame : target.primaryKey = some a := Catalog.Known.primaryKey_eq
      ⟨_, _, htarget, .refl _⟩ (Schema.mem_of_atomic? ha?).1 hprimary
    obtain rfl := Option.some.inj (hsame.symm.trans hkey)
    exact (hsure.last hd.way hcascades).fits _ hcomp hpolicy _ _ _ _ hdue.join hdue.here htarget hf?
      ha? hprimary _ (hd.holds_of_found (hsure.before hcascades) (Schema.mem_of_atomic? hf?).1 hfound)

/-- What happens in a deletion leads on, under keys in their form. -/
theorem formed_rules (c : Catalog) (V : EntityId → Value → Prop) (first : Schema) (g₀ : Graph) :
    Rules (σ := σ) c (Led c first g₀) (Formed c V first g₀) (fun _ => Formed c V first g₀) where
  fail _ _ h _ := h
  enter d t hd h := by
    refine ⟨(ongoing_rules c V g₀).enter d t hd.typed h.ongoing, h.kinded, fun row hrow => ?_⟩
    rcases List.mem_cons.1 hrow with rfl | hrow
    · exact ⟨d.schema, hd.accepted, hd.way, hd.form⟩
    · exact h.entered row hrow
  ask d t t' q hd h hsent :=
    ⟨(ongoing_rules c V g₀).ask d t t' q hd.typed h.ongoing hsent, hsent.graph ▸ h.kinded,
      hsent.entered ▸ h.entered⟩
  empty d t t' u hd h hsent :=
    ⟨(ongoing_rules c V g₀).empty d t t' u hd.typed h.ongoing hsent, hsent.graph ▸ h.kinded,
      hsent.entered ▸ h.entered⟩
  delete d key t t' table hd hkey h hsent :=
    ⟨(ongoing_rules c V g₀).delete d key t t' table hd.typed hkey h.ongoing hsent,
      hsent.graph ▸ h.kinded, hsent.entered ▸ h.entered⟩
  release d x comp join t hd hloaded hcomp hpolicy hjoin hside h := by
    have hongoing := (ongoing_rules c V g₀).release d x comp join t hd.typed hloaded hcomp hpolicy hjoin
      hside h.ongoing
    have hkinded := (lasting_rules (Entity.lasting_kinded c)).release d x comp join t trivial hloaded
      hcomp hpolicy hjoin hside h.kinded
    rw [ends_onGraph] at hongoing hkinded ⊢
    exact (hongoing.and hkinded).mono (fun _ _ ht => ⟨ht.1, ht.2, h.entered⟩)
      fun _ _ ht => ⟨ht.1, ht.2, h.entered⟩
  mark d x t hd hloaded h :=
    ⟨(ongoing_rules c V g₀).mark d x t hd.typed hloaded h.ongoing,
      (Entity.lasting_kinded c).markDeleted h.kinded x, h.entered⟩
  next d comp target t v hd hcomp hpolicy htarget h _ hv := by
    obtain ⟨hnone, hsome⟩ := hd.next h.ongoing hcomp hpolicy htarget v
    have hform : c.OnWay c.HandsOn first target → Catalog.InForm target v := fun hsure =>
      hd.inForm_of_keyFor hpolicy htarget hsure hcomp hv
    exact ⟨⟨hnone, hform⟩, fun x hx => ⟨hsome x hx, hform⟩⟩

end Deletion

namespace Session.Removal

open Deletion

variable {σ : Type} [Connection σ] {ses : Session} {r : Removal} {w : World σ} {d : Doomed}
  {V : EntityId → Value → Prop}

/-- A stored entity is deleted as what it is, under the key that it has. -/
theorem doomed?_entity {g : Graph} {e : EntityId} {k : Value} (hstored : (g.entity e).stored = true)
    (hk : g.key? e = some k) :
    (entity e).doomed? ses g = .ok (some ⟨(g.entity e).schema, k, some e⟩) := by
  simp only [doomed?, hstored, if_true, Graph.requireKey, hk]
  rfl

omit [Connection σ] in
/-- A call begins with rows under a key in its form. -/
theorem led_of_doomed? (htyped : Graph.WellTyped ses.catalog w.graph) (hkinded : w.graph.Kinded)
    (h : r.doomed? ses w.graph = .ok (some d)) :
    Led ses.catalog d.schema w.graph d ∧ Catalog.InForm d.schema d.key := by
  cases r with
  | entity e =>
    have hloaded := loaded_of_doomed? h
    simp only [doomed?] at h
    split at h
    · obtain ⟨k, -, h⟩ := bind_eq_ok_iff.1 h
      obtain rfl := Option.some.inj (Except.ok.inj h)
      have hk : w.graph.key? e = some k := hloaded e rfl
      obtain ⟨key, hkey⟩ := Option.isSome_iff_exists.1 (Graph.of_key?_isSome (by rw [hk]; rfl)).2
      have haccepted := htyped.toWellFormed.schema_of_primaryKey hkey
      have hform := hkinded.inForm_of_key? haccepted hk
      refine ⟨⟨⟨typed_of_key? htyped hk, haccepted, .refl, fun _ x hx => ?_⟩, fun _ => hform⟩, hform⟩
      obtain rfl := Option.some.inj hx
      rfl
    · cases h
  | rows type key =>
    obtain ⟨d', hd', h⟩ := bind_eq_ok_iff.1 h
    obtain rfl := Option.some.inj (Except.ok.inj h)
    obtain ⟨hs, hloaded, a, ha, hcoerce⟩ := of_doomedByKey hd'
    have hform : Catalog.InForm d'.schema d'.key :=
      Catalog.inForm_of_coerce (Schema.key_eq_ok_iff.2 ha) hcoerce
    have hnone : ∀ {P : EntityId → Prop}, ∀ x ∈ d'.loaded, P x := fun x hx => by
      rw [hloaded] at hx
      cases hx
    exact ⟨⟨⟨⟨⟨type, _, hs, .refl _⟩, hnone⟩, Catalog.schema_schema_name hs, .refl, fun _ => hnone⟩,
      fun _ => hform⟩, hform⟩

/-- The traversal of a call enters keys in their form. -/
theorem formed_trace (htyped : Graph.WellTyped ses.catalog w.graph) (hkinded : w.graph.Kinded)
    (h : r.doomed? ses w.graph = .ok (some d)) (depth : Nat) :
    Formed ses.catalog V d.schema w.graph (r.trace ses depth w) := by
  simp only [trace, h]
  refine Act.ends_final_iff.1 (ends_deleteFrom (formed_rules ses.catalog V d.schema w.graph) depth d
    { world := w } (led_of_doomed? htyped hkinded h).1 ⟨⟨.refl htyped, .refl _, ?_⟩, hkinded, ?_⟩)
  · exact fun _ _ hno => absurd hno List.not_mem_nil
  · exact fun _ hno => absurd hno List.not_mem_nil

/-- **Keys of deletions are in their form.** A call that deletes, made in any state that callers and
sessions have come to, begins with rows under a key that coercion leaves as it is. All rows that it enters
are of accepted types that cascading relations lead to. If all types on the way hand on keys in the form
that their targets store, then coercion leaves the key of the rows as it is, so that they are recognized:
no other key of the type that is entered, and no other key that a loaded entity of the type has, is
converted to this one. -/
theorem keys_in_form {K : Graph → Graph → Prop} {cl : Client σ} (hreached : cl.Reached ses.catalog K)
    (r : Removal) (depth : Nat) (hdoomed : r.doomed? ses cl.world.graph = .ok (some d)) :
    (∃ key, d.schema.primaryKey = some key ∧ key.kind.coerce? d.key = some d.key) ∧
    ∀ row ∈ (r.trace ses depth cl.world).entered, ∃ s key, ses.catalog.schema row.1 = .ok s ∧
      s.primaryKey = some key ∧ Relation.ReflTransGen ses.catalog.Cascades d.schema s ∧
      (ses.catalog.OnWay ses.catalog.HandsOn d.schema s →
        key.kind.coerce? row.2 = some row.2 ∧
        (∀ v, (row.1, v) ∈ (r.trace ses depth cl.world).entered →
          key.kind.coerce? v = some row.2 → v = row.2) ∧
        ∀ x v, ((r.trace ses depth cl.world).world.graph.entity x).schema = s →
          (r.trace ses depth cl.world).world.graph.key? x = some v →
          key.kind.coerce? v = some row.2 → v = row.2) := by
  have htyped := hreached.sound.typed
  have hformed := formed_trace (V := fun _ _ => True) htyped hreached.graph_kinded hdoomed depth
  have hrecognized : ∀ {k : AtomicKind} {v w : Value}, k.Holds v → k.coerce? v = some w → v = w :=
    fun hholds hv => Option.some.inj ((AtomicKind.coerce?_of_holds hholds).symm.trans hv)
  constructor
  · obtain ⟨hled, hform⟩ := led_of_doomed? htyped hreached.graph_kinded hdoomed
    obtain ⟨key, hkey, -⟩ := Catalog.key_of_schema hled.accepted
    exact ⟨key, hkey, AtomicKind.coerce?_of_holds (hform key hkey)⟩
  · intro row hrow
    obtain ⟨s, hs, hway, hform⟩ := hformed.entered row hrow
    obtain ⟨key, hkey, -⟩ := Catalog.key_of_schema hs
    refine ⟨s, key, hs, hkey, hway, fun hsure => ⟨?_, fun v hv hcoerce => ?_, fun x v hx hv hcoerce => ?_⟩⟩
    · exact AtomicKind.coerce?_of_holds (hform hsure key hkey)
    · obtain ⟨s', hs', -, hform'⟩ := hformed.entered _ hv
      obtain rfl := Except.ok.inj (hs.symm.trans hs')
      exact hrecognized (hform' hsure key hkey) hcoerce
    · subst hx
      exact hrecognized (hformed.kinded.inForm_of_key? (Catalog.schema_schema_name hs) hv key hkey)
        hcoerce

end Session.Removal

/-! ### Users and their profiles -/

namespace Forum

/-- The profile of a user, which goes with the user. -/
def profile : Component :=
  { name := "profile", target := "Profile", cardinality := .manyToOne, joinColumn := some "profile_fk",
    onDelete := .cascade }

/-- A key that the database makes. -/
def madeKey : Atomic :=
  { name := "id", column := "id", kind := .int, primaryKey := true, generated := true }

/-- Users refer to their profiles, in a foreign key of some kind. -/
def accounts (kind : AtomicKind) : Session where
  catalog := ⟨[
    { name := "User", steps := [.atomic madeKey,
        .atomic { name := "profile_fk", column := "profile_fk", kind }, .component profile] },
    { name := "Profile", steps := [.atomic madeKey] }]⟩

/-- A user has been saved together with the profile. -/
def opened (kind : AtomicKind) : Client Counter :=
  Client.afterAll (accounts kind).catalog
    [.operate (.create "User"), .operate (.create "Profile"),
      .operate (.assignOne ⟨0⟩ "profile" (some ⟨1⟩)), .write {} .save ⟨0⟩] start

/-- What deleting the user comes to. -/
def closing (kind : AtomicKind) : Traversal (String × Value) Counter :=
  (Session.Removal.entity ⟨0⟩).trace (accounts kind) 3 (opened kind).world

end Forum

namespace Session.Removal

open Deletion Forum

/-- Where the foreign key of a user is of the kind of the key of a profile, it is handed on in its form. -/
theorem handsOn_accounts : ∀ s ∈ (accounts .int).catalog.schemas,
    (accounts .int).catalog.HandsOn s := by
  have hschemas : (accounts .int).catalog.schemas =
      [((accounts .int).catalog.schema "User").toOption.getD default,
        ((accounts .int).catalog.schema "Profile").toOption.getD default] := rfl
  rw [hschemas]
  intro s hs
  rcases List.mem_pair.1 hs with rfl | rfl
  · refine ⟨by decide, fun comp hcomp _ join t f key hjoin _ ht hf hkey _ => ?_⟩
    obtain rfl : comp = profile := List.mem_singleton.1 hcomp
    obtain rfl := Except.ok.inj (hjoin.symm.trans rfl)
    obtain rfl := Except.ok.inj (ht.symm.trans rfl)
    obtain rfl := Option.some.inj (hf.symm.trans rfl)
    obtain rfl := Option.some.inj (hkey.symm.trans rfl)
    exact fun _ hv => hv
  · exact ⟨by decide, fun comp hcomp => nomatch hcomp⟩

/-- The profile of a user goes with the user. Its row is entered under the key that the loaded profile
has, and under no other one that is converted to it. -/
theorem keys_in_form_user :
    ("Profile", .int 1) ∈ (closing .int).entered ∧
      madeKey.kind.coerce? (.int 1) = some (.int 1) ∧
      ∀ v, (closing .int).world.graph.key? ⟨1⟩ = some v →
        madeKey.kind.coerce? v = some (.int 1) → v = .int 1 := by
  have hreached : (opened .int).Reached (accounts .int).catalog fun _ _ => True :=
    ⟨start.world, rfl, Client.leads_afterAll (k := fun _ _ => true) (fun _ _ _ => trivial)
      (by decide)⟩
  obtain ⟨hentered, hprofile⟩ : ("Profile", .int 1) ∈ (closing .int).entered ∧
      ((closing .int).world.graph.entity ⟨1⟩).schema.name = "Profile" ∧
        ((closing .int).world.graph.entity ⟨1⟩).schema.primaryKey = some madeKey := by
    decide +kernel
  obtain ⟨hstored, hk, huser⟩ : ((opened .int).world.graph.entity ⟨0⟩).stored = true ∧
      (opened .int).world.graph.key? ⟨0⟩ = some (.int 2) ∧
        ((opened .int).world.graph.entity ⟨0⟩).schema.primaryKey = some madeKey := by
    decide +kernel
  -- the types of both entities are accepted
  have htyped := hreached.sound.typed
  have hdoomed : (entity ⟨0⟩).doomed? (accounts .int) (opened .int).world.graph = .ok (some _) :=
    doomed?_entity hstored hk
  have hfirst := htyped.toWellFormed.schema_of_primaryKey huser
  have hformed : Formed _ (fun _ _ => True) _ _ (closing .int) :=
    formed_trace htyped hreached.graph_kinded hdoomed 3
  have hlast := hformed.ongoing.onward.typed.toWellFormed.schema_of_primaryKey hprofile.2
  obtain ⟨s, key, hs, hkey, -, hform⟩ := (keys_in_form hreached (entity ⟨0⟩) 3 hdoomed).2 _ hentered
  rw [hprofile.1] at hlast
  have hsame : ((closing .int).world.graph.entity ⟨1⟩).schema = s :=
    Except.ok.inj (hlast.symm.trans hs)
  rw [← hsame, hprofile.2] at hkey
  obtain rfl := Option.some.inj hkey
  have hclosing : (entity ⟨0⟩).trace (accounts .int) 3 (opened .int).world = closing .int := rfl
  rw [hclosing] at hform
  dsimp only at hform
  obtain ⟨hfixed, -, hloaded⟩ := hform (.of_schemas hfirst handsOn_accounts)
  exact ⟨hentered, hfixed, fun v => hloaded ⟨1⟩ v hsame⟩

/-- The foreign key of a user is a text, and the key of a profile is a number. The profile is entered
under the text, which is no key of a profile. So its row goes, but the loaded profile is not recognized
and counts as stored. -/
theorem key_not_in_form :
    (opened .string).Reached (accounts .string).catalog (fun _ _ => True) ∧
      ("Profile", .text "1") ∈ (closing .string).entered ∧
      ((closing .string).world.graph.entity ⟨1⟩).schema.key = .ok madeKey ∧
      madeKey.kind.coerce? (.text "1") = some (.int 1) ∧
      (closing .string).world.graph.key? ⟨1⟩ = some (.int 1) ∧
      ((closing .string).journal.map (·.2.text .mysql)) = ["DELETE FROM `User` WHERE `id` = '2'",
        "DELETE FROM `Profile` WHERE `id` = '1'"] ∧
      ((closing .string).world.graph.entity ⟨1⟩).stored = true := by
  refine ⟨⟨start.world, rfl, Client.leads_afterAll (k := fun _ _ => true) (fun _ _ _ => trivial)
    (by decide)⟩, ?_⟩
  decide +kernel

end Session.Removal

end EntityGraph
