import EntityGraph.Proofs.Client

/-!
# The keys of what storage has

An entity that storage has keeps its primary key, whatever callers and sessions do, for as long as
storage has it. So what is sent for the entity is about the row that it was inserted as or read from.
That is so of every type whose key no relation writes. Where the key is a foreign key as well, assigning
the relation replaces it, although assigning the atomic itself is refused.

## Main results

* `Client.Reached.key_stays` — the key of an entity that storage has stays, and statements go by it;
* `Client.not_key_stays_shared` — a key that a relation writes does not stay.
-/

namespace EntityGraph

open EntityGraph.Graph

variable {σ : Type} {c : Catalog} {V : EntityId → Value → Prop} {g : Graph} {e : EntityId} {k v : Value}
  {key : Atomic}

/-- An operation of a caller leaves the key of an entity that storage has. -/
theorem Graph.WellTyped.key?_operation (h : WellTyped c g) {op : Operation} (hop : op.Fits c V g)
    (hstored : (g.entity e).stored = true) (hown : c.OwnsKey (g.entity e).schema)
    (hk : g.key? e = some k) : ((op.run c).final g).key? e = some k := by
  cases op with
  | assign x name v =>
    have haltered := h.altered x name v
    by_cases hx : e = x
    · subst hx
      exact (haltered.fixed hstored hown).trans hk
    · exact (haltered.others e hx hown).trans hk
  | remove i m => exact ((h.removed i m).key? hown).trans hk
  | _ => exact Effects.key? (h.effects hop rfl) h.toConsistent hown hk

namespace Client

variable [Connection σ] {cl cl' : Client σ} {K : Graph → Graph → Prop}

/-- Whatever is done, entities keep their types. -/
theorem Sound.schema_after (h : Sound c cl) {d : Deed σ} (hd : d.possible cl.world.graph = true)
    (he : e.index < cl.world.graph.entities.length) :
    ((d.after c cl).world.graph.entity e).schema = (cl.world.graph.entity e).schema := by
  have hadvances := (h.advances (V := fun _ _ => True) (fun _ _ _ _ _ _ => trivial) hd).2
  cases d with
  | operate op =>
    rw [Deed.graph_after_operate]
    exact (h.typed.schema_operation (V := fun _ _ => True) (Operation.fits_of_possible hd)).2 e he
  | _ => exact Effects.schema (hadvances rfl) he

/-- Whatever is done, an entity that storage has keeps its key. -/
theorem Sound.key?_after (h : Sound c cl) {d : Deed σ} (hd : d.possible cl.world.graph = true)
    (hstored : (cl.world.graph.entity e).stored = true)
    (hown : c.OwnsKey (cl.world.graph.entity e).schema) (hk : cl.world.graph.key? e = some k) :
    (d.after c cl).world.graph.key? e = some k := by
  have hadvances := (h.advances (V := fun _ _ => True) (fun _ _ _ _ _ _ => trivial) hd).2
  cases d with
  | operate op =>
    rw [Deed.graph_after_operate]
    exact h.typed.key?_operation (V := fun _ _ => True) (Operation.fits_of_possible hd) hstored hown hk
  | _ => exact Effects.key? (hadvances rfl) h.typed.toConsistent hown hk

/-- An entity has a key, and what a session would send for it is about the row under that key: updates
are, and its deletion begins with that row. Rows of its type are deleted by their keys. -/
structure Addresses (c : Catalog) (cl : Client σ) (e : EntityId) (key : Atomic) (k : Value) : Prop where
  key? : cl.world.graph.key? e = some k
  updates : ∀ config (call : Call) x u,
    (e, .update u) ∈ (call.trace ⟨c, config⟩ x cl.world).journal →
      u.conditions = [Expr.columnEq key.column k]
  deletion : Session.deleteTrace { catalog := c } e cl.world =
    (Deletion.deleteFrom c (Deletion.depthBound c cl.world)
      ⟨(cl.world.graph.entity e).schema, k, some e⟩).final { world := cl.world }
  deletes : ∀ x v u, (((cl.world.graph.entity e).schema.name, v), .delete u) ∈
    (Session.deleteTrace { catalog := c } x cl.world).journal →
      u.conditions = [Expr.columnEq key.column v]

/-- What is sent for an entity goes by the key that it has. -/
theorem Sound.addresses (h : Sound c cl) (hkey : (cl.world.graph.entity e).schema.primaryKey = some key)
    (hown : c.OwnsKey (cl.world.graph.entity e).schema) (hk : cl.world.graph.key? e = some k) :
    cl.Addresses c e key k where
  key? := hk
  updates config call x u hu := by
    have htrace := Call.ongoing_trace (V := fun _ _ => True) ⟨c, config⟩ h.typed
      (fun _ _ _ _ _ _ => trivial) x call
    obtain ⟨key', k', hkey', hconditions, hk'⟩ := htrace.addressed e u hu
    have hschema := Effects.schema htrace.onward.effects (index_lt_of_primaryKey hkey)
    rw [hschema] at hkey' hk'
    obtain rfl := Option.some.inj (hkey'.symm.trans hkey)
    have hstays := Effects.key? htrace.onward.effects h.typed.toConsistent hown hk
    rw [hconditions, Option.some.inj ((hk' hown).symm.trans hstays)]
  deletion := by rw [Session.deleteTrace, hk]
  deletes x v u hu := by
    have htrace := Session.ongoing_deleteTrace (V := fun _ _ => True) { catalog := c } h.typed x
    obtain ⟨s, key', hknown, hname, hkey', hconditions⟩ := htrace.addressed _ u hu
    have hs := (h.typed.known e (index_lt_of_primaryKey hkey)).schema_of_key hkey
    have hs' := hknown.schema_of_key hkey'
    rw [hname, hs] at hs'
    obtain rfl := Except.ok.inj hs'
    obtain rfl := Option.some.inj (hkey'.symm.trans hkey)
    exact hconditions

/-- An entity that storage has has a primary key, unless that is a foreign key. The key stays, whatever
is done, for as long as storage has the entity, and what is sent for it goes by the key. -/
theorem Reached.key_stays (h : cl.Reached c K) (hstored : (cl.world.graph.entity e).stored = true)
    (hkey : (cl.world.graph.entity e).schema.primaryKey = some key)
    (hown : c.OwnsKey (cl.world.graph.entity e).schema) :
    ∃ k, ∀ cl', Leads c (fun _ g => (g.entity e).stored = true) cl cl' → cl'.Addresses c e key k := by
  obtain ⟨k, hk⟩ := Option.isSome_iff_exists.1 (h.sound.typed.keyed e hstored (by rw [hkey]; rfl) hown)
  refine ⟨k, fun cl' hleads => ?_⟩
  have hlt := (of_key?_isSome (by rw [hk]; rfl)).1
  suffices hkept : Sound c cl' ∧ (cl'.world.graph.entity e).stored = true ∧
      (cl'.world.graph.entity e).schema = (cl.world.graph.entity e).schema ∧
        cl'.world.graph.key? e = some k by
    obtain ⟨hsound, -, hschema, hk'⟩ := hkept
    exact hsound.addresses (hschema ▸ hkey) (hschema ▸ hown) hk'
  induction hleads with
  | refl => exact ⟨h.sound, hstored, rfl, hk⟩
  | @tail cl₁ cl₂ hleads hstep ih =>
    obtain ⟨hsound, hstored₁, hschema, hk₁⟩ := ih
    obtain ⟨d, hd, hstored₂⟩ := hstep
    have hlt₁ := (of_key?_isSome (by rw [hk₁]; rfl)).1
    have hsound₂ := (hsound.advances (V := fun _ _ => True) (fun _ _ _ _ _ _ => trivial) hd).1
    exact ⟨hsound₂, hstored₂, (hsound.schema_after hd hlt₁).trans hschema,
      hsound.key?_after hd hstored₁ (hschema ▸ hown) hk₁⟩

end Client

end EntityGraph

/-! ### A key that is a foreign key -/

namespace EntityGraph.Forum

open EntityGraph.Graph

/-- The key of a user. -/
def userKey : Atomic :=
  { name := "id", column := "id", kind := .int, primaryKey := true }

/-- The key of a profile, which is that of its user. -/
def profileKey : Atomic :=
  { name := "user_id", column := "user_id", kind := .int, primaryKey := true }

/-- A text that users and profiles have. -/
def text (name : String) : Atomic :=
  { name, column := name, kind := .string }

/-- The user of a profile. -/
def user : Component :=
  { name := "user", target := "User", cardinality := .oneToOne, joinColumn := some "user_id" }

/-- A profile has the key of its user. -/
def catalog : Catalog where
  definitions := [
    { name := "User", steps := [.atomic userKey, .atomic (text "name")] },
    { name := "Profile", steps := [.atomic profileKey, .atomic (text "bio"), .component user] }]

/-- Nothing has been done yet. -/
def start : Client Counter :=
  ⟨{ wire := { link := { dialect := .mysql } } }, []⟩

/-- A profile of the first of two users has been saved. -/
def saved : Client Counter :=
  Client.afterAll catalog
    [.operate (.create "User"), .operate (.assign ⟨0⟩ "id" (.int 1)), .operate (.create "User"),
      .operate (.assign ⟨1⟩ "id" (.int 2)), .operate (.create "Profile"),
      .operate (.assignOne ⟨2⟩ "user" (some ⟨0⟩)), .write {} .save ⟨2⟩] start

/-- The user has been given another key, in vain, and a name. -/
def named : Client Counter :=
  Client.afterAll catalog
    [.operate (.assign ⟨0⟩ "id" (.int 3)), .operate (.assign ⟨0⟩ "name" (.text "Ann"))] saved

/-- The profile has been given another user, and a text. -/
def moved : Client Counter :=
  Client.afterAll catalog
    [.operate (.assignOne ⟨2⟩ "user" (some ⟨1⟩)), .operate (.assign ⟨2⟩ "bio" (.text "x"))] saved

/-- What updating an entity would send for it. -/
def updatesOf (e : EntityId) (cl : Client Counter) : List String :=
  (((Call.update).trace { catalog } e cl.world).journal.filter (·.1 == e)).map (·.2.text .mysql)

/-- A history leads to the saved profile. -/
theorem reached_saved : saved.Reached catalog fun _ _ => True :=
  ⟨start.world, rfl, Client.leads_afterAll (k := fun _ _ => true) (fun _ _ _ => trivial)
    (by decide)⟩

end EntityGraph.Forum

namespace EntityGraph.Client

open EntityGraph.Graph

/-- The user keeps its key, and is updated under it. -/
theorem key_stays_user :
    Forum.named.Addresses Forum.catalog ⟨0⟩ Forum.userKey (.int 1) ∧
      Forum.updatesOf ⟨0⟩ Forum.named = ["UPDATE `User` SET `name` = 'Ann' WHERE `id` = '1'"] := by
  obtain ⟨hjoins, hname, hstored⟩ :
      (∀ name ∈ (Forum.saved.world.graph.entity ⟨0⟩).schema.keyName?, name ∉ Forum.catalog.joinColumns) ∧
        (Forum.saved.world.graph.entity ⟨0⟩).schema.primaryKey = some Forum.userKey ∧
          (Forum.saved.world.graph.entity ⟨0⟩).stored = true := by
    decide +kernel
  obtain ⟨hkey, hupdates⟩ : Forum.named.world.graph.key? ⟨0⟩ = some (.int 1) ∧
      Forum.updatesOf ⟨0⟩ Forum.named = ["UPDATE `User` SET `name` = 'Ann' WHERE `id` = '1'"] := by
    decide +kernel
  obtain ⟨k, hk⟩ := Forum.reached_saved.key_stays hstored hname (Catalog.ownsKey_of_joinColumns hjoins)
  have hnamed := hk Forum.named (leads_afterAll (k := fun _ g => (g.entity ⟨0⟩).stored)
    (fun _ _ hg => hg) (by decide +kernel))
  obtain rfl := Option.some.inj (hnamed.key?.symm.trans hkey)
  exact ⟨hnamed, hupdates⟩

/-- A key that a relation writes does not stay. The profile is stored under the key of its first user.
Assigning another key to it is refused, but assigning another user replaces the key, and the profile
is updated under a key that it is not stored under. -/
theorem not_key_stays_shared :
    Forum.saved.Reached Forum.catalog (fun _ _ => True) ∧
      (Forum.saved.world.graph.entity ⟨2⟩).stored = true ∧
      Forum.saved.world.graph.key? ⟨2⟩ = some (.int 1) ∧
      ((assign ⟨2⟩ "user_id" (.int 2)).succeeds Forum.saved.world.graph) = false ∧
      Leads Forum.catalog (fun _ g => (g.entity ⟨2⟩).stored = true) Forum.saved Forum.moved ∧
      Forum.moved.world.graph.key? ⟨2⟩ = some (.int 2) ∧
      Forum.updatesOf ⟨2⟩ Forum.moved = ["UPDATE `Profile` SET `bio` = 'x' WHERE `user_id` = '2'"] := by
  have hsaved : (Forum.saved.world.graph.entity ⟨2⟩).stored = true ∧
      Forum.saved.world.graph.key? ⟨2⟩ = some (.int 1) ∧
        ((assign ⟨2⟩ "user_id" (.int 2)).succeeds Forum.saved.world.graph) = false := by
    decide +kernel
  refine ⟨Forum.reached_saved, hsaved.1, hsaved.2.1, hsaved.2.2, ?_, by decide +kernel⟩
  exact leads_afterAll (k := fun _ g => (g.entity ⟨2⟩).stored) (fun _ _ hg => hg) (by decide +kernel)

end EntityGraph.Client
