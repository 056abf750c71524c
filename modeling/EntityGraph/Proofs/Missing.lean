import EntityGraph.Proofs.Awaiting
import EntityGraph.Proofs.KeyForms

/-!
# Properties that are missed

Both sides of a relation that is resolved have their atomics, and so whoever works with the relation finds
them. A query does: its compilation misses a property by name only where a relation is not resolved. A save
finds every foreign key that waits, unless some to-many relation is crossed, whose members lack it. And a
deletion asks rows for the foreign keys of their type, and finds them there; but if a type has two relations
of one name, then the entity that was loaded through the first may be taken for the row that the second one
leads to, and an entity of another type is asked.

* `Catalog.LeadsToTwins` — a cascade from a type comes to relations of one name;
* `Deletion.missed_rules` — why a deletion misses a property.

## Main results

* `Registry.Reached.join_sides`: both sides of a relation agree on its join and have its atomics, and
  properties are missed for no other reasons than these.
* `Registry.misses_join_atomics`: a deletion that asks an entity of another type for a foreign key, and a
  save of an entity whose members lack theirs.
-/

namespace EntityGraph

/-- Cascading relations lead from a type to one that has two relations of one name. -/
def Catalog.LeadsToTwins (c : Catalog) (first : Schema) : Prop :=
  ∃ s, Relation.ReflTransGen c.Cascades first s ∧ ¬(s.components.map (·.name)).Nodup

/-! ### Deletions -/

namespace Deletion

open Traversal

variable {σ : Type} {c : Catalog} {V : EntityId → Value → Prop} {first : Schema} {g₀ : Graph}
  {error : Error}

/-- Why a deletion of rows misses a property. -/
theorem missed_of_reason
    (h : Reason (σ := σ) c (Reaches c first g₀) (Ongoing c V g₀) error)
    (hunknown : error.IsUnknownProperty) : c.Unresolved error ∨ c.LeadsToTwins first := by
  have hjoined : ∀ {d : Doomed} {comp : Component} {join : Join}, Reaches c first g₀ d →
      comp ∈ d.schema.components → c.join d.schema comp = .ok join →
      ∃ t, c.schema comp.target = .ok t ∧ (∃ a, d.schema.atomic join.localAtomic = .ok a) ∧
        ∃ a, t.atomic join.remoteAtomic = .ok a :=
    fun hd => Catalog.atomics_of_join ⟨_, _, hd.accepted, .refl _⟩
  cases h with
  | exhausted | refused | ambiguous => exact hunknown.elim
  | key h => exact absurd hunknown (Schema.declared_of_key h).not_isUnknownProperty
  | coerce h => exact absurd hunknown (Atomic.known_of_coerce h)
  | join hd hcomp h => exact .inl ⟨_, _, ⟨_, _, hd.accepted, .refl _⟩, hcomp, h⟩
  | target _ _ _ h => exact absurd hunknown (Catalog.declared_of_schema h).not_isUnknownProperty
  | localAtomic hd hcomp hjoin h =>
    obtain ⟨-, -, ⟨a, ha⟩, -⟩ := hjoined hd hcomp hjoin
    cases ha.symm.trans h
  | remoteAtomic hd hcomp hjoin htarget h =>
    obtain ⟨t, ht, -, a, ha⟩ := hjoined hd hcomp hjoin
    obtain rfl := Except.ok.inj (ht.symm.trans htarget)
    cases ha.symm.trans h
  | @value d x t name a _ hd hx ht ha h =>
    by_cases hnames : c.OnWay (fun s => (s.components.map (·.name)).Nodup) first d.schema
    · -- the entity is of the type of the rows, and has the atomic
      have hsame : (t.world.graph.entity x).schema = d.schema :=
        (ht.shape.schema x).trans (hd.loaded hnames x hx)
      have ha? := Schema.atomic_eq_ok_iff.1 ha
      obtain ⟨v, hv⟩ := Graph.value_of_atomic? (g := t.world.graph) (e := x) (hsame ▸ ha?)
      rw [(Schema.mem_of_atomic? ha?).2] at h
      cases hv.symm.trans h
    · simp only [Catalog.OnWay, not_forall] at hnames
      obtain ⟨s, hs, -, htwins⟩ := hnames
      exact .inr ⟨s, hs, htwins⟩

/-- What happens in a deletion leads on, and misses a property only where a relation is not resolved or two
of them have one name. -/
theorem missed_rules (c : Catalog) (V : EntityId → Value → Prop) (first : Schema) (g₀ : Graph) :
    Rules (σ := σ) c (Reaches c first g₀) (Ongoing c V g₀)
      (fun error _ => error.IsUnknownProperty → c.Unresolved error ∨ c.LeadsToTwins first) where
  fail _ _ _ h hunknown := missed_of_reason h hunknown
  enter d t hd h := (ongoing_rules c V g₀).enter d t hd.typed h
  ask d t t' q hd h hsent := (ongoing_rules c V g₀).ask d t t' q hd.typed h hsent
  empty d t t' u hd h hsent := (ongoing_rules c V g₀).empty d t t' u hd.typed h hsent
  delete d key t t' table hd hkey h hsent :=
    (ongoing_rules c V g₀).delete d key t t' table hd.typed hkey h hsent
  release _ _ _ _ _ hd hloaded hcomp _ hjoin hside h :=
    h.ends_release hd.typed hloaded hcomp hjoin hside
  mark d x t hd hloaded h := (ongoing_rules c V g₀).mark d x t hd.typed hloaded h
  next _ _ _ _ v hd hcomp hpolicy htarget h _ _ := hd.next h hcomp hpolicy htarget v

end Deletion

namespace Session.Removal

open Deletion

variable {σ : Type} [Connection σ] {ses : Session} {r : Removal} {w w' : World σ} {error : Error}

omit [Connection σ] in
/-- What is to be deleted is found without missing a property. -/
theorem known_of_doomed? {g : Graph} (h : r.doomed? ses g = .error error) :
    ¬error.IsUnknownProperty := by
  cases r with
  | entity e =>
    simp only [doomed?] at h
    split at h
    · rcases bind_eq_error_iff.1 h with h | ⟨_, -, h⟩
      · exact Graph.known_of_requireKey h
      · cases h
    · cases h
  | rows type key =>
    rcases bind_eq_error_iff.1 h with h | ⟨_, -, h⟩
    · rcases bind_eq_error_iff.1 h with h | ⟨_, -, h⟩
      · exact (Catalog.declared_of_schema h).not_isUnknownProperty
      rcases bind_eq_error_iff.1 h with h | ⟨_, -, h⟩
      · exact (Schema.declared_of_key h).not_isUnknownProperty
      rcases bind_eq_error_iff.1 h with h | ⟨_, -, h⟩
      · exact Atomic.known_of_coerce h
      · cases h
    · cases h

/-- A call that deletes misses a property only where a relation is not resolved, or where it comes to a
type with two relations of one name. -/
theorem missed_of_run (ses : Session) (htyped : Graph.WellTyped ses.catalog w.graph)
    (hkinded : w.graph.Kinded) (h : r.run ses w = .error error w') (hunknown : error.IsUnknownProperty) :
    ses.catalog.Unresolved error ∨
      ∃ d, r.doomed? ses w.graph = .ok (some d) ∧ ses.catalog.LeadsToTwins d.schema := by
  rw [run_eq] at h
  have hends : (r.runWithin ses (depthBound ses.catalog w)).Ends w (fun _ _ => True)
      (fun error _ => error.IsUnknownProperty → ses.catalog.Unresolved error ∨
        ∃ d, r.doomed? ses w.graph = .ok (some d) ∧ ses.catalog.LeadsToTwins d.schema) := by
    unfold runWithin
    rw [Act.ends_bind, Act.ends_get, Act.ends_bind, Act.ends_ofExcept]
    refine ⟨fun d? hd => ?_, fun _ herror hunknown => absurd hunknown (known_of_doomed? herror)⟩
    cases d? with
    | none => trivial
    | some d =>
      dsimp only
      rw [Traversal.ends_run_iff]
      refine (ends_deleteFrom (missed_rules ses.catalog (fun _ _ => True) d.schema w.graph) _ d
        { world := w } (led_of_doomed? htyped hkinded hd).1.toReaches
        ⟨.refl htyped, .refl _, fun _ _ hno => absurd hno List.not_mem_nil⟩).mono (fun _ _ _ => trivial)
          fun _ _ herror hunknown => (herror hunknown).imp_right fun htwins => ⟨d, hd, htwins⟩
  exact hends.of_error h hunknown

end Session.Removal

/-! ### Both sides of a relation -/

namespace Registry

variable {r : Registry}

/-- **Both sides of a relation agree on its join.** If a relation of an accepted schema is resolved, then
either side declares its atomic of the join, and the relation that an inverse side names is resolved to the
same join the other way round. A property is missed by name only where some relation is not resolved: in
the compilation of every query, and in every state that callers and sessions come to, in deletions, unless
they come to two relations of one name, and in saves, unless some to-many relation is crossed. -/
theorem Reached.join_sides {σ : Type} [Connection σ] (hr : r.Reached) :
    (∀ name s comp join, (r.schema name).1 = .ok s → comp ∈ s.components →
      (r.join s comp).1 = .ok join →
        ∃ t, (r.schema comp.target).1 = .ok t ∧ (∃ a, s.atomic join.localAtomic = .ok a) ∧
          (∃ a, t.atomic join.remoteAtomic = .ok a) ∧
          ∀ m, comp.mappedBy = some m →
            ∃ owning, t.component m = .ok owning ∧ (r.join t owning).1 = .ok join.flipped) ∧
    (∀ (q : Query) cache error, (q.compile r.catalog cache).1 = .error error →
      error.IsUnknownProperty → r.catalog.Unresolved error) ∧
    ∀ (K : Graph → Graph → Prop) (cl : Client σ), cl.Reached r.catalog K →
      ∀ config error w', error.IsUnknownProperty →
        (∀ removal : Session.Removal, removal.run ⟨r.catalog, config⟩ cl.world = .error error w' →
          r.catalog.Unresolved error ∨
            ∃ d, removal.doomed? ⟨r.catalog, config⟩ cl.world.graph = .ok (some d) ∧
              r.catalog.LeadsToTwins d.schema) ∧
        ∀ (call : Call) e, call.run ⟨r.catalog, config⟩ e cl.world = .error error w' →
          r.catalog.Unresolved error ∨ r.catalog.HasCrossed := by
  refine ⟨fun name s comp join hs hcomp hjoin => ?_, fun q cache error => Query.unresolved_of_compile,
    fun K cl hcl config error w' hunknown => ⟨fun removal hrun => ?_, fun call e hrun => ?_⟩⟩
  · rw [hr.schema_eq] at hs
    rw [hr.join_eq] at hjoin
    obtain ⟨t, ht, hlocal, hremote⟩ := Catalog.atomics_of_join ⟨name, s, hs, .refl s⟩ hcomp hjoin
    refine ⟨t, hr.schema_eq _ ▸ ht, hlocal, hremote, fun m hinverse => ?_⟩
    obtain ⟨owning, howning, hflipped⟩ :=
      Catalog.join_of_mappedBy (Catalog.schema_schema_name hs) ht hinverse hjoin
    exact ⟨owning, howning, (hr.join_eq t owning).trans hflipped⟩
  · exact Session.Removal.missed_of_run ⟨r.catalog, config⟩ hcl.sound.typed hcl.graph_kinded hrun
      hunknown
  · exact Call.unresolved_or_crossed_of_run ⟨r.catalog, config⟩ hcl.sound.typed.toWellFormed
      (hcl.lasts (Entity.lasting_awaits _)) hrun hunknown

end Registry

/-! ### Documents and their owners -/

namespace Archive

/-- The badge of a team, which goes with the team. -/
def badge : Component :=
  { Shop.refersTo "badge" "Badge" "badge_fk" with onDelete := .cascade }

/-- A document has an owner, who is a user, and an owner that is a team and goes with the document. -/
def registry : Registry where
  catalog := ⟨[
    { name := "Document", steps := [.atomic Shop.key, .atomic (Shop.reference "user_fk"),
        .atomic (Shop.reference "team_fk"), .component (Shop.refersTo "owner" "User" "user_fk"),
        .component { Shop.refersTo "owner" "Team" "team_fk" with onDelete := .cascade }] },
    { name := "User", steps := [.atomic Shop.key] },
    { name := "Team",
      steps := [.atomic Shop.key, .atomic (Shop.reference "badge_fk"), .component badge] },
    { name := "Badge", steps := [.atomic Shop.key] }]⟩

/-- A document has been saved together with its user, and belongs to the team of the same key. -/
def filed : Client Counter :=
  Client.afterAll registry.catalog [.operate (.create "User"), .operate (.create "Document"),
    .operate (.assignOne ⟨1⟩ "owner" (some ⟨0⟩)), .operate (.assign ⟨1⟩ "team_fk" (.int 1)),
    .write {} .save ⟨1⟩] ⟨Shop.world {}, []⟩

/-- The schema of a team. -/
def team : Schema :=
  (registry.schema "Team").1.toOption.getD default

/-- A caller can come to that. -/
theorem reached_filed : filed.Reached registry.catalog fun _ _ => True :=
  ⟨Shop.world {}, rfl, Client.leads_afterAll (k := fun _ _ => true) (fun _ _ _ => trivial)
    (by decide)⟩

/-- A person has joined a club that has no key yet. -/
def joined : Client Counter :=
  Client.afterAll Shop.clubs [.operate (.create "Club"), .operate (.create "Person"),
    .operate (.many ⟨0⟩ "members"), .operate (.push ⟨0⟩ ⟨1⟩)] ⟨Shop.world {}, []⟩

/-- Deleting the document misses a property of the user. -/
theorem failure?_delete_filed :
    Act.failure? ((Session.Removal.entity ⟨1⟩).run ⟨registry.catalog, {}⟩) filed.world =
      some (.unknownProperty "User" "badge_fk") := by
  decide +kernel

end Archive

namespace Registry

open Archive

/-- The orders of a customer are resolved to the join of the relation that they are an inverse side of.
Deleting a document comes to two relations of one name, if it misses a property. -/
theorem join_sides_orders :
    let r : Registry := { catalog := Shop.catalog }
    let s := (r.schema "Customer").1.toOption.getD default
    (∃ t owning, (r.schema "Order").1 = .ok t ∧ (∃ a, s.atomic "id" = .ok a) ∧
      (∃ a, t.atomic "customer_fk" = .ok a) ∧ t.component "customer" = .ok owning ∧
      (r.join t owning).1 = .ok ⟨.here, "customer_fk", "id"⟩) ∧
    (registry.catalog.Unresolved (.unknownProperty "User" "badge_fk") ∨
      ∃ d, (Session.Removal.entity ⟨1⟩).doomed? ⟨registry.catalog, {}⟩ filed.world.graph =
        .ok (some d) ∧ registry.catalog.LeadsToTwins d.schema) := by
  intro r s
  have hs : (r.schema "Customer").1 = .ok s := rfl
  have hjoin : (r.join s Shop.customerOrders).1 = .ok ⟨.there, "customer_fk", "id"⟩ := by rfl
  have hcomp : Shop.customerOrders ∈ s.components := by decide
  constructor
  · obtain ⟨t, ht, hlocal, hremote, hflipped⟩ := (Reached.join_sides (σ := Counter)
      (.of_catalog Shop.catalog)).1 _ _ _ _ hs hcomp hjoin
    obtain ⟨owning, howning, hjoin'⟩ := hflipped "customer" rfl
    exact ⟨t, owning, ht, hlocal, hremote, howning, hjoin'⟩
  · exact ((Reached.join_sides (.of_catalog registry.catalog)).2.2 _ _ reached_filed {}
      (.unknownProperty "User" "badge_fk") _ trivial).1 (.entity ⟨1⟩)
        (Act.eq_error_of_failure? failure?_delete_filed)

/-- The two relations of a document have one name, and so the user is loaded for both. The user is taken for
the team of the same key, and asked for the badge of a team, although that relation is resolved. And the
members of a club are crossed: a person waits for the key of the club, and lacks the foreign key when the
club is saved. -/
theorem misses_join_atomics :
    let g := filed.world.graph
    registry.Reached ∧ filed.Reached registry.catalog (fun _ _ => True) ∧
      (registry.schema "Team").1 = .ok team ∧ badge ∈ team.components ∧
      (registry.join team badge).1 = .ok ⟨.here, "badge_fk", "id"⟩ ∧
      ((g.loadedRelations ⟨1⟩).map fun loaded => (loaded.1.target, g.targets loaded.2)) =
        [("User", [⟨0⟩]), ("Team", [⟨0⟩])] ∧
      Act.failure? ((Session.Removal.entity ⟨1⟩).run ⟨registry.catalog, {}⟩) filed.world =
        some (.unknownProperty "User" "badge_fk") ∧
      joined.Reached Shop.clubs (fun _ _ => True) ∧
      Act.failure? (Call.save.run ⟨Shop.clubs, {}⟩ ⟨0⟩) joined.world =
        some (.unknownProperty "Person" "person_fk") := by
  refine ⟨.of_catalog _, reached_filed, rfl, by decide, rfl, by decide +kernel,
    failure?_delete_filed, ⟨Shop.world {}, rfl, ?_⟩, by decide⟩
  exact Client.leads_afterAll (k := fun _ _ => true) (fun _ _ _ => trivial) (by decide)

end Registry

end EntityGraph
