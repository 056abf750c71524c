import EntityGraph.Proofs.Lasting
import EntityGraph.Proofs.StoredKeys

/-!
# Values are in the form of their kinds

Atomics get values in many ways: a caller assigns them, relations write foreign keys, at once or when the
key that they wait for is announced, the database makes keys, rows are read, and storage nulls foreign
keys. Each of these coerces the value with the atomic that it is for, or writes null. So whatever callers
and sessions have done, an entity has only values for atomics that its type declares, each in the form of
its kind, or null.

* `Graph.Kinded` — every entity has such values only;
* `Entity.lasting_kinded` — that lasts.

## Main result

* `Client.Reached.kinded` — in every reached state, a value is null or in the form of its kind.
-/

namespace EntityGraph

/-- An entity has values only that its atomics can have. -/
def Entity.Kinded (x : Entity) : Prop :=
  ∀ p ∈ x.atomics, x.schema.Takes p.1 p.2.value

/-- Whatever happens to an entity, it has values only that its atomics can have. -/
theorem Entity.lasting_kinded (c : Catalog) : Entity.Lasting c Entity.Kinded where
  new _ := fun _ hp => absurd hp List.not_mem_nil
  put _ h hv p hp := by
    rcases Assoc.mem_put hp with rfl | hp
    · exact hv
    · exact h p hp
  mapValues {x f} h hf p hp := by
    obtain ⟨q, hq, rfl⟩ := List.mem_map.1 hp
    show x.schema.Takes q.1 (f q.2).value
    rw [hf]
    exact h q hq
  settle _ h := h
  wait _ h _ := h
  aside h hschema hatomics _ p hp := by
    rw [hschema]
    exact h p (hatomics ▸ hp)

/-- Every entity has values only that its atomics can have. -/
def Graph.Kinded (g : Graph) : Prop :=
  ∀ e, (g.entity e).Kinded

open EntityGraph.Graph

namespace Client

variable {σ : Type} [Connection σ] {c : Catalog} {cl : Client σ} {K : Graph → Graph → Prop}

/-- In every reached state, entities have values only that their atomics can have. -/
theorem Reached.graph_kinded (h : cl.Reached c K) : cl.world.graph.Kinded :=
  h.lasts (Entity.lasting_kinded c)

/-- **Values are in the form of their kinds.** Whatever callers and sessions have done, a value that an
entity or an embedded component has is null, or it is for an atomic that the type declares and in the
form of the kind that the atomic declares. -/
theorem Reached.kinded (h : cl.Reached c K) (e : EntityId) :
    ∀ p ∈ (cl.world.graph.entity e).atomics, p.2.value = .null ∨
      ∃ a, (cl.world.graph.entity e).schema.atomic? p.1 = some a ∧ a.kind.Holds p.2.value := by
  intro p hp
  refine (h.graph_kinded e p hp).imp_right fun ⟨a, ha, hname, hv⟩ => ⟨a, hname ▸ ?_, hv⟩
  have hlt : e.index < cl.world.graph.entities.length := by
    refine index_lt_of_ne (v := (·.atomics)) fun hnil => ?_
    rw [hnil] at hp
    cases hp
  exact (h.sound.typed.known e hlt).coherent.atomic?_name ha

/-- The values of the profile that has been saved for its user. -/
theorem kinded_saved :
    (Forum.saved.world.graph.entity ⟨2⟩).atomics = [("user_id", .loaded (.int 1))] ∧
      ∃ a, (Forum.saved.world.graph.entity ⟨2⟩).schema.atomic? "user_id" = some a ∧
        a.kind.Holds (.int 1) := by
  have hatomics : (Forum.saved.world.graph.entity ⟨2⟩).atomics = [("user_id", .loaded (.int 1))] := by
    decide +kernel
  refine ⟨hatomics, ?_⟩
  exact (Forum.reached_saved.kinded ⟨2⟩ ("user_id", .loaded (.int 1))
    (hatomics ▸ List.mem_cons_self)).resolve_left (by decide)

end Client

end EntityGraph
