import Mathlib.Data.List.Induction
import EntityGraph.Proofs.Shown
import EntityGraph.Proofs.Undisturbed

/-!
# What a plan maps

Rows are read back by the positions in a plan: an entity is read after the one that it is joined to, and
outputs are taken from the nodes that they name. Nothing is checked there, so it has to hold of the plan.
Roots are mapped when they are placed, and a selection maps every relation that it walks, so until the
last selection there are mapped nodes only. What filters and orderings join comes behind them and is not
mapped.

* `Plan.Maps`, `Plan.JoinedTo`, `Plan.Gathers`: how the nodes of a plan stand to each other;
* `Plan.WellFormed`: what reading rows relies on;
* `Query.maps_of_le`: the mapped nodes of a compiled query come first.

## Main result

* `Query.wellFormed_of_compile`: the plan of every query that compiles is well formed.
-/

namespace EntityGraph

namespace Plan

/-- The columns of a node are selected, so that entities are read there. -/
def Maps (p : Plan) (i : Nat) : Prop :=
  ∃ n, p.nodes[i]? = some n ∧ n.mapped = true

/-- A node was joined to another one, its parent. -/
def JoinedTo (p : Plan) (i j : Nat) : Prop :=
  ∃ n comp, p.nodes[i]? = some n ∧ n.parent = some (j, comp)

/-- A mapped node was joined to a node through the to-many component of a name. -/
def Gathers (p : Plan) (i : Nat) (name : String) : Prop :=
  ∃ (k : Nat) (n : PlanNode) (comp : Component), p.nodes[k]? = some n ∧ n.mapped = true ∧
    n.parent = some (i, comp) ∧ comp.isToMany = true ∧ comp.name = name

end Plan

/-- What an output is taken from is read: a node that is mapped, and for a collection also what the
collection gathers. -/
def Output.IsRead (p : Plan) : Output → Prop
  | .entity _ i | .embedded _ i _ | .scalar _ i _ _ => p.Maps i
  | .collection _ i name => p.Maps i ∧ p.Gathers i name
  | .raw _ _ => True

/-- A plan by which rows can be read back. Parents come before their children; roots are mapped, and so
is every node that a mapped one hangs on; outputs are read; and the collections that entities get at a
node are those of the to-many components through which mapped nodes were joined to it, each once. -/
structure Plan.WellFormed (p : Plan) : Prop where
  parents : ∀ i j, p.JoinedTo i j → j < i
  roots : ∀ i ∈ p.roots, p.Maps i
  ancestors : ∀ i j, p.Maps i → Relation.TransGen p.JoinedTo i j → p.Maps j
  outputs : ∀ o ∈ p.outputs, o.IsRead p
  toMany : ∀ (i : Nat) n, p.nodes[i]? = some n →
    n.toMany.Nodup ∧ ∀ name, name ∈ n.toMany ↔ p.Gathers i name

namespace Planner

variable {p : Planner} {outputs : List Output} {i : Nat}

/-- The collections of a node are those that it gathers in the finished plan. -/
theorem mem_toManyOf_iff_gathers {name : String} :
    name ∈ p.toManyOf i ↔ (p.toPlan outputs).Gathers i name := by
  rw [mem_toManyOf_iff]
  constructor
  · rintro ⟨n, hn, hmapped, comp, hparent, hmany, hname⟩
    obtain ⟨k, hk, rfl⟩ := mem_nodes_iff.1 hn
    exact ⟨k, _, comp, getElem?_toPlan hk, hmapped, hparent, hmany, hname⟩
  · rintro ⟨k, n, comp, hn, hmapped, hparent, hmany, hname⟩
    have hk := lt_of_getElem?_toPlan hn
    obtain rfl := Option.some.inj ((getElem?_toPlan hk).symm.trans hn)
    exact ⟨p.node k, mem_nodes_iff.2 ⟨k, hk, rfl⟩, hmapped, comp, hparent, hmany, hname⟩

/-- A list without repetitions has none. -/
theorem nodup_eraseDups {α : Type} [BEq α] [LawfulBEq α] (l : List α) : l.eraseDups.Nodup := by
  induction l using List.reverseRecOn with
  | nil => exact List.nodup_nil
  | append_singleton l x ih =>
    rw [Link.eraseDups_append_singleton]
    split
    · exact ih
    · next hx =>
      exact List.nodup_append.2 ⟨ih, List.nodup_singleton x, fun y hy z hz => by
        rintro rfl
        exact hx (List.mem_singleton.1 hz ▸ List.mem_eraseDups.1 hy)⟩

/-- Each collection is asked for once. -/
theorem nodup_toManyOf (p : Planner) (i : Nat) : (p.toManyOf i).Nodup := by
  unfold toManyOf
  exact nodup_eraseDups _

end Planner

namespace Query

variable {c : Catalog} {q : Query} {compiled : CompiledQuery} {cache cache' : PathCache}

/-- The mapped nodes of a compiled query are the first ones, those of its roots and selections: what comes
before a mapped node is mapped. -/
theorem maps_of_le (h : q.compile c cache = (.ok compiled, cache')) {i j : Nat}
    (hi : compiled.plan.Maps i) (hle : j ≤ i) : compiled.plan.Maps j := by
  obtain ⟨sc, rootOutputs, p, st, hsc, hroots, hrun, -⟩ := compile_eq_ok_iff.1 h
  have hbegun := begun_of_plannedRoots hsc hroots
  obtain ⟨-, -, hall, -⟩ := run_plannedRoots (roots_of_scope hsc) hroots
  -- at the last selection there are mapped nodes only, and what is added afterwards is not mapped
  obtain ⟨outputs, st₁, hselected, ⟨-, haside⟩, hplan⟩ :=
    ((ends_compileBody_worked hbegun hall).of_ok hrun).selected
  obtain ⟨-, -, hall₁, -⟩ :=
    (ends_selections (Knowing.nothing c sc) trivial hbegun hall).of_ok hselected
  obtain ⟨more, hmore, hnot⟩ := haside.toPlan_nodes (rootOutputs ++ outputs) (rootOutputs ++ outputs)
  have hlength : (st₁.planner.toPlan (rootOutputs ++ outputs)).nodes.length =
      st₁.planner.nodes.length := by simp [Planner.toPlan]
  have hlt : i < st₁.planner.nodes.length := by
    obtain ⟨n, hn, hmapped⟩ := hi
    rw [hplan, hmore] at hn
    by_contra hge
    rw [List.getElem?_append_right (by omega)] at hn
    rw [hnot n (List.mem_of_getElem? hn)] at hmapped
    cases hmapped
  have hj : j < st₁.planner.nodes.length := Nat.lt_of_le_of_lt hle hlt
  refine ⟨{ st₁.planner.node j with toMany := st₁.planner.toManyOf j }, ?_, hall₁ j hj⟩
  rw [hplan, hmore, List.getElem?_append_left (by omega), Planner.getElem?_toPlan hj]

/-- What is answered for a selection is read, if what mapped nodes were joined to is mapped. -/
theorem Answers.isRead {p : Planner} {outputs : List Output} {sel : Selection} {o : Output}
    (hparent : ∀ i j, (p.toPlan outputs).Maps i → (p.toPlan outputs).JoinedTo i j →
      (p.toPlan outputs).Maps j) (h : Answers p sel o) : o.IsRead (p.toPlan outputs) := by
  cases sel with
  | path chain =>
    obtain ⟨r, hr, hmapped, rfl⟩ := h
    have hmaps : (p.toPlan outputs).Maps r.home := ⟨_, Planner.getElem?_toPlan hr.home_lt, hmapped⟩
    cases r with
    | node i =>
      unfold Planner.outputOf
      simp only
      split
      · next j comp hjoined =>
        split
        · next hmany =>
          exact ⟨hparent i j hmaps ⟨_, comp, Planner.getElem?_toPlan hr, hjoined⟩, i, _, comp,
            Planner.getElem?_toPlan hr, hmapped, hjoined, hmany, rfl⟩
        · exact hmaps
      · exact hmaps
    | embedded i path => exact hmaps
    | scalar i path s a => exact hmaps
  | raw sql label =>
    obtain rfl := h
    trivial

/-- **Plans are well formed.** Whatever a query selects, filters and orders by, in the plan that it is
compiled to parents come before their children, roots and all that mapped nodes hang on are mapped,
outputs are taken from what is read, and each node has the collections of the mapped nodes that were
joined to it, each once. -/
theorem wellFormed_of_compile (h : q.compile c cache = (.ok compiled, cache')) :
    compiled.plan.WellFormed := by
  have hsound := sound_of_compile h
  have hparents : ∀ i j, compiled.plan.JoinedTo i j → j < i := by
    rintro i j ⟨n, comp, hn, hjoined⟩
    exact (hsound.parent i n hn j comp hjoined).1
  have hroots : ∀ i ∈ compiled.plan.roots, compiled.plan.Maps i := fun i hi =>
    have ⟨n, hn, hmapped, _⟩ := hsound.roots i hi
    ⟨n, hn, hmapped⟩
  have hparent : ∀ i j, compiled.plan.Maps i → compiled.plan.JoinedTo i j → compiled.plan.Maps j :=
    fun i j hi hij => maps_of_le h hi (Nat.le_of_lt (hparents i j hij))
  obtain ⟨p, -, -, hdescribes⟩ := exists_of_compile h
  obtain ⟨rootOutputs, outputs, hplan, hroot, houtputs⟩ := hdescribes.plan
  refine ⟨hparents, hroots, fun i j hi hij => ?_, fun o ho => ?_, fun i n hn => ?_⟩
  · induction hij with
    | single hij => exact hparent _ _ hi hij
    | tail _ hij ih => exact hparent _ _ ih hij
  · rw [hplan] at ho hparent ⊢
    rcases List.mem_append.1 ho with ho | ho
    · rcases hroot with ⟨-, rfl⟩ | ⟨-, key, rfl⟩
      · cases ho
      · -- the entity of an implicit root is read at the first node, which comes before the root
        obtain ⟨i, hi⟩ := List.exists_mem_of_ne_nil _ hsound.roots_ne
        rw [List.mem_singleton.1 ho, ← hplan]
        exact maps_of_le h (hroots i hi) (Nat.zero_le i)
    · exact forall_of_forall₂ (houtputs.imp fun _ _ ho => ho.isRead hparent) o ho
  · rw [hplan] at hn ⊢
    have hlt := Planner.lt_of_getElem?_toPlan hn
    obtain rfl := Option.some.inj ((Planner.getElem?_toPlan hlt).symm.trans hn)
    exact ⟨p.nodup_toManyOf i, fun name => Planner.mem_toManyOf_iff_gathers⟩

/-- The plan of the query of the blog is well formed. -/
theorem wellFormed_of_compile_blog : ∃ compiled cache,
    Blog.query.compile Blog.catalog {} = (.ok compiled, cache) ∧ compiled.plan.WellFormed := by
  have hanswers : (Blog.query.compile Blog.catalog {}).1.toOption.any (fun _ => true) = true := by
    decide +kernel
  obtain ⟨compiled, cache, h, -⟩ := exists_compiled hanswers
  exact ⟨compiled, cache, h, wellFormed_of_compile h⟩

end Query

end EntityGraph
