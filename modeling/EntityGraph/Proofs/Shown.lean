import EntityGraph.Proofs.Planning

/-!
# What rows show

A row of a query shows an entity at every mapped node whose key is not null, as long as it shows one at
the node that this one was joined to. A row also shows which entities are joined: each mapped node joins
what is shown there, or nothing, to the entity of the node before. Which entities, values and relations
a list of rows stands for is said here without any graph, row by row and node by node.

* `Plan.identities`: the entities that a row shows, one for each node;
* `Plan.appearances`, `Plan.links`: the same in order, and how they are joined;
* `Link.children`, `Link.target?`: what is joined to an entity through a relation.

## Main result

* `Query.sound_of_compile`: what holds of the plan of every compiled query.
-/

namespace EntityGraph

/-- An entity as rows tell it from others: by its type and its primary key. -/
abbrev Identity := String × Value

/-- An entity that is shown by a row at a node. -/
structure Appearance where
  who : Identity
  node : PlanNode
  row : Row

/-- What a row joins to an entity through a relation: another entity, or none. -/
structure Link where
  owner : Identity
  component : Component
  child : Option Identity
  deriving DecidableEq, Repr

namespace PlanNode

variable {n : PlanNode} {row : Row} {who : Identity}

/-- The value that a row has for an occurrence, if it is one of the kind of its atomic. -/
def read? (n : PlanNode) (row : Row) (q : List String × Atomic) : Option Value :=
  q.2.kind.coerce? ((row.get? (n.label q.1 q.2.name)).getD .null)

/-- The entity whose key a row has at a node, unless it is null. -/
def identity? (n : PlanNode) (row : Row) : Option Identity := do
  let key ← n.schema.primaryKey
  let v ← n.read? row ([], key)
  if v.isNull then none else some (n.schema.name, v)

/-- Whether an entity has been found at the node that this one was joined to. -/
def attached (n : PlanNode) (found : List (Option Identity)) : Bool :=
  match n.parent with
  | some (parent, _) => ((found[parent]?).bind id).isSome
  | none => true

/-- The entity that a row shows at a node: there is none where the node is not mapped, or none has been
found at the node that this one was joined to. -/
def shownIn (n : PlanNode) (row : Row) (found : List (Option Identity)) : Option Identity :=
  if n.mapped && n.attached found then n.identity? row else none

/-- What is joined at a mapped node to the entity of the node that it was joined to. -/
def link? (n : PlanNode) (found : List (Option Identity)) (child : Option Identity) : Option Link :=
  match n.parent with
  | some (parent, comp) =>
    if n.mapped then ((found[parent]?).bind id).map fun owner => ⟨owner, comp, child⟩ else none
  | none => none

/-- A cell is read as the value that it shows. -/
theorem cell_eq_ok_iff {s : Schema} {q : List String × Atomic} {v : Value} :
    Mapper.cell s q.2 row (n.label q.1 q.2.name) = .ok v ↔ n.read? row q = some v :=
  Atomic.coerce_eq_ok_iff

/-- A key that is not null is that of an entity. -/
theorem identity?_eq {key : Atomic} {v : Value} (hkey : n.schema.primaryKey = some key)
    (hread : n.read? row ([], key) = some v) :
    n.identity? row = if v.isNull then none else some (n.schema.name, v) := by
  unfold identity?
  rw [hkey, Option.bind_eq_bind, Option.bind_some, hread, Option.bind_eq_bind, Option.bind_some]

/-- What is shown has a key, which is not null. -/
theorem identity?_eq_some_iff : n.identity? row = some who ↔
    who.1 = n.schema.name ∧ ∃ key, n.schema.primaryKey = some key ∧
      n.read? row ([], key) = some who.2 ∧ who.2 ≠ .null := by
  obtain ⟨type, k⟩ := who
  unfold identity?
  constructor
  · intro h
    obtain ⟨key, hkey, h⟩ := Option.bind_eq_some_iff.1 h
    obtain ⟨v, hv, h⟩ := Option.bind_eq_some_iff.1 h
    split at h
    · cases h
    · next hnull =>
      obtain ⟨rfl, rfl⟩ := Prod.mk.inj (Option.some.inj h)
      exact ⟨rfl, key, hkey, hv, by simpa using hnull⟩
  · rintro ⟨rfl, key, hkey, hv, hnull⟩
    refine Option.bind_eq_some_iff.2 ⟨key, hkey, Option.bind_eq_some_iff.2 ⟨k, hv, ?_⟩⟩
    rw [if_neg (by simpa using hnull)]

/-- What is shown at a node is mapped there, and has its key in the row. -/
theorem of_shownIn {found : List (Option Identity)} (h : n.shownIn row found = some who) :
    n.mapped = true ∧ n.identity? row = some who := by
  unfold shownIn at h
  split at h
  · next hmapped => exact ⟨(Bool.and_eq_true_iff.1 hmapped).1, h⟩
  · cases h

/-- Where something is joined, the node is mapped and an entity has been found at the node that it was
joined to. -/
theorem link?_eq_some_iff {found : List (Option Identity)} {child : Option Identity} {l : Link} :
    n.link? found child = some l ↔ n.mapped = true ∧ ∃ j, n.parent = some (j, l.component) ∧
      (found[j]?).bind id = some l.owner ∧ l.child = child := by
  obtain ⟨owner, comp, joined⟩ := l
  unfold link?
  constructor
  · intro h
    split at h
    · next j comp' hparent =>
      rw [Option.ite_none_right_eq_some] at h
      obtain ⟨hmapped, h⟩ := h
      obtain ⟨owner', howner, hl⟩ := Option.map_eq_some_iff.1 h
      obtain ⟨rfl, rfl, rfl⟩ := Link.mk.inj hl
      exact ⟨hmapped, j, hparent, howner, rfl⟩
    · cases h
  · rintro ⟨hmapped, j, hparent, howner, rfl⟩
    simp only at howner
    rw [hparent]
    simp only [hmapped, if_true, howner, Option.map_some]

end PlanNode

namespace Plan

variable {p : Plan} {row : Row}

/-- The entities that a row shows, one for each node. -/
def identities (p : Plan) (row : Row) : List (Option Identity) :=
  p.nodes.foldl (fun found n => found ++ [n.shownIn row found]) []

/-- The entity that a row shows at a node. -/
def identityAt (p : Plan) (row : Row) (i : Nat) : Option Identity :=
  ((p.identities row)[i]?).bind id

/-- The keys that a row shows at the roots. -/
def rootKeys (p : Plan) (row : Row) : List (Option Value) :=
  p.roots.map fun i => (p.identityAt row i).map (·.2)

/-- The nodes, with what a row shows at them. -/
def shown (p : Plan) (row : Row) : List (PlanNode × Option Identity) :=
  p.nodes.zip (p.identities row)

/-- The entities that a row shows, in order. -/
def appearances (p : Plan) (row : Row) : List Appearance :=
  (p.shown row).filterMap fun x => x.2.map fun who => ⟨who, x.1, row⟩

/-- How a row joins the entities that it shows, in order. -/
def links (p : Plan) (row : Row) : List Link :=
  (p.shown row).filterMap fun x => x.1.link? (p.identities row) x.2

/-- At every node there is what the key says, where the node is mapped. -/
theorem forall₂_identities (p : Plan) (row : Row) :
    List.Forall₂ (fun n (x : Option Identity) => ∀ who, x = some who →
      n.mapped = true ∧ n.identity? row = some who) p.nodes (p.identities row) := by
  suffices h : ∀ (nodes done : List PlanNode) (found : List (Option Identity)),
      List.Forall₂ (fun n (x : Option Identity) => ∀ who, x = some who →
        n.mapped = true ∧ n.identity? row = some who) done found →
      List.Forall₂ (fun n (x : Option Identity) => ∀ who, x = some who →
        n.mapped = true ∧ n.identity? row = some who) (done ++ nodes)
        (nodes.foldl (fun found n => found ++ [n.shownIn row found]) found) from
    h p.nodes [] [] .nil
  intro nodes
  induction nodes with
  | nil =>
    intro done found h
    rwa [List.append_nil]
  | cons n nodes ih =>
    intro done found h
    rw [List.append_cons, List.foldl_cons]
    exact ih _ _ (List.rel_append h (.cons (fun who hwho => PlanNode.of_shownIn hwho) .nil))

/-- There is an answer for every node. -/
theorem length_identities (p : Plan) (row : Row) : (p.identities row).length = p.nodes.length :=
  (forall₂_identities p row).length_eq.symm

/-- What is shown at a node. -/
theorem identity?_of_identityAt {i : Nat} {who : Identity} (h : p.identityAt row i = some who) :
    ∃ n, p.nodes[i]? = some n ∧ n.mapped = true ∧ n.identity? row = some who := by
  obtain ⟨x, hx, rfl⟩ := Option.bind_eq_some_iff.1 h
  obtain ⟨hi, hx⟩ := List.getElem?_eq_some_iff.1 hx
  have hlength := length_identities p row
  have hget := (forall₂_identities p row).get (by omega) hi who hx
  exact ⟨_, List.getElem?_eq_getElem (by omega), hget⟩

/-- There is one answer more for each node more. -/
theorem foldl_shownIn (row : Row) (nodes : List PlanNode) (found : List (Option Identity)) : ∃ more,
    nodes.foldl (fun found n => found ++ [n.shownIn row found]) found = found ++ more ∧
      more.length = nodes.length := by
  induction nodes generalizing found with
  | nil => exact ⟨[], (List.append_nil _).symm, rfl⟩
  | cons n nodes ih =>
    obtain ⟨more, hmore, hlength⟩ := ih (found ++ [n.shownIn row found])
    exact ⟨n.shownIn row found :: more, by rw [List.foldl_cons, hmore, List.append_assoc]; rfl,
      by simp [hlength]⟩

/-- What is shown at a node is decided by what is shown at the node that this one was joined to, where
that one comes before. -/
theorem identityAt_eq {i : Nat} {n : PlanNode} (hn : p.nodes[i]? = some n)
    (hparent : ∀ j comp, n.parent = some (j, comp) → j < i) :
    p.identityAt row i = n.shownIn row (p.identities row) := by
  obtain ⟨hlt, hget⟩ := List.getElem?_eq_some_iff.1 hn
  have hsplit : p.nodes = p.nodes.take i ++ n :: p.nodes.drop (i + 1) := by
    rw [← hget, ← List.drop_eq_getElem_cons hlt, List.take_append_drop]
  obtain ⟨found, hfound, hlength⟩ := foldl_shownIn row (p.nodes.take i) []
  obtain ⟨more, hmore, -⟩ := foldl_shownIn row (p.nodes.drop (i + 1))
    (found ++ [n.shownIn row found])
  have hidentities : p.identities row = found ++ n.shownIn row found :: more := by
    unfold identities
    rw [hsplit, List.foldl_append, List.foldl_cons, hfound, List.nil_append, hmore,
      List.append_assoc]
    rfl
  have hi : found.length = i := by
    rw [hlength, List.length_take, Nat.min_eq_left (Nat.le_of_lt hlt)]
  have hattached : n.attached (p.identities row) = n.attached found := by
    unfold PlanNode.attached
    split
    · next j comp hj =>
      rw [hidentities, List.getElem?_append_left (hi ▸ hparent j comp hj)]
    · rfl
  unfold identityAt PlanNode.shownIn
  rw [hattached, hidentities, List.getElem?_append_right (Nat.le_of_eq hi), hi, Nat.sub_self]
  rfl

/-- A row shows an entity at a node that is mapped, has the key of the entity in the row, and hangs on
nodes that have entities as well. -/
theorem identityAt_eq_some_iff {i : Nat} {n : PlanNode} {who : Identity} (hn : p.nodes[i]? = some n)
    (hparent : ∀ j comp, n.parent = some (j, comp) → j < i) :
    p.identityAt row i = some who ↔ n.mapped = true ∧
      (∀ j comp, n.parent = some (j, comp) → (p.identityAt row j).isSome) ∧
        n.identity? row = some who := by
  have hattached : n.attached (p.identities row) = true ↔
      ∀ j comp, n.parent = some (j, comp) → (p.identityAt row j).isSome := by
    unfold PlanNode.attached
    cases n.parent with
    | none => simp
    | some x =>
      refine ⟨fun h j comp hj => ?_, fun h => h x.1 x.2 rfl⟩
      obtain rfl := Option.some.inj hj
      exact h
  rw [identityAt_eq hn hparent, PlanNode.shownIn, Option.ite_none_right_eq_some,
    Bool.and_eq_true_iff, hattached, and_assoc]

/-- What is shown at a node appears. -/
theorem exists_of_identityAt {i : Nat} {who : Identity} (h : p.identityAt row i = some who) :
    ∃ a ∈ p.appearances row, a.who = who ∧ p.nodes[i]? = some a.node := by
  obtain ⟨n, hn, -, -⟩ := identity?_of_identityAt h
  obtain ⟨x, hx, rfl⟩ := Option.bind_eq_some_iff.1 h
  exact ⟨⟨who, n, row⟩, List.mem_filterMap.2 ⟨(n, some who),
    List.mem_of_getElem? (List.getElem?_zip_eq_some.2 ⟨hn, hx⟩), rfl⟩, rfl, hn⟩

/-- What appears is shown at a node. -/
theorem identityAt_of_mem {a : Appearance} (h : a ∈ p.appearances row) :
    a.row = row ∧ ∃ i, p.nodes[i]? = some a.node ∧ p.identityAt row i = some a.who := by
  obtain ⟨x, hx, ha⟩ := List.mem_filterMap.1 h
  obtain ⟨who, hwho, rfl⟩ := Option.map_eq_some_iff.1 ha
  obtain ⟨i, hi⟩ := List.mem_iff_getElem?.1 hx
  obtain ⟨hn, hfound⟩ := List.getElem?_zip_eq_some.1 hi
  exact ⟨rfl, i, hn, by rw [identityAt, hfound, Option.bind_some, id, hwho]⟩

/-- A mapped node joins what is shown there, or nothing, to the entity at the node that it was joined
to. -/
theorem mem_links_iff {l : Link} : l ∈ p.links row ↔ ∃ i n j, p.nodes[i]? = some n ∧
    n.mapped = true ∧ n.parent = some (j, l.component) ∧ p.identityAt row j = some l.owner ∧
      l.child = p.identityAt row i := by
  unfold links shown
  rw [List.mem_filterMap]
  constructor
  · rintro ⟨⟨n, child⟩, hx, hl⟩
    obtain ⟨i, hi⟩ := List.mem_iff_getElem?.1 hx
    obtain ⟨hn, hfound⟩ := List.getElem?_zip_eq_some.1 hi
    obtain ⟨hmapped, j, hparent, howner, hchild⟩ := PlanNode.link?_eq_some_iff.1 hl
    exact ⟨i, n, j, hn, hmapped, hparent, howner, by rw [hchild, identityAt, hfound]; rfl⟩
  · rintro ⟨i, n, j, hn, hmapped, hparent, howner, hchild⟩
    have hlt : i < (p.identities row).length :=
      length_identities p row ▸ (List.getElem?_eq_some_iff.1 hn).1
    have hget := List.getElem?_eq_getElem hlt
    rw [identityAt, hget] at hchild
    exact ⟨(n, (p.identities row)[i]),
      List.mem_of_getElem? (List.getElem?_zip_eq_some.2 ⟨hn, hget⟩),
      PlanNode.link?_eq_some_iff.2 ⟨hmapped, j, hparent, howner, hchild⟩⟩

end Plan

/-! ### What is joined to an entity -/

namespace Link

variable {links : List Link} {l : Link} {owner : Identity} {name : String}

/-- The entities that are joined to one through a to-many relation, each once, in the order in which
they are joined first. -/
def children (links : List Link) (owner : Identity) (name : String) : List Identity :=
  (links.filterMap fun l =>
    if l.owner = owner ∧ l.component.name = name ∧ l.component.isToMany = true then l.child
    else none).eraseDups

/-- What is joined first to an entity through a to-one relation, if something has been. -/
def target? (links : List Link) (owner : Identity) (name : String) : Option (Option Identity) :=
  (links.find? fun l =>
    l.owner = owner ∧ l.component.name = name ∧ l.component.isToMany = false).map (·.child)

/-- The members of a list without repetitions are those of the list; one that is added at the end
comes last, or has been there. -/
theorem eraseDups_append_singleton {α : Type} [BEq α] [LawfulBEq α] (l : List α) (x : α) :
    (l ++ [x]).eraseDups = if x ∈ l then l.eraseDups else l.eraseDups ++ [x] := by
  rw [List.eraseDups_append]
  by_cases hx : x ∈ l <;> simp [List.removeAll, List.eraseDups_cons, hx]

/-- Joined entities are those of a link. -/
theorem mem_children_iff {k : Identity} : k ∈ children links owner name ↔
    ∃ l ∈ links, (l.owner = owner ∧ l.component.name = name ∧ l.component.isToMany = true) ∧
      l.child = some k := by
  unfold children
  rw [List.mem_eraseDups, List.mem_filterMap]
  refine exists_congr fun l => and_congr_right fun _ => ?_
  constructor
  · intro h
    split at h
    · next heq => exact ⟨heq, h⟩
    · cases h
  · rintro ⟨heq, hchild⟩
    rw [if_pos heq, hchild]

/-- A link that joins nothing to an entity changes nothing for it. -/
theorem children_append_of_not (h : (l.owner = owner ∧ l.component.name = name ∧
    l.component.isToMany = true) → l.child = none) :
    children (links ++ [l]) owner name = children links owner name := by
  unfold children
  rw [List.filterMap_append, List.filterMap_cons, List.filterMap_nil]
  split
  · rw [List.append_nil]
  · next k hk =>
    split at hk
    · next heq =>
      rw [h heq] at hk
      cases hk
    · cases hk

/-- An entity that is joined comes last, unless it has been joined before. -/
theorem children_append (links : List Link) {k : Identity} (hmany : l.component.isToMany = true)
    (hchild : l.child = some k) :
    children (links ++ [l]) l.owner l.component.name =
      if k ∈ children links l.owner l.component.name then children links l.owner l.component.name
      else children links l.owner l.component.name ++ [k] := by
  have hmem : k ∈ children links l.owner l.component.name ↔ k ∈ links.filterMap fun l' =>
      if l'.owner = l.owner ∧ l'.component.name = l.component.name ∧ l'.component.isToMany = true
      then l'.child else none := by
    rw [children, List.mem_eraseDups]
  simp only [hmem]
  unfold children
  rw [List.filterMap_append, List.filterMap_cons, List.filterMap_nil,
    if_pos (And.intro (Eq.refl l.owner) (And.intro (Eq.refl l.component.name) hmany)), hchild]
  exact eraseDups_append_singleton _ k

/-- A link counts for its owner and its relation, unless there is one before. -/
theorem target?_append : target? (links ++ [l]) owner name = (target? links owner name).or
    (if l.owner = owner ∧ l.component.name = name ∧ l.component.isToMany = false then some l.child
      else none) := by
  unfold target?
  rw [List.find?_append, List.find?_singleton]
  cases links.find? _ with
  | some l' => rfl
  | none =>
    simp only [Option.none_or, Option.map_none]
    split <;> simp_all

/-- Through a to-one relation of a link something has been joined, or nothing. -/
theorem exists_target? (h : l ∈ links) (hone : l.component.isToMany = false) :
    ∃ child, target? links l.owner l.component.name = some child := by
  unfold target?
  cases hfind : links.find? _ with
  | some l' => exact ⟨l'.child, rfl⟩
  | none => simpa [hone] using List.find?_eq_none.1 hfind l h

end Link

/-! ### Plans of compiled queries -/

/-- An output of a plan is read at a node, and finds there what it asks for. -/
def Output.Fits (p : Plan) : Output → Prop
  | .entity _ _ => True
  | .collection _ i name => ∃ n ∈ p.nodes, n.mapped = true ∧ ∃ comp, n.parent = some (i, comp) ∧
      comp.isToMany = true ∧ comp.name = name
  | .embedded _ i path => ∃ n s, p.nodes[i]? = some n ∧ n.schema.embeddedAt? path = some s
  | .scalar _ i path atomic => ∃ n s a, p.nodes[i]? = some n ∧ n.schema.embeddedAt? path = some s ∧
      s.atomic? atomic = some a
  | .raw _ _ => True

/-- What is known of the plan of a compiled query: nodes stand for schemas of the catalog and are
joined to earlier ones through components of their schemas; the collections that a node asks for are
those of to-many components of its own; there are roots, which are mapped; and outputs fit. -/
structure Plan.Sound (c : Catalog) (p : Plan) : Prop where
  schema : ∀ n ∈ p.nodes, c.schema n.schema.name = .ok n.schema
  parent : ∀ i (n : PlanNode), p.nodes[i]? = some n → ∀ j comp, n.parent = some (j, comp) → j < i ∧
    ∃ o : PlanNode, p.nodes[j]? = some o ∧ o.schema.component? comp.name = some comp ∧
      comp.target = n.schema.name ∧ ∃ join, c.join o.schema comp = .ok join
  toMany : ∀ n ∈ p.nodes, ∀ name ∈ n.toMany, ∃ comp join, n.schema.component? name = some comp ∧
    comp.isToMany = true ∧ c.join n.schema comp = .ok join
  roots : ∀ i ∈ p.roots, ∃ n, p.nodes[i]? = some n ∧ n.mapped = true ∧ n.parent = none
  roots_ne : p.roots ≠ []
  outputs : ∀ o ∈ p.outputs, o.Fits p

namespace Planner

variable {c : Catalog} {p : Planner} {outputs : List Output}

/-- The nodes of a finished plan are those of the planner, which have got their collections. -/
theorem getElem?_toPlan {i : Nat} (hi : i < p.nodes.length) :
    (p.toPlan outputs).nodes[i]? = some { p.node i with toMany := p.toManyOf i } := by
  unfold toPlan
  rw [List.getElem?_mapIdx, List.getElem?_eq_getElem hi, node_eq_getElem hi]
  rfl

/-- There are no other nodes in a finished plan. -/
theorem lt_of_getElem?_toPlan {i : Nat} {n : PlanNode} (h : (p.toPlan outputs).nodes[i]? = some n) :
    i < p.nodes.length := by
  have hlt := (List.getElem?_eq_some_iff.1 h).1
  simpa [toPlan] using hlt

/-- The collections that a node asks for are those of the to-many components through which mapped nodes
are joined to it. -/
theorem mem_toManyOf_iff {i : Nat} {name : String} : name ∈ p.toManyOf i ↔ ∃ n ∈ p.nodes,
    n.mapped = true ∧ ∃ comp, n.parent = some (i, comp) ∧ comp.isToMany = true ∧ comp.name = name := by
  unfold toManyOf
  rw [List.mem_eraseDups, List.mem_filterMap]
  refine exists_congr fun n => and_congr_right fun _ => ?_
  cases n.parent with
  | none =>
    refine iff_of_false (fun h => by cases h) ?_
    rintro ⟨-, comp, hparent, -⟩
    cases hparent
  | some x =>
    obtain ⟨j, comp⟩ := x
    constructor
    · intro h
      obtain ⟨⟨hmapped, rfl, hmany⟩, hname⟩ := Option.ite_none_right_eq_some.1 h
      exact ⟨hmapped, comp, rfl, hmany, Option.some.inj hname⟩
    · rintro ⟨hmapped, comp', hparent, hmany, rfl⟩
      obtain ⟨rfl, rfl⟩ := Prod.mk.inj (Option.some.inj hparent)
      exact if_pos ⟨hmapped, rfl, hmany⟩

/-- A sound planner makes sound plans. -/
theorem Sound.toPlan (h : p.Sound c) (hroots : p.roots ≠ [])
    (houtputs : ∀ o ∈ outputs, o.Fits (p.toPlan outputs)) : (p.toPlan outputs).Sound c := by
  have hcases : ∀ i n, (p.toPlan outputs).nodes[i]? = some n →
      i < p.nodes.length ∧ n = { p.node i with toMany := p.toManyOf i } := fun i n hn =>
    have hi := lt_of_getElem?_toPlan hn
    ⟨hi, Option.some.inj (hn.symm.trans (getElem?_toPlan hi))⟩
  refine ⟨fun n hn => ?_, fun i n hn j comp hj => ?_, fun n hn name hname => ?_, fun i hi => ?_,
    hroots, houtputs⟩
  · obtain ⟨i, hget⟩ := List.mem_iff_getElem?.1 hn
    obtain ⟨hi, rfl⟩ := hcases i n hget
    exact h.schema i hi
  · obtain ⟨hi, rfl⟩ := hcases i n hn
    obtain ⟨hlt, hcomp, htarget, hjoin⟩ := h.parent i hi j comp hj
    exact ⟨hlt, _, getElem?_toPlan (Nat.lt_trans hlt hi), hcomp, htarget, hjoin⟩
  · obtain ⟨i, hget⟩ := List.mem_iff_getElem?.1 hn
    obtain ⟨hi, rfl⟩ := hcases i n hget
    obtain ⟨m, hm, -, comp, hparent, hmany, rfl⟩ := mem_toManyOf_iff.1 hname
    obtain ⟨k, hk, rfl⟩ := mem_nodes_iff.1 hm
    obtain ⟨-, hcomp, -, join, hjoin⟩ := h.parent k hk _ comp hparent
    exact ⟨comp, join, hcomp, hmany, hjoin⟩
  · obtain ⟨hlt, hmapped, hparent⟩ := h.roots i hi
    exact ⟨_, getElem?_toPlan hlt, hmapped, hparent⟩

end Planner

namespace Query

variable {c : Catalog} {q : Query} {compiled : CompiledQuery} {cache cache' : PathCache}

/-- What is answered for a selection fits. -/
theorem Answers.fits {p : Planner} {outputs : List Output} {sel : Selection} {o : Output}
    (h : Answers p sel o) : o.Fits (p.toPlan outputs) := by
  cases sel with
  | path chain =>
    obtain ⟨r, hr, hmapped, rfl⟩ := h
    cases r with
    | node i =>
      unfold Planner.outputOf
      simp only
      split
      · next j comp hparent =>
        split
        · next hmany =>
          exact ⟨_, List.mem_of_getElem? (Planner.getElem?_toPlan hr), hmapped, comp, hparent, hmany,
            rfl⟩
        · trivial
      · trivial
    | embedded i path => exact ⟨_, _, Planner.getElem?_toPlan hr.1, hr.2.choose_spec⟩
    | scalar i path s a => exact ⟨_, s, a, Planner.getElem?_toPlan hr.1, hr.2⟩
  | raw sql label =>
    obtain rfl := h
    trivial

/-- What holds of the second ones of some pairs holds of all that come second. -/
theorem forall_of_forall₂ {α β : Type} {P : β → Prop} {l : List α} {l' : List β}
    (h : List.Forall₂ (fun _ y => P y) l l') : ∀ y ∈ l', P y := by
  induction h with
  | nil => exact fun _ hy => absurd hy List.not_mem_nil
  | cons hy _ ih => exact List.forall_mem_cons.2 ⟨hy, ih⟩

/-- The plan of a compiled query is sound. -/
theorem sound_of_compile (h : q.compile c cache = (.ok compiled, cache')) :
    compiled.plan.Sound c := by
  obtain ⟨p, hsteps, hroots, hdescribes⟩ := exists_of_compile h
  obtain ⟨rootOutputs, outputs, hplan, hroot, houtputs⟩ := hdescribes.plan
  rw [hplan]
  refine ((Planner.Sound.empty c).steps hsteps).toPlan hroots fun o ho => ?_
  rcases List.mem_append.1 ho with ho | ho
  · rcases hroot with ⟨-, rfl⟩ | ⟨-, key, rfl⟩
    · cases ho
    · rw [List.mem_singleton.1 ho]
      trivial
  · exact forall_of_forall₂ (houtputs.imp fun _ _ h => h.fits) o ho

end Query

end EntityGraph
