import EntityGraph.Proofs.Reading
import EntityGraph.Proofs.Shown

/-!
# The graph mirrors the rows

While rows are read, the graph holds exactly what they have shown so far: one entity for each type and
key, with the values of the appearance that came first; a collection for each to-many relation that has
been shown, with the entities that have been joined to its owner; and in each to-one relation what was
joined first. The mapper's identities say which entity of the graph is meant.

## Main results

* `Mirrored.ends_link`: connecting what one link joins adds the link;
* `Mirrored.ends_connectAll`: connecting what a row shows adds its links.
-/

namespace EntityGraph

namespace Assoc

variable {α β : Type} [DecidableEq α]

/-- A new key comes last. -/
theorem put_of_get?_eq_none {m : Assoc α β} {k : α} (v : β) (h : get? m k = none) :
    put m k v = m ++ [(k, v)] := by
  induction m with
  | nil => rfl
  | cons p m ih =>
    by_cases hp : p.1 = k
    · simp [get?, hp] at h
    · simp only [get?, hp, if_false] at h
      simp [put, hp, ih h]

/-- Keys that can be found are listed. -/
theorem get?_isSome_iff {m : Assoc α β} {k : α} : (get? m k).isSome ↔ k ∈ m.map (·.1) := by
  constructor
  · intro h
    obtain ⟨v, hv⟩ := Option.isSome_iff_exists.1 h
    exact List.mem_map.2 ⟨_, mem_of_get? hv, rfl⟩
  · intro h
    obtain ⟨p, hp, rfl⟩ := List.mem_map.1 h
    obtain ⟨v, hv⟩ := exists_get?_of_mem hp
    rw [hv]
    rfl

/-- What is found after a put is what was put, or was there before. -/
theorem get?_put_cases {m : Assoc α β} {k l : α} {v w : β} (h : get? (put m k v) l = some w) :
    (l = k ∧ w = v) ∨ (l ≠ k ∧ get? m l = some w) := by
  by_cases hl : l = k
  · subst hl
    rw [get?_put_self] at h
    exact .inl ⟨rfl, (Option.some.inj h).symm⟩
  · rw [get?_put_of_ne _ _ hl] at h
    exact .inr ⟨hl, h⟩

/-- A put adds its key. -/
theorem contains_put {m : Assoc α β} {k l : α} {v : β} :
    contains (put m k v) l = true ↔ contains m l = true ∨ l = k := by
  unfold contains
  by_cases h : l = k
  · simp [h]
  · simp [get?_put_of_ne _ _ h, h]

end Assoc

namespace Graph

variable {g g' g'' : Graph} {e : EntityId} {n : Nat} {a : Appearance}

/-! ### What stays -/

/-- Entities that were made after the first ones lead to such entities only. -/
def Closed (n : Nat) (g : Graph) : Prop :=
  ∀ d, n ≤ d.index → ∀ name y, (g.entity d).embedded.get? name = some y →
    n ≤ y.index ∧ y.index < g.entities.length

/-- A later graph has the values, components and collections that entities had that were made after the
first ones. -/
structure Later (n : Nat) (g g' : Graph) : Prop where
  length : g.entities.length ≤ g'.entities.length
  same : ∀ d, n ≤ d.index → d.index < g.entities.length →
    (g'.entity d).schema = (g.entity d).schema ∧ (g'.entity d).atomics = (g.entity d).atomics ∧
      (g'.entity d).embedded = (g.entity d).embedded
  toMany : ∀ d name id, (g.entity d).toMany.get? name = some id →
    (g'.entity d).toMany.get? name = some id

namespace Later

theorem refl (n : Nat) (g : Graph) : Later n g g :=
  ⟨Nat.le_refl _, fun _ _ _ => ⟨rfl, rfl, rfl⟩, fun _ _ _ h => h⟩

theorem trans (h : Later n g g') (h' : Later n g' g'') : Later n g g'' where
  length := Nat.le_trans h.length h'.length
  same d hn hlt := by
    obtain ⟨hschema, hatomics, hembedded⟩ := h.same d hn hlt
    obtain ⟨hschema', hatomics', hembedded'⟩ := h'.same d hn (Nat.lt_of_lt_of_le hlt h.length)
    exact ⟨hschema'.trans hschema, hatomics'.trans hatomics, hembedded'.trans hembedded⟩
  toMany d name id hid := h'.toMany d name id (h.toMany d name id hid)

/-- Paths lead where they led. -/
theorem partAt?_eq (h : Later n g g') (hclosed : Closed n g)
    (he : n ≤ e.index ∧ e.index < g.entities.length) (path : List String) :
    g'.partAt? e path = g.partAt? e path ∧
      ∀ y, g.partAt? e path = some y → n ≤ y.index ∧ y.index < g.entities.length :=
  partAt?_congr (P := fun d => n ≤ d.index ∧ d.index < g.entities.length)
    (fun d hd => (h.same d hd.1 hd.2).2.2) (fun d hd => hclosed d hd.1) he path

/-- Values are what they were. -/
theorem slotAt_eq (h : Later n g g') (hclosed : Closed n g)
    (he : n ≤ e.index ∧ e.index < g.entities.length) (q : List String × Atomic) :
    g'.slotAt e q = g.slotAt e q :=
  slotAt_congr (P := fun d => n ≤ d.index ∧ d.index < g.entities.length)
    (fun d hd => (h.same d hd.1 hd.2).2) (fun d hd => hclosed d hd.1) he q

end Later

/-- An entity has the values that a row showed when it appeared, and the components for them. -/
structure LoadedAs (g : Graph) (e : EntityId) (a : Appearance) : Prop where
  schema : (g.entity e).schema = a.node.schema
  read : ∀ q ∈ a.node.schema.occurrences [],
    ∃ v, a.node.read? a.row q = some v ∧ g.slotAt e q = some (.loaded v)
  spreads : Spreads g e a.node.schema

/-- A loaded entity stays so. -/
theorem LoadedAs.later (h : LoadedAs g e a) (hlater : Later n g g') (hclosed : Closed n g)
    (he : n ≤ e.index ∧ e.index < g.entities.length) : LoadedAs g' e a where
  schema := (hlater.same e he.1 he.2).1.trans h.schema
  read q hq := by
    obtain ⟨v, hv, hslot⟩ := h.read q hq
    exact ⟨v, hv, (hlater.slotAt_eq hclosed he q).trans hslot⟩
  spreads path t ht := by
    obtain ⟨y, hy, hschema⟩ := h.spreads path t ht
    obtain ⟨hpart, hrange⟩ := hlater.partAt?_eq hclosed he path
    obtain ⟨hle, hlt⟩ := hrange y hy
    exact ⟨y, hpart.trans hy, (hlater.same y hle hlt).1.trans hschema⟩

/-- A loaded entity has the key under which it appeared. -/
theorem LoadedAs.key? {c : Catalog} (h : LoadedAs g e a)
    (hs : c.schema a.node.schema.name = .ok a.node.schema) (hwho : a.node.identity? a.row = some a.who) :
    g.key? e = some a.who.2 := by
  obtain ⟨-, key, hkey, hread, hnull⟩ := PlanNode.identity?_eq_some_iff.1 hwho
  have hmem := Catalog.mem_of_primaryKey hs hkey
  obtain ⟨v, hv, hslot⟩ := h.read ([], key) (Schema.mem_occurrences_of_embeddedAt? rfl hmem)
  obtain rfl := Option.some.inj (hv.symm.trans hread)
  have hfound : (g.entity e).atomics.get? key.name = some (.loaded a.who.2) := by
    simpa [slotAt, partAt?] using hslot
  unfold Graph.key? Entity.key? Schema.keyName?
  simp [h.schema, hkey, hfound, Slot.loaded, hnull]

end Graph

open EntityGraph.Graph

/-! ### What the graph holds -/

/-- Each entity that has appeared is one entity of the graph, loaded where it appeared first. -/
structure Identified (c : Catalog) (n : Nat) (shown : List Appearance)
    (known : Assoc Identity EntityId) (g : Graph) : Prop where
  le : n ≤ g.entities.length
  genuine : ∀ a ∈ shown, a.node.identity? a.row = some a.who ∧
    c.schema a.node.schema.name = .ok a.node.schema
  keys : known.map (·.1) = (shown.map (·.who)).eraseDups
  distinct : ∀ who who' e, known.get? who = some e → known.get? who' = some e → who = who'
  range : ∀ who e, known.get? who = some e → n ≤ e.index ∧ e.index < g.entities.length
  closed : Closed n g
  loaded : ∀ who e, known.get? who = some e →
    ∃ a, shown.find? (·.who = who) = some a ∧ LoadedAs g e a

/-- A collection of an entity has the entities as members that have been joined to it. -/
structure Gathers (links : List Link) (known : Assoc Identity EntityId) (g : Graph) (who : Identity)
    (e : EntityId) (name : String) (id : CollectionId) : Prop where
  lt : id.index < g.collections.length
  owner : (g.collection id).owner = e
  component : (g.collection id).component.name = name
  members : (g.collection id).members.map some = (Link.children links who name).map known.get?
  index : ∀ v, (g.collection id).index.contains v = true ↔
    ∃ k ∈ Link.children links who name, k.2 = v

/-- A link is one through a component of its owner's schema, to an entity of the component's target. -/
def Link.Typed (c : Catalog) (l : Link) : Prop :=
  ∃ s, c.schema l.owner.1 = .ok s ∧ s.component? l.component.name = some l.component ∧
    (∃ join, c.join s l.component = .ok join) ∧ ∀ k, l.child = some k → k.1 = l.component.target

/-- A link joins entities that have appeared. -/
def Link.Found (known : Assoc Identity EntityId) (l : Link) : Prop :=
  (known.get? l.owner).isSome ∧ ∀ k, l.child = some k → (known.get? k).isSome

/-- Entities are joined as links say. -/
structure Joined (c : Catalog) (links : List Link) (known : Assoc Identity EntityId) (g : Graph) :
    Prop where
  typed : ∀ l ∈ links, l.Typed c
  found : ∀ l ∈ links, l.Found known
  toOne : ∀ who e, known.get? who = some e → ∀ name, (g.entity e).toOne.get? name =
    (Link.target? links who name).map fun child => .loaded (child.bind known.get?)
  toMany : ∀ who e, known.get? who = some e → ∀ name id,
    (g.entity e).toMany.get? name = some id → Gathers links known g who e name id
  opened : ∀ l ∈ links, l.component.isToMany = true → ∀ e, known.get? l.owner = some e →
    ((g.entity e).toMany.get? l.component.name).isSome

/-- The graph holds what has been shown and joined. -/
structure Mirrored (c : Catalog) (n : Nat) (shown : List Appearance) (links : List Link)
    (known : Assoc Identity EntityId) (g : Graph) : Prop extends
    Identified c n shown known g, Joined c links known g

variable {c : Catalog} {n : Nat} {shown : List Appearance} {links : List Link}
  {known : Assoc Identity EntityId} {g g' : Graph} {who : Identity} {e : EntityId}
  {comp : Component} {join : Join} {cid : CollectionId} {name : String}

namespace Identified

/-- What appeared stays in a later graph. -/
theorem later (h : Identified c n shown known g) (hlater : Later n g g') (hclosed : Closed n g') :
    Identified c n shown known g' where
  le := Nat.le_trans h.le hlater.length
  genuine := h.genuine
  keys := h.keys
  distinct := h.distinct
  range who e he := by
    obtain ⟨hle, hlt⟩ := h.range who e he
    exact ⟨hle, Nat.lt_of_lt_of_le hlt hlater.length⟩
  closed := hclosed
  loaded who e he := by
    obtain ⟨a, ha, hloaded⟩ := h.loaded who e he
    exact ⟨a, ha, hloaded.later hlater h.closed (h.range who e he)⟩

/-- What appeared stays when relations change and no collection is taken away. -/
theorem rejoined (h : Identified c n shown known g) (g' : Graph)
    (hlength : g'.entities.length = g.entities.length)
    (hsame : ∀ d, (g'.entity d).schema = (g.entity d).schema ∧
      (g'.entity d).atomics = (g.entity d).atomics ∧ (g'.entity d).embedded = (g.entity d).embedded)
    (htoMany : ∀ d name id, (g.entity d).toMany.get? name = some id →
      (g'.entity d).toMany.get? name = some id) :
    Identified c n shown known g' ∧ Later n g g' := by
  have hlater : Later n g g' := ⟨Nat.le_of_eq hlength.symm, fun d _ _ => hsame d, htoMany⟩
  refine ⟨h.later hlater fun d hd name y hy => ?_, hlater⟩
  rw [hlength]
  exact h.closed d hd name y ((hsame d).2.2 ▸ hy)

/-- The schema of an entity that has appeared is the one of its type. -/
theorem schema (h : Identified c n shown known g) (he : known.get? who = some e) :
    c.schema who.1 = .ok (g.entity e).schema := by
  obtain ⟨a, ha, hloaded⟩ := h.loaded who e he
  obtain ⟨hwho, hs⟩ := h.genuine a (List.mem_of_find?_eq_some ha)
  have hname : a.who = who := by simpa using List.find?_some ha
  rw [hloaded.schema, ← hname, (PlanNode.identity?_eq_some_iff.1 hwho).1]
  exact hs

/-- An entity that has appeared has the key under which it did. -/
theorem key? (h : Identified c n shown known g) (he : known.get? who = some e) :
    g.key? e = some who.2 := by
  obtain ⟨a, ha, hloaded⟩ := h.loaded who e he
  obtain ⟨hwho, hs⟩ := h.genuine a (List.mem_of_find?_eq_some ha)
  have hname : a.who = who := by simpa using List.find?_some ha
  exact hname ▸ hloaded.key? hs hwho

end Identified

namespace Gathers

/-- A collection that stays as it is gathers the same, as long as the same is joined. -/
theorem of_eq {links' : List Link} (h : Gathers links known g who e name cid)
    (hcollection : g'.collection cid = g.collection cid)
    (hlength : g.collections.length ≤ g'.collections.length)
    (hchildren : Link.children links' who name = Link.children links who name) :
    Gathers links' known g' who e name cid where
  lt := Nat.lt_of_lt_of_le h.lt hlength
  owner := by rw [hcollection, h.owner]
  component := by rw [hcollection, h.component]
  members := by rw [hcollection, hchildren, h.members]
  index v := by rw [hcollection, hchildren, h.index]

/-- An empty collection gathers nothing. -/
theorem of_empty (hlt : cid.index < g.collections.length)
    (hcollection : g.collection cid = { owner := e, component := comp, join })
    (hname : comp.name = name) (hchildren : Link.children links who name = []) :
    Gathers links known g who e name cid where
  lt := hlt
  owner := by rw [hcollection]
  component := by rw [hcollection, hname]
  members := by rw [hcollection, hchildren]; rfl
  index v := by rw [hcollection, hchildren]; simp [Assoc.contains]

end Gathers

namespace Joined

/-- The component of a link is the one of its owner's schema. -/
theorem component_eq (h : Joined c links known g) {l : Link} (hl : l ∈ links) {s : Schema}
    (hs : c.schema l.owner.1 = .ok s) (hcomp : s.component? l.component.name = some comp) :
    l.component = comp := by
  obtain ⟨s', hs', hcomp', -⟩ := h.typed l hl
  obtain rfl := Except.ok.inj (hs'.symm.trans hs)
  exact Option.some.inj (hcomp'.symm.trans hcomp)

/-- The entities that are joined through one to-many relation are of one type, so they are told from each
other by their keys. -/
theorem mem_children_iff (h : Joined c links known g) {l : Link} (htyped : l.Typed c) {k : Identity}
    (hchild : l.child = some k) : k ∈ Link.children links l.owner l.component.name ↔
      ∃ k' ∈ Link.children links l.owner l.component.name, k'.2 = k.2 := by
  refine ⟨fun hk => ⟨k, hk, rfl⟩, fun ⟨k', hk', hvalue⟩ => ?_⟩
  obtain ⟨l', hl', ⟨howner, hname, -⟩, hchild'⟩ := Link.mem_children_iff.1 hk'
  obtain ⟨s, hs, hcomp, -, htarget⟩ := htyped
  have hcomponent := h.component_eq hl' (howner ▸ hs) (hname ▸ hcomp)
  obtain ⟨s', -, -, -, htarget'⟩ := h.typed l' hl'
  have htype : k'.1 = k.1 := by rw [htarget' k' hchild', hcomponent, htarget k hchild]
  exact Prod.ext htype hvalue ▸ hk'

/-- Nothing has been joined to an entity through a to-many relation that has no collection. -/
theorem children_eq_nil (h : Joined c links known g) (he : known.get? who = some e)
    (hnone : (g.entity e).toMany.get? name = none) : Link.children links who name = [] := by
  refine List.eq_nil_iff_forall_not_mem.2 fun k hk => ?_
  obtain ⟨l, hl, ⟨rfl, rfl, hmany⟩, -⟩ := Link.mem_children_iff.1 hk
  have hopened := h.opened l hl hmany e he
  rw [hnone] at hopened
  cases hopened

end Joined

namespace Graph

/-! ### Collections -/

/-- The graph in which an entity has got an empty collection. -/
def withCollection (g : Graph) (e : EntityId) (comp : Component) (join : Join) : Graph :=
  ({ g with collections := g.collections ++ [{ owner := e, component := comp, join }] } :
    Graph).modifyEntity e fun x =>
      { x with toMany := x.toMany.put comp.name ⟨g.collections.length⟩ }

/-- Making a collection changes nothing else of an entity. -/
theorem view_withCollection {α : Type} {v : Entity → α}
    (hv : ∀ x m, v { x with toMany := m } = v x) (comp : Component) (join : Join) (d : EntityId) :
    v ((g.withCollection e comp join).entity d) = v (g.entity d) :=
  view_modifyEntity (g := { g with collections := _ }) (hv _ _)

/-- There is one collection more. -/
theorem collections_withCollection : (g.withCollection e comp join).collections =
    g.collections ++ [{ owner := e, component := comp, join }] := rfl

/-- Collections that are there stay as they are. -/
theorem collection_withCollection (e : EntityId) (comp : Component) (join : Join)
    (hlt : cid.index < g.collections.length) :
    (g.withCollection e comp join).collection cid = g.collection cid := by
  simp [withCollection, collection, modifyEntity, List.getD_eq_getElem?_getD,
    List.getElem?_append_left hlt]

/-- The new collection is empty. -/
theorem collection_withCollection_new : (g.withCollection e comp join).collection
    ⟨g.collections.length⟩ = { owner := e, component := comp, join } := by
  simp [withCollection, collection, modifyEntity, List.getD_eq_getElem?_getD]

/-- The entity has the new collection under its name, and those that it had. -/
theorem toMany_withCollection (he : e.index < g.entities.length) (comp : Component) (join : Join)
    (d : EntityId) (name : String) :
    ((g.withCollection e comp join).entity d).toMany.get? name =
      if d = e ∧ name = comp.name then some ⟨g.collections.length⟩
      else (g.entity d).toMany.get? name := by
  unfold withCollection
  generalize hmore : ({ g with
    collections := g.collections ++ [{ owner := e, component := comp, join }] } : Graph) = more
  have hlt : e.index < more.entities.length := hmore ▸ he
  have hentity : more.entity d = g.entity d := hmore ▸ rfl
  by_cases hde : d = e
  · subst hde
    rw [entity_modifyEntity_self _ hlt, hentity]
    by_cases hname : name = comp.name
    · subst hname
      rw [if_pos ⟨rfl, rfl⟩]
      exact Assoc.get?_put_self _ _ _
    · rw [if_neg (fun h => hname h.2)]
      exact Assoc.get?_put_of_ne _ _ hname
  · rw [if_neg (fun h => hde h.1), entity_modifyEntity_of_ne _ hde, hentity]

/-- A collection is made when there is none. -/
theorem ends_many_iff {P : CollectionId → Graph → Prop} {E : Error → Graph → Prop}
    (hcomp : (g.entity e).schema.component? name = some comp) (hmany : comp.isToMany = true)
    (hjoin : c.join (g.entity e).schema comp = .ok join) :
    (Graph.many c e name).Ends g P E ↔ match (g.entity e).toMany.get? name with
      | some id => P id g
      | none => P ⟨g.collections.length⟩ (g.withCollection e comp join) := by
  have hrelation : Entity.relation (g.entity e).schema name true = .ok comp := by
    unfold Entity.relation
    simp only [hcomp, hmany, if_true]
  unfold Graph.many
  rw [Act.ends_bind, Act.ends_get, Act.ends_bind, hrelation, Act.ends_ofExcept_ok,
    Schema.name_of_component? hcomp]
  cases (g.entity e).toMany.get? name with
  | some id => rfl
  | none =>
    simp only
    rw [Act.ends_bind, hjoin, Act.ends_ofExcept_ok]
    simp only [withCollection, Schema.name_of_component? hcomp]
    rfl

end Graph

/-- A collection that gets a member gathers what is joined last. -/
theorem Gathers.append {links' : List Link} (h : Gathers links known g who e name cid) {k : Identity}
    {member : EntityId} (hmember : known.get? k = some member)
    (hchildren : Link.children links' who name = Link.children links who name ++ [k]) :
    Gathers links' known (g.modifyCollection cid fun x => { x with
      members := x.members ++ [member], index := x.index.put k.2 x.members.length }) who e name cid := by
  have hself := collection_modifyCollection_self (g := g) (fun x => { x with
    members := x.members ++ [member], index := x.index.put k.2 x.members.length }) h.lt
  refine ⟨(length_modifyCollection _ _).symm ▸ h.lt, ?_, ?_, ?_, fun v => ?_⟩
  all_goals rw [hself]
  · exact h.owner
  · exact h.component
  · rw [hchildren, List.map_append, List.map_append, h.members, List.map_singleton,
      List.map_singleton, hmember]
  · rw [hchildren, Assoc.contains_put, h.index]
    simp only [List.mem_append, List.mem_singleton, or_and_right, exists_or, exists_eq_left]
    exact or_congr_right eq_comm

/-- The entities of a row are those that are known of what it shows. -/
theorem entityOf_map (found : List (Option Identity)) (known : Assoc Identity EntityId) (i : Nat) :
    Mapper.entityOf (found.map (·.bind known.get?)) i = ((found[i]?).bind id).bind known.get? := by
  unfold Mapper.entityOf
  rw [List.getElem?_map]
  cases found[i]? <;> rfl

/-! ### To-one relations -/

/-- The target of a to-one relation is loaded, unless there is one. -/
def Entity.loadTarget (x : Entity) (name : String) (target : Option EntityId) : Entity :=
  if x.toOne.contains name then x else { x with toOne := x.toOne.put name (.loaded target) }

/-- Loading a target changes nothing else. -/
theorem Entity.view_loadTarget {α : Type} {v : Entity → α} (hv : ∀ x m, v { x with toOne := m } = v x)
    {x : Entity} {target : Option EntityId} : v (x.loadTarget name target) = v x := by
  unfold Entity.loadTarget
  split
  · rfl
  · exact hv _ _

/-- The first target stays. -/
theorem Entity.toOne_loadTarget {x : Entity} {target : Option EntityId} {other : String} :
    (x.loadTarget name target).toOne.get? other =
      if other = name then (x.toOne.get? name).or (some (.loaded target))
      else x.toOne.get? other := by
  unfold Entity.loadTarget Assoc.contains
  by_cases hother : other = name
  · subst hother
    rw [if_pos rfl]
    cases hslot : x.toOne.get? other with
    | some slot => simp [hslot]
    | none => simp
  · rw [if_neg hother]
    split
    · rfl
    · exact Assoc.get?_put_of_ne _ _ hother

/-- Loading a target changes one entity. -/
theorem Graph.loadOne_eq (e : EntityId) (name : String) (target : Option EntityId) :
    Graph.loadOne e name target = modify fun g => g.modifyEntity e (·.loadTarget name target) := rfl

namespace Mirrored

/-- The collection of a to-many relation of an entity that has appeared is there, or is made. -/
theorem ends_many (h : Mirrored c n shown links known g) (he : known.get? who = some e)
    (hcomp : (g.entity e).schema.component? name = some comp) (hmany : comp.isToMany = true)
    (hjoin : c.join (g.entity e).schema comp = .ok join) :
    (Graph.many c e name).Ends g (fun id g' => Mirrored c n shown links known g' ∧ Later n g g' ∧
      (g'.entity e).toMany.get? name = some id) (fun _ _ => False) := by
  rw [ends_many_iff hcomp hmany hjoin]
  cases hid : (g.entity e).toMany.get? name with
  | some id => exact ⟨h, .refl n g, rfl⟩
  | none =>
    obtain ⟨-, hlt⟩ := h.range who e he
    have hname := Schema.name_of_component? hcomp
    have htoMany := toMany_withCollection hlt comp join
    have hsame := fun {α : Type} {v : Entity → α} (hv : ∀ x m, v { x with toMany := m } = v x)
      (d : EntityId) => view_withCollection (g := g) (e := e) hv comp join d
    have hkept : ∀ d other id, (g.entity d).toMany.get? other = some id →
        ((g.withCollection e comp join).entity d).toMany.get? other = some id := by
      intro d other id hd
      rw [htoMany, if_neg, hd]
      rintro ⟨rfl, rfl⟩
      rw [hname, hid] at hd
      cases hd
    have hnew : ((g.withCollection e comp join).entity e).toMany.get? name =
        some ⟨g.collections.length⟩ := by
      rw [htoMany, if_pos ⟨rfl, hname.symm⟩]
    have hlength : g.collections.length < (g.withCollection e comp join).collections.length := by
      rw [collections_withCollection, List.length_append]
      exact Nat.lt_succ_self _
    obtain ⟨hidentified, hlater⟩ := h.rejoined (g.withCollection e comp join)
      (length_modifyEntity _ _ _) (fun d => ⟨hsame (v := (·.schema)) (fun _ _ => rfl) d,
        hsame (v := (·.atomics)) (fun _ _ => rfl) d, hsame (v := (·.embedded)) (fun _ _ => rfl) d⟩)
      hkept
    refine ⟨⟨hidentified, h.typed, h.found, fun who' e' he' other => ?_,
      fun who' e' he' other id hother => ?_, fun l hl hl' e' he' => ?_⟩, hlater, hnew⟩
    · rw [hsame (v := (·.toOne)) (fun _ _ => rfl) e']
      exact h.toOne who' e' he' other
    · rw [htoMany] at hother
      split at hother
      · next heq =>
        obtain ⟨rfl, rfl⟩ := heq
        obtain rfl := h.distinct _ _ _ he he'
        obtain rfl := Option.some.inj hother
        exact .of_empty hlength collection_withCollection_new rfl
          (hname ▸ h.children_eq_nil he hid)
      · have hold := h.toMany who' e' he' other id hother
        exact hold.of_eq (collection_withCollection e comp join hold.lt) (Nat.le_of_lt hlength) rfl
    · obtain ⟨id, hid⟩ := Option.isSome_iff_exists.1 (h.opened l hl hl' e' he')
      rw [hkept _ _ _ hid]
      rfl

/-- What holds of the links before and of the last one holds of all. -/
theorem forall_mem_append_singleton {l : Link} {P : Link → Prop} (h : ∀ l' ∈ links, P l')
    (hl : P l) : ∀ l' ∈ links ++ [l], P l' := fun l' hl' =>
  (List.mem_append.1 hl').elim (h l') fun hl' => List.mem_singleton.1 hl' ▸ hl

/-- A link through a to-many relation, when the collections have got what it joins. -/
theorem link_many (h : Mirrored c n shown links known g) {l : Link} (htyped : l.Typed c)
    (hfound : l.Found known) (hmany : l.component.isToMany = true)
    (hopened : ∀ e, known.get? l.owner = some e →
      ((g.entity e).toMany.get? l.component.name).isSome)
    (hsame : g'.entities = g.entities)
    (hgathers : ∀ who e, known.get? who = some e → ∀ name id,
      (g.entity e).toMany.get? name = some id → Gathers (links ++ [l]) known g' who e name id) :
    Mirrored c n shown (links ++ [l]) known g' ∧ Later n g g' := by
  have hentity : g'.entity = g.entity := by
    funext d
    rw [Graph.entity, hsame]
    rfl
  obtain ⟨hidentified, hlater⟩ := h.rejoined g' (by rw [hsame])
    (fun _ => by rw [hentity]; exact ⟨rfl, rfl, rfl⟩) fun d name id hid => by rwa [hentity]
  refine ⟨⟨hidentified, forall_mem_append_singleton h.typed htyped,
    forall_mem_append_singleton h.found hfound, fun who e he name => ?_, ?_, ?_⟩, hlater⟩
  · rw [hentity, Link.target?_append, if_neg (by simp [hmany]), Option.or_none]
    exact h.toOne who e he name
  · rw [hentity]
    exact hgathers
  · rw [hentity]
    exact forall_mem_append_singleton h.opened fun _ => hopened

/-- A link that joins nothing, or what has been joined before, needs no change. -/
theorem link_again (h : Mirrored c n shown links known g) {l : Link} (htyped : l.Typed c)
    (hfound : l.Found known) (hmany : l.component.isToMany = true)
    (hopened : ∀ e, known.get? l.owner = some e →
      ((g.entity e).toMany.get? l.component.name).isSome)
    (hchildren : ∀ who name,
      Link.children (links ++ [l]) who name = Link.children links who name) :
    Mirrored c n shown (links ++ [l]) known g := by
  refine (h.link_many htyped hfound hmany hopened rfl fun who e he name id hid => ?_).1
  exact (h.toMany who e he name id hid).of_eq rfl (Nat.le_refl _) (hchildren who name)

/-- What is joined to an entity through a to-many relation becomes a member of its collection, unless
it is one. -/
theorem ends_append (h : Mirrored c n shown links known g) {l : Link} (htyped : l.Typed c)
    (hfound : l.Found known) (hmany : l.component.isToMany = true) (he : known.get? l.owner = some e)
    (hid : (g.entity e).toMany.get? l.component.name = some cid) {k : Identity}
    (hchild : l.child = some k) {member : EntityId} (hmember : known.get? k = some member) :
    (Graph.append cid member).Ends g (fun _ g' =>
      Mirrored c n shown (links ++ [l]) known g' ∧ Later n g g') (fun _ _ => False) := by
  have hold := h.toMany _ _ he _ _ hid
  have hopened : ∀ e', known.get? l.owner = some e' →
      ((g.entity e').toMany.get? l.component.name).isSome := fun e' he' => by
    rw [← Option.some.inj (he.symm.trans he'), hid]
    rfl
  have hothers : ∀ who name, ¬(l.owner = who ∧ l.component.name = name) →
      Link.children (links ++ [l]) who name = Link.children links who name := fun who name hne =>
    Link.children_append_of_not fun heq => absurd ⟨heq.1, heq.2.1⟩ hne
  unfold Graph.append
  rw [Act.ends_bind, Act.ends_get]
  simp only [h.key? hmember, Act.ends_bind, Act.ends_ite, Act.ends_pure, Act.ends_modify]
  refine ⟨fun hcontains => ⟨h.link_again htyped hfound hmany hopened fun who name => ?_, .refl n g⟩,
    fun hnew => ?_⟩
  · by_cases heq : l.owner = who ∧ l.component.name = name
    · obtain ⟨rfl, rfl⟩ := heq
      rw [Link.children_append links hmany hchild,
        if_pos ((h.mem_children_iff htyped hchild).2 ((hold.index _).1 hcontains))]
    · exact hothers who name heq
  · have hk : k ∉ Link.children links l.owner l.component.name := fun hk =>
      hnew ((hold.index _).2 ⟨k, hk, rfl⟩)
    have happend := Link.children_append links hmany hchild
    rw [if_neg hk] at happend
    refine h.link_many htyped hfound hmany hopened rfl fun who e' he' name id' hid' => ?_
    by_cases heq : l.owner = who ∧ l.component.name = name
    · obtain ⟨rfl, rfl⟩ := heq
      obtain rfl := Option.some.inj (he.symm.trans he')
      obtain rfl := Option.some.inj (hid.symm.trans hid')
      exact hold.append hmember happend
    · have hold' := h.toMany who e' he' name id' hid'
      have hne : id' ≠ cid := by
        rintro rfl
        obtain rfl := hold'.owner.symm.trans hold.owner
        exact heq ⟨h.distinct _ _ _ he he', hold.component.symm.trans hold'.component⟩
      exact hold'.of_eq (collection_modifyCollection_of_ne _ hne)
        (Nat.le_of_eq (length_modifyCollection _ _).symm) (hothers who name heq)

/-- What is joined first to an entity through a to-one relation is its target. -/
theorem ends_loadOne (h : Mirrored c n shown links known g) {l : Link} (htyped : l.Typed c)
    (hfound : l.Found known) (hone : l.component.isToMany = false) (he : known.get? l.owner = some e) :
    (Graph.loadOne e l.component.name (l.child.bind known.get?)).Ends g (fun _ g' =>
      Mirrored c n shown (links ++ [l]) known g' ∧ Later n g g') (fun _ _ => False) := by
  obtain ⟨-, hlt⟩ := h.range _ e he
  rw [loadOne_eq, Act.ends_modify]
  generalize hg' : g.modifyEntity e (·.loadTarget l.component.name (l.child.bind known.get?)) = g'
  have hview : ∀ {α : Type} {v : Entity → α}, (∀ x m, v { x with toOne := m } = v x) →
      ∀ d, v (g'.entity d) = v (g.entity d) := fun hv d => by
    rw [← hg']
    exact view_modifyEntity (Entity.view_loadTarget hv)
  have htoMany : ∀ d, (g'.entity d).toMany = (g.entity d).toMany :=
    hview (v := (·.toMany)) fun _ _ => rfl
  obtain ⟨hidentified, hlater⟩ := h.rejoined g' (hg' ▸ length_modifyEntity _ _ _)
    (fun d => ⟨hview (v := (·.schema)) (fun _ _ => rfl) d,
      hview (v := (·.atomics)) (fun _ _ => rfl) d, hview (v := (·.embedded)) (fun _ _ => rfl) d⟩)
    fun d name id hid => (htoMany d).symm ▸ hid
  refine ⟨⟨hidentified, forall_mem_append_singleton h.typed htyped,
    forall_mem_append_singleton h.found hfound, fun who e' he' name => ?_,
    fun who e' he' name id hid => ?_, forall_mem_append_singleton (fun l' hl' => ?_) fun hmany => ?_⟩,
    hlater⟩
  · rw [Link.target?_append]
    have hold := h.toOne who e' he' name
    by_cases heq : l.owner = who ∧ l.component.name = name
    · obtain ⟨rfl, rfl⟩ := heq
      obtain rfl := Option.some.inj (he.symm.trans he')
      rw [← hg', entity_modifyEntity_self _ hlt, Entity.toOne_loadTarget, if_pos rfl, hold,
        if_pos ⟨rfl, rfl, hone⟩]
      cases Link.target? links l.owner l.component.name <;> rfl
    · rw [if_neg fun hl => heq ⟨hl.1, hl.2.1⟩, Option.or_none, ← hold, ← hg']
      by_cases hee : e' = e
      · subst hee
        rw [entity_modifyEntity_self _ hlt, Entity.toOne_loadTarget, if_neg]
        exact fun hname => heq ⟨h.distinct _ _ _ he he', hname.symm⟩
      · rw [entity_modifyEntity_of_ne _ hee]
  · rw [htoMany] at hid
    have hold := h.toMany who e' he' name id hid
    exact hold.of_eq (hg' ▸ rfl) (hg' ▸ Nat.le_refl _)
      (Link.children_append_of_not fun heq => by simp [hone] at heq)
  · intro hmany e' he'
    rw [htoMany]
    exact h.opened l' hl' hmany e' he'
  · rw [hone] at hmany
    cases hmany

/-- A link is connected: its collection is opened and gets what is joined, or its target is loaded. -/
theorem ends_link (h : Mirrored c n shown links known g) {l : Link} (htyped : l.Typed c)
    (hfound : l.Found known) (he : known.get? l.owner = some e) :
    Act.Ends (if l.component.isToMany then do
        let id ← Graph.many c e l.component.name
        if let some member := l.child.bind known.get? then
          let _ ← Graph.append id member
      else Graph.loadOne e l.component.name (l.child.bind known.get?)) g (fun _ g' =>
      Mirrored c n shown (links ++ [l]) known g' ∧ Later n g g') (fun _ _ => False) := by
  cases hmany : l.component.isToMany with
  | false => exact h.ends_loadOne htyped hfound hmany he
  | true =>
    have ⟨s, hs, hcomp, ⟨join, hjoin⟩, _⟩ := htyped
    obtain rfl := Except.ok.inj (hs.symm.trans (h.schema he))
    rw [if_pos rfl, Act.ends_bind]
    refine (h.ends_many he hcomp hmany hjoin).mono (fun id g₁ h₁ => ?_) fun _ _ h => h
    obtain ⟨hmirrored, hlater, hid⟩ := h₁
    cases hchild : l.child with
    | none =>
      refine ⟨hmirrored.link_again htyped hfound hmany (fun e' he' => ?_) fun who name =>
        Link.children_append_of_not fun _ => hchild, hlater⟩
      rw [← Option.some.inj (he.symm.trans he'), hid]
      rfl
    | some k =>
      obtain ⟨member, hmember⟩ := Option.isSome_iff_exists.1 (hfound.2 k hchild)
      simp only [Option.bind_some, hmember, Act.ends_bind]
      refine (hmirrored.ends_append htyped hfound hmany he hid hchild hmember).mono
        (fun _ g₂ h₂ => ⟨h₂.1, hlater.trans h₂.2⟩) fun _ _ h => h

/-- What a node joins is connected. -/
theorem ends_connect (h : Mirrored c n shown links known g) {node : PlanNode}
    {found : List (Option Identity)} {child : Option Identity}
    (hlink : ∀ l, node.link? found child = some l → l.Typed c ∧ l.Found known) :
    (Mapper.connect c (found.map (·.bind known.get?)) node (child.bind known.get?)).Ends g
      (fun _ g' => Mirrored c n shown (links ++ (node.link? found child).toList) known g' ∧
        Later n g g') (fun _ _ => False) := by
  have hnothing : (∀ l, node.link? found child ≠ some l) →
      Mirrored c n shown (links ++ (node.link? found child).toList) known g ∧ Later n g g :=
    fun hnone => by
      rw [Option.eq_none_iff_forall_ne_some.2 hnone, Option.toList_none, List.append_nil]
      exact ⟨h, .refl n g⟩
  unfold Mapper.connect
  cases hparent : node.parent with
  | none =>
    refine hnothing fun l hl => ?_
    obtain ⟨-, j, hj, -⟩ := PlanNode.link?_eq_some_iff.1 hl
    rw [hparent] at hj
    cases hj
  | some x =>
    obtain ⟨j, comp⟩ := x
    simp only [entityOf_map]
    cases hmapped : node.mapped with
    | false =>
      refine hnothing fun l hl => ?_
      rw [(PlanNode.link?_eq_some_iff.1 hl).1] at hmapped
      cases hmapped
    | true =>
      cases howner : (found[j]?).bind id with
      | none =>
        refine hnothing fun l hl => ?_
        obtain ⟨-, i, hi, hfound, -⟩ := PlanNode.link?_eq_some_iff.1 hl
        obtain ⟨rfl, -⟩ := Prod.mk.inj (Option.some.inj (hparent.symm.trans hi))
        rw [howner] at hfound
        cases hfound
      | some who =>
        have heq : node.link? found child = some ⟨who, comp, child⟩ :=
          PlanNode.link?_eq_some_iff.2 ⟨hmapped, j, hparent, howner, rfl⟩
        obtain ⟨htyped, hfound⟩ := hlink _ heq
        obtain ⟨e, he⟩ := Option.isSome_iff_exists.1 hfound.1
        rw [heq]
        simp only [Option.bind_some, he]
        exact h.ends_link (l := ⟨who, comp, child⟩) htyped hfound he

/-- What the nodes of a row join is connected, one after the other. -/
theorem ends_connectAll {nodes : List (PlanNode × Option Identity)} {found : List (Option Identity)}
    (h : Mirrored c n shown links known g)
    (hlinks : ∀ x ∈ nodes, ∀ l, x.1.link? found x.2 = some l → l.Typed c ∧ l.Found known) :
    ((nodes.map fun x => (x.1, x.2.bind known.get?)).forM fun p =>
      Mapper.connect c (found.map (·.bind known.get?)) p.1 p.2).Ends g (fun _ g' =>
        Mirrored c n shown (links ++ nodes.filterMap fun x => x.1.link? found x.2) known g' ∧
          Later n g g') (fun _ _ => False) := by
  induction nodes generalizing links g with
  | nil =>
    rw [List.map_nil, Act.ends_forM_nil, List.filterMap_nil, List.append_nil]
    exact ⟨h, .refl n g⟩
  | cons x nodes ih =>
    rw [List.map_cons, Act.ends_forM_cons]
    refine (h.ends_connect (hlinks x List.mem_cons_self)).mono (fun _ g₁ h₁ => ?_) fun _ _ h => h
    refine (ih h₁.1 fun y hy => hlinks y (List.mem_cons_of_mem _ hy)).mono (fun _ g₂ h₂ => ?_)
      fun _ _ h => h
    refine ⟨?_, h₁.2.trans h₂.2⟩
    have hmirrored := h₂.1
    rw [List.append_assoc] at hmirrored
    cases hx : x.1.link? found x.2 <;> simpa [hx] using hmirrored

end Mirrored

end EntityGraph
