import EntityGraph.Proofs.Naming
import EntityGraph.Proofs.Planning
import Mathlib.Data.List.Induction

/-!
# Where paths lead in a plan

A path is walked twice when a query is compiled: through the schemas of the catalog, which says what it
denotes, and through the nodes of the plan, which says where it is read. The second walk finds nodes by
the text that leads to them, so it comes to what the path denotes unless a root has such a text as its
alias.

* `Planner.Leads` — what segments lead to from a node, along relations that join one node to the next;
* `Query.Shadowed` — an alias spells the way along relations that some segments begin with;
* `Query.Charted` — the texts that nodes are found by;
* `Query.charted_of_walks` — segments that are not shadowed lead to what they denote;
* `Query.knowing_finds` — so do all paths that are visited while a query is compiled.
-/

namespace EntityGraph

/-! ### Dotted texts -/

namespace Text

/-- The segments on both sides of a dot. -/
theorem segments_append_dot (a b : List Char) : segments (a ++ '.' :: b) = segments a ++ segments b := by
  induction a with
  | nil => simp [segments]
  | cons x a ih =>
    rw [List.cons_append, segments, segments]
    split
    · rw [ih, List.cons_append]
    · rw [ih]
      cases ha : segments a with
      | nil => exact absurd ha (segments_ne_nil a)
      | cons s rest => rfl

/-- The segments of two texts that a dot joins. -/
theorem splitDots_append_dot (a b : String) : splitDots (a ++ "." ++ b) = splitDots a ++ splitDots b := by
  have hlist : (a ++ "." ++ b).toList = a.toList ++ '.' :: b.toList := by simp
  rw [splitDots, hlist, segments_append_dot, List.map_append]
  rfl

/-- What a segment of a path looks like. -/
def IsSegment (s : String) : Prop :=
  s ≠ "" ∧ '.' ∉ s.toList

/-- One more segment is joined by a dot. -/
theorem intercalate_concat {l : List String} (hl : l ≠ []) (s : String) :
    ".".intercalate (l ++ [s]) = ".".intercalate l ++ "." ++ s := by
  rw [String.intercalate_append_of_ne_nil hl (List.cons_ne_nil s []), String.intercalate_singleton]

/-- Segments that dots join are found again. -/
theorem splitDots_intercalate {l : List String} (hl : l ≠ []) (h : ∀ s ∈ l, IsSegment s) :
    splitDots (".".intercalate l) = l := by
  induction l using List.reverseRecOn with
  | nil => exact absurd rfl hl
  | append_singleton l s ih =>
    have hs := (h s (List.mem_append_right _ (List.mem_singleton_self s))).2
    by_cases hnil : l = []
    · subst hnil
      exact splitDots_of_not_mem hs
    · rw [intercalate_concat hnil, splitDots_append_dot, splitDots_of_not_mem hs,
        ih hnil fun x hx => h x (List.mem_append_left _ hx)]

/-- Texts that dots join are equal only if their segments are. -/
theorem intercalate_inj {l l' : List String} (hl : l ≠ []) (hl' : l' ≠ [])
    (h : ∀ s ∈ l, IsSegment s) (h' : ∀ s ∈ l', IsSegment s)
    (heq : ".".intercalate l = ".".intercalate l') : l = l' := by
  rw [← splitDots_intercalate hl h, heq, splitDots_intercalate hl' h']

/-- Segments that dots join make some text. -/
theorem intercalate_ne_empty {l : List String} (hl : l ≠ []) (h : ∀ s ∈ l, IsSegment s) :
    ".".intercalate l ≠ "" := fun heq => by
  have hempty : l = [""] := by rw [← splitDots_intercalate hl h, heq]; rfl
  exact (h "" (hempty ▸ List.mem_singleton_self _)).1 rfl

/-- A dot comes before one more segment, unless it is the first one. -/
theorem pathTo_intercalate {l : List String} (h : ∀ s ∈ l, IsSegment s) (s : String) :
    Planner.pathTo (".".intercalate l) s = ".".intercalate (l ++ [s]) := by
  unfold Planner.pathTo
  by_cases hl : l = []
  · subst hl
    rfl
  · rw [if_neg (by simpa using intercalate_ne_empty hl h), intercalate_concat hl]

/-- What a path is cut into has no dots; nothing of it is empty, if no segment is. -/
theorem isSegment_of_mem_splitDots {path s : String} (hs : s ∈ splitDots path)
    (hempty : (splitDots path).contains "" = false) : IsSegment s := by
  refine ⟨fun h => ?_, ?_⟩
  · subst h
    simp [hs] at hempty
  · obtain ⟨cs, hcs, rfl⟩ := List.mem_map.1 hs
    simpa using segments_free _ cs hcs

end Text

/-! ### Along relations -/

/-- What relations lead to from a schema. -/
def Catalog.relatedAt? (c : Catalog) (s : Schema) (names : List String) : Option Schema :=
  names.foldlM (fun t name => (t.component? name).bind fun comp => (c.schema comp.target).toOption) s

/-- One more relation at the end. -/
theorem Catalog.relatedAt?_concat (c : Catalog) (s : Schema) (names : List String) (name : String) :
    c.relatedAt? s (names ++ [name]) = (c.relatedAt? s names).bind fun t =>
      (t.component? name).bind fun comp => (c.schema comp.target).toOption := by
  simp [relatedAt?, List.foldlM_append]

namespace Planner

variable {c : Catalog} {p p' : Planner} {start parent i : Nat} {comp : Component}
  {names segments : List String} {r : Reached} {denoted : Resolution}

/-- Nodes that relations lead to from a node, each relation joining one node to the next. -/
inductive JoinedAlong (p : Planner) (start : Nat) : List String → Nat → Prop
  | start : JoinedAlong p start [] start
  | join {names : List String} {parent i : Nat} {comp : Component}
      (h : JoinedAlong p start names parent) (hi : (p.node i).parent = some (parent, comp)) :
      JoinedAlong p start (names ++ [comp.name]) i

/-- What segments lead to from a node: along relations to a node, then to what its schema embeds, and to
an atomic at last; beside it what they denote. -/
inductive Leads (p : Planner) (start : Nat) : List String → Resolution → Reached → Prop
  | node {names : List String} {i : Nat} (h : JoinedAlong p start names i) :
      Leads p start names (.entity (p.node i).schema) (.node i)
  | embedded {names path : List String} {i : Nat} {s : Schema} (h : JoinedAlong p start names i)
      (hpath : path ≠ []) (hs : (p.node i).schema.embeddedAt? path = some s) :
      Leads p start (names ++ path) (.entity s) (.embedded i path)
  | scalar {names path : List String} {i : Nat} {s : Schema} {a : Atomic}
      (h : JoinedAlong p start names i) (hs : (p.node i).schema.embeddedAt? path = some s)
      (ha : s.atomic? a.name = some a) :
      Leads p start (names ++ path ++ [a.name]) (.scalar s a) (.scalar i path s a)

/-- How the statement joins a node to its parent: the primary table of the component's target stands in a
left join, where the two columns of the relation are equal. -/
structure JoinedBy (c : Catalog) (p : Planner) (parent : Nat) (comp : Component) (i : Nat) :
    Prop where
  component : (p.node parent).schema.component? comp.name = some comp
  target : c.schema comp.target = .ok (p.node i).schema
  clause : ∃ join here there left right, c.join (p.node parent).schema comp = .ok join ∧
    (p.node parent).schema.atomic join.localAtomic = .ok here ∧
    (p.node i).schema.atomic join.remoteAtomic = .ok there ∧
    (p.node i).column (p.node i).schema there = .ok left ∧
    (p.node parent).column (p.node parent).schema here = .ok right ∧
    ⟨.left, ⟨(p.node i).schema.table, some (p.node i).tableAlias⟩,
      [.binary (.name left) .eq (.name right)]⟩ ∈ p.joins

/-- Every node that has a parent is joined to it. -/
def Linked (c : Catalog) (p : Planner) : Prop :=
  ∀ i parent comp, (p.node i).parent = some (parent, comp) → JoinedBy c p parent comp i

/-- What has a parent is a node. -/
theorem lt_of_parent (h : (p.node i).parent = some (parent, comp)) : i < p.nodes.length := by
  by_contra hi
  rw [node, List.getD_eq_getElem?_getD, List.getElem?_eq_none (Nat.le_of_not_lt hi)] at h
  cases h

/-- Relations lead to the same node when more has been planned. -/
theorem JoinedAlong.extends (h : JoinedAlong p start names i) (hext : Extends p p') :
    JoinedAlong p' start names i := by
  induction h with
  | start => exact .start
  | join _ hi ih =>
    obtain ⟨b, hb⟩ := hext.node _ (lt_of_parent hi)
    exact ih.join (by rw [hb]; exact hi)

/-- Nodes stand for what the relations lead to. -/
theorem JoinedAlong.relatedAt? (hsound : Sound c p) (h : JoinedAlong p start names i) :
    c.relatedAt? (p.node start).schema names = some (p.node i).schema := by
  induction h with
  | start => rfl
  | join _ hi ih =>
    obtain ⟨-, hcomp, htarget, -⟩ := hsound.parent _ (lt_of_parent hi) _ _ hi
    rw [Catalog.relatedAt?_concat, ih, Option.bind_some, hcomp, Option.bind_some, htarget,
      hsound.schema _ (lt_of_parent hi)]
    rfl

/-- Segments lead to the same when more has been planned. -/
theorem Leads.extends (h : Leads p start segments denoted r) (hr : p.Reaches r) (hext : Extends p p') :
    Leads p' start segments denoted r := by
  obtain ⟨b, hb⟩ := hext.node r.home hr.home_lt
  have hschema : (p'.node r.home).schema = (p.node r.home).schema := by rw [hb]
  cases h with
  | node h =>
    rw [Reached.home] at hschema
    rw [← hschema]
    exact .node (h.extends hext)
  | embedded h hpath hs => exact .embedded (h.extends hext) hpath (hschema ▸ hs)
  | scalar h hs ha => exact .scalar (h.extends hext) (hschema ▸ hs) ha

/-- Joins are added behind those that are there. -/
theorem Steps.joins (h : Steps c p p') : p.joins <+: p'.joins := by
  induction h with
  | refl => exact List.prefix_refl _
  | tail _ hstep ih =>
    refine ih.trans ?_
    cases hstep with
    | root => exact List.prefix_append _ _
    | child => exact List.prefix_append _ _
    | map => exact List.prefix_refl _

/-- A node stays joined to its parent. -/
theorem JoinedBy.steps (h : JoinedBy c p parent comp i) (hi : i < p.nodes.length)
    (hparent : parent < p.nodes.length) (hsteps : Steps c p p') : JoinedBy c p' parent comp i := by
  have hext := Extends.steps hsteps
  obtain ⟨b, hb⟩ := hext.node i hi
  obtain ⟨b', hb'⟩ := hext.node parent hparent
  obtain ⟨join, here, there, left, right, hjoin, hhere, hthere, hleft, hright, hmem⟩ := h.clause
  exact {
    component := by rw [hb']; exact h.component
    target := by rw [hb]; exact h.target
    clause := by
      rw [hb, hb']
      exact ⟨join, here, there, left, right, hjoin, hhere, hthere, hleft, hright,
        hsteps.joins.subset hmem⟩ }

/-- A step joins a node that it adds, unless it is a root. -/
theorem Linked.step (hsound : Sound c p) (h : Linked c p) (hstep : Step c p p') : Linked c p' := by
  intro i parent comp hi
  have hold : i < p.nodes.length → JoinedBy c p' parent comp i := fun hlt => by
    obtain ⟨b, hb⟩ := (Extends.step hstep).node i hlt
    rw [hb] at hi
    have hparent := (hsound.parent i hlt parent comp hi).1
    exact (h i parent comp hi).steps hlt (Nat.lt_trans hparent hlt) (.single hstep)
  have hlt := lt_of_parent hi
  cases hstep with
  | root hs hkey =>
    rcases lt_or_eq rfl hlt with hlt | rfl
    · exact hold hlt
    · rw [node_length rfl] at hi
      cases hi
  | @child path parent' comp' target key here there join left right hparent hcomp hnew htarget hkey
      hjoin hhere hthere htable hleft hright =>
    rcases lt_or_eq rfl hlt with hlt | rfl
    · exact hold hlt
    · have hnode : (p.withChild path parent' comp' target key left right).node p.nodes.length =
          p.fresh target (some (parent', comp')) := node_length rfl
      rw [hnode] at hi
      obtain ⟨rfl, rfl⟩ := Prod.mk.inj (Option.some.inj hi)
      have hother : (p.withChild path parent' comp' target key left right).node parent' =
          p.node parent' := node_of_lt rfl hparent
      refine ⟨by rw [hother]; exact hcomp, by rw [hnode]; exact htarget, ?_⟩
      rw [hnode, hother]
      refine ⟨join, here, there, left, right, hjoin, hhere, hthere, hleft, hright, ?_⟩
      exact List.mem_append_right _ (List.mem_append_left _ (List.mem_singleton_self _))
  | map => exact hold (by simpa using hlt)

/-- In a plan that has grown from nothing, every node that has a parent is joined to it. -/
theorem linked_of_steps (h : Steps c {} p) : Linked c p := by
  induction h with
  | refl => exact fun _ _ _ hi => nomatch hi
  | tail hsteps hstep ih => exact ih.step ((Sound.empty c).steps hsteps) hstep

end Planner

/-! ### Where paths start -/

namespace Query

open Planner

variable {c : Catalog} {q : Query} {sc : Scope} {p p' : Planner} {start i k : Nat}
  {name first : String} {names segments : List String}

/-- The latest of some roots that is listed under an alias. -/
def Latest (roots : List (String × String)) (name : String) (k : Nat) : Prop :=
  (∃ type, roots[k]? = some (name, type)) ∧ ∀ j r, roots[j]? = some r → r.1 = name → j ≤ k

/-- The node where a path starts, and the segments that are left: an implicit root, with all segments; or
the latest root with the alias that comes first; or else the only root of the type that comes first. -/
inductive Starts (q : Query) : List String → Nat → List String → Prop
  | implicit {segments : List String} (h : q.root.isSome) : Starts q segments 0 segments
  | aliased {name : String} {k : Nat} {rest : List String} (h : q.root = none)
      (hk : Latest q.roots name k) : Starts q (name :: rest) k rest
  | typed {type name : String} {k : Nat} {rest : List String} (h : q.root = none)
      (hno : ∀ r ∈ q.roots, r.1 ≠ type) (hk : q.roots[k]? = some (name, type))
      (honly : ∀ j r, q.roots[j]? = some r → r.2 = type → j = k) : Starts q (type :: rest) k rest

/-- The roots of a query are the first nodes of its plan, one after the other. -/
structure Rooted (c : Catalog) (q : Query) (p : Planner) : Prop where
  implicit : ∀ type, q.root = some type → p.roots = [0] ∧ c.schema type = .ok (p.node 0).schema
  explicit : q.root = none → p.roots = List.range q.roots.length ∧
    ∀ k r, q.roots[k]? = some r → c.schema r.2 = .ok (p.node k).schema

/-- The alias of a root spells the way along relations that some segments begin with. -/
def Shadowed (c : Catalog) (q : Query) (sc : Scope) (segments : List String) : Prop :=
  q.root = none ∧ ∃ r ∈ q.roots, ∃ first names s, names ≠ [] ∧ first :: names <+: segments ∧
    r.1 = ".".intercalate (first :: names) ∧ sc.named? c first = some s ∧
    (c.relatedAt? s names).isSome

/-- Only one root is the latest under an alias. -/
theorem Latest.unique {roots : List (String × String)} {k k' : Nat} (h : Latest roots name k)
    (h' : Latest roots name k') : k = k' := by
  obtain ⟨⟨_, hk⟩, hlast⟩ := h
  obtain ⟨⟨_, hk'⟩, hlast'⟩ := h'
  exact Nat.le_antisymm (hlast' _ _ hk rfl) (hlast _ _ hk' rfl)

/-- The root that is listed last is the latest under its alias. -/
theorem Latest.concat (roots : List (String × String)) (r : String × String) :
    Latest (roots ++ [r]) r.1 roots.length := by
  refine ⟨⟨r.2, by simp⟩, fun j r' hj _ => ?_⟩
  rcases getElem?_append_singleton.1 hj with hj | ⟨rfl, -⟩
  · exact Nat.le_of_lt (List.getElem?_eq_some_iff.1 hj).1
  · exact Nat.le_refl _

/-- The latest root under an alias stays the latest when another alias follows. -/
theorem Latest.append {roots : List (String × String)} {r : String × String} (h : Latest roots name k)
    (hr : r.1 ≠ name) : Latest (roots ++ [r]) name k := by
  obtain ⟨⟨type, hk⟩, hlast⟩ := h
  refine ⟨⟨type, getElem?_append_singleton.2 (.inl hk)⟩, fun j r' hj hname => ?_⟩
  rcases getElem?_append_singleton.1 hj with hj | ⟨-, rfl⟩
  · exact hlast j r' hj hname
  · exact absurd hname hr

/-- A path starts in one place only. -/
theorem Starts.unique {start' : Nat} {rest rest' : List String} (h : q.Starts segments start rest)
    (h' : q.Starts segments start' rest') : start = start' ∧ rest = rest' := by
  cases h with
  | implicit h =>
    cases h' with
    | implicit => exact ⟨rfl, rfl⟩
    | aliased h' => rw [h'] at h; cases h
    | typed h' => rw [h'] at h; cases h
  | aliased h hk =>
    cases h' with
    | implicit h' => rw [h] at h'; cases h'
    | aliased _ hk' => exact ⟨hk.unique hk', rfl⟩
    | typed _ hno =>
      obtain ⟨_, hk⟩ := hk.1
      exact absurd rfl (hno _ (List.mem_of_getElem? hk))
  | typed h hno hk honly =>
    cases h' with
    | implicit h' => rw [h] at h'; cases h'
    | aliased _ hk' =>
      obtain ⟨_, hk'⟩ := hk'.1
      exact absurd rfl (hno _ (List.mem_of_getElem? hk'))
    | typed _ _ hk' honly' => exact ⟨honly' _ _ hk rfl, rfl⟩

/-- A path starts in the same place when it goes on. -/
theorem Starts.append {rest : List String} (h : q.Starts segments start rest) (more : List String) :
    q.Starts (segments ++ more) start (rest ++ more) := by
  cases h with
  | implicit h => exact .implicit h
  | aliased h hk => exact .aliased h hk
  | typed h hno hk honly => exact .typed h hno hk honly

/-- What begins with segments that are shadowed is shadowed. -/
theorem Shadowed.mono {segments' : List String} (h : Shadowed c q sc segments)
    (hbegins : segments <+: segments') : Shadowed c q sc segments' := by
  obtain ⟨hroot, r, hr, first, names, s, hne, hnames, hspells, hs⟩ := h
  exact ⟨hroot, r, hr, first, names, s, hne, hnames.trans hbegins, hspells, hs⟩

/-! ### Finding nodes by their texts -/

/-- What a plan has under a text: a root under its alias; or a node that the segments of the text lead to
along relations, unless they are shadowed. -/
inductive Entry (c : Catalog) (q : Query) (sc : Scope) (p : Planner) : String → Nat → Prop
  | implicit (h : q.root.isSome) : Entry c q sc p "" 0
  | root {name : String} {k : Nat} (h : q.root = none) (hk : Latest q.roots name k) :
      Entry c q sc p name k
  | joined {segments names : List String} {start i : Nat} (h : ∀ s ∈ segments, Text.IsSegment s)
      (hstarts : q.Starts segments start names) (hne : names ≠ []) (hi : p.JoinedAlong start names i) :
      Entry c q sc p (".".intercalate segments) i
  | shadowed {segments : List String} {i : Nat} (h : ∀ s ∈ segments, Text.IsSegment s)
      (hshadowed : Shadowed c q sc segments) : Entry c q sc p (".".intercalate segments) i

/-- A plan under construction, past its roots: what it has under texts is what they spell. -/
structure Charted (c : Catalog) (q : Query) (sc : Scope) (p : Planner) : Prop where
  begun : Begun c p
  rooted : Rooted c q p
  entry : ∀ key i, p.byPath.lookup key = some i → Entry c q sc p key i
  known : q.root = none → ∀ r ∈ q.roots, (p.byPath.lookup r.1).isSome

/-- What has been found under a text stays when more has been planned. -/
theorem Entry.extends {key : String} (h : Entry c q sc p key i) (hext : p.Extends p') :
    Entry c q sc p' key i := by
  cases h with
  | implicit h => exact .implicit h
  | root h hk => exact .root h hk
  | joined h hstarts hne hi => exact .joined h hstarts hne (hi.extends hext)
  | shadowed h hshadowed => exact .shadowed h hshadowed

/-- Roots keep their places when more has been planned. -/
theorem Rooted.extends (h : Rooted c q p) (hext : p.Extends p') (hroots : p'.roots = p.roots)
    (hlt : ∀ i ∈ p.roots, i < p.nodes.length) : Rooted c q p' := by
  have hschema : ∀ i ∈ p.roots, (p'.node i).schema = (p.node i).schema := fun i hi => by
    obtain ⟨b, hb⟩ := hext.node i (hlt i hi)
    rw [hb]
  refine ⟨fun type htype => ?_, fun hnone => ?_⟩
  · obtain ⟨hzero, hs⟩ := h.implicit type htype
    exact ⟨hroots.trans hzero, by rw [hschema 0 (by simp [hzero])]; exact hs⟩
  · obtain ⟨hrange, hs⟩ := h.explicit hnone
    refine ⟨hroots.trans hrange, fun k r hk => ?_⟩
    have hlt := (List.getElem?_eq_some_iff.1 hk).1
    rw [hschema k (by simpa [hrange] using hlt)]
    exact hs k r hk

/-- Mapping a node leaves the texts alone. -/
theorem Charted.setMappedIf (h : Charted c q sc p) (mapped : Bool) (hi : i < p.nodes.length) :
    Charted c q sc (p.setMappedIf mapped i) := by
  have hsteps := steps_setMappedIf c mapped hi
  have hext := Extends.steps hsteps
  have hroots : (p.setMappedIf mapped i).roots = p.roots := by cases mapped <;> rfl
  exact {
    begun := ⟨h.begun.sound.steps hsteps, Nat.lt_of_lt_of_le h.begun.nodes hext.length⟩
    rooted := h.rooted.extends hext hroots fun i hi => (h.begun.sound.roots i hi).1
    entry := fun key j hj => (h.entry key j (by simpa using hj)).extends hext
    known := fun hnone r hr => by simpa using h.known hnone r hr }

/-- A relation is joined under the text that spells the way to it. -/
theorem Charted.withChild {comp : Component} {target : Schema} {parent : Nat} {key : Atomic}
    {left right path : String} (h : Charted c q sc p)
    (hstep : Step c p (p.withChild path parent comp target key left right))
    (hentry : Entry c q sc (p.withChild path parent comp target key left right) path p.nodes.length) :
    Charted c q sc (p.withChild path parent comp target key left right) := by
  have hext := Extends.step hstep
  refine {
    begun := ⟨h.begun.sound.step hstep, Nat.lt_of_lt_of_le h.begun.nodes hext.length⟩
    rooted := h.rooted.extends hext rfl fun i hi => (h.begun.sound.roots i hi).1
    entry := fun key' j hj => ?_
    known := fun hnone r hr => ?_ }
  · have hlookup : (p.withChild path parent comp target key left right).byPath.lookup key' =
        if key' == path then some p.nodes.length else p.byPath.lookup key' := by
      show List.lookup key' ((path, p.nodes.length) :: p.byPath) = _
      rw [List.lookup_cons]
      split <;> simp_all
    rw [hlookup] at hj
    split at hj
    · next heq =>
      obtain rfl := eq_of_beq heq
      exact Option.some.inj hj ▸ hentry
    · exact (h.entry key' j hj).extends hext
  · obtain ⟨i, hi⟩ := Option.isSome_iff_exists.1 (h.known hnone r hr)
    show (List.lookup r.1 ((path, p.nodes.length) :: p.byPath)).isSome
    rw [List.lookup_cons]
    split
    · rfl
    · exact h.known hnone r hr

/-! ### Walking a path -/

/-- How a path has come to a node: from where it starts, along relations only. -/
structure Heading (c : Catalog) (q : Query) (sc : Scope) (p : Planner) (done : List String)
    (start : Nat) (names : List String) (i : Nat) : Prop where
  starts : q.Starts done start names
  along : p.JoinedAlong start names i
  lt : start < p.nodes.length
  named : q.root = none → ∃ first, done = first :: names ∧
    sc.named? c first = some (p.node start).schema

/-- A path has come to where it is when more has been planned. -/
theorem Heading.extends {done : List String} (h : Heading c q sc p done start names i)
    (hext : p.Extends p') : Heading c q sc p' done start names i where
  starts := h.starts
  along := h.along.extends hext
  lt := Nat.lt_of_lt_of_le h.lt hext.length
  named hnone := by
    obtain ⟨b, hb⟩ := hext.node start h.lt
    rw [hb]
    exact h.named hnone

/-- A path goes on along one more relation. -/
theorem Heading.join {done : List String} {parent : Nat} {comp : Component}
    (h : Heading c q sc p done start names parent) (hi : p.JoinedAlong start (names ++ [comp.name]) i) :
    Heading c q sc p (done ++ [comp.name]) start (names ++ [comp.name]) i where
  starts := h.starts.append _
  along := hi
  lt := h.lt
  named hnone := by
    obtain ⟨first, rfl, hfirst⟩ := h.named hnone
    exact ⟨first, rfl, hfirst⟩

/-- What a text with more than a root finds has segments. -/
theorem Starts.ne_nil (h : q.Starts segments start names) (hne : names ≠ []) : segments ≠ [] := by
  cases h with
  | implicit => exact hne
  | aliased => exact List.cons_ne_nil _ _
  | typed => exact List.cons_ne_nil _ _

/-- Nothing shadows no segments. -/
theorem Shadowed.ne_nil (h : Shadowed c q sc segments) : segments ≠ [] := by
  obtain ⟨-, r, -, first, names, s, -, hbegins, -⟩ := h
  rintro rfl
  cases List.prefix_nil.1 hbegins

/-- What the text of a relation leads to is joined along it, unless a root has this text as its alias. -/
theorem Charted.joined {done : List String} {parent : Nat} {comp : Component} {target : Schema}
    (h : Charted c q sc p)
    (hcomp : (p.node parent).schema.component? comp.name = some comp)
    (hdone : ∀ s ∈ done ++ [comp.name], Text.IsSegment s)
    (hheading : Heading c q sc p done start names parent) (htarget : c.schema comp.target = .ok target)
    (hfound : p.byPath.lookup (".".intercalate (done ++ [comp.name])) = some i) :
    Shadowed c q sc (done ++ [comp.name]) ∨
      p.JoinedAlong start (names ++ [comp.name]) i ∧ (p.node i).schema = target := by
  have hrelated : c.relatedAt? (p.node start).schema (names ++ [comp.name]) = some target := by
    rw [Catalog.relatedAt?_concat, hheading.along.relatedAt? h.begun.sound, Option.bind_some, hcomp,
      Option.bind_some, htarget]
    rfl
  have hne : done ++ [comp.name] ≠ [] := by simp
  have hentry := h.entry _ i hfound
  generalize htext : ".".intercalate (done ++ [comp.name]) = text at hentry
  cases hentry with
  | implicit => exact absurd htext (Text.intercalate_ne_empty hne hdone)
  | root hnone hk =>
    -- the alias of the root spells the way that the path has taken
    obtain ⟨first, rfl, hfirst⟩ := hheading.named hnone
    obtain ⟨type, hk⟩ := hk.1
    exact .inl ⟨hnone, _, List.mem_of_getElem? hk, first, names ++ [comp.name], _, by simp,
      List.prefix_refl _, htext.symm, hfirst, by rw [hrelated]; rfl⟩
  | joined hsegments hstarts hnames hi =>
    obtain rfl := Text.intercalate_inj hne (hstarts.ne_nil hnames) hdone hsegments htext
    obtain ⟨rfl, rfl⟩ := (hheading.starts.append [comp.name]).unique hstarts
    exact .inr ⟨hi, Option.some.inj ((hi.relatedAt? h.begun.sound).symm.trans hrelated)⟩
  | shadowed hsegments hshadowed =>
    obtain rfl := Text.intercalate_inj hne hshadowed.ne_nil hdone hsegments htext
    exact .inl hshadowed

/-- A relation that a path goes along is joined, unless the path is shadowed; the plan stays charted. -/
theorem charted_of_joins {done : List String} {parent j : Nat} {comp : Component} {target : Schema}
    (h : Charted c q sc p) (hcomp : (p.node parent).schema.component? comp.name = some comp)
    (hdone : ∀ s ∈ done ++ [comp.name], Text.IsSegment s)
    (hway : Shadowed c q sc done ∨
      Heading c q sc p done start names parent ∧ c.schema comp.target = .ok target)
    (hjoins : Joins c p (".".intercalate (done ++ [comp.name])) parent comp j p') :
    Charted c q sc p' ∧ (Shadowed c q sc (done ++ [comp.name]) ∨
      Heading c q sc p' (done ++ [comp.name]) start (names ++ [comp.name]) j ∧
        (p'.node j).schema = target) := by
  have hgoes : Shadowed c q sc done → Shadowed c q sc (done ++ [comp.name]) :=
    fun h => h.mono (List.prefix_append _ _)
  cases hjoins with
  | known hfound =>
    refine ⟨h, ?_⟩
    rcases hway with hshadowed | ⟨hheading, htarget⟩
    · exact .inl (hgoes hshadowed)
    · exact (h.joined hcomp hdone hheading htarget hfound).imp_right fun ⟨hi, hs⟩ =>
        ⟨hheading.join hi, hs⟩
  | @added target' key left right _ htarget' hstep =>
    have hext := Extends.step hstep
    have hnode : (p.withChild (".".intercalate (done ++ [comp.name])) parent comp target' key left
        right).node p.nodes.length = p.fresh target' (some (parent, comp)) := node_length rfl
    rcases hway with hshadowed | ⟨hheading, htarget⟩
    · exact ⟨h.withChild hstep (.shadowed hdone (hgoes hshadowed)), .inl (hgoes hshadowed)⟩
    · have hjoined := (hheading.along.extends hext).join (by rw [hnode]; rfl)
      refine ⟨h.withChild hstep (.joined hdone (hheading.starts.append _) (by simp) hjoined),
        .inr ⟨(hheading.extends hext).join hjoined, ?_⟩⟩
      rw [hnode]
      exact Except.ok.inj (htarget'.symm.trans htarget)

/-- A path that goes along a relation comes to what the relation leads to, unless it is shadowed. -/
theorem heading_of_joins {chain : String} {done rest : List String} {parent j : Nat} {comp : Component}
    {denoted : Resolution} (h : Charted c q sc p)
    (hcomp : (p.node parent).schema.component? comp.name = some comp)
    (hdone : ∀ s ∈ done ++ [comp.name], Text.IsSegment s)
    (hway : Shadowed c q sc done ∨ Heading c q sc p done start names parent ∧
      Resolution.follow c chain (.entity (p.node parent).schema) (comp.name :: rest) = .ok denoted)
    (hjoins : Joins c p (".".intercalate (done ++ [comp.name])) parent comp j p') :
    Charted c q sc p' ∧ (Shadowed c q sc (done ++ [comp.name]) ∨
      Heading c q sc p' (done ++ [comp.name]) start (names ++ [comp.name]) j ∧
        Resolution.follow c chain (.entity (p'.node j).schema) rest = .ok denoted) := by
  rcases hway with hshadowed | ⟨hheading, hfollow⟩
  · have hway : Shadowed c q sc done ∨ Heading c q sc p done start names parent ∧
        c.schema comp.target = .ok default := .inl hshadowed
    obtain ⟨h', -⟩ := charted_of_joins h hcomp hdone hway hjoins
    exact ⟨h', .inl (hshadowed.mono (List.prefix_append _ _))⟩
  · rw [Resolution.follow_cons] at hfollow
    obtain ⟨_, hstep, hrest⟩ := bind_eq_ok_iff.1 hfollow
    simp only [Resolution.step, hcomp] at hstep
    cases htarget : c.schema comp.target with
    | error e => rw [htarget] at hstep; cases hstep
    | ok target =>
      rw [htarget] at hstep
      obtain rfl := Except.ok.inj hstep
      obtain ⟨h', hway'⟩ := charted_of_joins h hcomp hdone (.inr ⟨hheading, htarget⟩) hjoins
      exact ⟨h', hway'.imp_right (And.imp_right fun hs => by rwa [hs])⟩

/-- Segments lead to what they denote, unless they are shadowed. -/
theorem charted_of_walks {chain key : String} {mapped : Bool} {embeds done : List String}
    {s : Schema} {r : Reached} {denoted : Resolution}
    (hwalks : Walks c mapped p i key embeds s segments r p') (h : Charted c q sc p)
    (hkey : key = ".".intercalate done) (hdone : ∀ x ∈ done ++ segments, Text.IsSegment x)
    (hway : Shadowed c q sc done ∨ Heading c q sc p done start names i ∧
      Resolution.follow c chain (.entity s) segments = .ok denoted) :
    Charted c q sc p' ∧ (Shadowed c q sc (done ++ embeds ++ segments) ∨
      p'.Leads start (names ++ embeds ++ segments) denoted r) := by
  induction hwalks generalizing done names with
  | node hi =>
    refine ⟨h, hway.imp (fun hshadowed => hshadowed.mono (by simp)) fun ⟨hheading, hfollow⟩ => ?_⟩
    obtain rfl := Except.ok.inj hfollow
    simpa using Leads.node hheading.along
  | embedded hi hs hembeds =>
    refine ⟨h, hway.imp (fun hshadowed => hshadowed.mono (by simp)) fun ⟨hheading, hfollow⟩ => ?_⟩
    obtain rfl := Except.ok.inj hfollow
    simpa using Leads.embedded hheading.along hembeds hs
  | @scalar p i path embeds rest s a hi hs hcomp hembedded hatomic =>
    refine ⟨h, hway.imp (fun hshadowed => hshadowed.mono (by simp)) fun ⟨hheading, hfollow⟩ => ?_⟩
    have hstep : (Resolution.entity s).step c chain a.name = .ok (.scalar s a) := by
      simp only [Resolution.step, hcomp, hembedded, hatomic]
    rw [Resolution.follow_cons, hstep] at hfollow
    -- an atomic has no further segments
    cases rest with
    | nil =>
      obtain rfl := Except.ok.inj hfollow
      exact .scalar hheading.along hs hatomic
    | cons _ _ => cases hfollow
  | @through p p' i path segment embeds rest s e r hcomp hembedded _ ih =>
    have hstep : (Resolution.entity s).step c chain segment = .ok (.entity e) := by
      simp only [Resolution.step, hcomp, hembedded]
    rw [Resolution.follow_cons, hstep] at hway
    have hsegments : ∀ l : List String, l ++ (embeds ++ [segment]) ++ rest =
        l ++ embeds ++ segment :: rest := fun l => by simp
    rw [← hsegments done, ← hsegments names]
    have hrest : ∀ x ∈ done ++ rest, Text.IsSegment x := fun x hx =>
      hdone x (by simp only [List.mem_append, List.mem_cons] at hx ⊢; tauto)
    exact ih h hkey hrest hway
  | @along p p₁ p' i j path comp rest r hi hcomp hjoins hrest ih =>
    have hsegments : ∀ l : List String, (l ++ [comp.name]) ++ [] ++ rest = l ++ [] ++ comp.name :: rest :=
      fun l => by simp
    have hdone' : ∀ x ∈ done ++ [comp.name], Text.IsSegment x := fun x hx =>
      hdone x (by simp only [List.mem_append, List.mem_cons] at hx ⊢; tauto)
    have hpath := Text.pathTo_intercalate (fun x hx => hdone x (List.mem_append_left _ hx)) comp.name
    rw [← hkey] at hpath
    rw [hpath] at hjoins
    obtain ⟨h₁, hway₁⟩ := heading_of_joins h hcomp hdone' hway hjoins
    have hj := hjoins.lt h.begun.sound
    have hext := Extends.steps (steps_setMappedIf c mapped hj)
    rw [← hsegments done, ← hsegments names]
    refine ih (h₁.setMappedIf mapped hj) hpath (by simpa using hdone) ?_
    rw [schema_setMappedIf]
    exact hway₁.imp_right (And.imp_left fun hheading => hheading.extends hext)

/-- What a scope says of first segments: aliases stand for the types of the latest roots, and other names
for themselves. -/
structure Scoped (c : Catalog) (q : Query) (sc : Scope) : Prop where
  implicit : ∀ type, q.root = some type → ∃ s, sc.root = some s ∧ c.schema type = .ok s
  explicit : q.root = none → sc.root = none
  aliased : q.root = none → ∀ name k type, Latest q.roots name k → q.roots[k]? = some (name, type) →
    ∃ s, c.schema type = .ok s ∧ sc.named? c name = some s
  typed : q.root = none → ∀ type, (∀ r ∈ q.roots, r.1 ≠ type) → ∀ s, sc.named? c type = some s →
    c.schema type = .ok s

/-- An alias that is a single segment names a root of the schema that it denotes. -/
theorem Charted.starts_of_byPath {s : Schema} (hscoped : Scoped c q sc) (h : Charted c q sc p)
    (hnone : q.root = none) (hfirst : Text.IsSegment first) (hnamed : sc.named? c first = some s)
    (hfound : p.byPath.lookup first = some i) :
    (∀ rest, q.Starts (first :: rest) i rest) ∧ (p.node i).schema = s := by
  have honly : ∀ segments : List String, first = ".".intercalate segments → segments ≠ [] →
      (∀ x ∈ segments, Text.IsSegment x) → segments = [first] := fun segments heq hne hall => by
    rw [← Text.splitDots_intercalate hne hall, ← heq, Text.splitDots_of_not_mem hfirst.2]
  have hentry := h.entry _ _ hfound
  generalize htext : first = text at hentry
  cases hentry with
  | implicit h => exact absurd htext hfirst.1
  | root _ hk =>
    subst htext
    obtain ⟨type, htype⟩ := hk.1
    obtain ⟨s', hs', hnamed'⟩ := hscoped.aliased hnone _ _ _ hk htype
    refine ⟨fun rest => .aliased hnone hk, ?_⟩
    rw [Except.ok.inj (((h.rooted.explicit hnone).2 _ _ htype).symm.trans hs')]
    exact Option.some.inj (hnamed'.symm.trans hnamed)
  | joined hsegments hstarts hne =>
    obtain rfl := honly _ htext (hstarts.ne_nil hne) hsegments
    cases hstarts with
    | implicit h => rw [hnone] at h; cases h
    | aliased => exact absurd rfl hne
    | typed => exact absurd rfl hne
  | shadowed hsegments hshadowed =>
    obtain rfl := honly _ htext hshadowed.ne_nil hsegments
    obtain ⟨-, _, -, _, names, _, hne, hbegins, -⟩ := hshadowed
    have hlength := hbegins.length_le
    simp only [List.length_cons, List.length_nil] at hlength
    exact absurd (List.eq_nil_of_length_eq_zero (by omega)) hne

/-- A segment that is no alias names the only root of the type that it denotes. -/
theorem Charted.starts_of_unique {s : Schema} (hscoped : Scoped c q sc) (h : Charted c q sc p)
    (hnone : q.root = none) (hnamed : sc.named? c first = some s)
    (hfound : p.byPath.lookup first = none)
    (hunique : p.roots.filter (fun i => (p.node i).schema.name == first) = [i]) :
    (∀ rest, q.Starts (first :: rest) i rest) ∧ (p.node i).schema = s := by
  obtain ⟨hrange, hschema⟩ := h.rooted.explicit hnone
  have hno : ∀ r ∈ q.roots, r.1 ≠ first := fun r hr heq => by
    have hknown := h.known hnone r hr
    rw [heq, hfound] at hknown
    cases hknown
  have hmem : ∀ k, k ∈ p.roots.filter (fun i => (p.node i).schema.name == first) ↔ k = i := by
    simp [hunique]
  obtain ⟨hi, hname⟩ := List.mem_filter.1 ((hmem i).2 rfl)
  have hlt : i < q.roots.length := by simpa [hrange] using hi
  have hr := List.getElem?_eq_getElem hlt
  have htype : ∀ k r, q.roots[k]? = some r → (p.node k).schema.name = r.2 := fun k r hk =>
    Catalog.schema_name (hschema k r hk)
  have hfirst : (q.roots[i]).2 = first := (htype i _ hr).symm.trans (eq_of_beq hname)
  refine ⟨fun rest => .typed hnone hno (hr.trans (by rw [← hfirst])) fun k r hk hsame => ?_, ?_⟩
  · refine (hmem k).1 (List.mem_filter.2 ⟨?_, ?_⟩)
    · rw [hrange, List.mem_range]
      exact (List.getElem?_eq_some_iff.1 hk).1
    · rw [htype k r hk, hsame]
      exact beq_self_eq_true _
  · have hs := hschema i _ hr
    rw [hfirst, hscoped.typed hnone first hno s hnamed] at hs
    exact (Except.ok.inj hs).symm

/-- A first segment names a root of the schema that it denotes. -/
theorem Charted.starts_of_root? {s : Schema} (hscoped : Scoped c q sc) (h : Charted c q sc p)
    (hnone : q.root = none) (hfirst : Text.IsSegment first) (hnamed : sc.named? c first = some s)
    (hroot : p.root? first = some i) :
    (∀ rest, q.Starts (first :: rest) i rest) ∧ (p.node i).schema = s := by
  unfold root? at hroot
  cases hfound : p.byPath.lookup first with
  | some j =>
    simp only [hfound] at hroot
    obtain rfl := Option.some.inj hroot
    exact h.starts_of_byPath hscoped hnone hfirst hnamed hfound
  | none =>
    simp only [hfound] at hroot
    split at hroot
    · next j hunique =>
      obtain rfl := Option.some.inj hroot
      exact h.starts_of_unique hscoped hnone hnamed hfound hunique
    · cases hroot

/-- What a path leads to in a plan is what it denotes, whatever paths have been walked before. -/
def Finds (c : Catalog) (q : Query) (sc : Scope) (p : Planner) (chain : String) (r : Reached) : Prop :=
  ∃ denoted start rest, sc.lookup c chain = .ok denoted ∧
    q.Starts (Text.splitDots chain) start rest ∧ p.Leads start rest denoted r

/-- A walk starts at the root that comes first in the path, and goes on with what is left. -/
theorem run_walk_heading {chain : String} {mapped : Bool} {r : Reached} {denoted : Resolution}
    (hscoped : Scoped c q sc) (h : Charted c q sc p) (hlookup : sc.lookup c chain = .ok denoted)
    (hrun : (walk c sc.root.isSome chain mapped).run p = .ok (r, p')) :
    ∃ head start rest, Text.splitDots chain = head ++ rest ∧
      (∀ x ∈ head ++ rest, Text.IsSegment x) ∧ Heading c q sc p head start [] start ∧
      Resolution.follow c chain (.entity (p.node start).schema) rest = .ok denoted ∧
      (walkFrom c chain mapped start (".".intercalate head) [] (p.node start).schema rest).run p =
        .ok (r, p') := by
  unfold Scope.lookup at hlookup
  unfold walk at hrun
  rw [run_get_bind] at hrun
  dsimp only at hlookup hrun
  split at hlookup
  · cases hlookup
  next hempty =>
  have hall : ∀ x ∈ Text.splitDots chain, Text.IsSegment x := fun x hx =>
    Text.isSegment_of_mem_splitDots hx (by simpa using hempty)
  cases hroot : q.root with
  | some type =>
    have hstarts : ∀ l, q.Starts l 0 l := fun _ => .implicit (by rw [hroot]; rfl)
    obtain ⟨root, hsc, hs⟩ := hscoped.implicit type hroot
    simp only [Scope.start?, hsc] at hlookup
    simp only [hsc, Option.isSome_some, if_true] at hrun
    have hsame : (p.node 0).schema = root :=
      Except.ok.inj ((h.rooted.implicit type hroot).2.symm.trans hs)
    have hheading : Heading c q sc p [] 0 [] 0 :=
      ⟨hstarts [], .start, h.begun.nodes, fun hnone => by rw [hroot] at hnone; cases hnone⟩
    exact ⟨[], 0, _, rfl, hall, hheading, hsame ▸ hlookup, hrun⟩
  | none =>
    simp only [Scope.start?, hscoped.explicit hroot] at hlookup
    simp only [hscoped.explicit hroot, Option.isSome_none, Bool.false_eq_true, if_false] at hrun
    cases hsegments : Text.splitDots chain with
    | nil =>
      simp only [hsegments] at hrun
      cases hrun
    | cons first rest =>
      simp only [hsegments] at hrun hlookup
      rw [hsegments] at hall
      cases hnamed : sc.named? c first with
      | none =>
        simp only [hnamed] at hlookup
        cases hlookup
      | some s =>
        simp only [hnamed, Option.map_some] at hlookup
        cases hfirst : p.root? first with
        | none =>
          simp only [hfirst] at hrun
          cases hrun
        | some i =>
          simp only [hfirst] at hrun
          obtain ⟨hstarts, rfl⟩ :=
            h.starts_of_root? hscoped hroot (hall first List.mem_cons_self) hnamed hfirst
          have hheading : Heading c q sc p [first] i [] i :=
            ⟨hstarts [], .start, lt_of_root? h.begun.sound hfirst, fun _ => ⟨first, rfl, hnamed⟩⟩
          have htext : ".".intercalate [first] = first := String.intercalate_singleton
          exact ⟨[first], i, rest, rfl, hall, hheading, hlookup, by rwa [htext]⟩

/-- A path that is not shadowed leads to what it denotes. -/
theorem run_walk_charted {chain : String} {mapped : Bool} {r : Reached} {denoted : Resolution}
    (hscoped : Scoped c q sc) (h : Charted c q sc p) (hlookup : sc.lookup c chain = .ok denoted)
    (hrun : (walk c sc.root.isSome chain mapped).run p = .ok (r, p')) :
    Charted c q sc p' ∧ (¬ Shadowed c q sc (Text.splitDots chain) → Finds c q sc p' chain r) := by
  obtain ⟨head, start, rest, hsegments, hall, hheading, hfollow, hrun⟩ :=
    run_walk_heading hscoped h hlookup hrun
  have hwalks := walks_of_walkFrom h.begun.sound hheading.lt rfl hrun
  obtain ⟨h', hway⟩ := charted_of_walks hwalks h rfl hall (.inr ⟨hheading, hfollow⟩)
  refine ⟨h', fun hfree => ⟨denoted, start, rest, hlookup, ?_, ?_⟩⟩
  · rw [hsegments]
    exact hheading.starts.append rest
  · rw [hsegments] at hfree
    simpa using hway.resolve_left (by simpa using hfree)

/-- Visiting a path makes known that it leads to what it denotes, unless it is shadowed. -/
theorem knowing_finds (hscoped : Scoped c q sc) (hbuilt : sc.Built c) :
    Knowing c sc (fun st => Charted c q sc st.planner ∧ st.cache.Sound c)
      (fun p chain r => ¬ Shadowed c q sc (Text.splitDots chain) → Finds c q sc p chain r) where
  visit st chain mapped h := by
    obtain ⟨hcharted, hcache⟩ := h
    obtain ⟨hlookup, hkept⟩ := Scope.resolve_eq_lookup hbuilt hcache chain
    refine ends_visit_of_walk fun denoted cache hresolve r p hwalk => ?_
    rw [hresolve] at hlookup hkept
    obtain ⟨hcharted', hfinds⟩ := run_walk_charted hscoped hcharted hlookup.symm hwalk
    exact ⟨⟨hcharted', hkept.sound⟩, hfinds⟩
  keep p p' chain r hr hsteps hfinds hfree := by
    obtain ⟨denoted, start, rest, hlookup, hstarts, hleads⟩ := hfinds hfree
    exact ⟨denoted, start, rest, hlookup, hstarts, hleads.extends hr (Extends.steps hsteps)⟩

end Query

end EntityGraph
