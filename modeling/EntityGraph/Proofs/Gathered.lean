import EntityGraph.Proofs.Mirrored

/-!
# Reading rows keeps the mirror

Each row adds what it shows. Its nodes are visited in order: an entity that has not appeared before is
made and loaded, one that has is taken as it is. Then the entities of the row are connected. What has
been read before is not touched, so a tuple that was answered for an earlier row reads the same at the
end, except that its collections have got more members.

## Main results

* `Mirrored.ends_entityAt`, `Mirrored.ends_entitiesAt`: the entities of a row appear;
* `Mirrored.ends_mapRow`, `Mirrored.ends_mapRows`: rows are read.
-/

namespace EntityGraph

open EntityGraph.Graph

variable {c : Catalog} {n : Nat} {shown : List Appearance} {links : List Link}
  {known : Assoc Identity EntityId} {g g' : Graph} {who : Identity} {e : EntityId} {a : Appearance}
  {node : PlanNode} {row : Row}

/-! ### Values that cannot be read -/

namespace Mapper

/-- Embedded components are loaded only if every value that they need can be read. -/
theorem read_of_loadEmbedded {path : List String} {l : List (String × Schema)}
    (h : ∀ p ∈ l, ∀ g e, (loadPart node row (path ++ [p.1]) p.2 e).Ends g
      (fun _ _ => ∀ q ∈ p.2.occurrences (path ++ [p.1]), ∃ v, node.read? row q = some v)
      (fun _ _ => True)) (g : Graph) (e : EntityId) :
    (loadEmbedded node row path l e).Ends g
      (fun _ _ => ∀ p ∈ l, ∀ q ∈ p.2.occurrences (path ++ [p.1]), ∃ v, node.read? row q = some v)
      (fun _ _ => True) := by
  induction l generalizing g with
  | nil => exact fun _ hp => absurd hp List.not_mem_nil
  | cons p l ih =>
    rw [loadEmbedded]
    simp only [Act.ends_bind]
    refine (Act.ends_final_iff (R := fun _ => True)).2 trivial |>.mono (fun part g₁ _ => ?_)
      fun _ _ _ => trivial
    refine (h p List.mem_cons_self g₁ part).mono (fun _ g₂ hp => ?_) fun _ _ h => h
    refine (ih (fun p' hp' => h p' (List.mem_cons_of_mem _ hp')) g₂).mono (fun _ _ hl => ?_)
      fun _ _ h => h
    exact List.forall_mem_cons.2 ⟨hp, hl⟩

/-- Atomics have values only if every one of them can be read. -/
theorem read_of_cells (s : Schema) (path : List String) (l : List Atomic) (g : Graph) :
    (l.mapM fun a => do
      return (a.name, ← Act.ofExcept (cell s a row (node.label path a.name)))).Ends g
      (fun _ _ => ∀ a ∈ l, ∃ v, node.read? row (path, a) = some v) (fun _ _ => True) := by
  refine (Act.ends_mapM (R := fun _ _ => True)
    (Q := fun a _ _ => ∃ v, node.read? row (path, a) = some v) (fun _ => trivial)
    (fun _ _ _ _ _ => trivial) (fun _ _ _ _ _ h => h) fun a _ t _ => ?_).mono
    (fun values _ h a ha => ?_) fun _ _ h => h
  · simp only [Act.ends_bind, Act.ends_ofExcept, Act.ends_pure, true_and]
    exact ⟨fun v hv => ⟨v, PlanNode.cell_eq_ok_iff.1 hv⟩, fun _ _ => trivial⟩
  · obtain ⟨hlength, hget⟩ := List.forall₂_iff_get.1 h.2
    obtain ⟨i, hi, rfl⟩ := List.mem_iff_getElem.1 ha
    exact hget i hi (hlength ▸ hi)

/-- An entity is loaded only if every value that it needs can be read. -/
theorem read_of_loadPart {s : Schema} {path : List String} (g : Graph) (e : EntityId) :
    (loadPart node row path s e).Ends g
      (fun _ _ => ∀ q ∈ s.occurrences path, ∃ v, node.read? row q = some v) (fun _ _ => True) := by
  induction s using Schema.induction generalizing path g e with
  | _ s ih =>
    rw [loadPart_eq, Act.ends_bind]
    refine (read_of_cells s path s.atomics g).mono (fun values g₁ hown => ?_) fun _ _ h => h
    rw [Act.ends_bind, Graph.loadAtomics, Act.ends_modify]
    refine (read_of_loadEmbedded (fun p hp g e => ih p hp g e) _ e).mono (fun _ _ hparts => ?_)
      fun _ _ h => h
    intro q hq
    rcases Schema.mem_occurrences_iff.1 hq with ⟨a, ha, rfl⟩ | ⟨p, hp, hq⟩
    · exact hown a ha
    · exact hparts p hp q hq

end Mapper

/-! ### A new entity -/

namespace Graph

/-- Marking an entity as stored changes nothing else. -/
theorem view_markStored {α : Type} {v : Entity → α} (hv : ∀ x, v { x with stored := true } = v x)
    (g : Graph) (e d : EntityId) : v ((g.markStored e).entity d) = v (g.entity d) :=
  view_modifyParts hv g e d

/-- Marking an entity as stored leaves the collections alone. -/
theorem collections_markStored (g : Graph) (e : EntityId) :
    (g.markStored e).collections = g.collections :=
  collections_modifyParts g e _

/-- Marking an entity as stored makes the graph a later one. -/
theorem later_markStored (n : Nat) (g : Graph) (e : EntityId) : Later n g (g.markStored e) where
  length := Nat.le_of_eq (SameShape.markStored g e).length.symm
  same d _ _ := ⟨view_markStored (v := (·.schema)) (fun _ => rfl) g e d,
    view_markStored (v := (·.atomics)) (fun _ => rfl) g e d,
    view_markStored (v := (·.embedded)) (fun _ => rfl) g e d⟩
  toMany d name id hid := by rwa [view_markStored (v := (·.toMany)) (fun _ => rfl) g e d]

/-- Components of a new entity that has been loaded are newer still. -/
theorem closed_of_grown {s : Schema}
    (h : Grown ⟨g.entities.length⟩ { g with entities := g.entities ++ [{ schema := s }] } g') :
    Closed g.entities.length g' := by
  intro d hd name y hy
  have hor : d = ⟨g.entities.length⟩ ∨
      (g.entities ++ [({ schema := s } : Entity)]).length ≤ d.index := by
    rcases Nat.eq_or_lt_of_le hd with heq | hlt
    · exact .inl (by cases d; simp_all)
    · exact .inr (by simpa using Nat.succ_le_of_lt hlt)
  rcases h.embedded d name y hor hy with hy | hy
  · rw [entity_append] at hy
    split at hy
    · cases hy
    · rw [entity_of_length_le hd] at hy
      cases hy
  · obtain ⟨hle, hlt⟩ := hy
    rw [List.length_append, List.length_singleton] at hle
    exact ⟨Nat.le_of_succ_le hle, hlt⟩

/-- An entity has been made and loaded where it appears; entities from before are as they were. -/
structure Added (g : Graph) (a : Appearance) (g' : Graph) : Prop where
  lt : g.entities.length < g'.entities.length
  same : ∀ d, d.index < g.entities.length → (g'.entity d).schema = (g.entity d).schema ∧
    (g'.entity d).atomics = (g.entity d).atomics ∧ (g'.entity d).embedded = (g.entity d).embedded
  closed : Closed g.entities.length g'
  relations : ∀ d, (g'.entity d).toMany = (g.entity d).toMany ∧
    (g'.entity d).toOne = (g.entity d).toOne
  collections : g'.collections = g.collections
  loaded : LoadedAs g' ⟨g.entities.length⟩ a

/-- What holds of a new entity when it has been loaded. -/
theorem Added.of_grown {s : Schema} {v : List String × Atomic → Value} (hs : a.node.schema = s)
    (hgrown : Grown ⟨g.entities.length⟩ { g with entities := g.entities ++ [{ schema := s }] } g')
    (hread : Mapper.HasRead g' ⟨g.entities.length⟩ v s [])
    (hv : ∀ q ∈ s.occurrences [], a.node.read? a.row q = some (v q))
    (hspreads : Spreads g' ⟨g.entities.length⟩ s) :
    Added g a (g'.markStored ⟨g.entities.length⟩) := by
  subst hs
  have hlength : g.entities.length < g'.entities.length := by
    have hle := hgrown.length
    rw [List.length_append, List.length_singleton] at hle
    omega
  have hlength' := (SameShape.markStored g' ⟨g.entities.length⟩).length
  have hold := entity_append g a.node.schema
  have hlater := later_markStored g.entities.length g' ⟨g.entities.length⟩
  have hclosed := closed_of_grown hgrown
  have hloaded : LoadedAs g' ⟨g.entities.length⟩ a := by
    refine ⟨?_, fun q hq => ⟨v q, hv q hq, hread q hq⟩, hspreads⟩
    rw [hgrown.schema _ (by simp), hold, if_pos rfl]
  have hview := fun {α : Type} {v : Entity → α} (hv : ∀ x, v { x with stored := true } = v x)
    (d : EntityId) => view_markStored hv g' ⟨g.entities.length⟩ d
  refine ⟨by omega, fun d hd => ?_, fun d hd name y hy => ?_, fun d => ?_, ?_,
    hloaded.later hlater hclosed ⟨Nat.le_refl _, hlength⟩⟩
  · have hsame : g'.entity d = g.entity d := by
      rw [hgrown.same d (by simpa using Nat.lt_succ_of_lt hd)
        (by rintro rfl; exact Nat.lt_irrefl _ hd), hold, if_neg (Nat.ne_of_lt hd)]
    rw [hview (v := (·.schema)) (fun _ => rfl) d, hview (v := (·.atomics)) (fun _ => rfl) d,
      hview (v := (·.embedded)) (fun _ => rfl) d, hsame]
    exact ⟨rfl, rfl, rfl⟩
  · rw [hlength']
    exact hclosed d hd name y (hview (v := (·.embedded)) (fun _ => rfl) d ▸ hy)
  · rw [hview (v := (·.toMany)) (fun _ => rfl) d, hview (v := (·.toOne)) (fun _ => rfl) d,
      (hgrown.relations d).1, (hgrown.relations d).2, hold]
    split
    · next heq =>
      rw [entity_of_length_le (Nat.le_of_eq heq.symm)]
      exact ⟨rfl, rfl⟩
    · exact ⟨rfl, rfl⟩
  · exact (collections_markStored g' _).trans hgrown.collections

namespace Added

/-- Entities from before are as they were. -/
theorem later (h : Added g a g') (n : Nat) : Later n g g' where
  length := Nat.le_of_lt h.lt
  same d _ hd := h.same d hd
  toMany d name id hid := by rwa [(h.relations d).1]

/-- Components of a new entity are new as well. -/
theorem closed_of_le (h : Added g a g') (hle : n ≤ g.entities.length) (hclosed : Closed n g) :
    Closed n g' := by
  intro d hd name y hy
  by_cases hlt : d.index < g.entities.length
  · rw [(h.same d hlt).2.2] at hy
    obtain ⟨hy, hy'⟩ := hclosed d hd name y hy
    exact ⟨hy, Nat.lt_trans hy' h.lt⟩
  · obtain ⟨hy, hy'⟩ := h.closed d (Nat.le_of_not_lt hlt) name y hy
    exact ⟨Nat.le_trans hle hy, hy'⟩

end Added

end Graph

/-! ### An appearance is added -/

/-- What appeared stays when more appears under other keys. -/
theorem Assoc.get?_put_of_get? {α β : Type} [DecidableEq α] {m : Assoc α β} {k l : α} {v w : β}
    (hk : m.get? k = none) (hl : m.get? l = some w) : (m.put k v).get? l = some w := by
  rw [Assoc.get?_put_of_ne _ _ (by rintro rfl; rw [hk] at hl; cases hl), hl]

namespace Identified

/-- What has appeared is known. -/
theorem isSome_iff (h : Identified c n shown known g) :
    (known.get? who).isSome ↔ who ∈ shown.map (·.who) := by
  rw [Assoc.get?_isSome_iff, h.keys, List.mem_eraseDups]

/-- An entity that appears again is the one that it was. -/
theorem again (h : Identified c n shown known g) (ha : a.node.identity? a.row = some a.who)
    (hs : c.schema a.node.schema.name = .ok a.node.schema) (hknown : known.get? a.who = some e) :
    Identified c n (shown ++ [a]) known g where
  le := h.le
  genuine := List.forall_mem_append.2 ⟨h.genuine, fun b hb => List.mem_singleton.1 hb ▸ ⟨ha, hs⟩⟩
  keys := by
    have hmem : a.who ∈ shown.map (·.who) := h.isSome_iff.1 (by rw [hknown]; rfl)
    rw [h.keys, List.map_append, List.map_singleton, Link.eraseDups_append_singleton, if_pos hmem]
  distinct := h.distinct
  range := h.range
  closed := h.closed
  loaded who e he := by
    obtain ⟨b, hb, hloaded⟩ := h.loaded who e he
    exact ⟨b, by rw [List.find?_append, hb, Option.some_or], hloaded⟩

/-- An entity that appears for the first time is a new one. -/
theorem add (h : Identified c n shown known g) (hadded : Added g a g')
    (ha : a.node.identity? a.row = some a.who) (hs : c.schema a.node.schema.name = .ok a.node.schema)
    (hnew : known.get? a.who = none) :
    Identified c n (shown ++ [a]) (known.put a.who ⟨g.entities.length⟩) g' where
  le := Nat.le_trans h.le (Nat.le_of_lt hadded.lt)
  genuine := List.forall_mem_append.2 ⟨h.genuine, fun b hb => List.mem_singleton.1 hb ▸ ⟨ha, hs⟩⟩
  keys := by
    have hmem : a.who ∉ shown.map (·.who) := fun hmem => by
      have hsome := h.isSome_iff.2 hmem
      rw [hnew] at hsome
      cases hsome
    rw [Assoc.put_of_get?_eq_none _ hnew, List.map_append, List.map_append, List.map_singleton,
      List.map_singleton, h.keys, Link.eraseDups_append_singleton, if_neg hmem]
  distinct who who' e he he' := by
    rcases Assoc.get?_put_cases he with ⟨rfl, rfl⟩ | ⟨-, he⟩ <;>
      rcases Assoc.get?_put_cases he' with ⟨rfl, heq⟩ | ⟨-, he'⟩
    · rfl
    · exact absurd (h.range _ _ he').2 (Nat.lt_irrefl _)
    · exact absurd (heq ▸ (h.range _ _ he).2) (Nat.lt_irrefl _)
    · exact h.distinct _ _ _ he he'
  range who e he := by
    rcases Assoc.get?_put_cases he with ⟨rfl, rfl⟩ | ⟨-, he⟩
    · exact ⟨h.le, hadded.lt⟩
    · obtain ⟨hle, hlt⟩ := h.range _ _ he
      exact ⟨hle, Nat.lt_trans hlt hadded.lt⟩
  closed := hadded.closed_of_le h.le h.closed
  loaded who e he := by
    rw [List.find?_append]
    rcases Assoc.get?_put_cases he with ⟨rfl, rfl⟩ | ⟨-, he⟩
    · refine ⟨a, ?_, hadded.loaded⟩
      rw [List.find?_eq_none.2 fun b hb heq => ?_]
      · simp
      · have hsome := h.isSome_iff.2 (List.mem_map.2 ⟨b, hb, of_decide_eq_true heq⟩)
        rw [hnew] at hsome
        cases hsome
    · obtain ⟨b, hb, hloaded⟩ := h.loaded who e he
      rw [hb, Option.some_or]
      exact ⟨b, rfl, hloaded.later (hadded.later n) h.closed (h.range who e he)⟩

end Identified

namespace Link

/-- What has been found stays found when more is known. -/
theorem get?_put_of_found {l : Link} (hl : l.Found known) {k : Identity} (hk : l.child = some k)
    (hnew : known.get? who = none) (e : EntityId) : (known.put who e).get? k = known.get? k := by
  obtain ⟨x, hx⟩ := Option.isSome_iff_exists.1 (hl.2 k hk)
  rw [hx, Assoc.get?_put_of_get? hnew hx]

/-- The children of known links are known as they were. -/
theorem map_children_put (hfound : ∀ l ∈ links, l.Found known) (hnew : known.get? who = none)
    (e : EntityId) (owner : Identity) (name : String) :
    (children links owner name).map (known.put who e).get? =
      (children links owner name).map known.get? :=
  List.map_congr_left fun k hk => by
    obtain ⟨l, hl, -, hchild⟩ := mem_children_iff.1 hk
    exact get?_put_of_found (hfound l hl) hchild hnew e

end Link

/-- Links stay as they are when an entity is added. -/
theorem Joined.add (h : Joined c links known g) (hadded : Added g a g')
    (hnew : known.get? a.who = none) :
    Joined c links (known.put a.who ⟨g.entities.length⟩) g' := by
  -- nothing has been joined to the new entity
  have howner : ∀ l ∈ links, l.owner ≠ a.who := fun l hl heq => by
    have hsome := (h.found l hl).1
    rw [heq, hnew] at hsome
    cases hsome
  have hfresh : (g.entity ⟨g.entities.length⟩) = default := entity_of_length_le (Nat.le_refl _)
  refine ⟨h.typed, fun l hl => ⟨?_, fun k hk => ?_⟩, fun who e he name => ?_,
    fun who e he name id hid => ?_, fun l hl hmany e he => ?_⟩
  · obtain ⟨x, hx⟩ := Option.isSome_iff_exists.1 (h.found l hl).1
    rw [Assoc.get?_put_of_get? hnew hx]
    rfl
  · rw [Link.get?_put_of_found (h.found l hl) hk hnew]
    exact (h.found l hl).2 k hk
  · rw [(hadded.relations e).2]
    rcases Assoc.get?_put_cases he with ⟨rfl, rfl⟩ | ⟨-, he⟩
    · have hnone : Link.target? links a.who name = none := by
        unfold Link.target?
        rw [List.find?_eq_none.2 fun l hl heq => howner l hl (of_decide_eq_true heq).1]
        rfl
      rw [hfresh, hnone]
      rfl
    · rw [h.toOne who e he name]
      unfold Link.target?
      cases hfind : links.find? _ with
      | none => rfl
      | some l =>
        have hl := h.found l (List.mem_of_find?_eq_some hfind)
        cases hchild : l.child with
        | none => simp [hchild]
        | some k => simp [hchild, Link.get?_put_of_found hl hchild hnew]
  · rw [(hadded.relations e).1] at hid
    rcases Assoc.get?_put_cases he with ⟨rfl, rfl⟩ | ⟨-, he⟩
    · rw [hfresh] at hid
      cases hid
    · have hcollection : g'.collection id = g.collection id := by
        unfold Graph.collection
        rw [hadded.collections]
      have hold := (h.toMany who e he name id hid).of_eq hcollection
        (Nat.le_of_eq (by rw [hadded.collections])) rfl
      exact { hold with members := hold.members.trans (Link.map_children_put h.found hnew _ _ _).symm }
  · rw [(hadded.relations e).1]
    rw [Assoc.get?_put_of_ne _ _ (howner l hl)] at he
    exact h.opened l hl hmany e he

/-! ### A node of a row -/

namespace PlanNode

/-- What appears at a node that is mapped and attached. -/
def appearance? (n : PlanNode) (row : Row) : Option Appearance :=
  (n.identity? row).map fun who => ⟨who, n, row⟩

/-- Some value that a node needs cannot be read. -/
def Unreadable (n : PlanNode) (row : Row) : Prop :=
  ∃ q ∈ n.schema.occurrences [], n.read? row q = none

end PlanNode

/-- Reading has gone on: what was known is known, and the graph is a later one. -/
structure Mapping.Onward (n : Nat) (m m' : Mapping) : Prop where
  plan : m'.mapper.plan = m.mapper.plan
  known : ∀ who e, m.mapper.identity.get? who = some e → m'.mapper.identity.get? who = some e
  later : Later n m.graph m'.graph

theorem Mapping.Onward.refl (n : Nat) (m : Mapping) : m.Onward n m :=
  ⟨rfl, fun _ _ h => h, .refl n m.graph⟩

theorem Mapping.Onward.trans {m m' m'' : Mapping} (h : m.Onward n m') (h' : m'.Onward n m'') :
    m.Onward n m'' :=
  ⟨h'.plan.trans h.plan, fun who e he => h'.known who e (h.known who e he), h.later.trans h'.later⟩

/-- What has been found stands for the same entities when reading has gone on. -/
theorem Mapping.Onward.map_bind {m m' : Mapping} (h : m.Onward n m') {found : List (Option Identity)}
    (hfound : ∀ who, some who ∈ found → (m.mapper.identity.get? who).isSome) :
    found.map (·.bind m'.mapper.identity.get?) = found.map (·.bind m.mapper.identity.get?) := by
  refine List.map_congr_left fun x hx => ?_
  cases x with
  | none => rfl
  | some who =>
    obtain ⟨e, he⟩ := Option.isSome_iff_exists.1 (hfound who hx)
    rw [Option.bind_some, Option.bind_some, he, h.known who e he]

/-- The first one of some nodes is visited if it is mapped and attached. -/
theorem Mapper.entitiesAt_cons {nodes : List PlanNode} {found : List (Option Identity)}
    (hfound : ∀ who, some who ∈ found → (known.get? who).isSome) :
    entitiesAt c row (node :: nodes) (found.map (·.bind known.get?)) =
      (if node.mapped && node.attached found then entityAt c node row else pure none) >>= fun e =>
        entitiesAt c row nodes (found.map (·.bind known.get?) ++ [e]) := by
  rw [entitiesAt]
  unfold PlanNode.attached
  cases node.parent with
  | none =>
    simp only
    split <;> rfl
  | some x =>
    -- what has been found is known
    have hattached : (((found.map (·.bind known.get?))[x.1]?).bind id).isSome =
        ((found[x.1]?).bind id).isSome := by
      have hentity := entityOf_map found known x.1
      unfold entityOf at hentity
      rw [hentity]
      cases hx : (found[x.1]?).bind id with
      | none => rfl
      | some who =>
        obtain ⟨y, hy, rfl⟩ := Option.bind_eq_some_iff.1 hx
        exact hfound who (List.mem_of_getElem? hy)
    simp only [hattached]
    split <;> rfl

namespace Mirrored

variable {p : Plan} {m : Mapping}

/-- The collections that a node asks for are opened. -/
theorem ends_openCollections (hp : p.Sound c) (hnode : node ∈ p.nodes)
    (h : Mirrored c n shown links known g) (he : known.get? who = some e)
    (hname : who.1 = node.schema.name) :
    (Mapper.openCollections c node e).Ends g
      (fun _ g' => Mirrored c n shown links known g' ∧ Later n g g') (fun _ _ => False) := by
  refine Act.ends_forM (I := fun g' => Mirrored c n shown links known g' ∧ Later n g g')
    (fun name hasked g₁ h₁ => ?_) ⟨h, .refl n g⟩
  obtain ⟨comp, join, hcomp, hmany, hjoin⟩ := hp.toMany node hnode name hasked
  have hs : (g₁.entity e).schema = node.schema :=
    Except.ok.inj ((h₁.1.schema he).symm.trans (hname ▸ hp.schema node hnode))
  rw [Act.ends_bind]
  refine (h₁.1.ends_many he (hs ▸ hcomp) hmany (hs ▸ hjoin)).mono (fun _ g₂ h₂ => ?_)
    fun _ _ h => h
  exact ⟨h₂.1, h₁.2.trans h₂.2.1⟩

/-- An entity that is not known is made and loaded where it appears. -/
theorem ends_appear (hp : p.Sound c) (hnode : node ∈ p.nodes)
    (h : Mirrored c n shown links m.mapper.identity m.graph) (hwho : node.identity? row = some who)
    (hnew : m.mapper.identity.get? who = none) :
    Act.Ends (do
      let e ← Mapper.onGraph do
        let e ← Graph.newEntity node.schema
        Mapper.loadPart node row [] node.schema e
        modify (·.markStored e)
        Mapper.openCollections c node e
        return e
      modify fun m =>
        { m with mapper := { m.mapper with identity := m.mapper.identity.put who e } }
      return some e) m (fun found m' =>
      Mirrored c n (shown ++ [⟨who, node, row⟩]) links m'.mapper.identity m'.graph ∧
        m.Onward n m' ∧ m'.mapper.lastRoots = m.mapper.lastRoots ∧
          found = m'.mapper.identity.get? who)
      (fun _ _ => node.Unreadable row) := by
  have hs := hp.schema node hnode
  rw [Act.ends_bind, Mapper.onGraph, Act.ends_onPart, Act.ends_bind, Act.Ends, newEntity_eq]
  show Act.Ends _ ({ m.graph with entities := m.graph.entities ++
    [{ schema := node.schema }] } : Graph) _ _
  rw [Act.ends_bind]
  by_cases hreadable : ∀ q ∈ node.schema.occurrences [], ∃ v, node.read? row q = some v
  · have hread : ∀ q ∈ node.schema.occurrences [],
        node.read? row q = some ((node.read? row q).getD .null) := fun q hq => by
      obtain ⟨v, hv⟩ := hreadable q hq
      rw [hv, Option.getD_some]
    have hunread : Unread { m.graph with entities := m.graph.entities ++ [{ schema := node.schema }] }
        ⟨m.graph.entities.length⟩ node.schema := .newEntity m.graph node.schema
    refine (Mapper.ends_loadPart (fun t ht => Catalog.coherent_of_within hs ht)
      (fun q hq _ => PlanNode.cell_eq_ok_iff.2 (hread q hq)) _ _ hunread).mono (fun _ g' hg' => ?_)
      fun _ _ h => h.elim
    obtain ⟨hgrown, hloaded, hspreads⟩ := hg'
    have hadded : Added m.graph ⟨who, node, row⟩ (g'.markStored ⟨m.graph.entities.length⟩) :=
      .of_grown rfl hgrown hloaded hread hspreads
    have hmirrored : Mirrored c n (shown ++ [⟨who, node, row⟩]) links
        (m.mapper.identity.put who ⟨m.graph.entities.length⟩)
        (g'.markStored ⟨m.graph.entities.length⟩) :=
      ⟨h.toIdentified.add hadded hwho hs hnew, h.toJoined.add hadded hnew⟩
    rw [Act.ends_bind, Act.ends_modify, Act.ends_bind]
    refine (hmirrored.ends_openCollections hp hnode (Assoc.get?_put_self _ _ _)
      (PlanNode.identity?_eq_some_iff.1 hwho).1).mono (fun _ g'' hg'' => ?_) fun _ _ h => h.elim
    exact ⟨hg''.1, ⟨rfl, fun _ _ he => Assoc.get?_put_of_get? hnew he,
      (hadded.later n).trans hg''.2⟩, rfl, (Assoc.get?_put_self _ _ _).symm⟩
  · refine (Mapper.read_of_loadPart _ _).mono (fun _ _ h => absurd h hreadable) fun _ _ _ => ?_
    push Not at hreadable
    obtain ⟨q, hq, hnone⟩ := hreadable
    exact ⟨q, hq, Option.eq_none_iff_forall_ne_some.2 hnone⟩

/-- The entity that a row has at a node appears: it is known, or is made and loaded. -/
theorem ends_entityAt (hp : p.Sound c) (hnode : node ∈ p.nodes)
    (h : Mirrored c n shown links m.mapper.identity m.graph) :
    (Mapper.entityAt c node row).Ends m (fun found m' =>
      Mirrored c n (shown ++ (node.appearance? row).toList) links m'.mapper.identity m'.graph ∧
        m.Onward n m' ∧ m'.mapper.lastRoots = m.mapper.lastRoots ∧
          found = (node.identity? row).bind m'.mapper.identity.get?)
      (fun _ _ => node.Unreadable row) := by
  have hs := hp.schema node hnode
  obtain ⟨key, hkey, hmem, -⟩ := Catalog.key_of_schema hs
  unfold Mapper.entityAt
  rw [Act.ends_bind, Schema.key_eq_ok_iff.2 hkey, Act.ends_ofExcept_ok, Act.ends_bind,
    Act.ends_ofExcept]
  refine ⟨fun v hv => ?_, fun error herror => ?_⟩
  · have hread : node.read? row ([], key) = some v := PlanNode.cell_eq_ok_iff.1 hv
    rw [Act.ends_ite]
    refine ⟨fun hnull => ?_, fun hnull => ?_⟩
    · have hnone : node.identity? row = none := by
        rw [PlanNode.identity?_eq hkey hread, if_pos hnull]
      simp only [PlanNode.appearance?, hnone, Act.ends_pure, Option.map_none, Option.toList_none,
        List.append_nil, Option.bind_none]
      exact ⟨h, .refl n m, trivial, trivial⟩
    · have hwho : node.identity? row = some (node.schema.name, v) := by
        rw [PlanNode.identity?_eq hkey hread, if_neg hnull]
      simp only [PlanNode.appearance?, hwho, Option.map_some, Option.toList_some, Option.bind_some]
      rw [Act.ends_bind, Act.ends_get]
      cases hknown : m.mapper.identity.get? (node.schema.name, v) with
      | some e =>
        simp only
        rw [Act.ends_bind, Mapper.onGraph, Act.ends_onPart]
        have hagain : Mirrored c n (shown ++ [⟨(node.schema.name, v), node, row⟩]) links
            m.mapper.identity m.graph := ⟨h.toIdentified.again hwho hs hknown, h.toJoined⟩
        refine (hagain.ends_openCollections hp hnode hknown rfl).mono (fun _ g' h' => ?_)
          fun _ _ h => h.elim
        exact ⟨h'.1, ⟨rfl, fun _ _ h => h, h'.2⟩, rfl, hknown.symm⟩
      | none =>
        exact h.ends_appear hp hnode hwho hknown
  · refine ⟨([], key), Schema.mem_occurrences_of_embeddedAt? rfl hmem, ?_⟩
    cases hread : node.read? row ([], key) with
    | none => rfl
    | some v =>
      rw [PlanNode.cell_eq_ok_iff.2 hread] at herror
      cases herror

/-- A node of a row has the entity that the row shows there. -/
theorem ends_shownIn (hp : p.Sound c) (hnode : node ∈ p.nodes)
    (h : Mirrored c n shown links m.mapper.identity m.graph) (found : List (Option Identity)) :
    Act.Ends (if node.mapped && node.attached found then Mapper.entityAt c node row else pure none) m
      (fun e m' => Mirrored c n
          (shown ++ ((node.shownIn row found).map fun who => ⟨who, node, row⟩).toList) links
          m'.mapper.identity m'.graph ∧
        m.Onward n m' ∧ m'.mapper.lastRoots = m.mapper.lastRoots ∧
          e = (node.shownIn row found).bind m'.mapper.identity.get?)
      (fun _ _ => node.mapped = true ∧ node.Unreadable row) := by
  unfold PlanNode.shownIn
  split
  · next hmapped =>
    exact (h.ends_entityAt hp hnode).mono (fun _ _ h => h)
      fun _ _ h => ⟨(Bool.and_eq_true_iff.1 hmapped).1, h⟩
  · rw [Act.ends_pure, Option.map_none, Option.toList_none, List.append_nil]
    exact ⟨h, .refl n m, rfl, rfl⟩

/-- The nodes of a row have the entities that the row shows there. -/
theorem ends_entitiesAt (hp : p.Sound c) {nodes : List PlanNode} (hnodes : ∀ node ∈ nodes, node ∈ p.nodes)
    (h : Mirrored c n shown links m.mapper.identity m.graph) {found : List (Option Identity)}
    (hfound : ∀ who, some who ∈ found → (m.mapper.identity.get? who).isSome) :
    (Mapper.entitiesAt c row nodes (found.map (·.bind m.mapper.identity.get?))).Ends m
      (fun current m' => ∃ more,
        nodes.foldl (fun found node => found ++ [node.shownIn row found]) found = found ++ more ∧
        Mirrored c n (shown ++ (nodes.zip more).filterMap fun x => x.2.map fun who => ⟨who, x.1, row⟩)
          links m'.mapper.identity m'.graph ∧
        m.Onward n m' ∧ m'.mapper.lastRoots = m.mapper.lastRoots ∧
          current = (found ++ more).map (·.bind m'.mapper.identity.get?))
      (fun _ _ => ∃ node ∈ nodes, node.mapped = true ∧ node.Unreadable row) := by
  induction nodes generalizing m found shown with
  | nil =>
    refine ⟨[], by simp, ?_, .refl n m, rfl, by simp⟩
    rwa [List.zip_nil_left, List.filterMap_nil, List.append_nil]
  | cons node nodes ih =>
    rw [Mapper.entitiesAt_cons hfound]
    rw [Act.ends_bind]
    refine (h.ends_shownIn hp (hnodes node List.mem_cons_self) found).mono (fun e m₁ h₁ => ?_)
      fun _ _ h => ⟨node, List.mem_cons_self, h⟩
    obtain ⟨hmirrored, honward, hroots, rfl⟩ := h₁
    have hfound₁ : ∀ who, some who ∈ found ++ [node.shownIn row found] →
        (m₁.mapper.identity.get? who).isSome := fun who hwho => by
      rcases List.mem_append.1 hwho with hwho | hwho
      · obtain ⟨e, he⟩ := Option.isSome_iff_exists.1 (hfound who hwho)
        rw [honward.known who e he]
        rfl
      · rw [hmirrored.isSome_iff, ← List.mem_singleton.1 hwho]
        simp
    have hcurrent : found.map (·.bind m.mapper.identity.get?) ++
        [(node.shownIn row found).bind m₁.mapper.identity.get?] =
        (found ++ [node.shownIn row found]).map (·.bind m₁.mapper.identity.get?) := by
      rw [List.map_append, List.map_singleton, honward.map_bind hfound]
    rw [hcurrent]
    refine (ih (fun n hn => hnodes n (List.mem_cons_of_mem _ hn)) hmirrored hfound₁).mono
      (fun current m₂ h₂ => ?_) fun _ _ h => h.imp fun _ h => h.imp_left (List.mem_cons_of_mem _)
    obtain ⟨more, hmore, hmirrored₂, honward₂, hroots₂, rfl⟩ := h₂
    refine ⟨node.shownIn row found :: more, ?_, ?_, honward.trans honward₂, hroots₂.trans hroots, ?_⟩
    · rw [List.foldl_cons, hmore, List.append_assoc]
      rfl
    · rw [List.append_assoc] at hmirrored₂
      cases hx : node.shownIn row found <;> simpa [hx] using hmirrored₂
    · rw [List.append_assoc]
      rfl

end Mirrored

/-! ### A row -/

/-- Rows join entities through components of their schemas. -/
theorem Plan.Sound.typed {p : Plan} (hp : p.Sound c) {l : Link} (hl : l ∈ p.links row) :
    l.Typed c := by
  obtain ⟨i, m, j, hm, -, hparent, howner, hchild⟩ := Plan.mem_links_iff.1 hl
  obtain ⟨-, o, ho, hcomp, htarget, hjoin⟩ := hp.parent i m hm j _ hparent
  obtain ⟨o', ho', -, hidentity⟩ := Plan.identity?_of_identityAt howner
  obtain rfl := Option.some.inj (ho'.symm.trans ho)
  have htype := (PlanNode.identity?_eq_some_iff.1 hidentity).1
  refine ⟨o'.schema, htype ▸ hp.schema o' (List.mem_of_getElem? ho'), hcomp, hjoin, fun k hk => ?_⟩
  obtain ⟨m', hm', -, hidentity'⟩ := Plan.identity?_of_identityAt (hchild.symm.trans hk)
  obtain rfl := Option.some.inj (hm'.symm.trans hm)
  rw [htarget, (PlanNode.identity?_eq_some_iff.1 hidentity').1]

namespace Plan

/-- The entity of a graph that a row shows at a node. -/
def entityIn (p : Plan) (row : Row) (known : Assoc Identity EntityId) (i : Nat) : Option EntityId :=
  (p.identityAt row i).bind known.get?

/-- What an output stands for in a row. -/
def itemIn (p : Plan) (row : Row) (known : Assoc Identity EntityId) (g : Graph) : Output → Item
  | .entity _ i => ((p.entityIn row known i).map .entity).getD .absent
  | .collection _ i name =>
    (((p.entityIn row known i).bind fun e => (g.entity e).toMany.get? name).map .collection).getD
      .absent
  | .embedded _ i path =>
    (((p.entityIn row known i).bind fun e => g.partAt? e path).map .entity).getD .absent
  | .scalar _ i path atomic =>
    (((p.entityIn row known i).bind fun e => g.partAt? e path).map fun x =>
      .scalar ((g.entity x).atomicValue atomic)).getD .absent
  | .raw _ label => .scalar ((row.get? label).getD .null)

/-- The tuple that a row stands for. -/
def tupleIn (p : Plan) (row : Row) (known : Assoc Identity EntityId) (g : Graph) : Tuple :=
  p.outputs.map fun o => (o.key, p.itemIn row known g o)

end Plan

namespace Graph

/-- A collection that is there is found. -/
theorem many_eq {comp : Component} {name : String} {id : CollectionId}
    (hcomp : (g.entity e).schema.component? name = some comp) (hmany : comp.isToMany = true)
    (hid : (g.entity e).toMany.get? name = some id) : Graph.many c e name g = .ok id g := by
  have hrelation : Entity.relation (g.entity e).schema name true = .ok comp := by
    unfold Entity.relation
    simp only [hcomp, hmany, if_true]
  unfold Graph.many
  simp only [bind, EStateM.bind, Act.get_apply, hrelation, Act.ofExcept,
    Schema.name_of_component? hcomp, hid]
  rfl

/-- An embedded component that is there is found, at any depth. -/
theorem embeddedAt_eq {x : EntityId} {path : List String} (h : g.partAt? e path = some x) :
    Graph.embeddedAt e path g = .ok x g := by
  induction path generalizing e with
  | nil =>
    obtain rfl := Option.some.inj h
    rfl
  | cons name path ih =>
    obtain ⟨y, hy, h⟩ := Option.bind_eq_some_iff.1 h
    have hembedded : Graph.embedded e name g = .ok y g := by
      unfold Graph.embedded
      simp only [bind, EStateM.bind, Act.get_apply, hy]
      rfl
    rw [Graph.embeddedAt]
    simp only [bind, EStateM.bind, hembedded, ih h]

end Graph

namespace Mirrored

variable {p : Plan} {m : Mapping}

/-- What a row shows has appeared. -/
theorem isSome_of_identityAt (h : Mirrored c n shown links known g)
    (hshown : ∀ a ∈ p.appearances row, a ∈ shown) {i : Nat} (hwho : p.identityAt row i = some who) :
    (known.get? who).isSome := by
  obtain ⟨a, ha, rfl, -⟩ := Plan.exists_of_identityAt hwho
  exact h.isSome_iff.2 (List.mem_map_of_mem (hshown a ha))

/-- An entity that a row shows has got a collection for each to-many relation of a mapped node. -/
theorem exists_toMany (h : Mirrored c n shown links known g) (hlinks : ∀ l ∈ p.links row, l ∈ links)
    {i : Nat} {comp : Component} (hnode : node ∈ p.nodes) (hmapped : node.mapped = true)
    (hparent : node.parent = some (i, comp)) (hmany : comp.isToMany = true)
    (hwho : p.identityAt row i = some who) (he : known.get? who = some e) :
    ∃ id, (g.entity e).toMany.get? comp.name = some id := by
  obtain ⟨j, hj⟩ := List.mem_iff_getElem?.1 hnode
  have hl : (⟨who, comp, p.identityAt row j⟩ : Link) ∈ p.links row :=
    Plan.mem_links_iff.2 ⟨j, node, i, hj, hmapped, hparent, hwho, rfl⟩
  exact Option.isSome_iff_exists.1 (h.opened _ (hlinks _ hl) hmany e he)

/-- The entity that a row shows at a node has the node's schema and the components that it embeds. -/
theorem spreads_of_identityAt (hp : p.Sound c) (h : Mirrored c n shown links known g) {i : Nat}
    (hnode : p.nodes[i]? = some node) (hwho : p.identityAt row i = some who)
    (he : known.get? who = some e) : (g.entity e).schema = node.schema ∧ Spreads g e node.schema := by
  obtain ⟨node', hnode', -, hidentity⟩ := Plan.identity?_of_identityAt hwho
  obtain rfl := Option.some.inj (hnode'.symm.trans hnode)
  obtain ⟨a, ha, hloaded⟩ := h.loaded who e he
  have hs : (g.entity e).schema = node'.schema := by
    refine Except.ok.inj ((h.schema he).symm.trans ?_)
    rw [(PlanNode.identity?_eq_some_iff.1 hidentity).1]
    exact hp.schema node' (List.mem_of_getElem? hnode)
  exact ⟨hs, hs ▸ hloaded.schema ▸ hloaded.spreads⟩

/-- What an output stands for is read, and nothing is changed. -/
theorem itemAt_eq (hp : p.Sound c) (h : Mirrored c n shown links known g)
    (hlinks : ∀ l ∈ p.links row, l ∈ links) {o : Output} (ho : o ∈ p.outputs) :
    Mapper.itemAt c ((p.identities row).map (·.bind known.get?)) row o g =
      .ok (p.itemIn row known g o) g := by
  have hfits := hp.outputs o ho
  have hentity : ∀ i, Mapper.entityOf ((p.identities row).map (·.bind known.get?)) i =
      p.entityIn row known i := entityOf_map (p.identities row) known
  cases o with
  | entity key i =>
    simp only [Mapper.itemAt, Plan.itemIn, hentity]
    rfl
  | collection key i name =>
    simp only [Mapper.itemAt, Plan.itemIn, hentity]
    cases hi : p.entityIn row known i with
    | none => rfl
    | some e =>
      obtain ⟨who, hwho, he⟩ := Option.bind_eq_some_iff.1 hi
      obtain ⟨m, hm, hmapped, comp, hparent, hmany, rfl⟩ := hfits
      -- the collection has been opened when the row was connected
      obtain ⟨id, hid⟩ := h.exists_toMany hlinks hm hmapped hparent hmany hwho he
      obtain ⟨j, hj⟩ := List.mem_iff_getElem?.1 hm
      obtain ⟨-, o, ho, hcomp, -, -⟩ := hp.parent j m hj i comp hparent
      have hs := (h.spreads_of_identityAt hp ho hwho he).1
      simp only [bind, EStateM.bind, many_eq (hs ▸ hcomp) hmany hid, Option.bind_some, hid]
      rfl
  | embedded key i path =>
    simp only [Mapper.itemAt, Plan.itemIn, hentity]
    cases hi : p.entityIn row known i with
    | none => rfl
    | some e =>
      obtain ⟨who, hwho, he⟩ := Option.bind_eq_some_iff.1 hi
      obtain ⟨node, s, hnode, hs⟩ := hfits
      obtain ⟨x, hx, -⟩ := (h.spreads_of_identityAt hp hnode hwho he).2 path s hs
      simp only [bind, EStateM.bind, embeddedAt_eq hx, Option.bind_some, hx]
      rfl
  | scalar key i path atomic =>
    simp only [Mapper.itemAt, Plan.itemIn, hentity]
    cases hi : p.entityIn row known i with
    | none => rfl
    | some e =>
      obtain ⟨who, hwho, he⟩ := Option.bind_eq_some_iff.1 hi
      obtain ⟨node, s, a, hnode, hs, ha⟩ := hfits
      obtain ⟨x, hx, hxs⟩ := (h.spreads_of_identityAt hp hnode hwho he).2 path s hs
      have hvalue : g.value x atomic = .ok ((g.entity x).atomicValue atomic) := by
        unfold Graph.value Entity.atomic
        simp only [hxs, ha]
        rw [bind_eq_ok_iff]
        exact ⟨a, rfl, by rw [(Schema.mem_of_atomic? ha).2]; rfl⟩
      simp only [bind, EStateM.bind, embeddedAt_eq hx, Option.bind_some, hx, Act.get_apply, hvalue]
      rfl
  | raw key label => rfl

/-- A tuple stands for the same while reading goes on. -/
theorem tupleIn_onward {m m' : Mapping} (hp : p.Sound c)
    (h : Mirrored c n shown links m.mapper.identity m.graph)
    (hshown : ∀ a ∈ p.appearances row, a ∈ shown) (hlinks : ∀ l ∈ p.links row, l ∈ links)
    (honward : m.Onward n m') : p.tupleIn row m'.mapper.identity m'.graph =
      p.tupleIn row m.mapper.identity m.graph := by
  have hentity : ∀ i, p.entityIn row m'.mapper.identity i = p.entityIn row m.mapper.identity i := by
    intro i
    unfold Plan.entityIn
    cases hwho : p.identityAt row i with
    | none => rfl
    | some who =>
      obtain ⟨e, he⟩ := Option.isSome_iff_exists.1 (h.isSome_of_identityAt hshown hwho)
      rw [Option.bind_some, Option.bind_some, he, honward.known who e he]
  have hpart : ∀ i e, p.entityIn row m.mapper.identity i = some e → ∀ path,
      m'.graph.partAt? e path = m.graph.partAt? e path ∧
        ∀ x, m.graph.partAt? e path = some x → n ≤ x.index ∧ x.index < m.graph.entities.length := by
    intro i e hi path
    obtain ⟨who, -, he⟩ := Option.bind_eq_some_iff.1 hi
    exact honward.later.partAt?_eq h.closed (h.range who e he) path
  refine List.map_congr_left fun o ho => congrArg (Prod.mk o.key) ?_
  have hfits := hp.outputs o ho
  cases o with
  | entity key i => simp only [Plan.itemIn, hentity]
  | collection key i name =>
    simp only [Plan.itemIn, hentity]
    cases hi : p.entityIn row m.mapper.identity i with
    | none => rfl
    | some e =>
      obtain ⟨who, hwho, he⟩ := Option.bind_eq_some_iff.1 hi
      obtain ⟨node, hnode, hmapped, comp, hparent, hmany, rfl⟩ := hfits
      obtain ⟨id, hid⟩ := h.exists_toMany hlinks hnode hmapped hparent hmany hwho he
      simp only [Option.bind_some, hid, honward.later.toMany _ _ _ hid]
  | embedded key i path =>
    simp only [Plan.itemIn, hentity]
    cases hi : p.entityIn row m.mapper.identity i with
    | none => rfl
    | some e => simp only [Option.bind_some, (hpart i e hi path).1]
  | scalar key i path atomic =>
    simp only [Plan.itemIn, hentity]
    cases hi : p.entityIn row m.mapper.identity i with
    | none => rfl
    | some e =>
      obtain ⟨heq, hrange⟩ := hpart i e hi path
      simp only [Option.bind_some, heq]
      cases hx : m.graph.partAt? e path with
      | none => rfl
      | some x =>
        obtain ⟨hle, hlt⟩ := hrange x hx
        simp only [Option.map_some, Entity.atomicValue, (honward.later.same x hle hlt).2.1]
  | raw key label => rfl

/-- What a row shows is connected. -/
theorem ends_connectRow (hp : p.Sound c) (h : Mirrored c n shown links known g)
    (hshown : ∀ a ∈ p.appearances row, a ∈ shown) :
    ((p.nodes.zip ((p.identities row).map (·.bind known.get?))).forM fun x =>
      Mapper.connect c ((p.identities row).map (·.bind known.get?)) x.1 x.2).Ends g
      (fun _ g' => Mirrored c n shown (links ++ p.links row) known g' ∧ Later n g g')
      (fun _ _ => False) := by
  rw [List.zip_map_right]
  show Act.Ends (List.forM ((p.shown row).map _) _) _ _ _
  refine h.ends_connectAll fun x hx l hl => ?_
  have hmem : l ∈ p.links row := List.mem_filterMap.2 ⟨x, hx, hl⟩
  obtain ⟨i, node, j, -, -, -, howner, hchild⟩ := Plan.mem_links_iff.1 hmem
  exact ⟨hp.typed hmem, h.isSome_of_identityAt hshown howner,
    fun k hk => h.isSome_of_identityAt hshown (hchild.symm.trans hk)⟩

/-- The keys of the roots are those of their entities. -/
theorem rootKeys_eq (h : Mirrored c n shown links known g)
    (hshown : ∀ a ∈ p.appearances row, a ∈ shown) :
    (p.roots.map fun i =>
      (Mapper.entityOf ((p.identities row).map (·.bind known.get?)) i).bind g.key?) =
      p.rootKeys row := by
  refine List.map_congr_left fun i _ => ?_
  rw [entityOf_map]
  show ((p.identityAt row i).bind _).bind _ = _
  cases hwho : p.identityAt row i with
  | none => rfl
  | some who =>
    obtain ⟨e, he⟩ := Option.isSome_iff_exists.1 (h.isSome_of_identityAt hshown hwho)
    rw [Option.bind_some, he, Option.bind_some, h.key? he]
    rfl

/-- A row is read: what it shows appears and is connected, and the row makes a tuple if it begins
one. -/
theorem ends_mapRow (hp : p.Sound c) (hplan : m.mapper.plan = p)
    (h : Mirrored c n shown links m.mapper.identity m.graph) (row : Row) :
    (Mapper.mapRow c row).Ends m (fun tuple m' =>
      Mirrored c n (shown ++ p.appearances row) (links ++ p.links row) m'.mapper.identity m'.graph ∧
        m.Onward n m' ∧ m'.mapper.lastRoots = p.rootKeys row ∧
          tuple = if Mapper.isNew m.mapper.lastRoots (p.rootKeys row)
            then some (p.tupleIn row m'.mapper.identity m'.graph) else none)
      (fun _ _ => ∃ node ∈ p.nodes, node.mapped = true ∧ node.Unreadable row) := by
  unfold Mapper.mapRow
  rw [Act.ends_bind, Act.ends_get]
  simp only [hplan]
  rw [Act.ends_bind]
  have hfound : ∀ who, some who ∈ ([] : List (Option Identity)) →
      (m.mapper.identity.get? who).isSome := fun _ h => absurd h List.not_mem_nil
  refine (h.ends_entitiesAt hp (fun _ h => h) hfound).mono (fun current m₁ h₁ => ?_) fun _ _ h => h
  obtain ⟨more, hmore, hmirrored, honward, hroots, rfl⟩ := h₁
  obtain rfl : more = p.identities row := by
    rw [List.nil_append] at hmore
    exact hmore.symm
  have hshown : ∀ a ∈ p.appearances row, a ∈ shown ++ p.appearances row :=
    fun a ha => List.mem_append_right _ ha
  rw [List.nil_append, Act.ends_bind, Mapper.onGraph, Act.ends_onPart]
  refine (hmirrored.ends_connectRow hp hshown).mono (fun _ g₂ h₂ => ?_) fun _ _ h => h.elim
  obtain ⟨hmirrored₂, hlater⟩ := h₂
  have honward₂ : m.Onward n ⟨{ m₁.mapper with lastRoots := p.rootKeys row }, g₂⟩ :=
    ⟨honward.plan, honward.known, honward.later.trans hlater⟩
  rw [Act.ends_bind, Act.ends_get]
  simp only [hmirrored₂.rootKeys_eq hshown]
  rw [Act.ends_bind, Act.ends_set, hroots, Act.ends_ite]
  refine ⟨fun hnew => ?_, fun hnew => ?_⟩
  · have hitems : (p.outputs.mapM fun o => do
        return (o.key, ← Mapper.itemAt c ((p.identities row).map fun x : Option Identity =>
          x.bind m₁.mapper.identity.get?) row o) : GraphM Tuple) g₂ =
        .ok (p.tupleIn row m₁.mapper.identity g₂) g₂ := by
      refine Act.mapM_eq_ok fun o ho => ?_
      simp only [bind, EStateM.bind,
        hmirrored₂.itemAt_eq hp (fun l hl => List.mem_append_right _ hl) ho]
      rfl
    rw [Act.ends_bind, Mapper.onGraph, Act.ends_onPart, Act.Ends, hitems]
    exact ⟨hmirrored₂, honward₂, rfl, (if_pos hnew).symm⟩
  · rw [Act.ends_pure]
    exact ⟨hmirrored₂, honward₂, rfl, (if_neg hnew).symm⟩

end Mirrored

/-! ### All rows -/

/-- The rows that begin a tuple, after a row with some root keys. -/
def Plan.begins (p : Plan) : List (Option Value) → List Row → List Row
  | _, [] => []
  | before, row :: rows =>
    (if Mapper.isNew before (p.rootKeys row) then [row] else []) ++ p.begins (p.rootKeys row) rows

/-- Rows are read one after the other. At the end the graph holds what all of them have shown, and
there is a tuple for each row that begins one. -/
theorem Mirrored.ends_mapRows {p : Plan} {m : Mapping} (hp : p.Sound c) (hplan : m.mapper.plan = p)
    (h : Mirrored c n shown links m.mapper.identity m.graph) (rows : List Row) :
    (Mapper.mapRows c rows).Ends m (fun tuples m' =>
      Mirrored c n (shown ++ rows.flatMap p.appearances) (links ++ rows.flatMap p.links)
          m'.mapper.identity m'.graph ∧
        m.Onward n m' ∧ tuples = (p.begins m.mapper.lastRoots rows).map fun row =>
          p.tupleIn row m'.mapper.identity m'.graph)
      (fun _ _ => ∃ row ∈ rows, ∃ node ∈ p.nodes, node.mapped = true ∧ node.Unreadable row) := by
  induction rows generalizing m shown links with
  | nil =>
    rw [List.flatMap_nil, List.flatMap_nil, List.append_nil, List.append_nil]
    exact ⟨h, .refl n m, rfl⟩
  | cons row rows ih =>
    rw [Mapper.mapRows, Act.ends_bind]
    refine (h.ends_mapRow hp hplan row).mono (fun tuple m₁ h₁ => ?_)
      fun _ _ h => ⟨row, List.mem_cons_self, h⟩
    obtain ⟨hmirrored, honward, hroots, rfl⟩ := h₁
    rw [Act.ends_bind]
    refine (ih (honward.plan.trans hplan) hmirrored).mono (fun tuples m₂ h₂ => ?_)
      fun _ _ h => h.imp fun _ h => h.imp_left (List.mem_cons_of_mem _)
    obtain ⟨hmirrored₂, honward₂, rfl⟩ := h₂
    rw [List.append_assoc, List.append_assoc] at hmirrored₂
    refine ⟨hmirrored₂, honward.trans honward₂, ?_⟩
    rw [Plan.begins, hroots, List.map_append]
    refine congrArg (· ++ _) ?_
    split
    · rw [Option.toList_some, List.map_singleton, hmirrored.tupleIn_onward hp
        (fun a ha => List.mem_append_right _ ha) (fun l hl => List.mem_append_right _ hl) honward₂]
    · rfl

end EntityGraph
