import EntityGraph.Proofs.Gathered
import EntityGraph.Proofs.Onward

/-!
# What reading rows does to a graph

A mapper reads rows into the graph by effects alone, whatever comes of it: entities and their embedded
components are new, values are loaded into them, and relations and collections get what the rows join.
The mapper knows entities by type and key, and those that it knows are of the type, so that everything
that it joins fits.

* `Mapping.Proceeds` — what has been read, as far as other work on the graph is concerned;
* `Mapper.ends_entitiesAt_proceeds`, `Mapper.ends_connect_onward`, `Mapper.ends_itemAt_onward` — the
  parts of reading a row.

## Main result

* `Mapper.ends_mapRows_proceeds` — reading rows of a sound plan leads onward.
-/

namespace EntityGraph

open EntityGraph.Graph

variable {c : Catalog} {V : EntityId → Value → Prop} {g g' g₀ : Graph} {e : EntityId} {n : PlanNode}
  {row : Row} {path : List String} {s : Schema} {p : Plan} {m m₀ : Mapping}
  {current : List (Option EntityId)}

namespace Graph.Onward

/-- A new entity is of its type, and nothing has been loaded into it. -/
theorem newEntity (h : Onward c V g g') (hs : c.schema s.name = .ok s) :
    Onward c V g { g' with entities := g'.entities ++ [{ schema := s }] } ∧
      Unloaded { g' with entities := g'.entities ++ [{ schema := s }] } ⟨g'.entities.length⟩ := by
  constructor
  · have hmade := h.ends_operation (.create s.name) trivial rfl
    simp only [Operation.run, hs, Act.ends_bind, Act.ends_ofExcept_ok, Act.ends_pure] at hmade
    exact hmade
  · have hnew := entity_append g' s ⟨g'.entities.length⟩
    rw [if_pos rfl] at hnew
    refine .inr ⟨?_, by rw [hnew], fun i hmem => ?_⟩
    · rw [key?, hnew]
      unfold Entity.key?
      cases Schema.keyName? s <;> rfl
    · exact absurd (h.typed.members i _ hmem).1 (Nat.lt_irrefl _)

/-- The collection of a name is there or is made, if there can be one. -/
theorem ends_collection (h : Onward c V g g') (e : EntityId) (name : String) :
    (Graph.many c e name).Ends g' (fun _ => Onward c V g) (fun _ => Onward c V g) := by
  have hopened := h.ends_operation (.many e name) trivial rfl
  simpa only [Operation.run, Act.ends_bind, Act.ends_pure] using hopened

/-- The collection of a to-many relation is there or is made, and is the one of the relation. -/
theorem ends_many (h : Onward c V g g') {comp : Component} {join : Join} {name : String}
    (hcomp : (g'.entity e).schema.component? name = some comp) (hmany : comp.isToMany = true)
    (hjoin : c.join (g'.entity e).schema comp = .ok join) :
    (Graph.many c e name).Ends g' (fun i g'' => Onward c V g g'' ∧ Onward c V g' g'' ∧
      (g''.collection i).component = comp) (fun _ _ => False) := by
  have hopened := (Onward.refl (V := V) h.typed).ends_collection e name
  rw [ends_many_iff hcomp hmany hjoin] at hopened ⊢
  cases hi : (g'.entity e).toMany.get? name with
  | some i =>
    simp only [hi] at hopened
    obtain ⟨hlt, howner, hname⟩ := h.typed.many e name i hi
    obtain ⟨-, hsame, -⟩ := h.typed.collection i hlt
    rw [howner, hname, hcomp] at hsame
    exact ⟨h, .refl h.typed, (Option.some.inj hsame).symm⟩
  | none =>
    simp only [hi] at hopened
    exact ⟨h.trans hopened, hopened, by rw [collection_withCollection_new]⟩

/-- Embedded components at the end of a path are there or are made. -/
theorem ends_embeddedAt (h : Onward c V g g') (e : EntityId) (path : List String) :
    (embeddedAt e path).Ends g' (fun _ => Onward c V g) (fun _ => Onward c V g) := by
  induction path generalizing g' e with
  | nil => exact h
  | cons name path ih =>
    rw [embeddedAt, Act.ends_bind]
    have hmade := h.ends_operation (.embedded e name) trivial rfl
    simp only [Operation.run, Act.ends_bind, Act.ends_pure] at hmade
    exact hmade.mono (fun part g₁ h₁ => ih h₁ part) fun _ _ h => h

end Graph.Onward

namespace Mapper

/-! ### Loading an entity -/

/-- Cells are read without the graph. -/
theorem ends_cells (n : PlanNode) (row : Row) (path : List String) (s : Schema) (g : Graph) :
    (s.atomics.mapM fun a => do
      return (a.name, ← Act.ofExcept (cell s a row (n.label path a.name)))).Ends g
      (fun _ g' => g' = g) (fun _ g' => g' = g) := by
  rw [Act.ends_mapM_iff]
  refine Act.ends_forM (I := fun g' => g' = g) (fun a _ t ht => ?_) rfl
  simp only [Act.ends_bind, Act.ends_ofExcept, Act.ends_pure]
  exact ⟨fun _ _ => ht, fun _ _ => ht⟩

/-- Embedded components are made and loaded one after the other. -/
theorem ends_loadEmbedded_onward {l : List (String × Schema)} (hl : ∀ q ∈ l, ∀ (path : List String) e g',
      Onward c V g g' → g'.Unloaded e →
        (loadPart n row path q.2 e).Ends g' (fun _ => Onward c V g) (fun _ => Onward c V g))
    (h : Onward c V g g') :
    (loadEmbedded n row path l e).Ends g' (fun _ => Onward c V g) (fun _ => Onward c V g) := by
  induction l generalizing g' with
  | nil => exact h
  | cons q l ih =>
    rw [loadEmbedded]
    simp only [Act.ends_bind]
    have hmade := h.ends_operation (.embedded e q.1) trivial rfl
    simp only [Operation.run, Act.ends_bind, Act.ends_pure] at hmade
    refine (hmade.and (ends_embedded_enlarged h.typed.toWellFormed e q.1)).mono (fun part g₁ h₁ => ?_)
      fun _ _ h => h.1
    refine (hl q List.mem_cons_self _ part g₁ h₁.1 (.inl h₁.2.2)).mono (fun _ g₂ h₂ => ?_)
      fun _ _ h => h
    exact ih (fun q' hq' => hl q' (List.mem_cons_of_mem _ hq')) h₂

/-- Loading an entity, or a component, leads onward. -/
theorem ends_loadPart_onward (n : PlanNode) (row : Row) (path : List String) (s : Schema)
    (h : Onward c V g g') (he : g'.Unloaded e) :
    (loadPart n row path s e).Ends g' (fun _ => Onward c V g) (fun _ => Onward c V g) := by
  induction s using Schema.induction generalizing path g' e with
  | _ s ih =>
    rw [loadPart_eq, Act.ends_bind]
    refine (ends_cells n row path s g').mono (fun values g₁ h₁ => ?_) fun _ _ heq => heq ▸ h
    subst h₁
    rw [Act.ends_bind]
    refine (h.ends_operation (.loadAtomics e values) he rfl).mono (fun _ g₂ h₂ => ?_)
      fun _ _ h => h
    exact ends_loadEmbedded_onward (fun q hq path e g' h he => ih q hq path h he) h₂

/-- An entity that has been loaded has the key of its row. -/
theorem ends_loadPart_key {key : Atomic} {v : Value} (hs : c.schema s.name = .ok s)
    (hkey : s.primaryKey = some key) (hread : n.read? row ([], key) = some v) (hnull : v ≠ .null)
    (hunread : Unread g e s) :
    (loadPart n row [] s e).Ends g (fun _ g' => g'.key? e = some v) (fun _ _ => True) := by
  have hmem := Catalog.mem_of_primaryKey hs hkey
  by_cases hreadable : ∀ q ∈ s.occurrences [], ∃ v, n.read? row q = some v
  · have hshows : Shows n row (fun q => (n.read? row q).getD .null) s [] := fun q hq _ => by
      obtain ⟨w, hw⟩ := hreadable q hq
      exact PlanNode.cell_eq_ok_iff.2 (by simp only [hw, Option.getD_some])
    refine (ends_loadPart (fun t ht => Catalog.coherent_of_within hs ht) hshows g e hunread).mono
      (fun _ g' hg' => ?_) fun _ _ _ => trivial
    obtain ⟨hgrown, hloaded, -⟩ := hg'
    have hschema : (g'.entity e).schema = s := (hgrown.schema e hunread.lt).trans hunread.schema
    have hslot : g'.slot e key.name = some (.loaded v) := by
      have hslot := hloaded ([], key) (Schema.mem_occurrences_iff.2 (.inl ⟨key, hmem, rfl⟩))
      simpa [slotAt, partAt?, hread, Graph.slot] using hslot
    rw [key?_of_value (v := v) (hschema.symm ▸ hkey) (by rw [hslot]; rfl),
      if_neg (by simpa using hnull)]
  · exact (read_of_loadPart g e).mono (fun _ _ h => absurd h hreadable) fun _ _ _ => trivial

end Mapper

/-! ### What has been read -/

/-- What is known by type and key exists and is of the type. -/
def Graph.Knows (c : Catalog) (g : Graph) (known : Assoc Identity EntityId) : Prop :=
  ∀ who x, known.get? who = some x →
    x.index < g.entities.length ∧ c.schema who.1 = .ok (g.entity x).schema

/-- What is known stays so as long as entities keep their types. -/
theorem Graph.Knows.mono {known : Assoc Identity EntityId} (h : g.Knows c known)
    (hlength : g.entities.length ≤ g'.entities.length) (hschema : ∀ x, x.index < g.entities.length →
      (g'.entity x).schema = (g.entity x).schema) : g'.Knows c known := fun who x hx => by
  obtain ⟨hlt, hs⟩ := h who x hx
  rw [hschema x hlt]
  exact ⟨Nat.lt_of_lt_of_le hlt hlength, hs⟩

/-- What is known stays so. -/
theorem Graph.Knows.effects {known : Assoc Identity EntityId} (h : g.Knows c known)
    (he : Effects c V g g') : g'.Knows c known :=
  h.mono (Effects.length_le he) fun _ hx => Effects.schema he hx

/-- A mapper has read on. The graph has come to a well-typed one, and the mapper knows entities as what
they are. -/
structure Mapping.Proceeds (c : Catalog) (V : EntityId → Value → Prop) (m₀ m : Mapping) : Prop where
  onward : Graph.Onward c V m₀.graph m.graph
  knows : m.graph.Knows c m.mapper.identity
  plan : m.mapper.plan = m₀.mapper.plan

namespace Mapping.Proceeds

/-- Work on the graph is part of reading. -/
theorem graph (h : Proceeds c V m₀ m) (hg : Graph.Onward c V m.graph g) :
    Proceeds c V m₀ { m with graph := g } :=
  ⟨h.onward.trans hg, h.knows.effects hg.effects, h.plan⟩

/-- Work on the graph that ends where the graph has come to a well-typed one is part of reading. -/
theorem ends_onGraph (h : Proceeds c V m₀ m) {α : Type} {act : GraphM α} {Q : α → Graph → Prop}
    (hact : act.Ends m.graph (fun x g => Graph.Onward c V m.graph g ∧ Q x g)
      (fun _ => Graph.Onward c V m.graph)) :
    (Mapper.onGraph act).Ends m (fun x m' => Proceeds c V m₀ m' ∧ Q x m'.graph)
      (fun _ => Proceeds c V m₀) := by
  rw [Mapper.onGraph, Act.ends_onPart]
  exact hact.mono (fun _ _ hg => ⟨h.graph hg.1, hg.2⟩) fun _ _ hg => h.graph hg

end Mapping.Proceeds

/-! ### The entities of a row -/

namespace Mapper

open Mapping

/-- What a node of a row has is of the type of the node. -/
def Stands (g : Graph) (n : PlanNode) (e : Option EntityId) : Prop :=
  ∀ x ∈ e, x.index < g.entities.length ∧ (g.entity x).schema = n.schema

/-- What nodes have stays of their types. -/
theorem Stands.effects {o : Option EntityId} (h : Stands g n o) (he : Effects c V g g') :
    Stands g' n o := fun x hx => by
  obtain ⟨hlt, hs⟩ := h x hx
  rw [Effects.schema he hlt]
  exact ⟨Nat.lt_of_lt_of_le hlt (Effects.length_le he), hs⟩

/-- The collections that a node asks for are opened. -/
theorem ends_openCollections_onward (h : Onward c V g g') (n : PlanNode) (e : EntityId) :
    (openCollections c n e).Ends g' (fun _ => Onward c V g) (fun _ => Onward c V g) :=
  Act.ends_forM (I := Onward c V g)
    (fun name _ _ h => h.ends_operation (.many e name) trivial rfl) h

/-- A new entity is made where a row shows one that is not known. -/
theorem ends_appear_onward {key : Atomic} {v : Value} (h : Onward c V g g')
    (hs : c.schema n.schema.name = .ok n.schema) (hkey : n.schema.primaryKey = some key)
    (hread : n.read? row ([], key) = some v) (hnull : v ≠ .null) :
    Act.Ends (do
      let e ← Graph.newEntity n.schema
      loadPart n row [] n.schema e
      modify (·.markStored e)
      openCollections c n e
      return e) g' (fun x g'' => Onward c V g g'' ∧ Stands g'' n (some x)) (fun _ => Onward c V g) := by
  obtain ⟨hmade, hunloaded⟩ := h.newEntity hs
  have hunread := Unread.newEntity g' n.schema
  rw [Act.ends_bind, Act.Ends, newEntity_eq]
  show Act.Ends _ ({ g' with entities := g'.entities ++ [{ schema := n.schema }] } : Graph) _ _
  generalize ({ g' with entities := g'.entities ++ [{ schema := n.schema }] } : Graph) = g₁ at *
  generalize (⟨g'.entities.length⟩ : EntityId) = x at *
  rw [Act.ends_bind]
  refine ((ends_loadPart_onward n row [] n.schema (.refl hmade.typed) hunloaded).and
    (ends_loadPart_key hs hkey hread hnull hunread)).mono (fun _ g₂ h₂ => ?_)
      fun _ _ hg => hmade.trans hg.1
  obtain ⟨hloaded, hk⟩ := h₂
  -- the entity that is marked has its key
  have hmarked : Onward c V g₂ (g₂.markStored x) :=
    (Onward.refl hloaded.typed).ends_operation (.markStored x) (fun _ _ => by rw [hk]; rfl) rfl
  rw [Act.ends_bind, Act.ends_modify, Act.ends_bind]
  refine (ends_openCollections_onward (.refl hmarked.typed) n x).mono (fun _ g₃ h₃ => ?_)
    fun _ _ hg => ((hmade.trans hloaded).trans hmarked).trans hg
  have hstands : Stands g₁ n (some x) := fun y hy => by
    obtain rfl := Option.some.inj hy
    exact ⟨hunread.lt, hunread.schema⟩
  exact ⟨((hmade.trans hloaded).trans hmarked).trans h₃,
    ((hstands.effects hloaded.effects).effects hmarked.effects).effects h₃.effects⟩

/-- The entity of a node is known or is made. -/
theorem ends_entityAt_proceeds (hs : c.schema n.schema.name = .ok n.schema) (h : Proceeds c V m₀ m) :
    (entityAt c n row).Ends m (fun e m' => Proceeds c V m₀ m' ∧ Stands m'.graph n e)
      (fun _ => Proceeds c V m₀) := by
  have hnone : Stands m.graph n none := fun _ hx => by cases hx
  obtain ⟨key, hkey, -⟩ := Catalog.key_of_schema hs
  unfold entityAt
  rw [Act.ends_bind, Schema.key_eq_ok_iff.2 hkey, Act.ends_ofExcept_ok, Act.ends_bind, Act.ends_ofExcept]
  refine ⟨fun v hv => ?_, fun _ _ => h⟩
  rw [Act.ends_ite]
  refine ⟨fun _ => ⟨h, hnone⟩, fun hnull => ?_⟩
  rw [Act.ends_bind, Act.ends_get]
  cases hknown : m.mapper.identity.get? (n.schema.name, v) with
  | some x =>
    simp only [Act.ends_bind, Act.ends_pure]
    obtain ⟨hlt, hschema⟩ := h.knows _ x hknown
    have hstands : Stands m.graph n (some x) := fun y hy => by
      obtain rfl := Option.some.inj hy
      exact ⟨hlt, Except.ok.inj (hschema.symm.trans hs)⟩
    refine h.ends_onGraph (Q := fun _ g => Stands g n (some x))
      ((ends_openCollections_onward (.refl h.onward.typed) n x).mono (fun _ g hg => ?_) fun _ _ hg => hg)
    exact ⟨hg, hstands.effects hg.effects⟩
  | none =>
    simp only
    rw [Act.ends_bind]
    refine (h.ends_onGraph (ends_appear_onward (.refl h.onward.typed) hs hkey
      (PlanNode.cell_eq_ok_iff.1 hv) (by simpa using hnull))).mono (fun x m' hm' => ?_) fun _ _ h => h
    obtain ⟨hproceeds, hstands⟩ := hm'
    simp only [Act.ends_bind, Act.ends_modify, Act.ends_pure]
    refine ⟨⟨hproceeds.onward, fun who y hy => ?_, hproceeds.plan⟩, hstands⟩
    rcases Assoc.get?_put_cases hy with ⟨rfl, rfl⟩ | hold
    · obtain ⟨hlt, hschema⟩ := hstands _ rfl
      exact ⟨hlt, by rw [hschema, hs]⟩
    · exact hproceeds.knows who y hold.2

/-- The entities of a row are of the types of their nodes. -/
theorem ends_entitiesAt_proceeds (hp : p.Sound c) (before : List PlanNode) {nodes : List PlanNode}
    (hnodes : p.nodes = before ++ nodes) (h : Proceeds c V m₀ m)
    (hcurrent : List.Forall₂ (Stands m.graph) before current) :
    (entitiesAt c row nodes current).Ends m
      (fun current' m' => Proceeds c V m₀ m' ∧ List.Forall₂ (Stands m'.graph) p.nodes current')
      (fun _ => Proceeds c V m₀) := by
  induction nodes generalizing before current m with
  | nil =>
    rw [List.append_nil] at hnodes
    exact ⟨h, hnodes ▸ hcurrent⟩
  | cons n nodes ih =>
    have hs : c.schema n.schema.name = .ok n.schema := hp.schema n (by simp [hnodes])
    have htrans : ∀ {m' : Mapping}, Proceeds c V m m' → Proceeds c V m₀ m' := fun h' =>
      ⟨h.onward.trans h'.onward, h'.knows, h'.plan.trans h.plan⟩
    have hnext : ∀ {e : Option EntityId} {m' : Mapping}, Proceeds c V m m' → Stands m'.graph n e →
        (entitiesAt c row nodes (current ++ [e])).Ends m'
          (fun current' m' => Proceeds c V m₀ m' ∧ List.Forall₂ (Stands m'.graph) p.nodes current')
          (fun _ => Proceeds c V m₀) := by
      intro e m' hproceeds hstands
      refine ih (before ++ [n]) (by simp [hnodes]) (htrans hproceeds) ?_
      exact List.rel_append (hcurrent.imp fun _ _ ho => ho.effects hproceeds.onward.effects)
        (.cons hstands .nil)
    have hrefl : Proceeds c V m m := ⟨.refl h.onward.typed, h.knows, rfl⟩
    rw [entitiesAt, Act.ends_ite]
    refine ⟨fun _ => ?_, fun _ => hnext hrefl fun _ hx => by cases hx⟩
    rw [Act.ends_bind]
    exact (ends_entityAt_proceeds hs hrefl).mono (fun _ m' hm' => hnext hm'.1 hm'.2) fun _ _ => htrans

/-! ### Connecting the entities of a row -/

/-- The entities of a row are connected. -/
theorem ends_connect_onward (hp : p.Sound c) {i : Nat} (hn : p.nodes[i]? = some n)
    (h : Onward c V g g') (hcurrent : List.Forall₂ (Stands g') p.nodes current) {o : Option EntityId}
    (ho : Stands g' n o) :
    (connect c current n o).Ends g' (fun _ => Onward c V g) (fun _ => Onward c V g) := by
  unfold connect
  split
  · exact h
  · next parent comp hparent =>
    split
    · next owner hmapped howner =>
      obtain ⟨-, above, habove, hcomp, htarget, join, hjoin⟩ := hp.parent i n hn parent comp hparent
      have htype : c.schema comp.target = .ok n.schema :=
        htarget ▸ hp.schema n (List.mem_of_getElem? hn)
      have hschema : (g'.entity owner).schema = above.schema := by
        obtain ⟨e, he, hid⟩ := Option.bind_eq_some_iff.1 howner
        obtain rfl : e = some owner := hid
        obtain ⟨hlt, habove'⟩ := List.getElem?_eq_some_iff.1 habove
        obtain ⟨hlt', he'⟩ := List.getElem?_eq_some_iff.1 he
        have hstands := hcurrent.get hlt hlt'
        simp only [List.get_eq_getElem, habove', he'] at hstands
        exact (hstands owner rfl).2
      split
      · next hmany =>
        rw [Act.ends_bind]
        refine (h.ends_many (hschema ▸ hcomp) hmany (hschema ▸ hjoin)).mono (fun id g₁ h₁ => ?_)
          fun _ _ hno => hno.elim
        obtain ⟨hopened, hstep, hcomponent⟩ := h₁
        cases o with
        | none => exact hopened
        | some x =>
          obtain ⟨hlt, hx⟩ := ho.effects hstep.effects x rfl
          exact hopened.ends_operation (.append id x)
            ⟨hlt, by rw [hcomponent, hx, htype]⟩ rfl
      · refine h.ends_operation (.loadOne owner comp.name o) (fun t ht => ?_) rfl
        obtain ⟨hlt, hschema'⟩ := ho t ht
        exact ⟨hlt, comp, hschema ▸ hcomp, by rw [hschema', htype]⟩
    · exact h

/-! ### Rows -/

/-- What an output stands for is there or is made. -/
theorem ends_itemAt_onward (h : Onward c V g g') (current : List (Option EntityId)) (row : Row)
    (o : Output) :
    (itemAt c current row o).Ends g' (fun _ => Onward c V g) (fun _ => Onward c V g) := by
  cases o with
  | entity _ i => exact h
  | raw _ label => exact h
  | collection _ i name =>
    rw [itemAt]
    cases entityOf current i with
    | none => exact h
    | some owner =>
      simp only [Act.ends_bind, Act.ends_pure]
      exact h.ends_collection owner name
  | embedded _ i path =>
    rw [itemAt]
    cases entityOf current i with
    | none => exact h
    | some owner =>
      simp only [Act.ends_bind, Act.ends_pure]
      exact h.ends_embeddedAt owner path
  | scalar _ i path atomic =>
    rw [itemAt]
    cases entityOf current i with
    | none => exact h
    | some owner =>
      simp only [Act.ends_bind, Act.ends_get, Act.ends_pure]
      refine (h.ends_embeddedAt owner path).mono (fun x g₁ h₁ => ?_) fun _ _ h => h
      rw [Act.ends_ofExcept]
      exact ⟨fun _ _ => h₁, fun _ _ => h₁⟩

/-- Reading a row leads onward, whatever comes of it. -/
theorem ends_mapRow_proceeds (hp : m.mapper.plan.Sound c) (h : Proceeds c V m₀ m) (row : Row) :
    (mapRow c row).Ends m (fun _ => Proceeds c V m₀) (fun _ => Proceeds c V m₀) := by
  unfold mapRow
  rw [Act.ends_bind, Act.ends_get, Act.ends_bind]
  refine (ends_entitiesAt_proceeds hp [] rfl h .nil).mono (fun current m₁ h₁ => ?_)
    fun _ _ h => h
  obtain ⟨hproceeds, hcurrent⟩ := h₁
  rw [Act.ends_bind]
  refine (hproceeds.ends_onGraph (Q := fun _ _ => True) ?_).mono (fun _ m₂ h₂ => ?_) fun _ _ h => h
  · refine (Act.ends_forM (I := Onward c V m₁.graph) (fun q hq g hg => ?_)
      (.refl hproceeds.onward.typed)).mono (fun _ _ hg => ⟨hg, trivial⟩) fun _ _ hg => hg
    obtain ⟨i, hi, heq⟩ := List.mem_iff_getElem.1 hq
    have hlt : i < m.mapper.plan.nodes.length ∧ i < current.length := by
      simpa [List.length_zip] using hi
    rw [List.getElem_zip] at heq
    obtain rfl := heq
    exact ends_connect_onward hp (List.getElem?_eq_getElem hlt.1) hg
      (hcurrent.imp fun _ _ ho => ho.effects hg.effects) ((hcurrent.get hlt.1 hlt.2).effects hg.effects)
  · obtain ⟨hconnected, -⟩ := h₂
    simp only [Act.ends_bind, Act.ends_get, Act.ends_set]
    generalize hm₃ : ({ m₂ with mapper := { m₂.mapper with
      lastRoots := m.mapper.plan.roots.map fun i => (entityOf current i).bind m₂.graph.key? } } :
        Mapping) = m₃
    have hread : Proceeds c V m₀ m₃ := hm₃ ▸ ⟨hconnected.onward, hconnected.knows, hconnected.plan⟩
    rw [Act.ends_ite]
    refine ⟨fun _ => ?_, fun _ => hread⟩
    rw [Act.ends_bind]
    refine (hread.ends_onGraph (Q := fun _ _ => True) ?_).mono (fun _ _ h => h.1) fun _ _ h => h
    refine Act.Ends.mono ?_ (fun _ _ hg => ⟨hg, trivial⟩) fun _ _ hg => hg
    rw [Act.ends_mapM_iff]
    refine Act.ends_forM (fun o _ g hg => ?_) (.refl hread.onward.typed)
    simp only [Act.ends_bind, Act.ends_pure]
    exact ends_itemAt_onward hg current row o

/-- Reading rows leads onward, whatever comes of it. -/
theorem ends_mapRows_proceeds (hp : m₀.mapper.plan.Sound c) (h : Proceeds c V m₀ m) (rows : List Row) :
    (mapRows c rows).Ends m (fun _ => Proceeds c V m₀) (fun _ => Proceeds c V m₀) := by
  induction rows generalizing m with
  | nil => exact h
  | cons row rows ih =>
    rw [mapRows]
    simp only [Act.ends_bind, Act.ends_pure]
    exact (ends_mapRow_proceeds (h.plan ▸ hp) h row).mono (fun _ _ h => ih h) fun _ _ h => h

end Mapper

end EntityGraph
