import EntityGraph.Graph.Members
import EntityGraph.Proofs.Frame
import EntityGraph.Proofs.Ends
import Mathlib.Logic.Relation

/-!
# Graphs that operations build

A graph comes about by operations on the empty one: those of callers, who create entities, assign
their atomics and relations and change collections, and those of sessions, which read values from
storage, take over keys and note what storage has. `Graph.Built` holds of every graph that operations
lead to, whether they succeed or fail.

`Graph.WellFormed` collects what they keep: every entity has a schema that the catalog knows, an
embedded component has one owner and the schema that the owner embeds, only an entity type or a type
with relations has foreign keys that wait, and a listener waits for the primary key of the entity that
it listens to.

## Main results

* `Built.wellFormed`: every built graph is well formed.
* `WellFormed.noKey_of_part`: an embedded component has no primary key.
* `WellFormed.eq_of_mem_parts`: a component is part of at most one entity with a primary key.
* `WellFormed.pending_of_noKey`: where embeddable types declare no relations, no foreign key of an
  embedded component waits.
-/

namespace EntityGraph.Graph

/-- What is done to a graph, by callers and by sessions. -/
inductive Operation where
  | create (type : String)
  | assign (e : EntityId) (name : String) (v : Value)
  | assignOne (e : EntityId) (name : String) (target : Option EntityId)
  | many (e : EntityId) (name : String)
  | embedded (e : EntityId) (name : String)
  | push (c : CollectionId) (member : EntityId)
  | remove (c : CollectionId) (member : EntityId)
  | releaseMembers (c : CollectionId)
  | clearForeignKey (e : EntityId) (name : String)
  | append (c : CollectionId) (member : EntityId)
  | loadOne (e : EntityId) (name : String) (target : Option EntityId)
  | loadAtomics (e : EntityId) (values : List (String × Value))
  | assignGeneratedKey (e : EntityId) (v : Value)
  | markClean (e : EntityId)
  | markStored (e : EntityId)
  | markDeleted (e : EntityId)

/-- Runs an operation. Only a collection that exists takes members. -/
def Operation.run (c : Catalog) : Operation → GraphM Unit
  | .create type => do let _ ← newEntity (← Act.ofExcept (c.schema type))
  | .assign e name v => Graph.assign e name v
  | .assignOne e name target => Graph.assignOne c e name target
  | .many e name => do let _ ← Graph.many c e name
  | .embedded e name => do let _ ← Graph.embedded e name
  | .push id member => do
    if id.index < (← get).collections.length then Graph.push id member
  | .remove id member => do let _ ← Graph.remove id member
  | .releaseMembers id => Graph.releaseMembers id
  | .clearForeignKey e name => Graph.clearForeignKey e name
  | .append id member => do let _ ← Graph.append id member
  | .loadOne e name target => Graph.loadOne e name target
  | .loadAtomics e values => Graph.loadAtomics e values
  | .assignGeneratedKey e v => Graph.assignGeneratedKey e v
  | .markClean e => modify (·.markClean e)
  | .markStored e => modify (·.markStored e)
  | .markDeleted e => modify (·.markDeleted e)

/-- The graphs that operations lead to, whether these succeed or fail. -/
inductive Built (c : Catalog) : Graph → Prop
  | empty : Built c {}
  | step {g : Graph} (op : Operation) : Built c g → Built c ((op.run c).final g)

/-- Whether entities of a schema may have foreign keys: an entity type may, and a type that declares
relations. -/
def MayRefer (c : Catalog) (s : Schema) : Prop :=
  (c.entity? s.name).isSome ∨ s.components ≠ []

/-- What every operation keeps. -/
structure WellFormed (c : Catalog) (g : Graph) : Prop where
  known : ∀ x, x.index < g.entities.length → c.Known (g.entity x).schema
  embedded : ∀ x name y, (g.entity x).embedded.get? name = some y →
    y.index < g.entities.length ∧ (g.entity x).schema.embedded? name = some (g.entity y).schema
  listeners : ∀ x holder name referenced,
    .foreignKey holder name referenced ∈ (g.entity x).listeners →
      (g.entity x).schema.keyName? = some referenced
  pending : ∀ x, (g.entity x).pending ≠ [] → MayRefer c (g.entity x).schema
  collections : ∀ i, i.index < g.collections.length →
    ∃ s, c.schema (g.collection i).component.target = .ok s
  owner : ∀ x x' name name' y, (g.entity x).embedded.get? name = some y →
    (g.entity x').embedded.get? name' = some y → x = x'

namespace WellFormed

variable {c : Catalog} {g : Graph} {e : EntityId} {f : Entity → Entity}

theorem empty (c : Catalog) : WellFormed c {} where
  known x hx := absurd hx (Nat.not_lt_zero _)
  embedded x name y h := by cases h
  listeners x holder name referenced h := by cases h
  pending x h := absurd rfl h
  collections i hi := absurd hi (Nat.not_lt_zero _)
  owner x x' name name' y h := by cases h

/-- An entity whose type has a relation exists, so its type is known. -/
theorem known_of_component (h : WellFormed c g) {comp : Component}
    (hcomp : comp ∈ (g.entity e).schema.components) : c.Known (g.entity e).schema :=
  h.known e (index_lt_of_mem (v := (·.schema.components)) hcomp rfl)

/-- A change that keeps the schema and the embedded components, that adds only listeners for the key,
and lets foreign keys wait only where there may be some. -/
theorem modifyEntity (h : WellFormed c g) (hschema : (f (g.entity e)).schema = (g.entity e).schema)
    (hembedded : (f (g.entity e)).embedded = (g.entity e).embedded)
    (hlisteners : ∀ holder name referenced,
      .foreignKey holder name referenced ∈ (f (g.entity e)).listeners →
        (g.entity e).schema.keyName? = some referenced)
    (hpending : (f (g.entity e)).pending ≠ [] → MayRefer c (g.entity e).schema) :
    WellFormed c (g.modifyEntity e f) := by
  have hs : ∀ d, ((g.modifyEntity e f).entity d).schema = (g.entity d).schema :=
    fun d => view_modifyEntity (v := (·.schema)) hschema
  have hparts : ∀ d, ((g.modifyEntity e f).entity d).embedded = (g.entity d).embedded :=
    fun d => view_modifyEntity (v := (·.embedded)) hembedded
  refine ⟨fun x hx => ?_, fun x name y hy => ?_, fun x holder name referenced hl => ?_,
    fun x hx => ?_, h.collections, fun x x' name name' y hy hy' => ?_⟩
  · rw [length_modifyEntity] at hx
    exact hs x ▸ h.known x hx
  · rw [hs, hs, length_modifyEntity]
    exact h.embedded x name y (hparts x ▸ hy)
  · rw [hs]
    rcases entity_modifyEntity_cases g x e f with hd | ⟨rfl, -, hd⟩ <;> rw [hd] at hl
    · exact h.listeners x holder name referenced hl
    · exact hlisteners holder name referenced hl
  · rw [hs]
    rcases entity_modifyEntity_cases g x e f with hd | ⟨rfl, -, hd⟩ <;> rw [hd] at hx
    · exact h.pending x hx
    · exact hpending hx
  · exact h.owner x x' name name' y (hparts x ▸ hy) (hparts x' ▸ hy')

/-- A change of values, relations and marks. -/
theorem modifyEntity_of_eq (h : WellFormed c g) (hf : ∀ x, (f x).schema = x.schema ∧
      (f x).embedded = x.embedded ∧ (f x).listeners = x.listeners ∧ (f x).pending = x.pending) :
    WellFormed c (g.modifyEntity e f) := by
  obtain ⟨hschema, hembedded, hlisteners, hpending⟩ := hf (g.entity e)
  refine h.modifyEntity hschema hembedded (fun holder name referenced hl => ?_) fun hp => ?_
  · exact h.listeners e holder name referenced (hlisteners ▸ hl)
  · exact h.pending e (hpending ▸ hp)

/-- A change of some entities, one after the other. -/
theorem foldl_modifyEntity (h : WellFormed c g) (l : List EntityId)
    (hf : ∀ x, (f x).schema = x.schema ∧ (f x).embedded = x.embedded ∧
      (f x).listeners = x.listeners ∧ (f x).pending = x.pending) :
    WellFormed c (l.foldl (fun g x => g.modifyEntity x f) g) := by
  induction l generalizing g with
  | nil => exact h
  | cons x l ih => exact ih (h.modifyEntity_of_eq hf)

/-- A foreign key stops waiting. -/
theorem settle (h : WellFormed c g) (name : String) :
    WellFormed c (g.modifyEntity e (·.settle name)) := by
  refine h.modifyEntity rfl rfl (h.listeners e) fun hp => h.pending e fun hnil => hp ?_
  simp [Entity.settle, hnil, Assoc.erase]

/-- A change of members and index. -/
theorem modifyCollection {i : CollectionId} {f : Collection → Collection} (h : WellFormed c g)
    (hf : ∀ x, (f x).component = x.component) : WellFormed c (g.modifyCollection i f) := by
  refine ⟨h.known, h.embedded, h.listeners, h.pending, fun j hj => ?_, h.owner⟩
  have hlt : j.index < g.collections.length := by
    simpa [Graph.modifyCollection] using hj
  rw [view_modifyCollection (v := (·.component)) hf]
  exact h.collections j hlt

/-- An entity of a known schema is added. -/
theorem newEntity (h : WellFormed c g) {s : Schema} (hs : c.Known s) :
    WellFormed c { g with entities := g.entities ++ [{ schema := s }] } := by
  have hentity := entity_append g s
  refine ⟨fun x hx => ?_, fun x name y hy => ?_, fun x holder name referenced hl => ?_,
    fun x hx => ?_, h.collections, fun x x' name name' y hy hy' => ?_⟩
  all_goals rw [hentity] at *
  · split
    · exact hs
    · next hne =>
      simp only [List.length_append, List.length_singleton] at hx
      exact h.known x (by omega)
  · split at hy
    · cases hy
    · next hne =>
      obtain ⟨hlt, hy⟩ := h.embedded x name y hy
      rw [if_neg hne, hentity, if_neg (Nat.ne_of_lt hlt), List.length_append]
      exact ⟨Nat.lt_add_right _ hlt, hy⟩
  · split at hl
    · cases hl
    · next hne => exact if_neg hne ▸ h.listeners x holder name referenced hl
  · split at hx
    · exact absurd rfl hx
    · next hne => exact if_neg hne ▸ h.pending x hx
  · split at hy
    · cases hy
    · split at hy'
      · cases hy'
      · exact h.owner x x' name name' y hy hy'

/-! ### Operations keep graphs well formed -/

/-- A part is embedded in an owner that knows its schema. -/
theorem known_of_embedded? (h : WellFormed c g) {name : String} {s : Schema}
    (hs : (g.entity e).schema.embedded? name = some s) : c.Known s := by
  exact (h.known e (index_lt_of_embedded? hs)).embedded (Schema.mem_of_embedded? hs)

/-- Work that keeps graphs well formed, whatever comes of it. -/
def Kept {α : Type} (c : Catalog) (act : GraphM α) : Prop :=
  ∀ g, WellFormed c g → act.Ends g (fun _ => WellFormed c) (fun _ => WellFormed c)

/-- A foreign key takes a value. -/
theorem receive (h : WellFormed c g) (name : String) (v : Value) :
    WellFormed c (g.modifyEntity e (·.receive name v)) := by
  obtain ⟨hschema, hembedded, hlisteners, -⟩ := receive_frame (g.entity e) name v
  refine h.modifyEntity hschema hembedded (hlisteners ▸ h.listeners e) fun hp => ?_
  refine h.pending e fun hnil => hp ?_
  simp [hnil, Assoc.erase]

theorem writeForeignKey (name : String) (v : Value) : Kept c (Graph.writeForeignKey e name v) :=
  fun _ h => ends_writeForeignKey (fun _ _ _ _ => h.receive name _) fun _ => h

theorem clearForeignKey (name : String) : Kept c (Graph.clearForeignKey e name) := by
  intro g h
  refine h.modifyEntity rfl rfl (h.listeners e) fun hp => h.pending e fun hnil => hp ?_
  simp [Entity.loadAtomic, Entity.settle, hnil, Assoc.erase]

theorem indexMember (i : CollectionId) : Kept c (Graph.indexMember i e) := by
  intro g h
  unfold Graph.indexMember
  rw [Act.ends_modify]
  split
  · exact h.modifyCollection fun _ => rfl
  · exact h

theorem hear (l : KeyListener) : Kept c (Graph.hear e l) := by
  intro g h
  cases l with
  | foreignKey holder name referenced =>
    unfold Graph.hear
    simp only [Act.ends_bind, Act.ends_get, Act.ends_ite, Act.ends_ofExcept]
    refine ⟨fun _ => ⟨fun v _ => writeForeignKey name v g h, fun _ _ => h⟩, fun _ => h⟩
  | collection i => exact indexMember i g h

theorem announceKey : Kept c (Graph.announceKey e) := by
  intro g h
  unfold Graph.announceKey
  simp only [Act.ends_bind, Act.ends_get, Act.ends_modify]
  refine Act.ends_forAll (fun l _ g h => hear l g h) ?_
  exact h.modifyEntity rfl rfl (fun _ _ _ hl => absurd hl List.not_mem_nil) (h.pending e)

theorem assign (name : String) (v : Value) : Kept c (Graph.assign e name v) := by
  intro g h
  unfold Graph.assign
  simp only [Act.ends_bind, Act.ends_get, Act.ends_ofExcept, Act.ends_modify, Act.ends_ite,
    Act.ends_throw, Act.ends_pure]
  refine ⟨fun a _ => ⟨fun w _ => ⟨fun _ => h, fun _ => ?_⟩, fun _ _ => h⟩, fun _ _ => h⟩
  have hsettled := h.settle (e := e) a.name
  have hwritten := hsettled.modifyEntity_of_eq (e := e) (f := (·.writeAtomic a.name w))
    fun x => ⟨rfl, rfl, rfl, rfl⟩
  exact ⟨fun _ => hsettled, fun _ => ⟨fun _ => announceKey _ hwritten, fun _ => hwritten⟩⟩

theorem assignGeneratedKey (v : Value) : Kept c (Graph.assignGeneratedKey e v) := by
  intro g h
  unfold Graph.assignGeneratedKey
  simp only [Act.ends_bind, Act.ends_get, Act.ends_ofExcept, Act.ends_modify]
  refine ⟨fun a _ => ⟨fun w _ => ?_, fun _ _ => h⟩, fun _ _ => h⟩
  exact announceKey _ (h.modifyEntity_of_eq fun x => ⟨rfl, rfl, rfl, rfl⟩)

/-- A listener is added that waits for the key, if it is one of a foreign key. -/
theorem addListener {l : KeyListener} (h : WellFormed c g) (hl : ∀ holder name referenced,
      KeyListener.foreignKey holder name referenced = l →
        (g.entity e).schema.keyName? = some referenced) :
    WellFormed c (g.modifyEntity e fun x => { x with listeners := x.listeners ++ [l] }) := by
  refine h.modifyEntity rfl rfl (fun holder name referenced hmem => ?_) (h.pending e)
  rcases List.mem_append.1 hmem with hmem | hmem
  · exact h.listeners e _ _ _ hmem
  · exact hl holder name referenced (List.mem_singleton.1 hmem)

/-- A holder that may refer is linked to a source. -/
theorem link {holder source : EntityId} {name referenced : String} (h : WellFormed c g)
    (hholder : MayRefer c (g.entity holder).schema) :
    (Graph.link holder name source referenced).Ends g
      (fun _ => WellFormed c) (fun _ => WellFormed c) := by
  unfold Graph.link
  simp only [Act.ends_bind, Act.ends_get, Act.ends_ofExcept, Act.ends_modify, Act.ends_ite,
    Act.ends_throw]
  refine ⟨fun v _ => ⟨fun _ => writeForeignKey name v g h, fun _ => ⟨fun _ => h, fun hkey => ?_⟩⟩,
    fun _ _ => h⟩
  have hkey : (g.entity source).schema.keyName? = some referenced := not_not.1 hkey
  have hwaits := h.modifyEntity (e := holder)
    (f := fun x => { x with pending := x.pending.put name source }) rfl rfl (h.listeners holder)
    fun _ => hholder
  refine hwaits.addListener fun holder' name' referenced' hl => ?_
  obtain ⟨-, -, rfl⟩ := by simpa using hl
  rw [view_modifyEntity (v := (·.schema.keyName?)) rfl]
  exact hkey

/-- An entity of a relation's target type may refer. -/
theorem mayRefer_of_target {s t target : Schema} {comp : Component}
    (htarget : c.schema comp.target = .ok target) (ht : checkTarget s comp t = .ok ()) :
    MayRefer c t := by
  obtain ⟨d, hd, -, -⟩ := Catalog.builtAs_of_schema htarget
  unfold checkTarget at ht
  split at ht
  · next hname => exact .inl (by rw [hname, hd]; rfl)
  · cases ht

/-- The foreign key of a to-one relation is written where both sides may refer. -/
theorem relink {join : Join} {before target : Option EntityId} (h : WellFormed c g)
    (he : MayRefer c (g.entity e).schema)
    (ht : ∀ t, target = some t → MayRefer c (g.entity t).schema) :
    (Graph.relink e join before target).Ends g (fun _ => WellFormed c) (fun _ => WellFormed c) := by
  have hlink : ∀ g', WellFormed c g' → (∀ x, (g'.entity x).schema = (g.entity x).schema) →
      ∀ t, target = some t → (Graph.link t join.foreignKey e join.referenced).Ends g'
        (fun _ => WellFormed c) (fun _ => WellFormed c) :=
    fun g' h' hschema t htarget => h'.link (hschema t ▸ ht t htarget)
  unfold Graph.relink
  cases join.side with
  | here =>
    cases target with
    | none => exact writeForeignKey _ _ g h
    | some t => exact h.link he
  | there =>
    cases before with
    | none =>
      cases target with
      | none => exact h
      | some t => exact hlink g h (fun _ => rfl) t rfl
    | some b =>
      simp only [Act.ends_bind, Act.ends_ite]
      refine ⟨fun _ => ends_writeForeignKey (fun _ w _ _ => ?_) fun _ => h, fun _ => ?_⟩
      · have hreceived := h.receive (e := b) join.foreignKey w
        cases target with
        | none => exact hreceived
        | some t =>
          refine hlink _ hreceived (fun x => ?_) t rfl
          exact view_modifyEntity (v := (·.schema)) (receive_frame _ _ _).1
      · cases target with
        | none => exact h
        | some t => exact hlink g h (fun _ => rfl) t rfl

theorem assignOne (name : String) (target : Option EntityId) :
    Kept c (Graph.assignOne c e name target) := by
  intro g h
  unfold Graph.assignOne
  simp only [Act.ends_bind, Act.ends_get]
  rw [Act.ends_ofExcept]
  refine ⟨fun comp hcomp => ?_, fun _ _ => h⟩
  have hrefers : MayRefer c (g.entity e).schema := by
    refine .inr fun hnil => ?_
    simp [Entity.relation, Schema.component?, hnil] at hcomp
  have hrest : ∀ join, (∀ t, target = some t → MayRefer c (g.entity t).schema) →
      (Graph.relink e join (((g.entity e).toOne.get? comp.name).bind (·.value)) target).Ends g
        (fun _ t => WellFormed c (t.modifyEntity e fun x =>
          { x with toOne := x.toOne.put comp.name (.dirty target) })) (fun _ => WellFormed c) :=
    fun join ht => (h.relink hrefers ht).mono
      (fun _ _ h' => h'.modifyEntity_of_eq fun _ => ⟨rfl, rfl, rfl, rfl⟩) fun _ _ h' => h'
  cases target with
  | none =>
    simp only [Act.ends_bind, Act.ends_ofExcept, Act.ends_modify]
    exact ⟨fun join _ => hrest join (by rintro _ ⟨⟩), fun _ _ => h⟩
  | some t =>
    simp only [Act.ends_bind, Act.ends_ofExcept, Act.ends_modify]
    refine ⟨fun _ ht => ⟨fun join hjoin => hrest join ?_, fun _ _ => h⟩, fun _ _ => h⟩
    intro t' htarget
    obtain rfl := Option.some.inj htarget
    obtain ⟨s, hs, -⟩ := bind_eq_ok_iff.1 hjoin
    exact mayRefer_of_target hs ht

/-- A collection is made for a relation whose target type the catalog has. -/
theorem many (name : String) : Kept c (Graph.many c e name) := by
  intro g h
  unfold Graph.many
  simp only [Act.ends_bind, Act.ends_get]
  rw [Act.ends_ofExcept]
  refine ⟨fun comp _ => ?_, fun _ _ => h⟩
  split
  · exact h
  · simp only [Act.ends_bind, Act.ends_ofExcept]
    refine ⟨fun join hjoin => ?_, fun _ _ => h⟩
    obtain ⟨s, hs, -⟩ := bind_eq_ok_iff.1 hjoin
    have hnew : WellFormed c { g with collections := g.collections ++
        [{ owner := e, component := comp, join }] } := by
      refine ⟨h.known, h.embedded, h.listeners, h.pending, fun i hi => ?_, h.owner⟩
      simp only [List.length_append, List.length_singleton] at hi
      rcases Nat.lt_succ_iff_lt_or_eq.1 hi with hlt | heq
      · have hold := h.collections i hlt
        simpa [collection, List.getD_eq_getElem?_getD, List.getElem?_append_left hlt] using hold
      · exact ⟨s, by simpa [collection, List.getD_eq_getElem?_getD, heq] using hs⟩
    exact hnew.modifyEntity_of_eq fun _ => ⟨rfl, rfl, rfl, rfl⟩

/-- An entity takes an embedded component of the schema that it embeds, which nothing has yet. -/
theorem embed {name : String} {part : EntityId} (h : WellFormed c g)
    (hlt : part.index < g.entities.length)
    (hs : (g.entity e).schema.embedded? name = some (g.entity part).schema)
    (hfree : ∀ x other, (g.entity x).embedded.get? other ≠ some part) :
    WellFormed c (g.modifyEntity e fun x => { x with embedded := x.embedded.put name part }) := by
  -- what is embedded is the new component, or was embedded before
  have hparts : ∀ x other y, ((g.modifyEntity e fun x =>
        { x with embedded := x.embedded.put name part }).entity x).embedded.get? other = some y →
      (x = e ∧ other = name ∧ y = part) ∨ (g.entity x).embedded.get? other = some y := by
    intro x other y hy
    rcases entity_modifyEntity_cases g x e (fun x => { x with embedded := x.embedded.put name part })
      with hd | ⟨rfl, -, hd⟩ <;> rw [hd] at hy
    · exact .inr hy
    · by_cases hname : other = name
      · subst hname
        exact .inl ⟨rfl, rfl, (Option.some.inj ((Assoc.get?_put_self _ _ _).symm.trans hy)).symm⟩
      · exact .inr ((Assoc.get?_put_of_ne _ _ hname).symm.trans hy)
  have hs' : ∀ d, ((g.modifyEntity e fun x =>
      { x with embedded := x.embedded.put name part }).entity d).schema = (g.entity d).schema :=
    fun d => view_modifyEntity (v := (·.schema)) rfl
  have hlisteners : ∀ d, ((g.modifyEntity e fun x =>
      { x with embedded := x.embedded.put name part }).entity d).listeners = (g.entity d).listeners :=
    fun d => view_modifyEntity (v := (·.listeners)) rfl
  have hpending : ∀ d, ((g.modifyEntity e fun x =>
      { x with embedded := x.embedded.put name part }).entity d).pending = (g.entity d).pending :=
    fun d => view_modifyEntity (v := (·.pending)) rfl
  refine ⟨fun x hx => ?_, fun x other y hy => ?_, fun x holder other referenced hl => ?_,
    fun x hx => ?_, h.collections, fun x x' other other' y hy hy' => ?_⟩
  · rw [length_modifyEntity] at hx
    exact hs' x ▸ h.known x hx
  · rw [hs', hs', length_modifyEntity]
    rcases hparts x other y hy with ⟨rfl, rfl, rfl⟩ | hy
    · exact ⟨hlt, hs⟩
    · exact h.embedded x other y hy
  · rw [hs']
    exact h.listeners x holder other referenced (hlisteners x ▸ hl)
  · rw [hs']
    exact h.pending x (hpending x ▸ hx)
  · rcases hparts x other y hy with ⟨hx, -, hnew⟩ | hold
    · rcases hparts x' other' y hy' with ⟨hx', -, -⟩ | hold'
      · rw [hx, hx']
      · exact absurd (hnew ▸ hold') (hfree x' other')
    · rcases hparts x' other' y hy' with ⟨-, -, hnew⟩ | hold'
      · exact absurd (hnew ▸ hold) (hfree x other)
      · exact h.owner x x' other other' y hold hold'

theorem makeEmbedded (name : String) : Kept c (Graph.embedded e name) := by
  intro g h
  unfold Graph.embedded
  simp only [Act.ends_bind, Act.ends_get]
  split
  · exact h
  · split
    · exact h
    next s hs =>
    simp only [Act.ends_bind, Act.ends_modify, Act.ends_pure]
    have he := index_lt_of_embedded? hs
    have hnew := (h.newEntity (h.known_of_embedded? hs)).modifyEntity_of_eq
      (e := ⟨g.entities.length⟩) (f := fun p => { p with stored := (g.entity e).stored })
      fun _ => ⟨rfl, rfl, rfl, rfl⟩
    refine hnew.embed (by simp) ?_ fun x other hx => ?_
    · rw [view_modifyEntity (v := (·.schema)) rfl, view_modifyEntity (v := (·.schema)) rfl,
        entity_append, entity_append, if_neg (Nat.ne_of_lt he), if_pos rfl]
      exact hs
    · -- the new component is not among those that were there before
      rw [view_modifyEntity (v := (·.embedded)) rfl, entity_append] at hx
      split at hx
      · cases hx
      · exact Nat.lt_irrefl _ (h.embedded x other _ hx).1

theorem append (i : CollectionId) (member : EntityId) : Kept c (Graph.append i member) := by
  intro g h
  unfold Graph.append
  simp only [Act.ends_bind, Act.ends_get]
  split <;> rw [Act.ends_ite] <;> refine ⟨fun _ => h, fun _ => ?_⟩
  · exact h.modifyCollection fun _ => rfl
  · rw [Act.ends_bind, Act.ends_modify, Act.ends_bind, Graph.addListener, Act.ends_modify]
    have hmember := h.modifyCollection (i := i)
      (f := fun x => { x with members := x.members ++ [member] }) fun _ => rfl
    exact hmember.addListener fun _ _ _ hl => KeyListener.noConfusion hl

/-- Appending a member changes no schema. -/
theorem schema_append (i : CollectionId) (member x : EntityId) (g : Graph) :
    (Graph.append i member).Ends g (fun _ t => (t.entity x).schema = (g.entity x).schema)
      (fun _ t => (t.entity x).schema = (g.entity x).schema) := by
  unfold Graph.append
  simp only [Act.ends_bind, Act.ends_get]
  split <;> rw [Act.ends_ite] <;> refine ⟨fun _ => rfl, fun _ => ?_⟩
  · rfl
  · simp only [Act.ends_bind, Act.ends_modify, Graph.addListener]
    exact view_modifyEntity (v := (·.schema)) rfl

/-- A member of a collection is of an entity type, so it may refer to the owner. -/
theorem push {i : CollectionId} (member : EntityId) (h : WellFormed c g)
    (hi : i.index < g.collections.length) :
    (Graph.push i member).Ends g (fun _ => WellFormed c) (fun _ => WellFormed c) := by
  unfold Graph.push
  simp only [Act.ends_bind, Act.ends_get, Act.ends_ofExcept, Act.ends_ite]
  refine ⟨fun _ hcheck => ?_, fun _ _ => h⟩
  obtain ⟨s, hs⟩ := h.collections i hi
  have hmember := mayRefer_of_target hs hcheck
  refine ((append i member g h).and (schema_append i member member g)).mono
    (fun _ t ht => ⟨fun _ => ?_, fun _ => ht.1⟩) fun _ _ ht => ht.1
  exact ht.1.link (ht.2 ▸ hmember)

theorem remove (i : CollectionId) (member : EntityId) : Kept c (Graph.remove i member) := by
  intro g h
  unfold Graph.remove
  simp only [Act.ends_bind, Act.ends_get, Act.ends_ite, Act.ends_modify, Act.ends_pure]
  exact ⟨fun _ => writeForeignKey _ _ _ (h.modifyCollection fun _ => rfl), fun _ => h⟩

theorem releaseMembers (i : CollectionId) : Kept c (Graph.releaseMembers i) := by
  intro g h
  unfold Graph.releaseMembers
  simp only [Act.ends_bind, Act.ends_get]
  exact Act.ends_forM (fun _ _ g h => clearForeignKey _ g h) h

theorem loadOne (name : String) (target : Option EntityId) :
    Kept c (Graph.loadOne e name target) := by
  intro g h
  refine h.modifyEntity_of_eq fun x => ?_
  split <;> exact ⟨rfl, rfl, rfl, rfl⟩

theorem loadAtomics (values : List (String × Value)) : Kept c (Graph.loadAtomics e values) := by
  intro g h
  refine h.modifyEntity_of_eq fun x => ?_
  induction values generalizing x with
  | nil => exact ⟨rfl, rfl, rfl, rfl⟩
  | cons p values ih => exact ih (x.loadAtomic p.1 p.2)

theorem modifyParts (h : WellFormed c g) (hf : ∀ x, (f x).schema = x.schema ∧
      (f x).embedded = x.embedded ∧ (f x).listeners = x.listeners ∧ (f x).pending = x.pending) :
    WellFormed c (g.modifyParts e f) :=
  h.foldl_modifyEntity _ hf

theorem markClean (h : WellFormed c g) (e : EntityId) : WellFormed c (g.markClean e) :=
  h.modifyParts fun _ => ⟨rfl, rfl, rfl, rfl⟩

theorem markStored (h : WellFormed c g) (e : EntityId) : WellFormed c (g.markStored e) :=
  h.modifyParts fun _ => ⟨rfl, rfl, rfl, rfl⟩

/-- Every operation keeps graphs well formed. -/
theorem operation (op : Operation) : Kept c (op.run c) := by
  intro g h
  cases op with
  | create type =>
    simp only [Operation.run, Act.ends_bind, Act.ends_ofExcept]
    exact ⟨fun s hs => h.newEntity ⟨type, s, hs, .refl s⟩, fun _ _ => h⟩
  | assign e name v => exact assign name v g h
  | assignOne e name target => exact assignOne name target g h
  | many e name =>
    simp only [Operation.run, Act.ends_bind, Act.ends_pure]
    exact many name g h
  | embedded e name =>
    simp only [Operation.run, Act.ends_bind, Act.ends_pure]
    exact makeEmbedded name g h
  | push i member =>
    simp only [Operation.run, Act.ends_bind, Act.ends_get, Act.ends_ite, Act.ends_pure]
    exact ⟨h.push member, fun _ => h⟩
  | remove i member =>
    simp only [Operation.run, Act.ends_bind, Act.ends_pure]
    exact remove i member g h
  | releaseMembers i => exact releaseMembers i g h
  | clearForeignKey e name => exact clearForeignKey name g h
  | append i member =>
    simp only [Operation.run, Act.ends_bind, Act.ends_pure]
    exact append i member g h
  | loadOne e name target => exact loadOne name target g h
  | loadAtomics e values => exact loadAtomics values g h
  | assignGeneratedKey e v => exact assignGeneratedKey v g h
  | markClean e => exact h.markClean e
  | markStored e => exact h.markStored e
  | markDeleted e => exact h.modifyParts fun _ => ⟨rfl, rfl, rfl, rfl⟩

end WellFormed

/-- Every built graph is well formed. -/
theorem Built.wellFormed {c : Catalog} {g : Graph} (h : Built c g) : WellFormed c g := by
  induction h with
  | empty => exact .empty c
  | step op _ ih => exact Act.ends_final_iff.1 (WellFormed.operation op _ ih)

/-- An entity has another one as an embedded component. -/
def Embeds (g : Graph) (x y : EntityId) : Prop :=
  ∃ name, (g.entity x).embedded.get? name = some y

namespace WellFormed

variable {c : Catalog} {g : Graph} {e y : EntityId}

/-- What an embedded component belongs to has a schema that the catalog knows. -/
theorem known_of_embedded (h : WellFormed c g) {name : String}
    (hy : (g.entity e).embedded.get? name = some y) : c.Known (g.entity e).schema :=
  h.known e (index_lt_of_some (v := fun x => x.embedded.get? name) hy rfl)

/-- An entity with a primary key has a schema that the catalog builds. -/
theorem schema_of_primaryKey (h : WellFormed c g) {key : Atomic}
    (hkey : (g.entity e).schema.primaryKey = some key) :
    c.schema (g.entity e).schema.name = .ok (g.entity e).schema :=
  (h.known e (index_lt_of_primaryKey hkey)).schema_of_key hkey

/-- An embedded component has the schema that is embedded under its name. -/
theorem schema_of_embedded (h : WellFormed c g) {p : String × Schema}
    (hp : p ∈ (g.entity e).schema.embedded) (hy : (g.entity e).embedded.get? p.1 = some y) :
    (g.entity y).schema = p.2 := by
  have hfound := (h.known_of_embedded hy).coherent.embedded?_name hp
  exact Option.some.inj ((h.embedded e p.1 y hy).2.symm.trans hfound)

/-- A part other than the entity itself has no primary key. -/
theorem noKey_of_part (h : WellFormed c g) (hy : y ∈ g.parts e) (hne : y ≠ e) :
    (g.entity y).schema.primaryKey = none := by
  obtain ⟨x, name, hx⟩ := (embedded_of_mem_partsOf hy).resolve_left hne
  obtain ⟨-, hpart⟩ := h.embedded x name y hx
  exact (h.known_of_embedded hx).noKey_of_embedded (Schema.mem_of_embedded? hpart)

/-- Where embeddable types declare no relations, an entity without a primary key has no foreign key
that waits. -/
theorem pending_of_noKey (h : WellFormed c g) (hc : c.Plain)
    (hkey : (g.entity y).schema.primaryKey = none) : (g.entity y).pending = [] := by
  by_contra hp
  have hlt : y.index < g.entities.length := index_lt_of_ne (v := (·.pending)) hp
  rcases (h.known y hlt).cases with hs | ⟨table, hs⟩
  · obtain ⟨key, hsome, -⟩ := Catalog.key_of_schema hs
    rw [hkey] at hsome
    cases hsome
  · rcases h.pending y hp with hentity | hcomponents
    · obtain ⟨d, hd, -⟩ := hs.type
      obtain ⟨e, he⟩ := Option.isSome_iff_exists.1 hentity
      exact Catalog.not_entity_of_embeddable hd he
    · exact hcomponents (hs.components_eq_nil hc)

/-- Where embeddable types declare no relations, no part of an entity that waits for nothing waits. -/
theorem pending_of_part (h : WellFormed c g) (hc : c.Plain) (hpending : (g.entity e).pending = [])
    (hy : y ∈ g.parts e) : (g.entity y).pending = [] := by
  by_cases hye : y = e
  · exact hye ▸ hpending
  · exact h.pending_of_noKey hc (h.noKey_of_part hy hye)

/-- Following embedded components leads from an entity to its parts. -/
theorem reaches_of_mem_partsOf {s : Schema} (hy : y ∈ g.partsOf s e) :
    Relation.ReflTransGen g.Embeds e y := by
  induction s using Schema.induction generalizing e with
  | _ s ih =>
    rcases mem_partsOf_iff.1 hy with rfl | ⟨p, hp, x, hx, hy⟩
    · exact .refl
    · exact .head ⟨p.1, hx⟩ (ih p hp hy)

/-- A component is part of at most one entity with a primary key. -/
theorem eq_of_mem_parts (h : WellFormed c g) {e' : EntityId} (hy : y ∈ g.parts e)
    (hy' : y ∈ g.parts e') (hkey : (g.entity e).schema.primaryKey.isSome)
    (hkey' : (g.entity e').schema.primaryKey.isSome) : e = e' := by
  -- nothing that is embedded has a key, so neither entity is on the way to the other one
  have htop : ∀ {d d'}, (g.entity d').schema.primaryKey.isSome →
      Relation.ReflTransGen g.Embeds d d' → d = d' := by
    intro d d' hsome hreaches
    rcases hreaches.cases_tail with heq | ⟨x, -, name, hx⟩
    · exact heq.symm
    · have hnone := (h.known_of_embedded hx).noKey_of_embedded
        (Schema.mem_of_embedded? (h.embedded x name d' hx).2)
      rw [hnone] at hsome
      cases hsome
  have hunique : Relator.RightUnique (Function.swap g.Embeds) := by
    rintro z x x' ⟨name, hx⟩ ⟨name', hx'⟩
    exact h.owner x x' name name' z hx hx'
  have hup := Relation.reflTransGen_swap.2 (reaches_of_mem_partsOf hy)
  have hup' := Relation.reflTransGen_swap.2 (reaches_of_mem_partsOf hy')
  rcases hup.total_of_right_unique hunique hup' with hdown | hdown
  · exact (htop hkey (Relation.reflTransGen_swap.1 hdown)).symm
  · exact htop hkey' (Relation.reflTransGen_swap.1 hdown)

end WellFormed

/-! ### Operations one after the other -/

/-- Runs operations in order, each on what the ones before have left, whether they succeed or fail. -/
def Operation.runAll (c : Catalog) (ops : List Operation) (g : Graph) : Graph :=
  ops.foldl (fun g op => (op.run c).final g) g

/-- More operations lead from built graphs to built ones. -/
theorem Built.runAll {c : Catalog} {g : Graph} (ops : List Operation) (h : Built c g) :
    Built c (Operation.runAll c ops g) := by
  induction ops generalizing g with
  | nil => exact h
  | cons op ops ih => exact ih (.step op h)

end EntityGraph.Graph

namespace EntityGraph.Shop

/-- The key of every type of the shop. -/
def key : Atomic :=
  { name := "id", column := "id", kind := .int, primaryKey := true, generated := true }

/-- A foreign key of the shop. -/
def reference (name : String) : Atomic :=
  { name, column := name, kind := .int }

/-- A to-one relation of the shop, which owns its foreign key. -/
def refersTo (name target column : String) : Component :=
  { name, target, cardinality := .manyToOne, joinColumn := some column }

/-- The invoices of a customer. -/
def invoices : Component :=
  { name := "invoices", target := "Invoice", cardinality := .oneToMany,
    joinColumn := some "customer_fk" }

/-- The orders of a customer, seen from the other side. -/
def customerOrders : Component :=
  { name := "orders", target := "Order", cardinality := .oneToMany, mappedBy := some "customer" }

/-- Orders have a customer, customers have invoices and orders, and invoices have an order. -/
def catalog : Catalog where
  definitions := [
    { name := "Order", steps := [.atomic key, .atomic (reference "customer_fk"),
        .component (refersTo "customer" "Customer" "customer_fk")] },
    { name := "Customer", steps := [.atomic key, .component invoices, .component customerOrders] },
    { name := "Invoice", steps := [.atomic key, .atomic (reference "customer_fk"),
        .atomic (reference "order_fk"), .component (refersTo "order" "Order" "order_fk")] }]

/-- An order and its customer, who leads back to it. -/
def orders : Graph :=
  Graph.Operation.runAll catalog
    [.create "Order", .create "Customer", .many ⟨1⟩ "orders", .push ⟨0⟩ ⟨0⟩,
      .assignOne ⟨0⟩ "customer" (some ⟨1⟩)] {}

end EntityGraph.Shop
