import EntityGraph.Graph.Members
import EntityGraph.Proofs.Keying
import EntityGraph.Proofs.Links

/-!
# What a failed assignment leaves

Assigning an atomic or a relation and adding a member to a collection each have several effects, and
can fail after some of them. A primary key that has been assigned stays, also if something that waits
for it refuses it: all listeners are told, and the first failure is reported. In every other respect a
failed assignment changes nothing, with two exceptions about which nothing is said here: the foreign
key of the target before, when a relation is assigned that has its foreign key on the target; and the
place of the entity in the collection, when it is added.

## Main results

* `Built.kept_of_error`: what assigning an atomic, assigning a to-one relation and adding a member
  leave when they fail.
-/

namespace EntityGraph.Graph

variable {c : Catalog} {g g' : Graph} {e b m : EntityId} {i : CollectionId} {name f : String}

/-- At most one atomic has changed, in its value and in what it waits for. -/
structure ExceptAtomic (b : EntityId) (f : String) (g g' : Graph) : Prop where
  others : ∀ x, x ≠ b → g'.entity x = g.entity x
  rest : g'.entity b =
    { g.entity b with atomics := (g'.entity b).atomics, pending := (g'.entity b).pending }
  slots : ∀ o, o ≠ f → g'.slot b o = g.slot b o
  pending : ∀ o, o ≠ f → (g'.entity b).pending.get? o = (g.entity b).pending.get? o
  collections : g'.collections = g.collections

/-- At most the members and the index of one collection have changed, and the listeners of one
entity. -/
structure ExceptMember (i : CollectionId) (m : EntityId) (g g' : Graph) : Prop where
  others : ∀ x, x ≠ m → g'.entity x = g.entity x
  member : g'.entity m = { g.entity m with listeners := (g'.entity m).listeners }
  collections : ∀ j, j ≠ i → g'.collection j = g.collection j
  collection : g'.collection i = { g.collection i with
    members := (g'.collection i).members, index := (g'.collection i).index }

/-- A foreign key that takes a value is the only thing that changes. -/
theorem ExceptAtomic.receive (g : Graph) (b : EntityId) (f : String) (v : Value) :
    ExceptAtomic b f g (g.modifyEntity b (·.receive f v)) where
  others x hx := entity_modifyEntity_of_ne _ hx
  rest := by
    rcases entity_modifyEntity_cases g b b (·.receive f v) with hb | ⟨-, -, hb⟩ <;> rw [hb]
    unfold Entity.receive
    simp only
    split <;> rfl
  slots o ho := by
    rw [slot, slot]
    rcases entity_modifyEntity_cases g b b (·.receive f v) with hb | ⟨-, -, hb⟩ <;> rw [hb]
    exact atomics_receive_of_ne _ _ _ ho
  pending o ho := by
    rcases entity_modifyEntity_cases g b b (·.receive f v) with hb | ⟨-, -, hb⟩ <;> rw [hb]
    rw [pending_receive, Assoc.get?_erase_of_ne _ ho]
  collections := rfl

/-- Linking fails before it changes anything. -/
theorem ends_link_error (g : Graph) (holder : EntityId) (name : String) (source : EntityId)
    (referenced : String) :
    (link holder name source referenced).Ends g (fun _ _ => True) (fun _ g' => g' = g) := by
  unfold link
  simp only [Act.ends_bind, Act.ends_get, Act.ends_ofExcept, Act.ends_ite, Act.ends_throw,
    Act.ends_modify]
  refine ⟨fun v _ => ⟨fun _ => ?_, fun _ => ⟨fun _ => trivial, fun _ => trivial⟩⟩, fun _ _ => trivial⟩
  exact ends_writeForeignKey (fun _ _ _ _ => trivial) fun _ => rfl

/-- Where assigning a to-one relation fails, at most the foreign key of the target before has changed,
if that is where the foreign key is. -/
theorem ends_relink_error (g : Graph) (e : EntityId) (join : Join) (before target : Option EntityId) :
    (relink e join before target).Ends g (fun _ _ => True)
      (fun _ g' => g' = g ∨ ∃ b, join.side = .there ∧ before = some b ∧ target ≠ some b ∧
        ExceptAtomic b join.foreignKey g g') := by
  -- the target before loses its foreign key first, and linking may fail after that
  have hlink : ∀ g₁ t, (g₁ = g ∨ ∃ b, join.side = .there ∧ before = some b ∧ target ≠ some b ∧
      ExceptAtomic b join.foreignKey g g₁) →
      (link t join.foreignKey e join.referenced).Ends g₁ (fun _ _ => True)
        (fun _ g' => g' = g ∨ ∃ b, join.side = .there ∧ before = some b ∧ target ≠ some b ∧
          ExceptAtomic b join.foreignKey g g') :=
    fun g₁ t h₁ => (ends_link_error g₁ _ _ _ _).mono (fun _ _ _ => trivial) fun _ _ h => h ▸ h₁
  unfold relink
  cases hside : join.side with
  | here =>
    cases target with
    | none => exact ends_writeForeignKey (fun _ _ _ _ => trivial) fun _ => .inl rfl
    | some t => exact (ends_link_error g _ _ _ _).mono (fun _ _ _ => trivial) fun _ _ h => .inl h
  | there =>
    simp only [hside, true_and] at hlink ⊢
    cases before with
    | none =>
      cases target with
      | none => trivial
      | some t => exact hlink g t (.inl rfl)
    | some b =>
      simp only [Act.ends_bind, Act.ends_ite]
      refine ⟨fun hne => ends_writeForeignKey (fun _ w _ _ => ?_) fun _ => .inl rfl, fun _ => ?_⟩
      all_goals cases target with
      | none => trivial
      | some t => ?_
      · exact hlink _ t (.inr ⟨b, rfl, hne, .receive g b _ w⟩)
      · exact hlink g t (.inl rfl)

/-- Where assigning a to-one relation fails, the relation is as it was. -/
theorem ends_assignOne_error (g : Graph) (e : EntityId) (name : String) (target : Option EntityId) :
    (assignOne c e name target).Ends g (fun _ _ => True)
      (fun _ g' => g' = g ∨ ∃ comp join b,
        Entity.relation (g.entity e).schema name false = .ok comp ∧
        c.join (g.entity e).schema comp = .ok join ∧ join.side = .there ∧
        ((g.entity e).toOne.get? comp.name).bind (·.value) = some b ∧ target ≠ some b ∧
        ExceptAtomic b join.foreignKey g g') := by
  unfold assignOne
  simp only [Act.ends_bind, Act.ends_get]
  rw [Act.ends_ofExcept]
  refine ⟨fun comp hcomp => ?_, fun _ _ => .inl rfl⟩
  have hrest : ∀ join, c.join (g.entity e).schema comp = .ok join →
      (relink e join (((g.entity e).toOne.get? comp.name).bind (·.value)) target).Ends g
        (fun _ _ => True) (fun _ g' => g' = g ∨ ∃ comp join b,
          Entity.relation (g.entity e).schema name false = .ok comp ∧
          c.join (g.entity e).schema comp = .ok join ∧ join.side = .there ∧
          ((g.entity e).toOne.get? comp.name).bind (·.value) = some b ∧ target ≠ some b ∧
          ExceptAtomic b join.foreignKey g g') := by
    refine fun join hjoin => (ends_relink_error g e join _ target).mono (fun _ _ _ => trivial) ?_
    rintro _ g' (rfl | ⟨b, hside, hb, hne, hexcept⟩)
    · exact .inl rfl
    · exact .inr ⟨comp, join, b, hcomp, hjoin, hside, hb, hne, hexcept⟩
  cases target with
  | none =>
    simp only [Act.ends_bind, Act.ends_modify]
    rw [Act.ends_ofExcept]
    exact ⟨hrest, fun _ _ => .inl rfl⟩
  | some t =>
    simp only [Act.ends_bind, Act.ends_modify]
    rw [Act.ends_ofExcept]
    refine ⟨fun _ _ => ?_, fun _ _ => .inl rfl⟩
    rw [Act.ends_ofExcept]
    exact ⟨hrest, fun _ _ => .inl rfl⟩

/-- Where adding a member fails, the collection was to take it, and at most its place there has
changed. -/
theorem ends_push_error (g : Graph) (i : CollectionId) (m : EntityId) :
    (push i m).Ends g (fun _ _ => True)
      (fun _ g' => g' = g ∨ g.takes i m = true ∧ ExceptMember i m g g') := by
  unfold push
  simp only [Act.ends_bind, Act.ends_get, Act.ends_ofExcept, Act.ends_ite, Act.ends_pure]
  refine ⟨fun _ _ => ?_, fun _ _ => .inl trivial⟩
  have happended : (append i m).Ends g (fun appended g₁ => appended = true →
      g.takes i m = true ∧ ExceptMember i m g g₁) (fun _ g₁ => g₁ = g) := by
    unfold append takes
    simp only [Act.ends_bind, Act.ends_get]
    split
    · next k hk =>
      simp only [Act.ends_ite, Act.ends_pure, Act.ends_bind, Act.ends_modify]
      refine ⟨fun _ h => absurd h Bool.false_ne_true, fun hnot _ => ⟨by simpa [hk] using hnot, ?_⟩⟩
      refine ⟨fun _ _ => rfl, rfl, fun _ => collection_modifyCollection_of_ne _, ?_⟩
      rcases collection_modifyCollection_cases g i i fun x => { x with
        members := x.members ++ [m], index := x.index.put k x.members.length } with h | h <;> rw [h]
    · next hk =>
      simp only [Act.ends_ite, Act.ends_pure, Act.ends_bind, Act.ends_modify, addListener]
      refine ⟨fun _ h => absurd h Bool.false_ne_true, fun hnot _ => ⟨by simpa [hk] using hnot, ?_⟩⟩
      refine ⟨fun x hx => entity_modifyEntity_of_ne _ hx, ?_,
        fun _ => collection_modifyCollection_of_ne _, ?_⟩
      · rcases entity_modifyEntity_cases (g.modifyCollection i fun x =>
          { x with members := x.members ++ [m] }) m m fun x =>
            { x with listeners := x.listeners ++ [.collection i] } with h | ⟨-, -, h⟩ <;> rw [h] <;> rfl
      · rw [collection_modifyEntity]
        rcases collection_modifyCollection_cases g i i fun x =>
          { x with members := x.members ++ [m] } with h | h <;> rw [h]
  refine happended.mono (fun appended g₁ h₁ => ⟨fun happ => ?_, fun _ => trivial⟩) fun _ _ h => .inl h
  exact (ends_link_error g₁ _ _ _ _).mono (fun _ _ _ => trivial) fun _ g' h => .inr (h ▸ h₁ happ)

/-- What a failure leaves, in every graph that operations lead to. An assignment of an atomic that fails
has changed nothing, unless it has given the entity a key that something refuses: then the entity has
the key, what waits and can take it has taken it, collections that listen have noted it, and nothing
else has changed. An assignment of a to-one relation that fails has changed nothing, except perhaps the
foreign key of the target before, if that is where the foreign key is. An addition that fails has
changed nothing, except perhaps the entity's place in a collection that was to take it. -/
theorem Built.kept_of_error (h : Built c g) :
    (∀ e name v error g', assign e name v g = .error error g' →
      g' = g ∨ ∃ a w, (g.entity e).schema.atomic? name = some a ∧ a.primaryKey = true ∧
        a.coerce (g.entity e).schema.name v = .ok w ∧ w ≠ .null ∧ g.Refuses e name w ∧
        Keyed e name (.dirty w) g g') ∧
    (∀ e name target error g', assignOne c e name target g = .error error g' →
      g' = g ∨ ∃ comp join b, Entity.relation (g.entity e).schema name false = .ok comp ∧
        c.join (g.entity e).schema comp = .ok join ∧ join.side = .there ∧
        ((g.entity e).toOne.get? comp.name).bind (·.value) = some b ∧ target ≠ some b ∧
        ExceptAtomic b join.foreignKey g g') ∧
    ∀ i m error g', push i m g = .error error g' →
      g' = g ∨ g.takes i m = true ∧ ExceptMember i m g g' := by
  refine ⟨fun e name v error g' hrun => ?_, fun e name target error g' hrun => ?_,
    fun i m error g' hrun => ?_⟩
  · refine ((keyed_assign h.wellFormed e name v).of_error hrun).imp_right ?_
    rintro ⟨a, w, hfound, -, hw, -, hkey, hnull, hrefuses, hkeyed⟩
    exact ⟨a, w, hfound, hkey, hw, hnull, hrefuses, hkeyed⟩
  · exact (ends_assignOne_error g e name target).of_error hrun
  · exact (ends_push_error g i m).of_error hrun

end EntityGraph.Graph

namespace EntityGraph.Atlas

/-- The code of a country, which is its key. -/
def code : Atomic :=
  { name := "code", column := "code", kind := .string, primaryKey := true }

/-- The key of a city. -/
def id : Atomic :=
  { name := "id", column := "id", kind := .int, primaryKey := true, generated := true }

/-- A city's reference to its country, of another kind than the key that it refers to. -/
def countryCode : Atomic :=
  { name := "country_fk", column := "country_fk", kind := .int }

/-- The country of a city. -/
def country : Component :=
  { name := "country", target := "Country", cardinality := .manyToOne,
    joinColumn := some "country_fk" }

/-- Cities have a country. -/
def catalog : Catalog where
  definitions := [
    { name := "Country", steps := [.atomic code] },
    { name := "City", steps := [.atomic id, .atomic countryCode, .component country] }]

/-- A city that waits for the code of its country. -/
def graph : Graph :=
  Graph.Operation.runAll catalog
    [.create "City", .create "Country", .assignOne ⟨0⟩ "country" (some ⟨1⟩)] {}

/-- The country gets a code that the city cannot take. -/
def coded : Graph :=
  (Graph.assign ⟨1⟩ "code" (.text "abc")).final graph

end EntityGraph.Atlas

namespace EntityGraph.Graph

/-- The country has its code, although the assignment has failed. -/
theorem kept_of_error_atlas : Keyed ⟨1⟩ "code" (.dirty (.text "abc")) Atlas.graph Atlas.coded := by
  have hbuilt : Built Atlas.catalog Atlas.graph := Built.empty.runAll _
  have hfails : (assign ⟨1⟩ "code" (.text "abc")).succeeds Atlas.graph = false := by decide
  obtain ⟨error, g', hrun⟩ := Act.exists_of_not_succeeds hfails
  have hfinal : g' = Atlas.coded := by rw [Atlas.coded, Act.final, hrun]
  have hnew : Atlas.coded.slot ⟨1⟩ "code" ≠ Atlas.graph.slot ⟨1⟩ "code" := by decide
  rcases hbuilt.kept_of_error.1 _ _ _ _ _ hrun with rfl | ⟨a, w, hfound, -, hw, -, -, hkeyed⟩
  · exact absurd (by rw [← hfinal]) hnew
  · have hcode : (Atlas.graph.entity ⟨1⟩).schema.atomic? "code" = some Atlas.code := by decide
    obtain rfl := Option.some.inj (hfound.symm.trans hcode)
    rw [Atomic.coerce_eq_ok_iff] at hw
    have hvalue : Atlas.code.kind.coerce? (.text "abc") = some (.text "abc") := by decide
    obtain rfl := Option.some.inj (hw.symm.trans hvalue)
    exact hfinal ▸ hkeyed

/-- An assignment that fails can leave something: the key that it has assigned. -/
theorem not_kept_of_refused_key :
    ¬∀ (g : Graph), Built Atlas.catalog g → ∀ e name v error g', assign e name v g = .error error g' →
      (∀ x f, g'.slot x f = g.slot x f) ∧
      ∀ x, (g'.entity x).pending = (g.entity x).pending ∧
        (g'.entity x).listeners = (g.entity x).listeners := by
  intro hkept
  have hfails : (assign ⟨1⟩ "code" (.text "abc")).succeeds Atlas.graph = false := by decide
  obtain ⟨error, g', hrun⟩ := Act.exists_of_not_succeeds hfails
  have hfinal : g' = Atlas.coded := by rw [Atlas.coded, Act.final, hrun]
  have hslot := (hkept Atlas.graph (Built.empty.runAll _) _ _ _ _ _ hrun).1 ⟨1⟩ "code"
  have hnew : Atlas.coded.slot ⟨1⟩ "code" ≠ Atlas.graph.slot ⟨1⟩ "code" := by decide
  exact hnew (hfinal ▸ hslot)

end EntityGraph.Graph
