import EntityGraph.Proofs.Occurrences
import EntityGraph.Proofs.Reading

/-!
# Filling a new entity

A caller fills an entity by assigning values to its atomics and to those of its embedded components,
which are made on first use. The entity, and all that is made for it, is *fresh*: storage knows
nothing of it, every value that is set is dirty and of the kind of its atomic, and no other entity is
involved.

## Main result

* `Fresh.fill`: filling a new entity leaves it fresh.
-/

namespace EntityGraph

namespace Graph

/-- Assigns values to atomics, each of the embedded component at the end of a path. -/
def fill (e : EntityId) (values : List (List String × String × Value)) : GraphM Unit :=
  values.forM fun p => do assign (← embeddedAt e p.1) p.2.1 p.2.2

/-- An entity that storage knows nothing of, and that no other entity knows. -/
structure Untouched (x : Entity) : Prop where
  transient : x.stored = false
  toOne : x.toOne = []
  toMany : x.toMany = []
  pending : x.pending = []
  listeners : x.listeners = []
  slots : ∀ name slot, x.atomics.get? name = some slot → slot.clean = false ∧
    ∀ a, x.schema.atomic? name = some a → a.kind.Holds slot.value

/-- A new entity is untouched. -/
theorem Untouched.new (s : Schema) : Untouched { schema := s } where
  transient := rfl
  toOne := rfl
  toMany := rfl
  pending := rfl
  listeners := rfl
  slots _ _ h := by cases h

/-- The entities from some number on are untouched, and lead to each other only; the first of them is
of a schema. -/
structure Fresh (c : Catalog) (s : Schema) (n : Nat) (g : Graph) : Prop where
  wellFormed : g.WellFormed c
  lt : n < g.entities.length
  schema : (g.entity ⟨n⟩).schema = s
  untouched : ∀ x, n ≤ x.index → Untouched (g.entity x)
  embedded : ∀ x name y, n ≤ x.index → (g.entity x).embedded.get? name = some y → n ≤ y.index

variable {c : Catalog} {s : Schema} {g : Graph} {n : Nat} {x : EntityId}

/-- A new entity is fresh. -/
theorem Fresh.create (h : g.WellFormed c) (hs : c.Known s) :
    Fresh c s g.entities.length { g with entities := g.entities ++ [{ schema := s }] } := by
  have hentity := entity_append g s
  have hnew : ∀ d : EntityId, g.entities.length ≤ d.index →
      ∃ r : Schema, ({ g with entities := g.entities ++ [{ schema := s }] } : Graph).entity d =
        { schema := r } := by
    intro d hd
    rw [hentity]
    split
    · exact ⟨s, rfl⟩
    · exact ⟨default, entity_of_length_le hd⟩
  refine ⟨h.newEntity hs, by simp, by rw [hentity, if_pos rfl], fun d hd => ?_,
    fun d name y hd hy => ?_⟩
  all_goals obtain ⟨r, hr⟩ := hnew d hd
  · exact hr ▸ .new r
  · rw [hr] at hy
    cases hy

/-- A change of fresh entities that keeps them untouched. -/
theorem Fresh.modifyEntity {f : Entity → Entity} (h : Fresh c s n g)
    (hwf : (g.modifyEntity x f).WellFormed c)
    (hf : n ≤ x.index → Untouched (g.entity x) → Untouched (f (g.entity x)))
    (hschema : (f (g.entity x)).schema = (g.entity x).schema)
    (hembedded : (f (g.entity x)).embedded = (g.entity x).embedded) :
    Fresh c s n (g.modifyEntity x f) := by
  refine ⟨hwf, by simpa using h.lt, (view_modifyEntity (v := (·.schema)) hschema).trans h.schema,
    fun d hd => ?_, fun d name y hd hy => ?_⟩
  · refine forall_modifyEntity (h.untouched d hd) fun hdx => ?_
    subst hdx
    exact hf hd (h.untouched d hd)
  · refine h.embedded d name y hd ?_
    rwa [view_modifyEntity (v := (·.embedded)) hembedded] at hy

/-- An embedded component of a fresh entity is fresh. -/
theorem Fresh.makeEmbedded (h : Fresh c s n g) (hx : n ≤ x.index) (name : String) :
    (Graph.embedded x name).Ends g (fun y g' => Fresh c s n g' ∧ n ≤ y.index) (fun _ _ => True) := by
  have hwf := WellFormed.makeEmbedded (e := x) name g h.wellFormed
  cases hold : (g.entity x).embedded.get? name with
  | some y =>
    unfold Graph.embedded
    simp only [Act.ends_bind, Act.ends_get, hold]
    exact ⟨h, h.embedded x name y hx hold⟩
  | none =>
    cases hs : (g.entity x).schema.embedded? name with
    | none =>
      unfold Graph.embedded
      simp only [Act.ends_bind, Act.ends_get, hold, hs]
      trivial
    | some r =>
      have heq := embedded_eq hs hold
      rw [Act.Ends, heq] at hwf ⊢
      have hlt := index_lt_of_embedded? hs
      have hself := entity_withPart_self name r hlt
      have hnew := entity_withPart_new name r hlt
      have hlength := length_withPart g x name r
      have hn := h.lt
      refine ⟨⟨hwf, by omega, ?_, fun d hd => ?_, fun d other y hd hy => ?_⟩, Nat.le_of_lt hn⟩
      · by_cases hroot : ⟨n⟩ = x
        · rw [hroot, hself]
          exact hroot ▸ h.schema
        · rw [entity_withPart_of_ne (fun heq => Nat.ne_of_lt hn (congrArg EntityId.index heq)) hroot]
          exact h.schema
      · by_cases hdx : d = x
        · obtain ⟨h₁, h₂, h₃, h₄, h₅, h₆⟩ := h.untouched x hx
          rw [hdx, hself]
          exact ⟨h₁, h₂, h₃, h₄, h₅, h₆⟩
        · by_cases hdnew : d = ⟨g.entities.length⟩
          · rw [hdnew, hnew, (h.untouched x hx).transient]
            exact .new r
          · rw [entity_withPart_of_ne hdnew hdx]
            exact h.untouched d hd
      · by_cases hdx : d = x
        · rw [hdx, hself] at hy
          by_cases hname : other = name
          · subst hname
            obtain rfl := Option.some.inj ((Assoc.get?_put_self _ _ _).symm.trans hy)
            exact Nat.le_of_lt hn
          · exact h.embedded x other y hx ((Assoc.get?_put_of_ne _ _ hname).symm.trans hy)
        · by_cases hdnew : d = ⟨g.entities.length⟩
          · rw [hdnew, hnew] at hy
            cases hy
          · rw [entity_withPart_of_ne hdnew hdx] at hy
            exact h.embedded d other y hd hy

/-- The embedded component at the end of a path from a fresh entity is fresh. -/
theorem Fresh.embeddedAt (h : Fresh c s n g) (hx : n ≤ x.index) (path : List String) :
    (Graph.embeddedAt x path).Ends g (fun y g' => Fresh c s n g' ∧ n ≤ y.index)
      (fun _ _ => True) := by
  induction path generalizing g x with
  | nil => exact ⟨h, hx⟩
  | cons name path ih =>
    rw [Graph.embeddedAt, Act.ends_bind]
    exact (h.makeEmbedded hx name).mono (fun _ _ h' => ih h'.1 h'.2) fun _ _ h' => h'

/-- An atomic of an untouched entity takes a value of its kind. -/
theorem Untouched.writeAtomic {e : Entity} (h : Untouched e) {a : Atomic} {v : Value}
    (ha : e.schema.atomic? a.name = some a) (hv : a.kind.Holds v) :
    Untouched ((e.settle a.name).writeAtomic a.name v) := by
  refine ⟨h.transient, h.toOne, h.toMany, ?_, h.listeners, fun name slot hslot => ?_⟩
  · show (e.pending.erase a.name) = []
    simp [h.pending, Assoc.erase]
  · have hslot : (e.atomics.put a.name (.dirty v)).get? name = some slot := hslot
    by_cases hname : name = a.name
    · subst hname
      obtain rfl := Option.some.inj ((Assoc.get?_put_self _ _ _).symm.trans hslot)
      refine ⟨rfl, fun b hb => ?_⟩
      obtain rfl := Option.some.inj (ha.symm.trans hb)
      exact hv
    · rw [Assoc.get?_put_of_ne _ _ hname] at hslot
      exact h.slots name slot hslot

/-- Assigning a value to a fresh entity keeps it fresh. -/
theorem Fresh.assign (h : Fresh c s n g) (hx : n ≤ x.index) (name : String) (v : Value) :
    (Graph.assign x name v).Ends g (fun _ => Fresh c s n) (fun _ _ => True) := by
  have huntouched := h.untouched x hx
  have hwf := WellFormed.assign (e := x) name v g h.wellFormed
  unfold Graph.assign at hwf ⊢
  simp only [Act.ends_bind, Act.ends_get, Act.ends_ofExcept, Act.ends_modify, Act.ends_ite,
    Act.ends_throw, Act.ends_pure] at hwf ⊢
  refine ⟨fun a ha => ⟨fun w hw => ⟨fun _ => trivial, fun hfixed => ?_⟩, fun _ _ => trivial⟩,
    fun _ _ => trivial⟩
  obtain ⟨hclean, hdirty⟩ := ((hwf.1 a ha).1 w hw).2 hfixed
  -- no value of the entity is one that storage has
  have hname : a.name = name ∧ (g.entity x).schema.atomic? name = some a := by
    unfold Entity.atomic at ha
    split at ha
    · next b hb =>
      obtain rfl := Except.ok.inj ha
      exact ⟨(Schema.mem_of_atomic? hb).2, hb⟩
    · cases ha
  have hunknown : (g.entity x).isStoredValue a.name w = false := by
    unfold Entity.isStoredValue
    cases hslot : (g.entity x).atomics.get? a.name with
    | none => rfl
    | some slot => simp [(huntouched.slots _ _ hslot).1]
  refine ⟨fun hstored => ?_, fun hnew => ?_⟩
  · rw [hunknown] at hstored
    cases hstored
  have hkind := AtomicKind.coerce?_holds (Atomic.coerce_eq_ok_iff.1 hw)
  have hmod : (g.modifyEntity x (·.settle a.name)).modifyEntity x (·.writeAtomic a.name w) =
      g.modifyEntity x fun e => (e.settle a.name).writeAtomic a.name w := by
    simp [Graph.modifyEntity, List.modify_modify_eq, Function.comp_def]
  rw [hmod] at hdirty ⊢
  obtain ⟨hannounced, hsilent⟩ := hdirty hnew
  have hwritten : (g.modifyEntity x fun e => (e.settle a.name).writeAtomic a.name w).WellFormed c →
      Fresh c s n (g.modifyEntity x fun e => (e.settle a.name).writeAtomic a.name w) := fun hwf =>
    h.modifyEntity hwf (fun _ hu => hu.writeAtomic (hname.1 ▸ hname.2) hkind) rfl rfl
  refine ⟨fun hkey => ?_, fun hother => hwritten (hsilent hother)⟩
  -- nobody listens to the entity
  have hlisteners : ((g.modifyEntity x fun e =>
      (e.settle a.name).writeAtomic a.name w).entity x).listeners = [] := by
    rw [view_modifyEntity (v := (·.listeners)) rfl]
    exact huntouched.listeners
  have hnil := modifyEntity_eq_self (f := fun e => { e with listeners := [] })
    (show _ = (g.modifyEntity x fun e => (e.settle a.name).writeAtomic a.name w).entity x by
      rw [← hlisteners])
  have hann := hannounced hkey
  unfold announceKey at hann ⊢
  simp only [Act.ends_bind, Act.ends_get, Act.ends_modify, hlisteners, hnil] at hann ⊢
  exact hwritten hann

/-- Filling a fresh entity keeps it fresh. -/
theorem Fresh.fill (h : Fresh c s n g) (hx : n ≤ x.index)
    (values : List (List String × String × Value)) :
    (Graph.fill x values).Ends g (fun _ => Fresh c s n) (fun _ _ => True) := by
  refine Act.ends_forM (fun p _ g' h' => ?_) h
  rw [Act.ends_bind]
  exact (h'.embeddedAt hx p.1).mono (fun _ _ h'' => h''.1.assign h''.2 _ _) fun _ _ h'' => h''

end Graph

end EntityGraph
