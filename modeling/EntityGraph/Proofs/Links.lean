import EntityGraph.Proofs.Delivery

/-!
# The last assignment of a foreign key

A relation that is assigned links a foreign key to the entity that it leads to. `Links` keeps, for
every atomic, what its last assignment was, and for a link through a primary key what has become of
that key since. It is read off the operations and the keys that entities have after each of them, not
off what is pending or who listens. `Tracks` compares it with a graph: whatever waits was linked last,
while the source had no key; and whatever was linked last waits, or has the first key that the source
has had since.

A key that comes through a relation of its entity, as when the primary key is itself the join column of
a relation, is not announced, and `Tracks` says nothing of what waits for it.

* `assignments` — the foreign keys that an operation assigns;
* `Links.after` — how an operation changes the last assignments;
* `Tracks`, `Current` — agreement with a graph, before and after the keys that have come are noted;
* `Quiet` — changes that foreign keys do not notice.
-/

namespace EntityGraph

open EntityGraph.Graph

/-! ### Last assignments -/

/-- What has become of the key of an entity since something was linked to it. -/
inductive KeyState where
  /-- The entity had a key when the link was made. -/
  | keyed (k : Value)
  /-- It had no key then, and has had none since. -/
  | waiting
  /-- It had no key then; this is the first that it has had since. -/
  | given (k : Value)
  /-- It had no key then; the first that it has had since came through a relation of its own. -/
  | related
  deriving DecidableEq, Repr

/-- The last assignment of an atomic. -/
inductive Latest where
  /-- A value, as long as nothing has been assigned: null. -/
  | value
  /-- A link to an entity through some other atomic than its primary key. -/
  | column
  /-- A link to an entity through its primary key. -/
  | key (source : EntityId) (state : KeyState)
  deriving DecidableEq, Repr

/-- What an operation assigns to an atomic. -/
inductive Made where
  | value
  | link (source : EntityId) (referenced : String)
  deriving DecidableEq, Repr

/-- The assignment of an atomic. -/
structure Assignment where
  holder : EntityId
  name : String
  made : Made
  deriving DecidableEq, Repr

/-- An assignment as the last one, in the graph that the operation leaves. -/
def Made.latest (g : Graph) : Made → Latest
  | .value => .value
  | .link s referenced =>
    if (g.entity s).schema.keyName? = some referenced then
      .key s (match g.key? s with
        | some k => .keyed k
        | none => .waiting)
    else .column

/-- The last assignment of every atomic. -/
abbrev Links := EntityId → String → Latest

namespace Links

/-- Nothing has been assigned. -/
def start : Links :=
  fun _ _ => .value

/-- An atomic has been assigned. -/
def set (L : Links) (x : EntityId) (name : String) (l : Latest) : Links :=
  fun y other => if y = x ∧ other = name then l else L y other

/-- The primary key of an entity has not been linked to another entity. -/
def ownsKey (L : Links) (g : Graph) (s : EntityId) : Bool :=
  (g.entity s).schema.keyName?.all fun name => L s name = .value

/-- Notes the keys that entities have got. -/
def advance (L : Links) (g : Graph) : Links := fun x name =>
  match L x name with
  | .key s .waiting =>
    match g.key? s with
    | some k => .key s (if L.ownsKey g s then .given k else .related)
    | none => .key s .waiting
  | l => l

/-- Notes an assignment, in the graph that the operation leaves. -/
def record (g : Graph) (L : Links) (m : Assignment) : Links :=
  L.set m.holder m.name (m.made.latest g)

variable {L : Links} {g : Graph} {x y s : EntityId} {name other : String} {l : Latest}

@[simp] theorem set_self : L.set x name l x name = l := by simp [set]

theorem set_of_ne (h : ¬(y = x ∧ other = name)) : L.set x name l y other = L y other := by
  simp [set, h]

/-- A link that stands after an assignment is the one that was made, or one of another atomic. -/
theorem eq_key_of_set {state : KeyState} (h : L.set x name l y other = .key s state) :
    (y = x ∧ other = name) ∧ l = .key s state ∨
      ¬(y = x ∧ other = name) ∧ L y other = .key s state := by
  by_cases heq : y = x ∧ other = name
  · rw [heq.1, heq.2, set_self] at h
    exact .inl ⟨heq, h⟩
  · exact .inr ⟨heq, (set_of_ne heq).symm.trans h⟩

/-- Noting the keys that have come changes a link whose source has got its first key, and nothing
else. -/
theorem advance_cases (L : Links) (g : Graph) (x : EntityId) (name : String) :
    L.advance g x name = L x name ∧ (∀ s, L x name = .key s .waiting → g.key? s = none) ∨
      ∃ s k, L x name = .key s .waiting ∧ g.key? s = some k ∧
        L.advance g x name = .key s (if L.ownsKey g s then .given k else .related) := by
  rw [advance]
  split
  · next s hs =>
    cases hk : g.key? s with
    | none =>
      refine .inl ⟨hs.symm, fun s' hs' => ?_⟩
      obtain ⟨rfl, -⟩ := Latest.key.inj (hs.symm.trans hs')
      exact hk
    | some k => exact .inr ⟨s, k, hs, hk, rfl⟩
  · next hne => exact .inl ⟨rfl, fun s hs => absurd hs (hne s)⟩

/-- The key of an entity that owns it was assigned last as a value. -/
theorem eq_value_of_ownsKey (h : L.ownsKey g s = true)
    (hname : (g.entity s).schema.keyName? = some name) : L s name = .value := by
  simpa [ownsKey, hname] using h

end Links

namespace Graph

/-- The foreign keys that a to-one relation assigns. -/
def relinked (e : EntityId) (join : Join) (before target : Option EntityId) : List Assignment :=
  match join.side with
  | .here =>
    [⟨e, join.foreignKey, match target with
      | some t => .link t join.referenced
      | none => .value⟩]
  | .there =>
    ((before.filter fun b => target ≠ some b).toList.map (⟨·, join.foreignKey, .value⟩)) ++
      target.toList.map (⟨·, join.foreignKey, .link e join.referenced⟩)

/-- Whether a collection takes an entity: none with its key is in the index, or, if it has no key, it is
not a member. -/
def takes (g : Graph) (i : CollectionId) (member : EntityId) : Bool :=
  match g.key? member with
  | some k => !(g.collection i).index.contains k
  | none => !(g.collection i).members.contains member

/-- The atomics that an operation of a caller assigns, in order. -/
def assignments (c : Catalog) (g : Graph) : Operation → List Assignment
  | .assign e name _ => [⟨e, name, .value⟩]
  | .assignOne e name target =>
    match Entity.relation (g.entity e).schema name false with
    | .ok comp =>
      match c.join (g.entity e).schema comp with
      | .ok join => relinked e join (((g.entity e).toOne.get? comp.name).bind (·.value)) target
      | .error _ => []
    | .error _ => []
  | .push i member =>
    let x := g.collection i
    if g.takes i member then [⟨member, x.join.foreignKey, .link x.owner x.join.referenced⟩] else []
  | .remove i member =>
    let x := g.collection i
    if x.members.contains member then [⟨member, x.join.foreignKey, .value⟩] else []
  | _ => []

end Graph

/-- How an operation that leads from one graph to another changes the last assignments. -/
def Links.after (c : Catalog) (op : Operation) (g g' : Graph) (L : Links) : Links :=
  ((g.assignments c op).foldl (record g') L).advance g'

/-! ### Agreement with a graph -/

namespace Graph

/-- The key of an entity is the value of its primary key, unless that is null. -/
theorem key?_eq_bind (g : Graph) (x : EntityId) :
    g.key? x = (g.entity x).schema.keyName?.bind fun name =>
      if ((g.entity x).atomicValue name).isNull then none
      else some ((g.entity x).atomicValue name) := by
  rw [key?, Entity.key?]
  cases (g.entity x).schema.keyName? with
  | none => rfl
  | some name => cases h : (g.entity x).atomics.get? name <;> simp [Entity.atomicValue, h]

/-- The key of an entity whose primary key has a name. -/
theorem key?_of_keyName {g : Graph} {x : EntityId} {name : String}
    (h : (g.entity x).schema.keyName? = some name) :
    g.key? x = if ((g.entity x).atomicValue name).isNull then none
      else some ((g.entity x).atomicValue name) := by
  rw [key?_eq_bind, h, Option.bind_some]

/-- A foreign key has the value of a key, brought into its kind, and does not wait. -/
structure Delivered (g : Graph) (x : EntityId) (name : String) (k : Value) : Prop where
  key : k ≠ .null
  settled : (g.entity x).pending.get? name = none
  value : ∃ a v, (g.entity x).schema.atomic name = .ok a ∧
    a.coerce (g.entity x).schema.name k = .ok v ∧ (g.entity x).atomicValue name = v

/-- A graph agrees with the last assignments, and with the keys that have come since. -/
structure Tracks (L : Links) (g : Graph) : Prop where
  pending : ∀ x name s, (g.entity x).pending.get? name = some s →
    L x name = .key s .waiting ∨ L x name = .key s .related
  heard : ∀ x name s, (g.entity x).pending.get? name = some s → g.Heard s x name
  known : ∀ x name s state, L x name = .key s state →
    x.index < g.entities.length ∧ s.index < g.entities.length
  delivered : ∀ x name s k,
    L x name = .key s (.keyed k) ∨ L x name = .key s (.given k) → Delivered g x name k
  waiting : ∀ x name s, L x name = .key s .waiting → g.key? s = none →
    (g.entity x).pending.get? name = some s
  arrived : ∀ x name s k, L x name = .key s .waiting → g.key? s = some k →
    L.ownsKey g s = true → Delivered g x name k

/-- All keys that have come are noted. -/
structure Current (L : Links) (g : Graph) : Prop extends Tracks L g where
  unset : ∀ x name s, L x name = .key s .waiting → g.key? s = none

variable {c : Catalog} {L : Links} {g g' g'' : Graph} {x y s e : EntityId} {name other : String}
  {k v w : Value} {l : Latest}

/-- A primary key that has been delivered is a key. -/
theorem Delivered.key?_ne_none (h : Delivered g x name k)
    (hname : (g.entity x).schema.keyName? = some name) : g.key? x ≠ none := by
  obtain ⟨hk, -, a, v, -, hv, hvalue⟩ := h
  rw [key?_of_keyName hname, hvalue, if_neg (by simpa using Atomic.ne_null_of_coerce hv hk)]
  exact Option.some_ne_none v

theorem current_empty : Current .start {} where
  pending x name s h := by cases h
  heard x name s h := by cases h
  known x name s state h := by cases h
  delivered x name s k h := by rcases h with h | h <;> cases h
  waiting x name s h := by cases h
  arrived x name s k h := by cases h
  unset x name s h := by cases h

/-- Noting the keys that have come keeps the agreement. -/
theorem Tracks.advance (h : Tracks L g) : Current (L.advance g) g := by
  have hentry : ∀ {x name s state}, L.advance g x name = .key s state →
      L x name = .key s state ∧ (state = .waiting → g.key? s = none) ∨
        ∃ k, L x name = .key s .waiting ∧ g.key? s = some k ∧
          (L.ownsKey g s = true ∧ state = .given k ∨ state = .related) := by
    intro x name s state hl
    rcases Links.advance_cases L g x name with ⟨heq, hnone⟩ | ⟨s', k, hs, hk, heq⟩
    · refine .inl ⟨heq ▸ hl, fun hstate => hnone s ?_⟩
      rw [← heq, hl, hstate]
    · obtain ⟨rfl, hstate⟩ := Latest.key.inj (heq.symm.trans hl)
      refine .inr ⟨k, hs, hk, ?_⟩
      split at hstate
      · next hown => exact .inl ⟨hown, hstate.symm⟩
      · exact .inr hstate.symm
  -- a link that is still said to wait has a source without a key
  have hstill : ∀ {x name s}, L.advance g x name = .key s .waiting → g.key? s = none := by
    intro x name s hl
    rcases hentry hl with ⟨-, hnone⟩ | ⟨k, -, -, ⟨-, hstate⟩ | hstate⟩
    · exact hnone rfl
    · cases hstate
    · cases hstate
  refine ⟨?_, fun x name s => hstill⟩
  constructor
  case heard => exact h.heard
  case pending =>
    intro x name s hwaits
    rcases Links.advance_cases L g x name with ⟨heq, -⟩ | ⟨s', k, hs, hk, heq⟩
    · rw [heq]
      exact h.pending x name s hwaits
    · obtain rfl : s' = s := by
        rcases h.pending x name s hwaits with hl | hl <;>
          exact (Latest.key.inj (hs.symm.trans hl)).1
      -- what has arrived does not wait, so the source does not own its key
      have hother : L.ownsKey g s' ≠ true := fun hown => by
        rw [(h.arrived x name s' k hs hk hown).settled] at hwaits
        cases hwaits
      rw [heq, if_neg hother]
      exact .inr rfl
  case known =>
    intro x name s state hl
    rcases hentry hl with ⟨hl, -⟩ | ⟨k, hl, -, -⟩ <;> exact h.known x name s _ hl
  case delivered =>
    intro x name s k hl
    rcases hl with hl | hl <;> rcases hentry hl with ⟨hl, -⟩ | ⟨k', hl, hk, hstate⟩
    · exact h.delivered x name s k (.inl hl)
    · rcases hstate with ⟨-, hstate⟩ | hstate <;> cases hstate
    · exact h.delivered x name s k (.inr hl)
    · rcases hstate with ⟨hown, hstate⟩ | hstate
      · obtain rfl := KeyState.given.inj hstate
        exact h.arrived x name s k hl hk hown
      · cases hstate
  case waiting =>
    intro x name s hl hnone
    rcases hentry hl with ⟨hl, -⟩ | ⟨k', -, hk, -⟩
    · exact h.waiting x name s hl hnone
    · rw [hnone] at hk
      cases hk
  case arrived =>
    intro x name s k hl hk _
    rw [hstill hl] at hk
    cases hk

/-! ### What foreign keys do not notice -/

/-- As far as foreign keys and keys are concerned, nothing has changed: there may be more entities and
more listeners. -/
structure Quiet (g g' : Graph) : Prop where
  length : g.entities.length ≤ g'.entities.length
  pending : ∀ x name, (g'.entity x).pending.get? name = (g.entity x).pending.get? name
  heard : ∀ s x name, g.Heard s x name → g'.Heard s x name
  schema : ∀ x, x.index < g.entities.length → (g'.entity x).schema = (g.entity x).schema
  value : ∀ x name, x.index < g.entities.length →
    (g'.entity x).atomicValue name = (g.entity x).atomicValue name

namespace Quiet

theorem refl (g : Graph) : Quiet g g :=
  ⟨Nat.le_refl _, fun _ _ => rfl, fun _ _ _ h => h, fun _ _ => rfl, fun _ _ _ => rfl⟩

theorem trans (h : Quiet g g') (h' : Quiet g' g'') : Quiet g g'' where
  length := Nat.le_trans h.length h'.length
  pending x name := (h'.pending x name).trans (h.pending x name)
  heard s x name hx := h'.heard s x name (h.heard s x name hx)
  schema x hx := (h'.schema x (Nat.lt_of_lt_of_le hx h.length)).trans (h.schema x hx)
  value x name hx := (h'.value x name (Nat.lt_of_lt_of_le hx h.length)).trans (h.value x name hx)

/-- A change of an entity that keeps its schema, its values and what waits, and all its listeners. -/
theorem modifyEntity (g : Graph) (e : EntityId) {f : Entity → Entity}
    (hf : ∀ x : Entity, (f x).schema = x.schema ∧ (f x).pending = x.pending ∧
      x.listeners ⊆ (f x).listeners ∧ ∀ name, (f x).atomicValue name = x.atomicValue name) :
    Quiet g (g.modifyEntity e f) where
  length := Nat.le_of_eq (length_modifyEntity g e f).symm
  pending x name := by rw [view_modifyEntity (v := (·.pending)) (hf _).2.1]
  heard s x name := by
    rintro ⟨referenced, hmem⟩
    refine ⟨referenced, ?_⟩
    rcases entity_modifyEntity_cases g s e f with hs | ⟨rfl, -, hs⟩ <;> rw [hs]
    · exact hmem
    · exact (hf _).2.2.1 hmem
  schema x _ := view_modifyEntity (v := (·.schema)) (hf _).1
  value x name _ := view_modifyEntity (v := fun x => x.atomicValue name) ((hf _).2.2.2 name)

/-- Collections do not matter. -/
theorem of_entities (h : g'.entities = g.entities) : Quiet g g' := by
  have hentity : ∀ x, g'.entity x = g.entity x := fun x => by rw [entity, entity, h]
  refine ⟨Nat.le_of_eq (congrArg List.length h).symm, fun x name => by rw [hentity],
    fun s x name hx => ?_, fun x _ => by rw [hentity], fun x name _ => by rw [hentity]⟩
  rw [Heard] at hx ⊢
  rwa [hentity]

theorem modifyCollection (g : Graph) (i : CollectionId) (f : Collection → Collection) :
    Quiet g (g.modifyCollection i f) :=
  .of_entities rfl

/-- A new entity has no values, waits for nothing and has no listeners. -/
theorem newEntity (g : Graph) (t : Schema) :
    Quiet g { g with entities := g.entities ++ [{ schema := t }] } := by
  have hold : ∀ x : EntityId, x.index < g.entities.length →
      ({ g with entities := g.entities ++ [{ schema := t }] } : Graph).entity x = g.entity x := by
    intro x hx
    rw [entity_append, if_neg (Nat.ne_of_lt hx)]
  refine ⟨by simp, fun x name => ?_, fun s x name hx => ?_, fun x hx => by rw [hold x hx],
    fun x name hx => by rw [hold x hx]⟩
  · rw [entity_append]
    split
    · next hnew =>
      rw [entity_of_length_le (Nat.le_of_eq hnew.symm)]
      rfl
    · rfl
  · obtain ⟨referenced, hmem⟩ := hx
    have hlt : s.index < g.entities.length := index_lt_of_mem (v := (·.listeners)) hmem rfl
    exact ⟨referenced, by rwa [hold s hlt]⟩

/-- Keys stay. -/
theorem key? (h : Quiet g g') (hx : x.index < g.entities.length) : g'.key? x = g.key? x := by
  simp only [key?_eq_bind, h.schema x hx, h.value x _ hx]

/-- What has been delivered stays. -/
theorem delivered (h : Quiet g g') (hx : x.index < g.entities.length)
    (hd : Delivered g x name k) : Delivered g' x name k := by
  refine ⟨hd.key, (h.pending x name).trans hd.settled, ?_⟩
  rw [h.schema x hx, h.value x name hx]
  exact hd.value

/-- An assignment says the same afterwards. -/
theorem latest (h : Quiet g g') (hs : s.index < g.entities.length) (referenced : String) :
    (Made.link s referenced).latest g' = (Made.link s referenced).latest g := by
  simp only [Made.latest, h.schema s hs, h.key? hs]

end Quiet

/-- What foreign keys do not notice keeps the agreement. -/
theorem Tracks.quiet (h : Tracks L g) (hq : Quiet g g') : Tracks L g' where
  pending x name s hwaits := h.pending x name s (hq.pending x name ▸ hwaits)
  heard x name s hwaits := hq.heard s x name (h.heard x name s (hq.pending x name ▸ hwaits))
  known x name s state hl :=
    ⟨Nat.lt_of_lt_of_le (h.known x name s state hl).1 hq.length,
      Nat.lt_of_lt_of_le (h.known x name s state hl).2 hq.length⟩
  delivered x name s k hl := by
    have hx : x.index < g.entities.length := by
      rcases hl with hl | hl <;> exact (h.known x name s _ hl).1
    exact hq.delivered hx (h.delivered x name s k hl)
  waiting x name s hl hnone := by
    rw [hq.key? (h.known x name s _ hl).2] at hnone
    rw [hq.pending]
    exact h.waiting x name s hl hnone
  arrived x name s k hl hk hown := by
    obtain ⟨hx, hs⟩ := h.known x name s _ hl
    rw [hq.key? hs] at hk
    rw [Links.ownsKey, hq.schema s hs, ← Links.ownsKey] at hown
    exact hq.delivered hx (h.arrived x name s k hl hk hown)

theorem Current.quiet (h : Current L g) (hq : Quiet g g') : Current L g' where
  toTracks := h.toTracks.quiet hq
  unset x name s hl := by
    rw [hq.key? (h.known x name s _ hl).2]
    exact h.unset x name s hl

end Graph

end EntityGraph
