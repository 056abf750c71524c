import EntityGraph.Proofs.Links

/-!
# What foreign keys follow

Each operation of a caller keeps graph and last assignments in agreement. Whatever an operation does to
a foreign key is one of three things: it is assigned a value, it is left waiting for an entity without
a key, or it takes the key that an entity is given.

* `Current.assigned`, `Current.deferred`, `Tracks.gives` — each of the three keeps the agreement;
* `Current.link`, `Current.relink`, `Current.assignOne`, `Current.push`, `Current.remove`,
  `Current.assign` — so does each assignment;
* `Current.operation` — so does each operation.
-/

namespace EntityGraph

namespace Graph

variable {c : Catalog} {L : Links} {g g' g'' : Graph} {x y s e : EntityId} {name other : String}
  {k v w : Value} {l : Latest}

/-! ### A foreign key is assigned -/

/-- An atomic has been assigned a value, and does not wait. -/
structure Assigned (x : EntityId) (name : String) (w : Value) (g g' : Graph) : Prop where
  length : g'.entities.length = g.entities.length
  schema : ∀ y, (g'.entity y).schema = (g.entity y).schema
  listeners : ∀ y, (g'.entity y).listeners = (g.entity y).listeners
  settled : (g'.entity x).pending.get? name = none
  value : (g'.entity x).atomicValue name = w
  pending : ∀ y other, ¬(y = x ∧ other = name) →
    (g'.entity y).pending.get? other = (g.entity y).pending.get? other
  other : ∀ y other, ¬(y = x ∧ other = name) →
    (g'.entity y).atomicValue other = (g.entity y).atomicValue other

namespace Assigned

/-- A change of an existing entity that sets one of its atomics. -/
theorem modifyEntity {f : Entity → Entity} (hlt : x.index < g.entities.length)
    (hschema : (f (g.entity x)).schema = (g.entity x).schema)
    (hlisteners : (f (g.entity x)).listeners = (g.entity x).listeners)
    (hpending : (f (g.entity x)).pending = (g.entity x).pending.erase name)
    (hvalue : (f (g.entity x)).atomicValue name = w)
    (hother : ∀ other, other ≠ name →
      (f (g.entity x)).atomicValue other = (g.entity x).atomicValue other) :
    Assigned x name w g (g.modifyEntity x f) := by
  have hself := entity_modifyEntity_self f hlt
  refine ⟨length_modifyEntity g x f, fun y => view_modifyEntity (v := (·.schema)) hschema,
    fun y => view_modifyEntity (v := (·.listeners)) hlisteners, ?_, ?_, fun y other hne => ?_,
    fun y other hne => ?_⟩
  · rw [hself, hpending, Assoc.get?_erase_self]
  · rw [hself, hvalue]
  all_goals
    rcases entity_modifyEntity_cases g y x f with hy | ⟨rfl, -, hy⟩ <;> rw [hy]
  · rw [hpending, Assoc.get?_erase_of_ne _ fun hname => hne ⟨rfl, hname⟩]
  · exact hother other fun hname => hne ⟨rfl, hname⟩

/-- A foreign key takes a value. -/
theorem receive (hlt : x.index < g.entities.length) (name : String) (w : Value) :
    Assigned x name w g (g.modifyEntity x (·.receive name w)) := by
  obtain ⟨hschema, -, hlisteners, -⟩ := receive_frame (g.entity x) name w
  refine modifyEntity hlt hschema hlisteners (pending_receive _ _ _) ?_ fun other hother => ?_
  · rw [Entity.atomicValue, atomics_receive]
    split <;> rfl
  · rw [Entity.atomicValue, atomics_receive_of_ne _ _ _ hother, Entity.atomicValue]

/-- An atomic stops waiting and keeps its value. -/
theorem settle (hlt : x.index < g.entities.length) (name : String) :
    Assigned x name ((g.entity x).atomicValue name) g (g.modifyEntity x (·.settle name)) :=
  modifyEntity hlt rfl rfl rfl rfl fun _ _ => rfl

/-- Afterwards, the atomic gets another value. -/
theorem put (h : Assigned x name v g g') (hlt : x.index < g.entities.length) (slot : Slot Value) :
    Assigned x name slot.value g (g'.put x name slot) where
  length := (length_modifyEntity _ _ _).trans h.length
  schema y := schema_put.trans (h.schema y)
  listeners y := listeners_put.trans (h.listeners y)
  settled := by rw [pending_put, h.settled]
  value := atomicValue_put_self (h.length ▸ hlt)
  pending y other hne := by rw [pending_put, h.pending y other hne]
  other y other hne := by
    rw [← h.other y other hne]
    exact atomicValue_eq_of_slot (slot_put_of_ne hne)

variable (h : Assigned x name w g g')

include h

/-- Other entities keep their keys. -/
theorem key?_of_ne (hne : y ≠ x) : g'.key? y = g.key? y := by
  simp only [key?_eq_bind, h.schema y, h.other y _ fun heq => hne heq.1]

/-- The entity keeps its key if another atomic is assigned. -/
theorem key?_of_ne_name (hne : (g.entity x).schema.keyName? ≠ some name) :
    g'.key? x = g.key? x := by
  rw [key?_eq_bind, key?_eq_bind, h.schema x]
  cases hname : (g.entity x).schema.keyName? with
  | none => rfl
  | some other =>
    have hother : ¬(x = x ∧ other = name) := fun heq => hne (hname.trans (congrArg some heq.2))
    rw [Option.bind_some, Option.bind_some, h.other x other hother]

/-- A primary key that is assigned is the key, unless it is null. -/
theorem key?_self (hname : (g.entity x).schema.keyName? = some name) :
    g'.key? x = if w.isNull then none else some w := by
  rw [key?_of_keyName (by rwa [h.schema]), h.value]

/-- What had been delivered elsewhere stays. -/
theorem delivered (hne : ¬(y = x ∧ other = name)) (hd : Delivered g y other k) :
    Delivered g' y other k := by
  refine ⟨hd.key, (h.pending y other hne).trans hd.settled, ?_⟩
  rw [h.schema y, h.other y other hne]
  exact hd.value

end Assigned

/-- An assignment of an atomic that brings no key of its own keeps the agreement. -/
theorem Current.assigned (h : Current L g) (ha : Assigned x name w g g')
    (hl : ∀ s state, l = .key s state → x.index < g.entities.length ∧
      s.index < g.entities.length ∧ ∃ k, state = .keyed k ∧ Delivered g' x name k)
    (hkey : l = .value → g'.key? x = none ∨ g'.key? x = g.key? x) :
    Tracks (L.set x name l) g' := by
  have hwaited : ∀ {y other s}, (g'.entity y).pending.get? other = some s →
      ¬(y = x ∧ other = name) ∧ (g.entity y).pending.get? other = some s := by
    intro y other s hwaits
    have hne : ¬(y = x ∧ other = name) := by
      rintro ⟨rfl, rfl⟩
      rw [ha.settled] at hwaits
      cases hwaits
    exact ⟨hne, ha.pending y other hne ▸ hwaits⟩
  constructor
  case pending =>
    intro y other s hwaits
    obtain ⟨hne, hwaits⟩ := hwaited hwaits
    rw [Links.set_of_ne hne]
    exact h.pending y other s hwaits
  case heard =>
    intro y other s hwaits
    obtain ⟨referenced, hmem⟩ := h.heard y other s (hwaited hwaits).2
    exact ⟨referenced, by rwa [ha.listeners]⟩
  case known =>
    intro y other s state hs
    rw [ha.length]
    rcases Links.eq_key_of_set hs with ⟨⟨rfl, rfl⟩, hmade⟩ | ⟨-, hs⟩
    · exact ⟨(hl s state hmade).1, (hl s state hmade).2.1⟩
    · exact h.known y other s state hs
  case delivered =>
    intro y other s k hs
    rcases hs with hs | hs <;> rcases Links.eq_key_of_set hs with ⟨⟨rfl, rfl⟩, hmade⟩ | ⟨hne, hs⟩
    · obtain ⟨-, -, k', hstate, hd⟩ := hl s _ hmade
      exact KeyState.keyed.inj hstate ▸ hd
    · exact ha.delivered hne (h.delivered y other s k (.inl hs))
    · obtain ⟨-, -, k', hstate, -⟩ := hl s _ hmade
      cases hstate
    · exact ha.delivered hne (h.delivered y other s k (.inr hs))
  case waiting =>
    intro y other s hs _
    rcases Links.eq_key_of_set hs with ⟨-, hs⟩ | ⟨hne, hs⟩
    · obtain ⟨-, -, k', hstate, -⟩ := hl s _ hs
      cases hstate
    · rw [ha.pending y other hne]
      exact h.waiting y other s hs (h.unset y other s hs)
  case arrived =>
    intro y other s k hs hk hown
    rcases Links.eq_key_of_set hs with ⟨-, hs⟩ | ⟨-, hs⟩
    · obtain ⟨-, -, k', hstate, -⟩ := hl s _ hs
      cases hstate
    -- a source that waits had no key, so it got one from this very assignment
    have hnone := h.unset y other s hs
    by_cases hsx : s = x
    · subst hsx
      by_cases hname : (g.entity s).schema.keyName? = some name
      · have hvalue := Links.eq_value_of_ownsKey hown (by rwa [ha.schema])
        rw [Links.set_self] at hvalue
        rcases hkey hvalue with hk' | hk' <;> rw [hk] at hk'
        · cases hk'
        · rw [hnone] at hk'
          cases hk'
      · rw [ha.key?_of_ne_name hname, hnone] at hk
        cases hk
    · rw [ha.key?_of_ne hsx, hnone] at hk
      cases hk

/-- An assignment of a value that brings no key of its own leaves none to be noted. -/
theorem Current.assigned_value (h : Current L g) (ha : Assigned x name w g g')
    (hkey : g'.key? x = none ∨ g'.key? x = g.key? x) : Current (L.set x name .value) g' where
  toTracks := h.assigned ha (fun s state hs => by cases hs) fun _ => hkey
  unset y other s hs := by
    obtain ⟨-, hs⟩ := (Links.eq_key_of_set hs).resolve_left fun hvalue => by cases hvalue.2
    have hnone := h.unset y other s hs
    by_cases hsx : s = x
    · subst hsx
      rcases hkey with hk | hk
      · exact hk
      · rw [hk, hnone]
    · rw [ha.key?_of_ne hsx, hnone]

/-! ### A foreign key is left waiting -/

/-- A foreign key waits for an entity, which has a listener for it. -/
def defer (g : Graph) (x : EntityId) (name : String) (s : EntityId) (referenced : String) : Graph :=
  (g.modifyEntity x fun y => { y with pending := y.pending.put name s }).modifyEntity s fun y =>
    { y with listeners := y.listeners ++ [.foreignKey x name referenced] }

section defer

variable {referenced : String}

/-- One foreign key waits that may not have waited before. -/
theorem pending_defer (hx : x.index < g.entities.length) (y : EntityId) (other : String) :
    ((g.defer x name s referenced).entity y).pending.get? other =
      if y = x ∧ other = name then some s else (g.entity y).pending.get? other := by
  rw [defer, view_modifyEntity (v := (·.pending)) rfl]
  by_cases hy : y = x
  · subst hy
    rw [entity_modifyEntity_self _ hx]
    by_cases hother : other = name
    · subst hother
      simp
    · simp [hother, Assoc.get?_put_of_ne]
  · rw [entity_modifyEntity_of_ne _ hy, if_neg fun h => hy h.1]

/-- Listeners are only added, one of them for the foreign key that waits. -/
theorem heard_defer (hs : s.index < g.entities.length) :
    (g.defer x name s referenced).Heard s x name ∧
      ∀ d y other, g.Heard d y other → (g.defer x name s referenced).Heard d y other := by
  have hfirst : ∀ d,
      ((g.modifyEntity x fun y => { y with pending := y.pending.put name s }).entity d).listeners =
        (g.entity d).listeners := fun d => view_modifyEntity (v := (·.listeners)) rfl
  have hlt : s.index <
      (g.modifyEntity x fun y => { y with pending := y.pending.put name s }).entities.length := by
    rwa [length_modifyEntity]
  constructor
  · refine ⟨referenced, ?_⟩
    rw [defer, entity_modifyEntity_self _ hlt]
    exact List.mem_append_right _ (List.mem_singleton_self _)
  · rintro d y other ⟨r, hmem⟩
    refine ⟨r, ?_⟩
    rw [← hfirst] at hmem
    rw [defer]
    rcases entity_modifyEntity_cases (g.modifyEntity x fun y =>
      { y with pending := y.pending.put name s }) d s (fun y =>
        { y with listeners := y.listeners ++ [.foreignKey x name referenced] })
      with hd | ⟨rfl, -, hd⟩ <;> rw [hd]
    · exact hmem
    · exact List.mem_append_left _ hmem

/-- Schemas stay. -/
theorem schema_defer (y : EntityId) :
    ((g.defer x name s referenced).entity y).schema = (g.entity y).schema :=
  (view_modifyEntity (v := (·.schema)) rfl).trans (view_modifyEntity (v := (·.schema)) rfl)

/-- Values stay. -/
theorem atomicValue_defer (y : EntityId) (other : String) :
    ((g.defer x name s referenced).entity y).atomicValue other = (g.entity y).atomicValue other :=
  (view_modifyEntity (v := fun z => z.atomicValue other) rfl).trans
    (view_modifyEntity (v := fun z => z.atomicValue other) rfl)

/-- Keys stay. -/
theorem key?_defer (y : EntityId) : (g.defer x name s referenced).key? y = g.key? y :=
  (view_modifyEntity (v := Entity.key?) rfl).trans (view_modifyEntity (v := Entity.key?) rfl)

/-- A link to an entity without a key leaves the foreign key waiting. -/
theorem Current.deferred (h : Current L g) (hx : x.index < g.entities.length)
    (hs : s.index < g.entities.length) (hnone : g.key? s = none) :
    Current (L.set x name (.key s .waiting)) (g.defer x name s referenced) := by
  have hlength : (g.defer x name s referenced).entities.length = g.entities.length := by
    rw [defer, length_modifyEntity, length_modifyEntity]
  -- no source that is waited for has a key, now as before
  have hunset : ∀ y other d, L.set x name (.key s .waiting) y other = .key d .waiting →
      g.key? d = none := by
    intro y other d hd
    rcases Links.eq_key_of_set hd with ⟨-, hd⟩ | ⟨-, hd⟩
    · exact (Latest.key.inj hd).1 ▸ hnone
    · exact h.unset y other d hd
  refine ⟨?_, fun y other d hd => (key?_defer d).trans (hunset y other d hd)⟩
  constructor
  case pending =>
    intro y other d hwaits
    rw [pending_defer hx] at hwaits
    by_cases hne : y = x ∧ other = name
    · rw [if_pos hne] at hwaits
      rw [hne.1, hne.2, Links.set_self, Option.some.inj hwaits]
      exact .inl rfl
    · rw [if_neg hne] at hwaits
      rw [Links.set_of_ne hne]
      exact h.pending y other d hwaits
  case heard =>
    intro y other d hwaits
    rw [pending_defer hx] at hwaits
    split at hwaits
    · next heq =>
      obtain ⟨rfl, rfl⟩ := heq
      exact Option.some.inj hwaits ▸ (heard_defer hs).1
    · exact (heard_defer hs).2 d y other (h.heard y other d hwaits)
  case known =>
    intro y other d state hd
    rw [hlength]
    rcases Links.eq_key_of_set hd with ⟨⟨rfl, -⟩, hmade⟩ | ⟨-, hd⟩
    · exact ⟨hx, (Latest.key.inj hmade).1 ▸ hs⟩
    · exact h.known y other d state hd
  case delivered =>
    intro y other d k hd
    obtain ⟨hne, hold⟩ : ¬(y = x ∧ other = name) ∧ Delivered g y other k := by
      rcases hd with hd | hd <;> rcases Links.eq_key_of_set hd with ⟨-, hd⟩ | ⟨hne, hd⟩
      · cases hd
      · exact ⟨hne, h.delivered y other d k (.inl hd)⟩
      · cases hd
      · exact ⟨hne, h.delivered y other d k (.inr hd)⟩
    refine ⟨hold.key, ?_, ?_⟩
    · rw [pending_defer hx, if_neg hne]
      exact hold.settled
    · rw [schema_defer, atomicValue_defer]
      exact hold.value
  case waiting =>
    intro y other d hd _
    rw [pending_defer hx]
    rcases Links.eq_key_of_set hd with ⟨heq, hd⟩ | ⟨hne, hd⟩
    · rw [if_pos heq, (Latest.key.inj hd).1]
    · rw [if_neg hne]
      exact h.waiting y other d hd (h.unset y other d hd)
  case arrived =>
    intro y other d k hd hk _
    rw [key?_defer, hunset y other d hd] at hk
    cases hk

end defer

/-! ### An entity is given its key -/

namespace Gives

variable (h : Gives s k g g')

include h

/-- What has taken the key has it delivered. -/
theorem delivered_of_waits (hne : ¬g.IsKey s x name)
    (hwaits : (g.entity x).pending.get? name = some s) : Delivered g' x name k := by
  obtain ⟨-, hset, a, v, ha, hv, hslot⟩ := h.took x name hne hwaits
  refine ⟨ne_null_of_key? h.key, hset, a, v, by rwa [h.shape.schema], by rwa [h.shape.schema], ?_⟩
  rw [Entity.atomicValue, hslot]
  split <;> rfl

/-- What had been delivered before stays. -/
theorem delivered_of_delivered (hne : ¬g.IsKey s x name) {k' : Value}
    (hd : Delivered g x name k') : Delivered g' x name k' := by
  obtain ⟨hp, hslot⟩ := h.kept x name hne (by rw [hd.settled]; exact (Option.some_ne_none s).symm)
  refine ⟨hd.key, hp.trans hd.settled, ?_⟩
  rw [h.shape.schema, atomicValue_eq_of_slot hslot]
  exact hd.value

/-- An entity whose key did not wait keeps its key. -/
theorem key?_of_ne (hne : x ≠ s)
    (hfree : ∀ name, (g.entity x).schema.keyName? = some name →
      (g.entity x).pending.get? name ≠ some s) : g'.key? x = g.key? x := by
  rw [key?_eq_bind, key?_eq_bind, h.shape.schema]
  cases hname : (g.entity x).schema.keyName? with
  | none => rfl
  | some name =>
    have hslot := (h.kept x name (fun hkey => hne hkey.1) (hfree name hname)).2
    rw [Option.bind_some, Option.bind_some, atomicValue_eq_of_slot hslot]

/-- No entity loses its key. -/
theorem key?_eq_none (hnone : g'.key? x = none) : g.key? x = none := by
  by_cases hxs : x = s
  · rw [hxs, h.key] at hnone
    cases hnone
  cases hname : (g.entity x).schema.keyName? with
  | none => rw [key?_eq_bind, hname, Option.bind_none]
  | some name =>
    by_cases hwaits : (g.entity x).pending.get? name = some s
    · have hd := h.delivered_of_waits (fun hkey => hxs hkey.1) hwaits
      exact absurd hnone (hd.key?_ne_none (by rwa [h.shape.schema]))
    · rw [← hnone]
      refine (h.key?_of_ne hxs fun other hother => ?_).symm
      obtain rfl : name = other := Option.some.inj (hname.symm.trans hother)
      exact hwaits

end Gives

/-- Giving an entity a key that it did not have keeps the agreement, provided that the last assignment
of the key itself was a value, or nothing has come of it. -/
theorem Tracks.gives (h : Tracks L g) (hg : Gives s k g g')
    (hnew : ∀ x name, L x name = .key s .waiting → g.key? s = none)
    (hown : ∀ name d state, (g.entity s).schema.keyName? = some name → L s name = .key d state →
      g.key? s = none ∧ (g.entity s).pending.get? name = none) : Tracks L g' := by
  have hwaits : ∀ x name d, (g'.entity x).pending.get? name = some d →
      (g.entity x).pending.get? name = some d ∧ d ≠ s := by
    intro x name d hd
    by_cases hkey : g.IsKey s x name
    · obtain ⟨rfl, hname⟩ := hkey
      rw [hg.free name hname] at hd
      cases hd
    · by_cases hs : (g.entity x).pending.get? name = some s
      · rw [(hg.took x name hkey hs).settled] at hd
        cases hd
      · have hsame := (hg.kept x name hkey hs).1.symm.trans hd
        exact ⟨hsame, fun heq => hs (heq ▸ hsame)⟩
  have hvalue : ∀ x name d state, g.IsKey s x name → L x name = .key d state →
      g.key? s = none ∧ (g.entity x).pending.get? name = none := by
    rintro x name d state ⟨rfl, hname⟩ hl
    exact hown name d state hname hl
  have hnot : ∀ {x name d state k'}, g.IsKey s x name → L x name = .key d state →
      ¬Delivered g x name k' := by
    rintro x name d state k' ⟨rfl, hname⟩ hl hd
    exact hd.key?_ne_none hname (hown name d state hname hl).1
  constructor
  case pending => exact fun x name d hd => h.pending x name d (hwaits x name d hd).1
  case heard =>
    intro x name d hd
    obtain ⟨hold, hds⟩ := hwaits x name d hd
    obtain ⟨referenced, hmem⟩ := h.heard x name d hold
    exact ⟨referenced, by rwa [hg.listeners d hds]⟩
  case known =>
    intro x name d state hl
    rw [hg.shape.length]
    exact h.known x name d state hl
  case delivered =>
    intro x name d k' hl
    have hd := h.delivered x name d k' hl
    refine hg.delivered_of_delivered (fun hkey => ?_) hd
    rcases hl with hl | hl <;> exact hnot hkey hl hd
  case waiting =>
    intro x name d hl hnone
    have hds : d ≠ s := by
      rintro rfl
      rw [hg.key] at hnone
      cases hnone
    have hwaited := h.waiting x name d hl (hg.key?_eq_none hnone)
    have hkey : ¬g.IsKey s x name := fun hkey => by
      rw [(hvalue x name d _ hkey hl).2] at hwaited
      cases hwaited
    rw [(hg.kept x name hkey (by rw [hwaited]; exact fun heq => hds (Option.some.inj heq))).1]
    exact hwaited
  case arrived =>
    intro x name d k' hl hk' hown'
    rw [Links.ownsKey, hg.shape.schema, ← Links.ownsKey] at hown'
    by_cases hds : d = s
    · subst hds
      obtain rfl : k = k' := Option.some.inj (hg.key.symm.trans hk')
      -- a key that waits for itself has been linked, so it is not the entity's own
      have hkey : ¬g.IsKey d x name := by
        rintro ⟨rfl, hname⟩
        rw [Links.eq_value_of_ownsKey hown' hname] at hl
        cases hl
      exact hg.delivered_of_waits hkey (h.waiting x name d hl (hnew x name hl))
    · have hsame : g'.key? d = g.key? d := by
        refine hg.key?_of_ne hds fun other hother hwaited => ?_
        rcases h.pending d other s hwaited with hl' | hl' <;>
          rw [Links.eq_value_of_ownsKey hown' hother] at hl' <;> cases hl'
      have hd := h.arrived x name d k' hl (hsame ▸ hk') hown'
      exact hg.delivered_of_delivered (fun hkey => hnot hkey hl hd) hd

/-! ### What operations do -/

/-- A foreign key is nulled. -/
theorem Current.writeNull (h : Current L g) (x : EntityId) (name : String) :
    (writeForeignKey x name .null).Ends g
      (fun _ g' => g'.entities.length = g.entities.length ∧ Current (L.set x name .value) g')
      (fun _ _ => True) := by
  refine ends_writeForeignKey (fun a w ha hw => ?_) fun _ => trivial
  have hlt := index_lt_of_atomic? (Schema.atomic_eq_ok_iff.1 ha)
  have hassigned := Assigned.receive hlt name w
  refine ⟨hassigned.length, h.assigned_value hassigned ?_⟩
  by_cases hname : (g.entity x).schema.keyName? = some name
  · obtain rfl : w = .null := by
      rw [Atomic.coerce_eq_ok_iff, AtomicKind.coerce?_null] at hw
      exact (Option.some.inj hw).symm
    exact .inl (hassigned.key?_self hname)
  · exact .inr (hassigned.key?_of_ne_name hname)

/-- A link that writes the value of a primary key delivers that key. -/
theorem Assigned.delivered_of_link {a : Atomic} {referenced : String} {d : EntityId}
    {state : KeyState} (h : Assigned x name w g g')
    (hread : (g.entity s).atomicValue referenced = v) (hv : v ≠ .null)
    (ha : (g.entity x).schema.atomic name = .ok a)
    (hw : a.coerce (g.entity x).schema.name v = .ok w)
    (hd : (Made.link s referenced).latest g' = .key d state) :
    d = s ∧ ∃ k, state = .keyed k ∧ Delivered g' x name k := by
  rw [Made.latest] at hd
  split at hd
  · next hname =>
    obtain ⟨rfl, hstate⟩ := Latest.key.inj hd
    refine ⟨rfl, ?_⟩
    by_cases hself : s = x ∧ referenced = name
    · -- a key that is linked to itself is brought into its kind once more
      obtain ⟨rfl, rfl⟩ := hself
      have hw' := Atomic.ne_null_of_coerce hw hv
      rw [h.schema] at hname
      rw [h.key?_self hname, if_neg (by simpa using hw')] at hstate
      refine ⟨w, hstate.symm, hw', h.settled, a, w, by rwa [h.schema], ?_, h.value⟩
      rw [Atomic.coerce_eq_ok_iff] at hw ⊢
      exact AtomicKind.coerce?_of_holds (AtomicKind.coerce?_holds hw)
    · rw [key?_of_keyName hname, h.other s referenced hself, hread,
        if_neg (by simpa using hv)] at hstate
      exact ⟨v, hstate.symm, hv, h.settled, a, w, by rwa [h.schema], by rwa [h.schema], h.value⟩
  · cases hd

/-- A foreign key is linked to an entity, whatever quiet work follows. -/
theorem Current.link (h : Current L g) (hx : x.index < g.entities.length) (name : String)
    (s : EntityId) (referenced : String) :
    (Graph.link x name s referenced).Ends g
      (fun _ g' => ∀ g'', Quiet g' g'' →
        Tracks (Links.record g'' L ⟨x, name, .link s referenced⟩) g'')
      (fun _ _ => True) := by
  simp only [Graph.link, Act.ends_bind, Act.ends_get, Act.ends_ofExcept, Act.ends_modify,
    Act.ends_ite, Act.ends_throw]
  refine ⟨fun v hv => ⟨fun hset => ?_, fun hnull => ⟨fun _ => trivial, fun hkey => ?_⟩⟩,
    fun _ _ => trivial⟩
  all_goals
    have hs : s.index < g.entities.length := by
      obtain ⟨a, ha, -⟩ := bind_eq_ok_iff.1 hv
      exact index_lt_of_atomic? (atomic?_of_atomic ha).1
    have hread := (value_eq_ok hv).symm
  · -- the source has a value, which is written
    refine ends_writeForeignKey (fun a w ha hw g'' hq => ?_) fun _ => trivial
    have hassigned := Assigned.receive hx name w
    rw [Links.record, hq.latest (s := s) (by rwa [hassigned.length]) referenced]
    refine (h.assigned hassigned (fun d state hd => ?_) fun hvalue => ?_).quiet hq
    · obtain ⟨rfl, hdelivered⟩ := hassigned.delivered_of_link hread (by simpa using hset) ha hw hd
      exact ⟨hx, hs, hdelivered⟩
    · rw [Made.latest] at hvalue
      split at hvalue <;> cases hvalue
  · -- the source has no key yet, and the foreign key waits for it
    intro g'' hq
    have hq : Quiet (g.defer x name s referenced) g'' := hq
    have hname : (g.entity s).schema.keyName? = some referenced := not_not.1 hkey
    have hnone : g.key? s = none := by
      rw [key?_of_keyName hname, hread, if_pos (not_not.1 hnull)]
    have hlt : s.index < (g.defer x name s referenced).entities.length := by
      rwa [defer, length_modifyEntity, length_modifyEntity]
    have hlatest : (Made.link s referenced).latest g'' = .key s .waiting := by
      rw [hq.latest hlt, Made.latest, if_pos (by rwa [schema_defer]), key?_defer, hnone]
    rw [Links.record, hlatest]
    exact (h.deferred hx hs hnone).toTracks.quiet hq

/-- A to-one relation assigns its foreign key, whatever quiet work follows. -/
theorem Current.relink (h : Current L g) (he : e.index < g.entities.length) (join : Join)
    (before : Option EntityId) {target : Option EntityId}
    (htarget : ∀ t, target = some t → t.index < g.entities.length) :
    (Graph.relink e join before target).Ends g
      (fun _ g' => ∀ g'', Quiet g' g'' →
        Tracks ((relinked e join before target).foldl (Links.record g'') L) g'')
      (fun _ _ => True) := by
  unfold Graph.relink relinked
  cases join.side with
  | here =>
    cases target with
    | none =>
      exact (h.writeNull e join.foreignKey).mono (fun _ _ hg _ hq => hg.2.toTracks.quiet hq)
        fun _ _ _ => trivial
    | some t => exact h.link he join.foreignKey t join.referenced
  | there =>
    cases before with
    | none =>
      cases target with
      | none => exact fun _ hq => h.toTracks.quiet hq
      | some t => exact h.link (htarget t rfl) join.foreignKey e join.referenced
    | some b =>
      simp only [Act.ends_bind, Act.ends_ite]
      refine ⟨fun hne => ?_, fun heq => ?_⟩
      · -- the entity that was related before is let go
        refine (h.writeNull b join.foreignKey).mono (fun _ g' hg => ?_) fun _ _ _ => trivial
        obtain ⟨hlength, hnulled⟩ := hg
        cases target with
        | none => exact fun _ hq => hnulled.toTracks.quiet hq
        | some t =>
          have hfilter : (some b).filter (fun b => decide (some t ≠ some b)) = some b := by
            simp [Option.filter, hne]
          rw [hfilter]
          exact hnulled.link (hlength ▸ htarget t rfl) join.foreignKey e join.referenced
      · obtain rfl : target = some b := not_not.1 heq
        have hfilter : (some b).filter (fun b' => decide (some b ≠ some b')) = none := by
          simp [Option.filter]
        rw [hfilter]
        exact h.link (htarget b rfl) join.foreignKey e join.referenced

/-- Assigning a to-one relation. -/
theorem Current.assignOne (h : Current L g) {target : Option EntityId}
    (htarget : ∀ t, target = some t → t.index < g.entities.length) :
    (Graph.assignOne c e name target).Ends g
      (fun _ g' => Tracks ((g.assignments c (.assignOne e name target)).foldl (Links.record g') L) g')
      (fun _ _ => True) := by
  simp only [Graph.assignOne, Act.ends_bind, Act.ends_get]
  rw [Act.ends_ofExcept]
  refine ⟨fun comp hcomp => ?_, fun _ _ => trivial⟩
  have he : e.index < g.entities.length := index_lt_of_component? (component?_of_relation hcomp).1
  have hrest : ∀ join, c.join (g.entity e).schema comp = .ok join →
      (Graph.relink e join (((g.entity e).toOne.get? comp.name).bind (·.value)) target).Ends g
        (fun _ t => (modify fun g => g.modifyEntity e fun x =>
            { x with toOne := x.toOne.put comp.name (.dirty target) } : GraphM Unit).Ends t
          (fun _ g' => Tracks ((g.assignments c (.assignOne e name target)).foldl
            (Links.record g') L) g') (fun _ _ => True)) (fun _ _ => True) := by
    intro join hjoin
    refine (h.relink he join _ htarget).mono (fun _ g' hg => ?_) fun _ _ _ => trivial
    have hquiet := hg _ (.modifyEntity g' e (f := fun x =>
      { x with toOne := x.toOne.put comp.name (.dirty target) })
        fun _ => ⟨rfl, rfl, List.Subset.refl _, fun _ => rfl⟩)
    simpa only [Act.ends_modify, assignments, hcomp, hjoin] using hquiet
  cases target with
  | none =>
    simp only [Act.ends_bind, Act.ends_ofExcept] at hrest ⊢
    exact ⟨hrest, fun _ _ => trivial⟩
  | some t =>
    simp only [Act.ends_bind, Act.ends_ofExcept] at hrest ⊢
    exact ⟨fun _ _ => ⟨hrest, fun _ _ => trivial⟩, fun _ _ => trivial⟩

/-- Appending a member is quiet, and answers whether the collection takes it. -/
theorem quiet_append (g : Graph) (i : CollectionId) (member : EntityId) :
    (Graph.append i member).Ends g
      (fun appended g' => appended = g.takes i member ∧ Quiet g g') (fun _ _ => True) := by
  simp only [Graph.append, takes, Act.ends_bind, Act.ends_get]
  cases g.key? member with
  | some key =>
    simp only [Act.ends_ite, Act.ends_bind, Act.ends_modify, Act.ends_pure]
    exact ⟨fun hin => ⟨by simp [hin], .refl g⟩, fun hout => ⟨by simpa using hout, .of_entities rfl⟩⟩
  | none =>
    simp only [Act.ends_ite, Act.ends_bind, Act.ends_modify, Act.ends_pure, addListener]
    refine ⟨fun hin => ⟨by rw [hin]; rfl, .refl g⟩, fun hout => ⟨by simpa using hout, ?_⟩⟩
    let taken := g.modifyCollection i fun x => { x with members := x.members ++ [member] }
    have htaken : Quiet g taken := .modifyCollection g i _
    exact htaken.trans (.modifyEntity taken member
      (f := fun x => { x with listeners := x.listeners ++ [.collection i] })
      fun x => ⟨rfl, rfl, List.subset_append_left _ _, fun _ => rfl⟩)

/-- Adding a member to a collection. -/
theorem Current.push (h : Current L g) (i : CollectionId) {member : EntityId}
    (hmember : member.index < g.entities.length) :
    (Graph.push i member).Ends g
      (fun _ g' => Tracks ((g.assignments c (.push i member)).foldl (Links.record g') L) g')
      (fun _ _ => True) := by
  simp only [Graph.push, Act.ends_bind, Act.ends_get, Act.ends_ofExcept, Act.ends_ite]
  refine ⟨fun _ _ => (quiet_append g i member).mono (fun appended g' hg => ?_) fun _ _ _ => trivial,
    fun _ _ => trivial⟩
  obtain ⟨rfl, hq⟩ := hg
  refine ⟨fun htakes => ?_, fun hleaves => ?_⟩
  · have hlt : member.index < g'.entities.length := Nat.lt_of_lt_of_le hmember hq.length
    refine ((h.quiet hq).link hlt _ _ _).mono (fun _ g'' hg => ?_) fun _ _ _ => trivial
    rw [assignments, if_pos htakes]
    exact hg g'' (.refl g'')
  · rw [assignments, if_neg hleaves]
    exact h.toTracks.quiet hq

/-- Removing a member of a collection. -/
theorem Current.remove (h : Current L g) (i : CollectionId) (member : EntityId) :
    (Graph.remove i member).Ends g
      (fun _ g' => Tracks ((g.assignments c (.remove i member)).foldl (Links.record g') L) g')
      (fun _ _ => True) := by
  simp only [Graph.remove, Act.ends_bind, Act.ends_get, Act.ends_ite, Act.ends_modify,
    Act.ends_pure]
  refine ⟨fun hin => ?_, fun hout => ?_⟩
  · refine ((h.quiet (.modifyCollection g i _)).writeNull member _).mono (fun _ g' hg => ?_)
      fun _ _ _ => trivial
    rw [assignments, if_pos hin]
    exact hg.2.toTracks
  · rw [assignments, if_neg hout]
    exact h.toTracks

/-- Assigning an atomic. A primary key is announced to those that wait for it. -/
theorem Current.assign (hwf : g.WellFormed c) (h : Current L g)
    (hrun : Graph.assign e name v g = .ok () g') : Tracks (L.set e name .value) g' := by
  obtain ⟨a, w, hfound, rfl, -, hcases⟩ := (ends_assign g e name v).of_ok hrun
  have hlt := index_lt_of_atomic? hfound
  have hmem := (Schema.mem_of_atomic? hfound).1
  have hassigned := Assigned.settle hlt a.name
  have hsettled := h.assigned_value hassigned (.inr (view_modifyEntity (v := Entity.key?) rfl))
  rcases hcases with ⟨-, rfl⟩ | ⟨hquiet, rfl⟩ | ⟨hmarked, hnull, hannounced⟩
  · exact hsettled.toTracks
  · have hput := hassigned.put hlt (.dirty w)
    refine (h.assigned_value hput ?_).toTracks
    by_cases hname : (g.entity e).schema.keyName? = some a.name
    · have hkey := hwf.primaryKey_of_name hname hmem
      have hmarked := (Catalog.primaryKey_iff (hwf.schema_of_primaryKey hkey) hkey hmem).2 rfl
      have hnull : w = .null := not_not.1 fun hne => hquiet ⟨hmarked, hne⟩
      rw [hput.key?_self hname, hnull]
      exact .inl rfl
    · exact .inr (hput.key?_of_ne_name hname)
  · have hkey := (hwf.known e hlt).primaryKey_eq hmem hmarked
    have hkey' : ((g.modifyEntity e (·.settle a.name)).entity e).schema.primaryKey = some a := by
      rwa [hassigned.schema]
    have hwf' := hwf.settle (e := e) a.name
    have hk := key?_of_put hwf' hkey' hassigned.settled hannounced
    rw [if_neg (by simpa [Slot.dirty] using hnull)] at hk
    have hgives := gives_of_put hwf' hkey' hassigned.settled
      (fun x other => hsettled.heard x other e) hannounced hk
    refine hsettled.toTracks.gives hgives (fun x other => hsettled.unset x other e)
      fun name d state hname hl => ?_
    obtain rfl : a.name = name := by simpa [Schema.keyName?, hkey] using hname
    rw [Links.set_self] at hl
    cases hl

/-- Making a collection is quiet. -/
theorem quiet_many (g : Graph) (e : EntityId) (name : String) :
    (Graph.many c e name).Ends g (fun _ => Quiet g) (fun _ _ => True) := by
  simp only [Graph.many, Act.ends_bind, Act.ends_get, Act.ends_ofExcept]
  refine ⟨fun comp _ => ?_, fun _ _ => trivial⟩
  split
  · exact .refl g
  · simp only [Act.ends_bind, Act.ends_ofExcept]
    refine ⟨fun join _ => ?_, fun _ _ => trivial⟩
    let made : Graph := { g with collections := g.collections ++
      [{ owner := e, component := comp, join }] }
    have hmade : Quiet g made := .of_entities rfl
    exact hmade.trans (.modifyEntity made e
      (f := fun x => { x with toMany := x.toMany.put comp.name ⟨g.collections.length⟩ })
      fun _ => ⟨rfl, rfl, List.Subset.refl _, fun _ => rfl⟩)

/-- Making an embedded component is quiet. -/
theorem quiet_embedded (g : Graph) (e : EntityId) (name : String) :
    (Graph.embedded e name).Ends g (fun _ => Quiet g) (fun _ _ => True) := by
  simp only [Graph.embedded, Act.ends_bind, Act.ends_get]
  split
  · exact .refl g
  · split
    · trivial
    next t _ =>
    simp only [Act.ends_bind, Act.ends_modify, Act.ends_pure]
    let made : Graph := { g with entities := g.entities ++ [{ schema := t }] }
    let placed := made.modifyEntity ⟨g.entities.length⟩ fun p =>
      { p with stored := (g.entity e).stored }
    have hplaced : Quiet made placed :=
      .modifyEntity made _ (f := fun p => { p with stored := (g.entity e).stored })
        fun _ => ⟨rfl, rfl, List.Subset.refl _, fun _ => rfl⟩
    exact ((Quiet.newEntity g t).trans hplaced).trans (.modifyEntity placed e
      (f := fun x => { x with embedded := x.embedded.put name ⟨g.entities.length⟩ })
      fun _ => ⟨rfl, rfl, List.Subset.refl _, fun _ => rfl⟩)

/-- Whether an operation is one that callers have, on entities and collections that exist. -/
def Operation.callable (g : Graph) : Operation → Bool
  | .create _ => true
  | .assign e _ _ | .many e _ | .embedded e _ => e.index < g.entities.length
  | .assignOne e _ target =>
    decide (e.index < g.entities.length) && target.all (·.index < g.entities.length)
  | .push i member | .remove i member =>
    decide (i.index < g.collections.length) && decide (member.index < g.entities.length)
  | _ => false

/-- Operations of callers that succeed keep graph and last assignments in agreement. -/
theorem Current.operation (hwf : g.WellFormed c) (h : Current L g) {op : Operation}
    (hop : op.callable g = true) (hrun : op.run c g = .ok () g') :
    Current (L.after c op g g') g' := by
  have hquiet : (g.assignments c op = []) → Quiet g g' → Current (L.after c op g g') g' := by
    intro hnil hq
    rw [Links.after, hnil]
    exact (h.toTracks.quiet hq).advance
  cases op with
  | create type =>
    refine hquiet rfl (Act.Ends.of_ok (P := fun _ => Quiet g) (E := fun _ _ => True) ?_ hrun)
    simp only [Operation.run, Act.ends_bind, Act.ends_ofExcept]
    exact ⟨fun t _ => .newEntity g t, fun _ _ => trivial⟩
  | assign e name v => exact (h.assign hwf hrun).advance
  | assignOne e name target =>
    simp only [Operation.callable, Bool.and_eq_true, Option.all_eq_true, decide_eq_true_eq] at hop
    exact ((h.assignOne hop.2).of_ok hrun).advance
  | many e name =>
    refine hquiet rfl (Act.Ends.of_ok (P := fun _ => Quiet g) (E := fun _ _ => True) ?_ hrun)
    simp only [Operation.run, Act.ends_bind, Act.ends_pure]
    exact quiet_many g e name
  | embedded e name =>
    refine hquiet rfl (Act.Ends.of_ok (P := fun _ => Quiet g) (E := fun _ _ => True) ?_ hrun)
    simp only [Operation.run, Act.ends_bind, Act.ends_pure]
    exact quiet_embedded g e name
  | push i member =>
    simp only [Operation.callable, Bool.and_eq_true, decide_eq_true_eq] at hop
    have hends : (Operation.run c (.push i member)).Ends g (fun _ g' =>
        Tracks ((g.assignments c (.push i member)).foldl (Links.record g') L) g')
        (fun _ _ => True) := by
      simp only [Operation.run, Act.ends_bind, Act.ends_get, Act.ends_ite, Act.ends_pure]
      exact ⟨fun _ => h.push i hop.2, fun hout => absurd hop.1 hout⟩
    exact (hends.of_ok hrun).advance
  | remove i member =>
    have hends : (Operation.run c (.remove i member)).Ends g (fun _ g' =>
        Tracks ((g.assignments c (.remove i member)).foldl (Links.record g') L) g')
        (fun _ _ => True) := by
      simp only [Operation.run, Act.ends_bind, Act.ends_pure]
      exact h.remove i member
    exact (hends.of_ok hrun).advance
  | _ => cases hop

end Graph

end EntityGraph
