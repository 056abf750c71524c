import EntityGraph.Proofs.Linking

/-!
# Histories of assignments and saves

Callers create entities, assign their atomics and relations, change collections and save. `History`
holds of the worlds that such a history leads to while all of it succeeds, together with the last
assignment of every atomic. Graph and last assignments agree throughout, whichever way an entity gets
its key: by an assignment, or in the course of a save, which is a sequence of marks and of keys that
entities are given.

## Main results

* `History.agrees`: graph and last assignments agree in every reached world.
* `History.follows`: a foreign key that was linked last waits as long as its source has no key, and
  has the first key of the source from then on.
* `History.key_reaches_waiting`: a key that an entity is given reaches exactly what waits for it.
-/

namespace EntityGraph

open EntityGraph.Graph Traversal

/-! ### The course of a save -/

/-- An entity without a key is given one: everything that waits for it was linked to it last, while it
had none, and exactly that takes the key. -/
structure Given (L : Links) (s : EntityId) (k : Value) (g g' : Graph) : Prop where
  unset : g.key? s = none
  linked : ∀ x name, (g.entity x).pending.get? name = some s →
    L x name = .key s .waiting ∨ L x name = .key s .related
  gives : Gives s k g g'

/-- An entity and its parts are marked as stored, and no value changes. -/
structure Marked (e : EntityId) (g g' : Graph) : Prop where
  eq : g' = (g.markClean e).markStored e
  quiet : Quiet g g'

/-- One step of a save, as far as the graph is concerned. -/
inductive SaveStep (L : Links) (g g' : Graph) : Prop
  | marked {e : EntityId} (h : Marked e g g')
  | given {s : EntityId} {k : Value} (h : Given L s k g g')

/-- What a save does to the graph, step by step. -/
abbrev Course (L : Links) : Graph → Graph → Prop :=
  Relation.ReflTransGen (SaveStep L)

variable {c : Catalog} {L : Links} {g g' : Graph} {x s e : EntityId} {name : String} {k v : Value}

/-- Marks do not matter to foreign keys. -/
theorem Graph.quiet_marked (hwf : g.WellFormed c) (hlt : e.index < g.entities.length) :
    Quiet g ((g.markClean e).markStored e) where
  length := Nat.le_of_eq ((SameShape.markClean g e).trans (.markStored _ e)).length.symm
  pending x name := by rw [pending_marked hwf hlt]
  heard s x name hx := by
    rw [Heard] at hx ⊢
    rwa [view_marked (v := (·.listeners)) (fun _ => rfl) hwf hlt]
  schema x _ := ((SameShape.markClean g e).trans (.markStored _ e)).schema x
  value x name _ := view_marked (v := fun x => x.atomicValue name) (by simp) hwf hlt x

/-- A graph in the course of a save: well formed, in agreement with the last assignments, and reached
by steps of a save. -/
structure Underway (c : Catalog) (L : Links) (start g : Graph) : Prop where
  wellFormed : g.WellFormed c
  tracks : Tracks L g
  course : Course L start g

namespace Underway

variable {start : Graph}

/-- Marks go on. -/
theorem marked (h : Underway c L start g) (hlt : e.index < g.entities.length) :
    Underway c L start ((g.markClean e).markStored e) where
  wellFormed := (h.wellFormed.markClean e).markStored e
  tracks := h.tracks.quiet (quiet_marked h.wellFormed hlt)
  course := h.course.tail (.marked ⟨rfl, quiet_marked h.wellFormed hlt⟩)

/-- A key from the database is given to exactly what waits for it. -/
theorem generated (h : Underway c L start g) (hnone : g.key? s = none)
    (hpending : (g.entity s).pending = []) (hrun : assignGeneratedKey s v g = .ok () g')
    (hk : g'.key? s = some k) : Underway c L start g' := by
  have hgives := gives_of_assignGeneratedKey h.wellFormed (fun x other => h.tracks.heard x other s)
    hpending hrun hk
  refine ⟨?_, ?_, h.course.tail (.given ⟨hnone, fun x name => h.tracks.pending x name s, hgives⟩)⟩
  · exact (WellFormed.assignGeneratedKey v g h.wellFormed).of_ok hrun
  · exact h.tracks.gives hgives (fun _ _ _ => hnone) fun name _ _ _ _ => ⟨hnone, by rw [hpending]; rfl⟩

end Underway

namespace Save

variable {σ : Type} [Connection σ] {ses : Session} {start : Graph} {t : Traversal EntityId σ}

/-- Inserting the rows of an entity is a course, where it succeeds. -/
theorem underway_insertRows (h : Underway c L start t.world.graph) :
    (insertRows ses e).Ends t (fun _ t' => Underway c L start t'.world.graph) (fun _ _ => True) := by
  refine ends_insertRows (fun _ _ => trivial) fun key schema values _ hkey _ hok => ?_
  obtain ⟨hpending, -⟩ := of_checkInsert hok
  -- once the entity has its key, whoever made it, the other rows are inserted and it is marked
  have hrest : ∀ t' : Traversal EntityId σ,
      (∀ k, t'.world.graph.key? e = some k → Underway c L start t'.world.graph) →
      (t'.world.graph.key? e = none → ∀ _ : Error, True) ∧
      ∀ k, t'.world.graph.key? e = some k →
        (insertRest e key k (restColumns schema values)).Ends t'
          (fun _ t'' => Underway c L start (marked e t'').world.graph) (fun _ _ => True) := by
    refine fun t' hunderway => ⟨fun _ _ => trivial, fun k hk => ?_⟩
    refine ends_insertRest (fun t'' hsent => ?_) fun _ _ _ _ _ _ => trivial
    have hgraph := hsent.graph
    refine Underway.marked (hgraph ▸ hunderway k hk) ?_
    rw [hgraph]
    exact (of_key?_isSome (by rw [hk]; rfl)).1
  refine ends_insertFirst (fun t' hsent _ => ?_) (fun t' v hsent hnone _ => ?_)
    fun _ _ _ _ => trivial
  · exact hrest t' fun _ _ => hsent.graph ▸ h
  · exact (Act.ends_run (assignGeneratedKey e v) t.world.graph).mono
      (fun _ g' hrun => hrest _ fun k hk => h.generated hnone hpending hrun hk) fun _ _ _ => trivial

/-- Updating the rows of an entity is a course, where it succeeds. -/
theorem underway_updateRows (h : Underway c L start t.world.graph)
    (hlt : e.index < t.world.graph.entities.length) :
    (updateRows ses e).Ends t (fun _ t' => Underway c L start t'.world.graph) (fun _ _ => True) := by
  refine ends_updateRows (fun _ _ => trivial) (fun _ _ => h.marked hlt) fun key schema v _ _ _ _ _ => ?_
  refine ends_updateTables (fun t' hsent => ?_) fun _ _ _ _ _ => trivial
  have hgraph := hsent.graph
  exact Underway.marked (hgraph ▸ h) (by rwa [hgraph])

/-- What happens in a save keeps to a course. -/
theorem underway_rules (ses : Session) (L : Links) (start : Graph) :
    Rules ses start (fun _ => True)
      (fun _ (t : Traversal EntityId σ) => Underway ses.catalog L start t.world.graph)
      (fun _ => True) where
  fail _ _ _ := trivial
  skip _ _ _ _ _ _ _ := trivial
  enter _ _ _ _ h _ _ := h
  insert _ _ _ h _ := underway_insertRows h
  update _ _ _ h _ hlt := underway_updateRows h hlt
  leave _ _ _ h _ _ := h

end Save

/-- A call that succeeds leads along a course. -/
theorem Call.underway {σ : Type} [Connection σ] {ses : Session} {call : Call} {w w' : World σ}
    (hwf : w.graph.WellFormed ses.catalog) (h : Tracks L w.graph)
    (hrun : call.run ses e w = .ok () w') : Underway ses.catalog L w.graph w'.graph := by
  obtain ⟨htraverse, rfl⟩ := Call.traverse_of_run hrun
  have hends := Call.ends_traverse (Save.underway_rules ses L w.graph) call e
    (Save.depthBound w.graph) (t := { world := w }) ⟨hwf, h, .refl⟩ ⟨.refl _, hwf⟩
  exact (hends.of_ok htraverse).holds

/-! ### Where an entity gets its key -/

/-- The primary key of an entity does not wait for another one. -/
def Unlinked (g : Graph) (s : EntityId) : Prop :=
  ∀ name, (g.entity s).schema.keyName? = some name → (g.entity s).pending.get? name = none

namespace SaveStep

/-- There are as many entities as before. -/
theorem length (h : SaveStep L g g') : g'.entities.length = g.entities.length := by
  cases h with
  | @marked e h => exact h.eq ▸ ((SameShape.markClean g e).trans (.markStored _ e)).length
  | given h => exact h.gives.shape.length

variable (h : SaveStep L g g') (hlt : s.index < g.entities.length) (hfree : Unlinked g s)

include h hlt hfree

/-- A primary key that does not wait comes to wait for nothing. -/
theorem unlinked : Unlinked g' s := by
  intro name hname
  cases h with
  | marked h =>
    rw [h.quiet.schema s hlt] at hname
    rw [h.quiet.pending, hfree name hname]
  | @given d k h =>
    rw [h.gives.shape.schema] at hname
    by_cases hsd : s = d
    · exact hsd ▸ h.gives.free name (hsd ▸ hname)
    · have hwaits : (g.entity s).pending.get? name ≠ some d := by
        rw [hfree name hname]
        exact (Option.some_ne_none d).symm
      rw [(h.gives.kept s name (fun hkey => hsd hkey.1) hwaits).1, hfree name hname]

/-- Such a key stays as it is, or the entity is given it. -/
theorem key?_cases : g'.key? s = g.key? s ∨ ∃ k, Given L s k g g' := by
  cases h with
  | marked h => exact .inl (h.quiet.key? hlt)
  | @given d k h =>
    by_cases hsd : s = d
    · exact .inr ⟨k, hsd ▸ h⟩
    · refine .inl (h.gives.key?_of_ne hsd fun name hname => ?_)
      rw [hfree name hname]
      exact (Option.some_ne_none d).symm

end SaveStep

/-- A key that an entity has stays in a save. -/
theorem Course.key?_eq (h : Course L g g') (hfree : Unlinked g s) (hk : g.key? s = some k) :
    g'.key? s = some k := by
  induction h using Relation.ReflTransGen.head_induction_on with
  | refl => exact hk
  | head hstep _ ih =>
    have hlt := (of_key?_isSome (by rw [hk]; rfl)).1
    refine ih (hstep.unlinked hlt hfree) ?_
    rcases hstep.key?_cases hlt hfree with hsame | ⟨k', hgiven⟩
    · rw [hsame, hk]
    · rw [hgiven.unset] at hk
      cases hk

/-- Where an entity has got a key in a save, other than from an entity that its key refers to, it was
given the key at some moment. -/
theorem Course.exists_given (h : Course L g g') (hfree : Unlinked g s) (hnone : g.key? s = none)
    (hk : g'.key? s = some k) :
    ∃ g₁ g₂, Course L g g₁ ∧ Given L s k g₁ g₂ ∧ Course L g₂ g' := by
  have hlt := (of_key?_isSome (by rw [hk]; rfl)).1
  induction h using Relation.ReflTransGen.head_induction_on with
  | refl =>
    rw [hnone] at hk
    cases hk
  | @head g g₁ hstep hrest ih =>
    have hlt' : s.index < g.entities.length := by
      refine Relation.ReflTransGen.head_induction_on (motive := fun g _ => s.index < g.entities.length)
        (.head hstep hrest) hlt fun hstep _ ih => ?_
      rwa [← hstep.length]
    have hfree' := hstep.unlinked hlt' hfree
    rcases hstep.key?_cases hlt' hfree with hsame | ⟨k', hgiven⟩
    · obtain ⟨g₂, g₃, hbefore, hgiven, hafter⟩ := ih hfree' (hsame.trans hnone)
      exact ⟨g₂, g₃, .head hstep hbefore, hgiven, hafter⟩
    · obtain rfl : k' = k := by
        have hkept := Course.key?_eq hrest hfree' hgiven.gives.key
        exact Option.some.inj (hkept.symm.trans hk)
      exact ⟨g, g₁, .refl, hgiven, hrest⟩

/-! ### Histories -/

/-- Whether operations of callers succeed, one after the other, on what exists. -/
def Graph.Operation.allowed (c : Catalog) : List Operation → Graph → Bool
  | [], _ => true
  | op :: ops, g =>
    op.callable g && (op.run c).succeeds g && allowed c ops ((op.run c).final g)

/-- The last assignments after operations. -/
def Links.afterAll (c : Catalog) : List Operation → Graph → Links → Links
  | [], _, L => L
  | op :: ops, g, L => afterAll c ops ((op.run c).final g) (L.after c op g ((op.run c).final g))

/-- The worlds that operations of callers and calls of sessions lead to from an empty graph as long as
all of them succeed, with the last assignments. -/
inductive History {σ : Type} [Connection σ] (c : Catalog) : World σ → Links → Prop
  | start {w : World σ} : w.graph = {} → History c w .start
  | operation {w : World σ} {L : Links} {op : Operation} {g' : Graph} : History c w L →
      op.callable w.graph = true → op.run c w.graph = .ok () g' →
      History c { w with graph := g' } (L.after c op w.graph g')
  | call {w w' : World σ} {L : Links} {ses : Session} {e : EntityId} (call : Call) : History c w L →
      ses.catalog = c → call.run ses e w = .ok () w' → History c w' (L.advance w'.graph)

namespace History

variable {σ : Type} [Connection σ] {w : World σ}

/-- Graph and last assignments agree. -/
theorem agrees (h : History c w L) : w.graph.WellFormed c ∧ Current L w.graph := by
  induction h with
  | start hempty =>
    rw [hempty]
    exact ⟨.empty c, current_empty⟩
  | @operation w L op g' _ hop hrun ih =>
    exact ⟨(WellFormed.operation op _ ih.1).of_ok hrun, ih.2.operation ih.1 hop hrun⟩
  | @call w w' L ses e call _ hcatalog hrun ih =>
    subst hcatalog
    have hunderway := Call.underway ih.1 ih.2.toTracks hrun
    exact ⟨hunderway.wellFormed, hunderway.tracks.advance⟩

/-- Operations that are allowed lead on. -/
theorem runAll (h : History c w L) (ops : List Operation)
    (hops : Operation.allowed c ops w.graph = true) :
    History c { w with graph := Operation.runAll c ops w.graph } (L.afterAll c ops w.graph) := by
  induction ops generalizing w L with
  | nil => exact h
  | cons op ops ih =>
    simp only [Operation.allowed, Bool.and_eq_true] at hops
    obtain ⟨⟨hop, hsucceeds⟩, hrest⟩ := hops
    obtain ⟨_, g', hrun⟩ := Act.exists_of_succeeds hsucceeds
    have hfinal := Act.final_of_ok hrun
    have hnext := History.operation h hop hrun
    rw [← hfinal] at hnext
    exact ih hnext hrest

/-- A foreign key whose last assignment was a link to an entity through its primary key waits for the
entity as long as that has had no key since. Otherwise it has the first key that the entity has had
since, brought into its kind, and does not wait; nothing is said where that key came through a relation
of the entity's own. -/
theorem follows (h : History c w L) {state : KeyState} (hl : L x name = .key s state) :
    (state = .waiting → w.graph.key? s = none ∧
      (w.graph.entity x).pending.get? name = some s) ∧
    ∀ k, state = .keyed k ∨ state = .given k → Delivered w.graph x name k := by
  obtain ⟨-, hcurrent⟩ := h.agrees
  constructor
  · rintro rfl
    have hnone := hcurrent.unset x name s hl
    exact ⟨hnone, hcurrent.waiting x name s hl hnone⟩
  · rintro k (rfl | rfl)
    · exact hcurrent.delivered x name s k (.inl hl)
    · exact hcurrent.delivered x name s k (.inr hl)

end History

end EntityGraph

namespace EntityGraph.Shop

/-- What an empty shop comes to by operations. -/
def after (ops : List Graph.Operation) : World Counter :=
  world (Graph.Operation.runAll catalog ops {})

/-- The last assignments in the shop after operations. -/
def links (ops : List Graph.Operation) : Links :=
  Links.start.afterAll catalog ops {}

/-- Operations that are allowed make a history of the shop. -/
theorem history_after {ops : List Graph.Operation}
    (hops : Graph.Operation.allowed catalog ops {} = true) :
    History catalog (after ops) (links ops) :=
  History.runAll (w := world {}) (.start rfl) ops hops

/-- An order that waits for its customer, who then gets a key. -/
def ordered : List Graph.Operation :=
  [.create "Order", .create "Customer", .assignOne ⟨0⟩ "customer" (some ⟨1⟩),
    .assign ⟨1⟩ "id" (.int 7)]

/-- An order of a customer with a key, who then gets another one. -/
def rekeyed : List Graph.Operation :=
  [.create "Order", .create "Customer", .assign ⟨1⟩ "id" (.int 7),
    .assignOne ⟨0⟩ "customer" (some ⟨1⟩), .assign ⟨1⟩ "id" (.int 8)]

/-- Two orders of a customer, one of which has moved to another one since. -/
def moved : List Graph.Operation :=
  [.create "Order", .create "Customer", .create "Customer", .create "Order",
    .assignOne ⟨0⟩ "customer" (some ⟨1⟩), .assignOne ⟨3⟩ "customer" (some ⟨1⟩),
    .assignOne ⟨3⟩ "customer" (some ⟨2⟩)]

end EntityGraph.Shop

namespace EntityGraph

open EntityGraph.Graph

/-- The order has the key that its customer has got. -/
theorem History.follows_ordered :
    Delivered (Shop.after Shop.ordered).graph ⟨0⟩ "customer_fk" (.int 7) := by
  have hallowed : Operation.allowed Shop.catalog Shop.ordered {} = true := by decide
  have hl : Shop.links Shop.ordered ⟨0⟩ "customer_fk" = .key ⟨1⟩ (.given (.int 7)) := by
    decide
  exact (History.follows (Shop.history_after hallowed) hl).2 (.int 7) (.inr rfl)

/-- A foreign key does not follow its source from one key to the next: nobody listens any more. -/
theorem History.not_follows_rekeyed :
    ¬∀ (w : World Counter) (L : Links), History Shop.catalog w L →
      ∀ x name s state, L x name = .key s state →
        match w.graph.key? s with
        | none => (w.graph.entity x).pending.get? name = some s
        | some k => Delivered w.graph x name k := by
  intro hfollowed
  have hallowed : Operation.allowed Shop.catalog Shop.rekeyed {} = true := by decide
  have hl : Shop.links Shop.rekeyed ⟨0⟩ "customer_fk" = .key ⟨1⟩ (.keyed (.int 7)) := by
    decide
  have hfollows := hfollowed _ _ (Shop.history_after hallowed) _ _ _ _ hl
  have hkey : (Shop.after Shop.rekeyed).graph.key? ⟨1⟩ = some (.int 8) := by decide
  rw [hkey] at hfollows
  obtain ⟨a, v, ha, hv, hvalue⟩ := hfollows.value
  have hatomic : ((Shop.after Shop.rekeyed).graph.entity ⟨0⟩).schema.atomic? "customer_fk" =
      some (Shop.reference "customer_fk") := by decide
  have hold : ((Shop.after Shop.rekeyed).graph.entity ⟨0⟩).atomicValue "customer_fk" = .int 7 := by
    decide
  obtain rfl := Option.some.inj ((Schema.atomic_eq_ok_iff.1 ha).symm.trans hatomic)
  rw [Atomic.coerce_eq_ok_iff, ← hvalue, hold] at hv
  revert hv
  decide

namespace History

variable {c : Catalog} {L : Links} {σ : Type} [Connection σ] {w : World σ}

/-- What waits for an entity was linked to it last, while it had no key, and what was so linked waits
while it has none. An assignment of its primary key that gives it a key reaches exactly what waits for
it. So does a key from the database: a call is a course of such gifts and of marks. -/
theorem key_reaches_waiting (h : History c w L) :
    (∀ x name s, (w.graph.entity x).pending.get? name = some s →
      L x name = .key s .waiting ∨ L x name = .key s .related) ∧
    (∀ x name s, L x name = .key s .waiting → (w.graph.entity x).pending.get? name = some s) ∧
    (∀ s name v k g', (w.graph.entity s).schema.keyName? = some name →
      Graph.assign s name v w.graph = .ok () g' → g'.key? s = some k →
      (w.graph.entity s).isStoredValue name k = false → Gives s k w.graph g') ∧
    ∀ (ses : Session) (call : Call) (e : EntityId) (w' : World σ), ses.catalog = c →
      call.run ses e w = .ok () w' → Course L w.graph w'.graph ∧
        ∀ s k, Unlinked w.graph s → w.graph.key? s = none → w'.graph.key? s = some k →
          ∃ g₁ g₂, Course L w.graph g₁ ∧ Given L s k g₁ g₂ ∧ Course L g₂ w'.graph := by
  obtain ⟨hwf, hcurrent⟩ := h.agrees
  refine ⟨hcurrent.pending, fun x name s hl => ?_, fun s name v k g' hname hrun hk hnew => ?_,
    fun ses call e w' hcatalog hrun => ?_⟩
  · exact hcurrent.waiting x name s hl (hcurrent.unset x name s hl)
  · exact gives_of_assign hwf (fun y other => hcurrent.heard y other s) hname hrun hk hnew
  · subst hcatalog
    have hcourse := (Call.underway hwf hcurrent.toTracks hrun).course
    exact ⟨hcourse, fun s k hfree hnone hk => hcourse.exists_given hfree hnone hk⟩

end History

/-- A customer's key reaches the order that has stayed, and not the one that has moved, whether it is
assigned or comes from the database. -/
theorem History.key_reaches_waiting_moved :
    Gives ⟨1⟩ (.int 7) (Shop.after Shop.moved).graph
      ((Graph.assign ⟨1⟩ "id" (.int 7)).final (Shop.after Shop.moved).graph) ∧
    ∃ g₁ g₂, Course (Shop.links Shop.moved) (Shop.after Shop.moved).graph g₁ ∧
      Given (Shop.links Shop.moved) ⟨1⟩ (.int 1) g₁ g₂ ∧
      Course (Shop.links Shop.moved) g₂
        ((Call.insert.run Shop.session ⟨1⟩).final (Shop.after Shop.moved)).graph := by
  have hallowed : Operation.allowed Shop.catalog Shop.moved {} = true := by decide
  obtain ⟨-, -, hassign, hcall⟩ := History.key_reaches_waiting (Shop.history_after hallowed)
  constructor
  · have hrun : (Graph.assign ⟨1⟩ "id" (.int 7)).answer? (Shop.after Shop.moved).graph = some () := by
      decide
    exact hassign ⟨1⟩ "id" (.int 7) (.int 7) _ (by decide) (Act.eq_ok_of_answer? hrun)
      (by decide) (by decide)
  · have hrun : (Call.insert.run Shop.session ⟨1⟩).answer? (Shop.after Shop.moved) = some () := by
      decide
    refine (hcall Shop.session .insert ⟨1⟩ _ rfl (Act.eq_ok_of_answer? hrun)).2 ⟨1⟩ (.int 1)
      (fun name _ => ?_) (by decide) (by decide)
    have hnil : ((Shop.after Shop.moved).graph.entity ⟨1⟩).pending = [] := by decide
    rw [hnil]
    rfl

end EntityGraph
