import EntityGraph.Proofs.Ends
import EntityGraph.Proofs.Outcomes

/-!
# Sending statements

A traversal that sends statements notes them in its journal, for what it has entered, and changes
nothing else than the connection.

* `Sent` — statements went over the wire, and nothing else changed;
* `Executed` — they did, and all of them were executed.
-/

namespace EntityGraph

namespace Traversal

variable {κ σ : Type} {k : κ} {l l' : List Statement} {t t' t'' : Traversal κ σ}

/-- Statements went over the wire for something that was entered, and nothing else changed. -/
structure Sent (k : κ) (l : List Statement) (t t' : Traversal κ σ) : Prop where
  graph : t'.world.graph = t.world.graph
  paths : t'.world.paths = t.world.paths
  entered : t'.entered = t.entered
  sent : t'.world.wire.sent = t.world.wire.sent ++ l
  journal : t'.journal = t.journal ++ l.map (k, ·)

theorem Sent.refl (k : κ) (t : Traversal κ σ) : Sent k [] t t :=
  ⟨rfl, rfl, rfl, by simp, by simp⟩

theorem Sent.trans (h : Sent k l t t') (h' : Sent k l' t' t'') : Sent k (l ++ l') t t'' where
  graph := h'.graph.trans h.graph
  paths := h'.paths.trans h.paths
  entered := h'.entered.trans h.entered
  sent := by rw [h'.sent, h.sent, List.append_assoc]
  journal := by rw [h'.journal, h.journal, List.map_append, List.append_assoc]

/-- Looking at the graph changes nothing. -/
@[simp] theorem ends_graph {P : Graph → Traversal κ σ → Prop}
    {E : Error → Traversal κ σ → Prop} : graph.Ends t P E ↔ P t.world.graph t := Iff.rfl

/-- Work on the graph leaves the rest alone. -/
@[simp] theorem ends_onGraph {α : Type} {act : GraphM α} {P : α → Traversal κ σ → Prop}
    {E : Error → Traversal κ σ → Prop} : (onGraph act).Ends t P E ↔
      act.Ends t.world.graph (fun a g => P a { t with world := { t.world with graph := g } })
        (fun e g => E e { t with world := { t.world with graph := g } }) := by
  simp only [onGraph, onWorld, SessionM.onGraph, Act.ends_onPart]

/-- A run succeeds iff its traversal does, and leaves the world of the traversal. -/
theorem run_ok_iff {α : Type} {act : TraversalM κ σ α} {w w' : World σ} {a : α} :
    run act w = .ok a w' ↔ ∃ t, act { world := w } = .ok a t ∧ t.world = w' := by
  unfold run
  cases act { world := w } <;> simp

variable [Connection σ]

/-- Statements went over the wire and were executed, all of them. -/
structure Executed (k : κ) (l : List Statement) (t t' : Traversal κ σ) : Prop
    extends Sent k l t t' where
  link : t'.world.wire.link = replay t.world.wire.link (l.map (k, ·))
  all : ∀ o ∈ outcomes t.world.wire.link (l.map (k, ·)), o.Executed

theorem Executed.refl (k : κ) (t : Traversal κ σ) : Executed k [] t t :=
  ⟨.refl k t, rfl, fun _ ho => absurd ho List.not_mem_nil⟩

theorem Executed.trans (h : Executed k l t t') (h' : Executed k l' t' t'') :
    Executed k (l ++ l') t t'' where
  toSent := h.toSent.trans h'.toSent
  link := by rw [h'.link, h.link, List.map_append, replay_append]
  all := by
    rw [List.map_append, outcomes_append, ← h.link]
    intro o ho
    exact (List.mem_append.1 ho).elim (h.all o) (h'.all o)

/-- One statement is sent, and answered or refused. -/
theorem ends_onWire_send {α : Type} {s : Statement} {answer : σ → Except String α × σ}
    {P : α → Traversal κ σ → Prop} {E : Error → Traversal κ σ → Prop}
    (hattempt : ∀ link, (s.attempt link).2 = (answer link).2 ∧
      ∀ a, (answer link).1 = .ok a → (s.attempt link).1.isSome)
    (hok : ∀ a t', (answer t.world.wire.link).1 = .ok a → Executed k [s] t t' → P a t')
    (herr : ∀ error message t', (answer t.world.wire.link).1 = .error message → Sent k [s] t t' →
      E error t') :
    (onWire k (Wire.send s answer)).Ends t P E := by
  have hsent : Sent k [s] t
      (note k t ⟨(answer t.world.wire.link).2, t.world.wire.sent ++ [s]⟩) :=
    ⟨rfl, rfl, rfl, rfl, by simp [note]⟩
  obtain ⟨hlink, hexecuted⟩ := hattempt t.world.wire.link
  unfold Act.Ends onWire Wire.send
  cases hanswer : (answer t.world.wire.link).1 with
  | ok a =>
    have hall : Executed k [s] t
        (note k t ⟨(answer t.world.wire.link).2, t.world.wire.sent ++ [s]⟩) := by
      refine ⟨hsent, hlink.symm, fun o ho => ?_⟩
      obtain rfl := List.mem_singleton.1 ho
      exact hexecuted a hanswer
    simpa [hanswer] using hok a _ hanswer hall
  | error message => simpa [hanswer] using herr _ message _ hanswer hsent

/-- A row is inserted. -/
theorem ends_onWire_insert {table : String} {row : List (String × Value)}
    {P : Option Value → Traversal κ σ → Prop} {E : Error → Traversal κ σ → Prop}
    (hok : ∀ a t', (Connection.insert (Insert.single table row) t.world.wire.link).1 = .ok a →
      Executed k [.insert (Insert.single table row)] t t' → P a t')
    (herr : ∀ error message t',
      (Connection.insert (Insert.single table row) t.world.wire.link).1 = .error message →
      Sent k [.insert (Insert.single table row)] t t' → E error t') :
    (onWire k (Insert.single table row).execute).Ends t P E := by
  have hrows : (Insert.single table row).rows.isEmpty = false := rfl
  unfold Insert.execute
  rw [hrows, if_neg Bool.false_ne_true]
  refine ends_onWire_send (fun link => ⟨rfl, fun a ha => ?_⟩) hok herr
  simp [Statement.attempt, ha, Except.toOption]

/-- Columns are overwritten, unless there are none. -/
theorem ends_onWire_update {u : Update} {P : Nat → Traversal κ σ → Prop}
    {E : Error → Traversal κ σ → Prop}
    (hnone : u.columns = [] → P 0 t)
    (hok : ∀ a t', u.columns ≠ [] → Executed k [.update u] t t' → P a t')
    (herr : ∀ error t', u.columns ≠ [] → Sent k [.update u] t t' → E error t') :
    (onWire k u.execute).Ends t P E := by
  by_cases h : u.columns = []
  · rw [Update.execute_of_isEmpty h]
    have hnote : note k t t.world.wire = t := by simp [note]
    simpa [Act.Ends, onWire, pure, EStateM.pure, hnote] using hnone h
  · have hempty : ¬u.columns.isEmpty = true := by simpa using h
    unfold Update.execute
    rw [if_neg hempty]
    refine ends_onWire_send (fun link => ⟨rfl, fun a ha => ?_⟩) (fun a t' _ => hok a t' h)
      fun error _ t' _ => herr error t' h
    simp [Statement.attempt, ha, Except.toOption]

/-- A query is answered. -/
theorem ends_onWire_select {q : Select} {P : List Row → Traversal κ σ → Prop}
    {E : Error → Traversal κ σ → Prop}
    (hok : ∀ rows t', (Connection.select q t.world.wire.link).1 = .ok rows →
      Executed k [.select q] t t' → P rows t')
    (herr : ∀ error t', Sent k [.select q] t t' → E error t') :
    (onWire k q.fetch).Ends t P E := by
  refine ends_onWire_send (fun link => ⟨rfl, fun a ha => ?_⟩) hok fun error _ t' _ => herr error t'
  simp [Statement.attempt, ha, Except.toOption]

/-- Rows are deleted. -/
theorem ends_onWire_delete {d : Delete} {P : Nat → Traversal κ σ → Prop}
    {E : Error → Traversal κ σ → Prop}
    (hok : ∀ a t', Executed k [.delete d] t t' → P a t')
    (herr : ∀ error t', Sent k [.delete d] t t' → E error t') :
    (onWire k d.execute).Ends t P E := by
  refine ends_onWire_send (fun link => ⟨rfl, fun a ha => ?_⟩) (fun a t' _ => hok a t')
    fun error _ t' _ => herr error t'
  simp [Statement.attempt, ha, Except.toOption]

end Traversal

end EntityGraph
