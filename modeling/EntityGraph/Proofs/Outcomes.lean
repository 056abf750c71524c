import EntityGraph.Session.Traversal

/-!
# What becomes of statements

A connection answers a statement or refuses it, and goes on in another state. The statements in a
journal were sent one after the other, so what became of each of them is known from the state of the
connection before the first.

* `outcomes_append`: what comes later has its outcomes in the state that the earlier statements leave.
-/

namespace EntityGraph

variable {κ σ : Type} [Connection σ]

/-- What a connection makes of a statement, and the state in which it goes on. A statement that is
executed may come with the key that the database has made. -/
def Statement.attempt (link : σ) : Statement → Option (Option Value) × σ
  | .select q => ((Connection.select q link).1.toOption.map fun _ => none, (Connection.select q link).2)
  | .insert i => ((Connection.insert i link).1.toOption, (Connection.insert i link).2)
  | .update u => ((Connection.update u link).1.toOption.map fun _ => none, (Connection.update u link).2)
  | .delete d => ((Connection.delete d link).1.toOption.map fun _ => none, (Connection.delete d link).2)

/-- What became of a statement, which was sent for something. -/
structure Outcome (κ : Type) where
  owner : κ
  statement : Statement
  /-- Nothing, if the statement was refused; the key that was made, if any, if it was executed. -/
  answer : Option (Option Value)

/-- Whether a statement was executed. -/
def Outcome.Executed (o : Outcome κ) : Prop :=
  o.answer.isSome

/-- The state of a connection when statements have been sent over it. -/
def replay (link : σ) (journal : List (κ × Statement)) : σ :=
  journal.foldl (fun link p => (p.2.attempt link).2) link

/-- What became of statements that were sent over a connection. -/
def outcomes (link : σ) : List (κ × Statement) → List (Outcome κ)
  | [] => []
  | (k, s) :: rest => ⟨k, s, (s.attempt link).1⟩ :: outcomes (s.attempt link).2 rest

variable {link : σ} {l l' : List (κ × Statement)}

theorem replay_append : replay link (l ++ l') = replay (replay link l) l' :=
  List.foldl_append

/-- Later statements are answered in the state that the earlier ones leave. -/
theorem outcomes_append : outcomes link (l ++ l') = outcomes link l ++ outcomes (replay link l) l' := by
  induction l generalizing link with
  | nil => rfl
  | cons p l ih =>
    obtain ⟨k, s⟩ := p
    rw [List.cons_append, outcomes, outcomes, ih]
    rfl

/-- Every statement has its outcome. -/
theorem map_outcomes : (outcomes link l).map (fun o => (o.owner, o.statement)) = l := by
  induction l generalizing link with
  | nil => rfl
  | cons p l ih =>
    obtain ⟨k, s⟩ := p
    rw [outcomes, List.map_cons, ih]

/-- An outcome is that of a statement in the journal. -/
theorem mem_of_mem_outcomes {o : Outcome κ} (h : o ∈ outcomes link l) :
    (o.owner, o.statement) ∈ l := by
  have hmem := List.mem_map_of_mem (f := fun o : Outcome κ => (o.owner, o.statement)) h
  rwa [map_outcomes] at hmem

/-- Only an insert comes with a key that the database has made. -/
theorem insert_of_answer {o : Outcome κ} {v : Value} (h : o ∈ outcomes link l)
    (hanswer : o.answer = some (some v)) : ∃ i, o.statement = .insert i := by
  induction l generalizing link with
  | nil => cases h
  | cons p l ih =>
    obtain ⟨k, s⟩ := p
    rcases List.mem_cons.1 h with rfl | h
    · cases s with
      | insert i => exact ⟨i, rfl⟩
      | _ => simp [Statement.attempt] at hanswer
    · exact ih h

end EntityGraph
