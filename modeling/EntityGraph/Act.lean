import EntityGraph.Error

/-!
# Work on a state

`Act σ α` is work on a state `σ` that answers with an `α` or fails; what was done to the state before
a failure stays done. Work on a part of a state becomes work on the whole by `Act.onPart`.
-/

namespace EntityGraph

/-- Work on a state that can fail halfway. -/
abbrev Act (σ α : Type) := EStateM Error σ α

namespace Act

variable {σ τ α : Type}

/-- An answer or failure that does not touch the state. -/
def ofExcept : Except Error α → Act σ α
  | .ok a => fun s => .ok a s
  | .error e => fun s => .error e s

/-- Work on a part of a state. -/
def onPart (view : τ → σ) (put : τ → σ → τ) (act : Act σ α) : Act τ α := fun t =>
  match act (view t) with
  | .ok a s => .ok a (put t s)
  | .error e s => .error e (put t s)

/-- Runs some work for each item, all of it even when some of it fails; the first failure is
reported at the end. -/
def forAll {β : Type} (act : β → Act σ Unit) : List β → Act σ Unit
  | [] => pure ()
  | b :: bs => fun s =>
    match act b s with
    | .ok _ s => forAll act bs s
    | .error e s =>
      match forAll act bs s with
      | .ok _ s => .error e s
      | .error _ s => .error e s

end Act

end EntityGraph
