import EntityGraph.Session.Basic

/-!
# Guarded traversals

Saving and deleting follow relations, which may form cycles. A `Traversal` carries, besides the world
that it works on, what it has entered so far, and nothing is entered twice. Its journal holds every
statement that it has sent, together with what the statement was sent for. What a traversal has done
before a failure stays done.

* `enter_of_mem`, `enter_of_not_mem` — entering succeeds once, and changes nothing but the list of
  what has been entered.
-/

namespace EntityGraph

/-- A world in the course of a traversal. -/
structure Traversal (κ σ : Type) where
  world : World σ
  /-- What has been entered, the latest first. -/
  entered : List κ := []
  /-- The statements sent so far, each with what it was sent for. -/
  journal : List (κ × Statement) := []

/-- Work of a traversal. -/
abbrev TraversalM (κ σ α : Type) := Act (Traversal κ σ) α

namespace Traversal

variable {κ σ α : Type}

/-- Work on the world alone. -/
def onWorld (act : SessionM σ α) : TraversalM κ σ α :=
  Act.onPart Traversal.world (fun t world => { t with world }) act

/-- Work on the graph alone. -/
def onGraph (act : GraphM α) : TraversalM κ σ α :=
  onWorld (SessionM.onGraph act)

/-- Notes what has been sent over a wire since the traversal last looked at it. -/
def note (k : κ) (t : Traversal κ σ) (wire : Wire σ) : Traversal κ σ :=
  let sent := wire.sent.drop t.world.wire.sent.length
  { t with world := { t.world with wire }, journal := t.journal ++ sent.map (k, ·) }

/-- Work on the connection alone, for something that has been entered. -/
def onWire (k : κ) (act : WireM σ α) : TraversalM κ σ α := fun t =>
  match act t.world.wire with
  | .ok a wire => .ok a (note k t wire)
  | .error e wire => .error e (note k t wire)

/-- The graph as it is now. -/
def graph : TraversalM κ σ Graph := fun t =>
  .ok t.world.graph t

/-- Enters; answers whether this is the first time. -/
def enter [DecidableEq κ] (k : κ) : TraversalM κ σ Bool := fun t =>
  if k ∈ t.entered then .ok false t else .ok true { t with entered := k :: t.entered }

/-- Runs a traversal that has not entered anything yet. -/
def run (act : TraversalM κ σ α) : SessionM σ α := fun w =>
  match act { world := w } with
  | .ok a t => .ok a t.world
  | .error e t => .error e t.world

/-- Entering again does nothing. -/
theorem enter_of_mem [DecidableEq κ] {k : κ} {t : Traversal κ σ} (h : k ∈ t.entered) :
    enter k t = .ok false t := by
  simp [enter, h]

/-- Entering for the first time is remembered, and changes nothing else. -/
theorem enter_of_not_mem [DecidableEq κ] {k : κ} {t : Traversal κ σ} (h : k ∉ t.entered) :
    enter k t = .ok true { t with entered := k :: t.entered } := by
  simp [enter, h]

end Traversal

end EntityGraph
