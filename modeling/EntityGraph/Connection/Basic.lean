import EntityGraph.Row
import EntityGraph.Statement.Change

/-!
# Connections

A connection is a machine that answers statements: queries with rows, insertions with the generated
key if there is one, updates and deletions with a number of rows; any of them may be refused with a
message. A `Wire` is a connection in use together with every statement that has been sent over it.

* `Update.execute_of_isEmpty` — an update without columns sends nothing;
* `Insert.execute_of_isEmpty` — an insert without rows is refused before it is sent.
-/

namespace EntityGraph

/-- How a connection answers. -/
class Connection (σ : Type) where
  dialect : σ → Dialect
  select : Select → σ → Except String (List Row) × σ
  insert : Insert → σ → Except String (Option Value) × σ
  update : Update → σ → Except String Nat × σ
  delete : Delete → σ → Except String Nat × σ
  /-- A bound on the number of different values, apart from null, that the first cells of the answers
  from now on are drawn from, as long as nothing is written but nulls. -/
  cellBound : σ → Nat

/-- A connection in use, with the statements sent so far. -/
structure Wire (σ : Type) where
  link : σ
  sent : List Statement := []

/-- Work on a wire; what has been sent stays sent when the work fails. -/
abbrev WireM (σ : Type) := EStateM Error (Wire σ)

namespace Wire

/-- Sends a statement; a refusal is reported with the statement's text. -/
def send {σ α : Type} [Connection σ] (s : Statement) (answer : σ → Except String α × σ) :
    WireM σ α := fun w =>
  let r := answer w.link
  let w' : Wire σ := ⟨r.2, w.sent ++ [s]⟩
  match r.1 with
  | .ok a => .ok a w'
  | .error message => .error (.database (s.text (Connection.dialect w.link)) message) w'

end Wire

variable {σ : Type} [Connection σ]

/-- Runs a query. -/
def Select.fetch (s : Select) : WireM σ (List Row) :=
  Wire.send (.select s) (Connection.select s)

/-- Inserts rows; there must be at least one. -/
def Insert.execute (i : Insert) : WireM σ (Option Value) :=
  if i.rows.isEmpty then throw (.malformedStatement (.insertWithoutRows i.table))
  else Wire.send (.insert i) (Connection.insert i)

/-- Runs an update; without columns there is nothing to send. -/
def Update.execute (u : Update) : WireM σ Nat :=
  if u.columns.isEmpty then pure 0 else Wire.send (.update u) (Connection.update u)

/-- Runs a deletion. -/
def Delete.execute (d : Delete) : WireM σ Nat :=
  Wire.send (.delete d) (Connection.delete d)

/-- An update without columns sends nothing. -/
theorem Update.execute_of_isEmpty {u : Update} (h : u.columns = []) :
    (u.execute : WireM σ Nat) = pure 0 := by
  simp [Update.execute, h]

/-- An insert without rows is refused before it is sent. -/
theorem Insert.execute_of_isEmpty {i : Insert} (h : i.rows = []) :
    (i.execute : WireM σ _) = throw (.malformedStatement (.insertWithoutRows i.table)) := by
  simp [Insert.execute, h]

end EntityGraph
