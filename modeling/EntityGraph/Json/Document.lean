import EntityGraph.Value

/-!
# Documents

The tree form in which values, entities and query results are handed out: scalars, lists, and
objects whose keys are distinct. A number that is not finite has no place in a document and becomes
null.

* `find?_put` — what is put under a key is found there, and nothing else changes.
-/

namespace EntityGraph

/-- A tree of scalars. -/
inductive Document where
  | scalar (v : Value)
  | list (items : List Document)
  | object (fields : List (String × Document))
  deriving Inhabited

namespace Document

/-- The null document. -/
def null : Document :=
  scalar .null

/-- A value in a document. -/
def ofValue (v : Value) : Document :=
  match v with
  | .float x => if x.isFinite then scalar v else null
  | v => scalar v

/-- Puts a document under a key, in place of what was there. -/
def put (fields : List (String × Document)) (key : String) (d : Document) :
    List (String × Document) :=
  fields.filter (·.1 != key) ++ [(key, d)]

/-- The fields of an object given in order; of two documents under one key the later stays. -/
def ofFields (fields : List (String × Document)) : Document :=
  object (fields.foldl (fun o f => put o f.1 f.2) [])

/-- What is put under a key is found there, and nothing else changes. -/
theorem find?_put (fields : List (String × Document)) (key other : String) (d : Document) :
    (put fields key d).find? (·.1 == other) =
      if other = key then some (key, d) else fields.find? (·.1 == other) := by
  unfold put
  rw [List.find?_append, List.find?_filter]
  split
  · next h =>
    subst h
    rw [List.find?_eq_none.2 (by simp)]
    simp
  · next h =>
    have hp : (fun a : String × Document => decide ((a.1 != key) = true ∧ (a.1 == other) = true)) =
        (·.1 == other) := by
      funext a
      by_cases ha : a.1 = other <;> simp [ha, h]
    rw [hp]
    simp [Ne.symm h]

end Document

end EntityGraph
