import EntityGraph.Connection.Basic

/-!
# Scripted connections

A scripted connection answers from three queues, whatever it is asked: keys for insertions, results
for queries, row counts for updates and deletions. An empty queue gives no key, no rows, and one
row.
-/

namespace EntityGraph

/-- The answers that are left. -/
structure Script where
  dialect : Dialect
  keys : List (Except String (Option Value)) := []
  results : List (Except String (List Row)) := []
  counts : List (Except String Nat) := []

namespace Script

/-- Adds answers at the ends of the queues. -/
def extend (s : Script) (keys : List (Except String (Option Value)))
    (results : List (Except String (List Row))) (counts : List (Except String Nat)) : Script :=
  { s with keys := s.keys ++ keys, results := s.results ++ results, counts := s.counts ++ counts }

/-- The next answer to an insertion. -/
def nextKey (s : Script) : Except String (Option Value) × Script :=
  match s.keys with
  | [] => (.ok none, s)
  | k :: keys => (k, { s with keys })

/-- The next answer to a query. -/
def nextRows (s : Script) : Except String (List Row) × Script :=
  match s.results with
  | [] => (.ok [], s)
  | r :: results => (r, { s with results })

/-- The next answer to an update or deletion. -/
def nextCount (s : Script) : Except String Nat × Script :=
  match s.counts with
  | [] => (.ok 1, s)
  | n :: counts => (n, { s with counts })

/-- The number of rows in the results that are left. -/
def rowCount (s : Script) : Nat :=
  s.results.foldr (fun
    | .ok rows, n => rows.length + n
    | .error _, n => n) 0

end Script

instance : Connection Script where
  dialect := Script.dialect
  select _ := Script.nextRows
  insert _ := Script.nextKey
  update _ := Script.nextCount
  delete _ := Script.nextCount
  cellBound := Script.rowCount

end EntityGraph
