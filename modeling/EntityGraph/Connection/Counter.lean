import EntityGraph.Connection.Basic

/-!
# Counting connections

A counting connection gives every row that is inserted the next whole number as its key. It has no
rows to answer queries with, and every update or deletion meets one row.
-/

namespace EntityGraph

/-- The key that the next row gets. -/
structure Counter where
  dialect : Dialect
  next : Nat := 1

instance : Connection Counter where
  dialect := Counter.dialect
  select _ link := (.ok [], link)
  insert _ link := (.ok (some (.int (Int64.ofNat link.next))), { link with next := link.next + 1 })
  update _ link := (.ok 1, link)
  delete _ link := (.ok 1, link)
  cellBound _ := 0

end EntityGraph
