import EntityGraph.Graph.Dump

/-!
# Result tuples

A tuple is one result of a query: its items in order, each under the key that selected it.
-/

namespace EntityGraph

/-- One item of a tuple. -/
inductive Item where
  | entity (e : EntityId)
  | collection (c : CollectionId)
  | scalar (v : Value)
  /-- The selected entity does not exist. -/
  | absent
  deriving DecidableEq, Repr

/-- Items under keys, in order; keys may repeat. -/
abbrev Tuple := List (String × Item)

namespace Item

/-- The entity of an item that is one. -/
def entity? : Item → Option EntityId
  | entity e => some e
  | _ => none

/-- The collection of an item that is one. -/
def collection? : Item → Option CollectionId
  | collection c => some c
  | _ => none

/-- The value of an item that is one. -/
def scalar? : Item → Option Value
  | scalar v => some v
  | _ => none

/-- Whether an item stands for an entity that does not exist. -/
def isAbsent : Item → Bool
  | absent => true
  | _ => false

/-- The document of an item. -/
def document (g : Graph) : Item → Document
  | entity e => g.dump e
  | collection c => .list ((g.collection c).members.map g.dump)
  | scalar v => Document.ofValue v
  | absent => Document.null

end Item

namespace Tuple

/-- The first item under a key. -/
def get? (t : Tuple) (key : String) : Option Item :=
  (t.find? (·.1 == key)).map (·.2)

/-- The item at a position. -/
def at? (t : Tuple) (i : Nat) : Option Item :=
  (t[i]?).map (·.2)

/-- The keys of a tuple, in order. -/
def keys (t : Tuple) : List String :=
  t.map (·.1)

/-- The document of a tuple: an object, in which the last item of a key stays. -/
def document (g : Graph) (t : Tuple) : Document :=
  Document.ofFields (t.map fun p => (p.1, p.2.document g))

end Tuple

end EntityGraph
