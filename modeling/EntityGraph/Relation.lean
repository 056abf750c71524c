import EntityGraph.Text.Blank

/-!
# Relations between entity types

A component is a relation property. Exactly one side of a relation stores the foreign key: the
declaring entity for an owning to-one relation, the target for a one-to-many relation; an inverse
side names the owning component of its target. A `Join` says, seen from the declaring entity, on
which side the foreign key is and which atomics take part.

* `Join.flipped_flipped`, `Join.localAtomic_flipped`, `Join.remoteAtomic_flipped` — flipping a join
  exchanges its two sides.
-/

namespace EntityGraph

/-- How many entities the two sides of a relation have. -/
inductive Cardinality where
  | oneToOne
  | manyToOne
  | oneToMany
  deriving DecidableEq, Repr, Inhabited

/-- Whether a relation leads to many entities. -/
def Cardinality.isToMany : Cardinality → Bool
  | oneToMany => true
  | _ => false

/-- What happens to related rows when the owner's row is deleted. -/
inductive DeletePolicy where
  | keep
  | cascade
  | setNull
  deriving DecidableEq, Repr, Inhabited

/-- Reads a policy in any case. -/
def DeletePolicy.parse? (s : String) : Option DeletePolicy :=
  match Text.upper s with
  | "NONE" | "NO ACTION" => some keep
  | "CASCADE" => some cascade
  | "SET NULL" | "SETNULL" | "SET_NULL" => some setNull
  | _ => none

/-- A relation property. -/
structure Component where
  name : String
  target : String
  cardinality : Cardinality
  /-- The atomic that holds the foreign key. -/
  joinColumn : Option String := none
  /-- The atomic that the foreign key refers to, if it is not the primary key. -/
  referenced : Option String := none
  /-- The component of the target that owns the relation; makes this an inverse side. -/
  mappedBy : Option String := none
  onDelete : DeletePolicy := .keep
  deriving DecidableEq, Repr, Inhabited

namespace Component

/-- Whether the relation leads to many entities. -/
def isToMany (c : Component) : Bool :=
  c.cardinality.isToMany

/-- Whether a component of the target owns the relation. -/
def isInverse (c : Component) : Bool :=
  c.mappedBy.isSome

/-- Whether the foreign key is an atomic of the declaring entity. -/
def ownsColumn (c : Component) : Bool :=
  !c.isInverse && !c.isToMany

end Component

/-- The side of a relation that stores the foreign key, seen from the declaring entity. -/
inductive Side where
  | here
  | there
  deriving DecidableEq, Repr

/-- The other side. -/
def Side.opposite : Side → Side
  | here => there
  | there => here

/-- A resolved relation: the foreign-key atomic of one side refers to an atomic of the other. -/
structure Join where
  side : Side
  foreignKey : String
  referenced : String
  deriving DecidableEq, Repr

namespace Join

/-- The same join seen from the target. -/
def flipped (j : Join) : Join :=
  { j with side := j.side.opposite }

/-- The atomic of the declaring entity that takes part. -/
def localAtomic (j : Join) : String :=
  match j.side with
  | .here => j.foreignKey
  | .there => j.referenced

/-- The atomic of the target that takes part. -/
def remoteAtomic (j : Join) : String :=
  match j.side with
  | .here => j.referenced
  | .there => j.foreignKey

/-- Flipping twice changes nothing. -/
@[simp] theorem flipped_flipped (j : Join) : j.flipped.flipped = j := by
  rcases j with ⟨_ | _, _, _⟩ <;> rfl

/-- The declaring side of a flipped join is the target side. -/
@[simp] theorem localAtomic_flipped (j : Join) : j.flipped.localAtomic = j.remoteAtomic := by
  rcases j with ⟨_ | _, _, _⟩ <;> rfl

/-- The target side of a flipped join is the declaring side. -/
@[simp] theorem remoteAtomic_flipped (j : Join) : j.flipped.remoteAtomic = j.localAtomic := by
  rcases j with ⟨_ | _, _, _⟩ <;> rfl

end Join

end EntityGraph
