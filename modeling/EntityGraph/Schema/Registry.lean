import EntityGraph.Assoc
import EntityGraph.Schema.Catalog

/-!
# Registries of built schemas

A `Registry` grows a catalog and keeps every schema that it has built: an entity's schema is built
when it is first asked for, and a build that succeeds is never repeated. Whoever builds the schema of a
type holds the slot of its name, which is there from the first question on, and leaves the schema there
and among the built ones. A failed build leaves an empty slot, but the declarations it ran are counted.

* `schema_of_built?` — a schema that has been built is the answer from then on;
* `slot?_reserve`, `slot?_keep`, `built?_keep` — what slots and built schemas are found after a step.
-/

namespace EntityGraph

/-- A catalog with the schemas that have been built from it. -/
structure Registry where
  catalog : Catalog := {}
  /-- The schemas built so far, in order. -/
  built : List (String × Schema) := []
  /-- The slots of the types that have been asked for, which are empty unless a build has succeeded. -/
  slots : Assoc String (Option Schema) := []
  /-- The definitions set up so far, in order, one entry for each time. -/
  setups : List String := []
  deriving Inhabited

namespace Registry

/-- Registers a definition; the first definition of a name stays in force. -/
def define (r : Registry) (d : Definition) : Registry :=
  { r with catalog := r.catalog.define d }

/-- The schema of a name, if it has been built. -/
def built? (r : Registry) (name : String) : Option Schema :=
  (r.built.find? (·.1 == name)).map (·.2)

/-- The schema in the slot of a name, if there is one. -/
def slot? (r : Registry) (name : String) : Option Schema :=
  (r.slots.get? name).join

/-- Makes the slot of a name, unless it is there. -/
def reserve (r : Registry) (name : String) : Registry :=
  if r.slots.contains name then r else { r with slots := r.slots.put name none }

/-- Keeps a schema in the slot of its name and among the built ones. -/
def keep (r : Registry) (name : String) (s : Schema) : Registry :=
  { r with slots := r.slots.put name (some s), built := r.built ++ [(name, s)] }

/-- Builds the schema of an entity type, and keeps it if that succeeds. -/
def build (r : Registry) (name : String) : Except Error Schema × Registry :=
  let r := { r with setups := r.setups ++ r.catalog.setups name }
  match r.catalog.schema name with
  | .ok s => (.ok s, r.keep name s)
  | .error e => (.error e, r)

/-- The schema of an entity type, built on first use. -/
def schema (r : Registry) (name : String) : Except Error Schema × Registry :=
  match r.built? name with
  | some s => (.ok s, r)
  | none =>
    if r.catalog.isEntity name then
      let r := r.reserve name
      match r.slot? name with
      | some s => (.ok s, r)
      | none => r.build name
    else (.error (.unknownEntity name), r)

/-- The property of an entity type. -/
def property (r : Registry) (entity name : String) : Except Error Property × Registry :=
  let (s, r) := r.schema entity
  (s.bind (·.property name), r)

/-- The join of a component declared on a schema. -/
def join (r : Registry) (owner : Schema) (c : Component) : Except Error Join × Registry :=
  let (target, r) := r.schema c.target
  (target.bind (Join.resolve owner c), r)

/-- How many schemas have been built. -/
def builtCount (r : Registry) : Nat :=
  r.built.length

/-- How often each definition has been set up, in order of registration; `earlier` are the names
before them. -/
def setupCountsFrom (r : Registry) : List String → List Definition → List Nat
  | _, [] => []
  | earlier, d :: rest =>
    (if earlier.contains d.name then 0 else r.setups.count d.name) ::
      r.setupCountsFrom (d.name :: earlier) rest

/-- How often each definition has been set up, in order of registration. -/
def setupCounts (r : Registry) : List Nat :=
  r.setupCountsFrom [] r.catalog.definitions

/-- A schema that has been built is the answer from then on, and asking for it changes nothing. -/
theorem schema_of_built? {r : Registry} {name : String} {s : Schema} (h : r.built? name = some s) :
    r.schema name = (.ok s, r) := by
  simp [schema, h]

/-! ### Slots and built schemas -/

variable {r : Registry} {name other : String} {s : Schema}

/-- Making a slot fills none. -/
@[simp] theorem slot?_reserve : (r.reserve name).slot? other = r.slot? other := by
  unfold reserve slot?
  split
  · rfl
  · next hnew =>
    by_cases h : other = name
    · subst h
      simp only [Assoc.contains, Option.not_isSome_iff_eq_none] at hnew
      simp [hnew]
    · simp [Assoc.get?_put_of_ne _ _ h]

@[simp] theorem built_reserve : (r.reserve name).built = r.built := by
  unfold reserve
  split <;> rfl

@[simp] theorem built?_reserve : (r.reserve name).built? other = r.built? other := by
  rw [built?, built?, built_reserve]

@[simp] theorem setups_reserve : (r.reserve name).setups = r.setups := by
  unfold reserve
  split <;> rfl

@[simp] theorem catalog_reserve : (r.reserve name).catalog = r.catalog := by
  unfold reserve
  split <;> rfl

/-- A schema is kept in its own slot. -/
theorem slot?_keep : (r.keep name s).slot? other = if other = name then some s else r.slot? other := by
  unfold keep slot?
  split
  · next h => simp [h]
  · next h => simp [Assoc.get?_put_of_ne _ _ h]

/-- A schema that is kept is the one of its name, unless there was one before. -/
theorem built?_keep :
    (r.keep name s).built? other = (r.built? other).or (if other = name then some s else none) := by
  unfold keep built?
  rw [List.find?_append, Option.map_or]
  by_cases h : other = name
  · simp [h]
  · simp [h, Ne.symm h]

end Registry

end EntityGraph
