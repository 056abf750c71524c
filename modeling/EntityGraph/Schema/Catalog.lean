import EntityGraph.Schema.Basic

/-!
# Catalogs of types

A `Catalog` holds the definitions of entity and embeddable types; the first definition of a name
stays. `Catalog.schema` builds the schema of an entity: its declarations are applied, its embeds are
resolved depth first, and every schema is checked once its own embeds are resolved. An embedded
schema always lives in its owner's primary table, and a type that embeds itself, directly or through
others, is refused.

`Catalog.join` resolves a relation between two entity types to the atomics that take part.

* `define_definition?` — a later definition of a name changes nothing;
* `Join.owning_side` — an owning relation stores its key on the target iff it is to-many.
-/

namespace EntityGraph

/-- The definition of a type: its name and the declarations that set it up. -/
structure Definition where
  name : String
  embeddable : Bool := false
  steps : List Declaration
  deriving DecidableEq, Repr

/-- The definitions in order of registration; a later definition of a name has no effect. -/
structure Catalog where
  definitions : List Definition := []
  deriving DecidableEq, Repr, Inhabited

namespace Catalog

/-- The definition of a name. -/
def definition? (c : Catalog) (name : String) : Option Definition :=
  c.definitions.find? (·.name == name)

/-- Registers a definition. -/
def define (c : Catalog) (d : Definition) : Catalog :=
  ⟨c.definitions ++ [d]⟩

/-- A name that has a definition keeps it. -/
theorem define_definition? {c : Catalog} {d e : Definition} {name : String}
    (h : c.definition? name = some e) : (c.define d).definition? name = some e := by
  simp only [define, definition?, List.find?_append] at h ⊢
  rw [h]
  rfl

/-- Whether a name is that of an entity type. -/
def isEntity (c : Catalog) (name : String) : Bool :=
  (c.definition? name).any (!·.embeddable)

/-- The definition of an embeddable type. -/
def embeddable? (c : Catalog) (name : String) : Option Definition :=
  (c.definition? name).filter (·.embeddable)

/-- The definition of an entity type. -/
def entity? (c : Catalog) (name : String) : Option Definition :=
  (c.definition? name).filter (!·.embeddable)

end Catalog

namespace Definition

/-- The draft of an entity type. -/
def draft (d : Definition) : Draft :=
  (Draft.entity d.name).setUp d.steps

/-- The draft of an embeddable type in its owner's table, whatever table it declares. -/
def draftIn (d : Definition) (table : String) : Draft :=
  { (Draft.embeddableIn d.name table).setUp d.steps with table }

end Definition

namespace Catalog

/-- The schemas of embedded types, in order. `path` holds the types that are being resolved, and
the first argument bounds their number. -/
def resolveEmbeds (c : Catalog) :
    Nat → List String → Draft → Except Error (List (String × Schema))
  | 0, _, _ => .error .exhausted
  | depth + 1, path, owner =>
    owner.embeds.mapM fun (property, type) => do
      if path.contains type then
        throw (.malformedRelation owner.name property (.embedsItself type))
      match c.embeddable? type with
      | none => throw (.malformedRelation owner.name property (.notEmbeddable type))
      | some d =>
        let draft := d.draftIn owner.table
        let embedded ← resolveEmbeds c depth (type :: path) draft
        return (property, ← draft.finish embedded)

/-- No path of distinct types is longer than the number of definitions. -/
def depthBound (c : Catalog) : Nat :=
  c.definitions.length + 1

/-- The schema of an entity type. -/
def schema (c : Catalog) (name : String) : Except Error Schema :=
  match c.entity? name with
  | none => .error (.unknownEntity name)
  | some d => do
    let embedded ← c.resolveEmbeds c.depthBound [] d.draft
    d.draft.finish embedded

/-- The property of an entity type. -/
def property (c : Catalog) (entity name : String) : Except Error Property := do
  (← c.schema entity).property name

/-! ### Which declarations a build runs -/

/-- The definitions that resolving embeds sets up, in order, up to the first failure. -/
def embedSetups (c : Catalog) : Nat → List String → Draft → List String
  | 0, _, _ => []
  | depth + 1, path, owner => ofDecls depth path owner owner.embeds
where
  /-- The part for a list of embeds. -/
  ofDecls (depth : Nat) (path : List String) (owner : Draft) :
      List (String × String) → List String
    | [] => []
    | (_, type) :: rest =>
      if path.contains type then []
      else match c.embeddable? type with
        | none => []
        | some d =>
          let draft := d.draftIn owner.table
          let built := do
            let embedded ← c.resolveEmbeds depth (type :: path) draft
            draft.finish embedded
          type :: embedSetups c depth (type :: path) draft ++
            match built with
            | .ok _ => ofDecls depth path owner rest
            | .error _ => []

/-- The definitions that building the schema of an entity sets up, in order. -/
def setups (c : Catalog) (name : String) : List String :=
  match c.entity? name with
  | none => []
  | some d => name :: c.embedSetups c.depthBound [] d.draft

end Catalog

/-! ### Resolving relations -/

namespace Join

/-- The join of an owning component, given the schema of its target. -/
def owning (owner : Schema) (c : Component) (target : Schema) : Except Error Join :=
  match c.joinColumn with
  | none => .error (.malformedRelation owner.name c.name .noColumn)
  | some column =>
    if c.isToMany then
      if (target.atomic? column).isNone then
        .error (.malformedRelation owner.name c.name (.columnNotRemote column target.name))
      else do
        let referenced ← match c.referenced with
          | some name => pure name
          | none => pure (← owner.key).name
        return ⟨.there, column, referenced⟩
    else do
      let referenced ← match c.referenced with
        | some name => pure name
        | none => pure (← target.key).name
      let _ ← target.atomic referenced
      return ⟨.here, column, referenced⟩

/-- An owning relation stores its foreign key on the target iff it is to-many. -/
theorem owning_side {owner target : Schema} {c : Component} {j : Join}
    (h : owning owner c target = .ok j) : j.side = .there ↔ c.isToMany = true := by
  unfold owning at h
  split at h
  · cases h
  · split at h
    · next hmany =>
      split at h
      · cases h
      · simp only [hmany, iff_true]
        cases hr : c.referenced <;> simp only [hr] at h
        · cases hk : owner.key with
          | error e => simp [hk, bind, Except.bind] at h
          | ok a =>
            simp [hk, bind, Except.bind, pure, Except.pure] at h
            rw [← h]
        · simp [bind, Except.bind, pure, Except.pure] at h
          rw [← h]
    · next hone =>
      simp only [hone]
      have hside : j.side = .here := by
        cases hr : c.referenced <;> simp only [hr] at h
        · cases hk : target.key with
          | error e => simp [hk, bind, Except.bind] at h
          | ok a =>
            cases ha : target.atomic a.name <;>
              simp [hk, ha, bind, Except.bind, pure, Except.pure] at h
            rw [← h]
        · next name =>
          cases ha : target.atomic name <;>
            simp [ha, bind, Except.bind, pure, Except.pure] at h
          rw [← h]
      simp [hside]

/-- The join of a component, given the schema of its target. An inverse side is the flipped join of
the component that owns the relation. -/
def resolve (owner : Schema) (c : Component) (target : Schema) : Except Error Join :=
  match c.mappedBy with
  | none => owning owner c target
  | some name =>
    let malformed (fault : RelationFault) : Except Error Join :=
      .error (.malformedRelation owner.name c.name fault)
    match target.component? name with
    | none => malformed (.noInverse target.name name)
    | some remote =>
      if remote.isInverse then malformed (.inverseOfInverse target.name name)
      else if remote.target ≠ owner.name then
        malformed (.inverseTargets target.name name remote.target)
      else (owning target remote owner).map flipped

end Join

/-- The join of a component declared on a schema. -/
def Catalog.join (c : Catalog) (owner : Schema) (comp : Component) : Except Error Join := do
  Join.resolve owner comp (← c.schema comp.target)

end EntityGraph
