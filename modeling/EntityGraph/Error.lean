import EntityGraph.Atomic.Kind

/-!
# Causes of failure

Everything that can go wrong, as causes: a schema that does not hold together, a path that names
nothing, a value or entity of the wrong kind, a statement that cannot be written or that the
database refuses, and a value that breaks a rule of its property. `Error.message` is the only place
where causes get their wording.
-/

namespace EntityGraph

/-- What is wrong with a relation. -/
inductive RelationFault where
  | nameIsAtomic
  | inverseOwnsColumn
  | noColumn
  | columnNotLocal
  | referencedNotLocal
  | embedsItself (type : String)
  | notEmbeddable (type : String)
  | noInverse (target component : String)
  | inverseOfInverse (target component : String)
  | inverseTargets (target component actual : String)
  | columnNotRemote (column target : String)
  | columnNotPrimary (column target : String)
  | policyNeedsUnique (referenced : String)
  deriving DecidableEq, Repr

/-- The wording of what is wrong with a relation. -/
def RelationFault.message : RelationFault → String
  | nameIsAtomic => "name collides with an atomic property"
  | inverseOwnsColumn => "an inverse (mapped_by) side cannot own a join column"
  | noColumn => "missing join column"
  | columnNotLocal => "join column is not an atomic of this entity"
  | referencedNotLocal => "inverse join column is not an atomic of this entity"
  | embedsItself type => s!"'{type}' embeds itself"
  | notEmbeddable type => s!"'{type}' is not a registered embeddable type"
  | noInverse target component => s!"'{target}' has no component '{component}'"
  | inverseOfInverse target component => s!"'{target}::{component}' is itself an inverse side"
  | inverseTargets target component actual => s!"'{target}::{component}' targets '{actual}'"
  | columnNotRemote column target => s!"join column '{column}' is not an atomic of '{target}'"
  | columnNotPrimary column target =>
    s!"join column '{column}' must live in the primary table of '{target}'"
  | policyNeedsUnique referenced =>
    s!"on-delete through '{referenced}' requires it to be unique when not loaded"

/-- What is wrong with a schema as a whole. -/
inductive SchemaFault where
  | embeddableKey
  | duplicateProperty (property : String)
  | undeclaredTable (property table : String)
  | tableNotJoined (table owner : String)
  deriving DecidableEq, Repr

/-- The wording of what is wrong with a schema. -/
def SchemaFault.message : SchemaFault → String
  | embeddableKey => "embeddable types cannot declare a primary key"
  | duplicateProperty property => s!"duplicate property '{property}'"
  | undeclaredTable property table =>
    s!"property '{property}' is stored in undeclared table '{table}'"
  | tableNotJoined table owner => s!"table '{table}' of '{owner}' is not declared"

/-- The kinds of properties, as accessors ask for them. -/
inductive PropertyKind where
  | atomic
  | toOne
  | toMany
  | embedded
  deriving DecidableEq, Repr

/-- A kind of property as messages name it. -/
def PropertyKind.phrase : PropertyKind → String
  | atomic => "an atomic property"
  | toOne => "a to-one relation"
  | toMany => "a to-many relation"
  | embedded => "an embedded component"

/-- What is wrong with a statement before it is sent. -/
inductive StatementFault where
  | insertWithoutRows (table : String)
  | queryWithoutRoot
  | noGeneratedKey (table : String)
  deriving DecidableEq, Repr

/-- The wording of what is wrong with a statement. -/
def StatementFault.message : StatementFault → String
  | insertWithoutRows table => s!"INSERT into '{table}' without values"
  | queryWithoutRoot => "query without a root entity"
  | noGeneratedKey table => s!"no generated key returned by INSERT into '{table}'"

/-- How a value breaks a rule of its property. -/
inductive Violation where
  | isNull
  | tooLong (most actual : Nat)
  | wrongLength (exact actual : Nat)
  | noMatch (pattern : String)
  | keyIsFixed
  | referenceNotSet (entity property : String)
  | keyNotAssigned
  | referenceNotInserted
  | keyNotSet
  deriving DecidableEq, Repr

/-- The wording of a broken rule, after the name of the property. -/
def Violation.message : Violation → String
  | isNull => "must not be null"
  | tooLong most actual => s!"must be at most {most} characters, got {actual}"
  | wrongLength exact actual => s!"must be exactly {exact} characters, got {actual}"
  | noMatch pattern => s!"does not match pattern {pattern}"
  | keyIsFixed => "is the primary key of a stored entity and cannot change"
  | referenceNotSet entity property => s!"references {entity}::{property} which is not set"
  | keyNotAssigned => "must be assigned before insert"
  | referenceNotInserted => "references an entity that has not been inserted"
  | keyNotSet => "has no value"

/-- A cause of failure. `exhausted` marks a traversal whose depth bound was too small; the bounds
in use are large enough that it does not arise. -/
inductive Error where
  | unknownEntity (name : String)
  | unknownProperty (entity property : String)
  | malformedRelation (entity property : String) (fault : RelationFault)
  | primaryKeyCount (entity : String) (found : Nat)
  | invalidSchema (entity : String) (fault : SchemaFault)
  | unresolved (path : String)
  | wrongTarget (entity property expected found : String)
  | notConvertible (entity property : String) (expected : AtomicKind) (value : Value)
  | wrongKind (entity property : String) (expected : PropertyKind)
  | unsupportedOperator (spelling : String)
  | malformedStatement (fault : StatementFault)
  | database (statement message : String)
  | violation (entity property : String) (fault : Violation)
  | exhausted
  deriving DecidableEq, Repr

/-- The text of a failure. -/
def Error.message : Error → String
  | unknownEntity name => s!"unknown entity type '{name}'"
  | unknownProperty entity property => s!"entity '{entity}' has no property '{property}'"
  | malformedRelation entity property fault =>
    s!"malformed relation {entity}::{property}: {fault.message}"
  | primaryKeyCount entity found =>
    s!"entity '{entity}' must declare exactly one primary key, found {found}"
  | invalidSchema entity fault => s!"entity '{entity}': {fault.message}"
  | unresolved path => s!"invalid identifier: {path}"
  | wrongTarget entity property expected found =>
    s!"value of {entity}::{property} must be an instance of '{expected}', got '{found}'"
  | notConvertible entity property expected value =>
    s!"cannot convert {value.toText} to {expected.name} for {entity}::{property}"
  | wrongKind entity property expected => s!"{entity}::{property} is not {expected.phrase}"
  | unsupportedOperator spelling => s!"unsupported operator '{spelling}'"
  | malformedStatement fault => s!"malformed statement: {fault.message}"
  | database statement message => s!"database error: {message} (sql: {statement})"
  | violation entity property fault => s!"{entity}::{property} {fault.message}"
  | exhausted => "traversal depth exceeded"

end EntityGraph
