import EntityGraph.Schema.Catalog
import EntityGraph.Text.Segments

/-!
# Property paths

A path such as `posts.author.name` is walked through schemas, segment by segment. With an implicit
root it starts at the root's properties; otherwise its first segment is an alias or the name of an
entity type. A `Scope` holds what a path can start from.

Walked prefixes are kept in a `PathCache`, under the entity type they start from, so that several
scopes can share them. Entries are never changed or removed.

* `PathCache.find?_insert` — a new entry hides none of the others.
-/

namespace EntityGraph

/-- What a path denotes. -/
inductive Resolution where
  | entity (s : Schema)
  | scalar (owner : Schema) (a : Atomic)

namespace Resolution

/-- The schema in which a further segment is looked up. -/
def schema? : Resolution → Option Schema
  | entity s => some s
  | scalar _ _ => none

/-- The kind of an atomic. -/
def atomicKind? : Resolution → Option AtomicKind
  | entity _ => none
  | scalar _ a => some a.kind

/-- Whether a path ends at an atomic. -/
def isScalar : Resolution → Bool
  | entity _ => false
  | scalar _ _ => true

/-- One more segment: components are searched first, then embedded schemas, then atomics. An atomic
has no further segments. The path is only named in errors. -/
def step (c : Catalog) (path : String) (r : Resolution) (segment : String) :
    Except Error Resolution :=
  match r with
  | scalar _ _ => .error (.unresolved path)
  | entity s =>
    match s.component? segment, s.embedded? segment, s.atomic? segment with
    | some comp, _, _ => (c.schema comp.target).map entity
    | none, some e, _ => .ok (entity e)
    | none, none, some a => .ok (scalar s a)
    | none, none, none => .error (.unresolved path)

end Resolution

/-- Walked prefixes: the type a path starts from, its segments, and what it denotes. -/
structure PathCache where
  entries : List ((String × List String) × Resolution) := []
  deriving Inhabited

namespace PathCache

/-- What a walked prefix denotes, if it has been walked. -/
def find? (c : PathCache) (start : String) (segments : List String) : Option Resolution :=
  (c.entries.find? (·.1 == (start, segments))).map (·.2)

/-- Adds an entry for a prefix that has none. -/
def insert (c : PathCache) (start : String) (segments : List String) (r : Resolution) :
    PathCache :=
  ⟨c.entries ++ [((start, segments), r)]⟩

/-- The number of walked prefixes. -/
def size (c : PathCache) : Nat :=
  c.entries.length

/-- An entry stays what it is when another one is added. -/
theorem find?_insert {c : PathCache} {start start' : String} {segments segments' : List String}
    {r r' : Resolution} (h : c.find? start segments = some r) :
    (c.insert start' segments' r').find? start segments = some r := by
  unfold find? at h ⊢
  obtain ⟨e, he, rfl⟩ := Option.map_eq_some_iff.1 h
  simp [insert, List.find?_append, he]

end PathCache

/-- What paths can start from: an implicit root, or aliases besides the names of entity types. -/
structure Scope where
  root : Option Schema := none
  /-- The latest alias comes first. -/
  aliases : List (String × Schema) := []
  deriving Inhabited

namespace Scope

/-- Paths that start at the properties of an entity type. -/
def rooted (c : Catalog) (root : String) : Except Error Scope := do
  return { root := some (← c.schema root) }

/-- Lets an alias stand for an entity type. -/
def addAlias (c : Catalog) (sc : Scope) (name entity : String) : Except Error Scope := do
  return { sc with aliases := (name, ← c.schema entity) :: sc.aliases }

/-- The schema that a first segment names. -/
def named? (c : Catalog) (sc : Scope) (name : String) : Option Schema :=
  match sc.aliases.find? (·.1 == name) with
  | some (_, s) => some s
  | none => if c.isEntity name then (c.schema name).toOption else none

/-- Where a path starts, and the segments that are left to walk. -/
def start? (c : Catalog) (sc : Scope) (segments : List String) : Option (Schema × List String) :=
  match sc.root with
  | some root => some (root, segments)
  | none => match segments with
    | [] => none
    | first :: rest => (sc.named? c first).map (·, rest)

/-- Walks segments from what a prefix denotes. Prefixes that are known are taken from the cache,
the others are added to it. -/
def walk (c : Catalog) (path start : String) :
    List String → Resolution → List String → PathCache → Except Error Resolution × PathCache
  | _, r, [], cache => (.ok r, cache)
  | walked, r, segment :: rest, cache =>
    match cache.find? start (walked ++ [segment]) with
    | some hit => walk c path start (walked ++ [segment]) hit rest cache
    | none =>
      match r.step c path segment with
      | .error e => (.error e, cache)
      | .ok next =>
        walk c path start (walked ++ [segment]) next rest
          (cache.insert start (walked ++ [segment]) next)

/-- What a path denotes. A path has no empty segment. -/
def resolve (c : Catalog) (sc : Scope) (path : String) (cache : PathCache) :
    Except Error Resolution × PathCache :=
  let segments := Text.splitDots path
  if segments.contains "" then (.error (.unresolved path), cache)
  else match sc.start? c segments with
    | none => (.error (.unresolved path), cache)
    | some (start, []) => (.ok (.entity start), cache)
    | some (start, rest) =>
      match cache.find? start.name rest with
      | some hit => (.ok hit, cache)
      | none => walk c path start.name [] (.entity start) rest cache

end Scope

end EntityGraph
