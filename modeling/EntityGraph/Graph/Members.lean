import EntityGraph.Graph.Assign

/-!
# Members of collections

A collection keeps its members in order of first appearance and indexes them by primary key. Adding a
member points its foreign key at the owner, removing it nulls the foreign key. A member that has no
key yet is indexed when it gets one.
-/

namespace EntityGraph.Graph

/-- Appends an entity unless it is a member already, by its key if it has one, by identity if not.
Answers whether it was appended. -/
def append (c : CollectionId) (member : EntityId) : GraphM Bool := do
  let g ← get
  let x := g.collection c
  match g.key? member with
  | some key =>
    if x.index.contains key then return false
    modify fun g => g.modifyCollection c fun x =>
      { x with members := x.members ++ [member], index := x.index.put key x.members.length }
    return true
  | none =>
    if x.members.contains member then return false
    modify fun g => g.modifyCollection c fun x => { x with members := x.members ++ [member] }
    addListener member (.collection c)
    return true

/-- Adds a member and points its foreign key at the owner. -/
def push (c : CollectionId) (member : EntityId) : GraphM Unit := do
  let g ← get
  let x := g.collection c
  Act.ofExcept
    (checkTarget (g.entity x.owner).schema x.component (g.entity member).schema)
  if ← append c member then
    link member x.join.foreignKey x.owner x.join.referenced

/-- The positions of members by their keys as they are now; of two members with one key the later
counts. -/
def keyIndex (g : Graph) (members : List EntityId) : Assoc Value Nat :=
  (members.zipIdx).foldl (fun index p =>
    match g.key? p.1 with
    | some key => index.put key p.2
    | none => index) []

/-- Removes a member and nulls its foreign key; answers whether it was a member. -/
def remove (c : CollectionId) (member : EntityId) : GraphM Bool := do
  let x := (← get).collection c
  if x.members.contains member then
    let members := x.members.erase member
    modify fun g => g.modifyCollection c fun x =>
      { x with members, index := g.keyIndex members }
    writeForeignKey member x.join.foreignKey .null
    return true
  else return false

/-- The owner's rows are gone and storage has nulled the foreign keys of the members. -/
def releaseMembers (c : CollectionId) : GraphM Unit := do
  let x := (← get).collection c
  x.members.forM (clearForeignKey · x.join.foreignKey)

/-- Whether an entity itself, not another one with its key, is a member. -/
def isMember (g : Graph) (c : CollectionId) (e : EntityId) : Bool :=
  (g.collection c).members.contains e

/-- The member that is indexed under a key. -/
def memberByKey? (g : Graph) (c : CollectionId) (key : Value) : Option EntityId :=
  let x := g.collection c
  (x.index.get? key).bind fun i => x.members[i]?

/-- The keys of the members, in order; members without a key are left out. -/
def memberKeys (g : Graph) (c : CollectionId) : List Value :=
  (g.collection c).members.filterMap g.key?

end EntityGraph.Graph
