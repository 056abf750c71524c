import EntityGraph.Graph.Dump
import Mathlib.Data.Finset.Card

/-!
# Documents of cyclic graphs

The document of an entity holds those of the entities that its embedded components and its relations lead
to, whatever cycles there are. What ends the recursion is that an entity that is open, because its own
fields are being written, is written as its primary key. The set of open entities is passed on from one
field to the next: an entity is added when it is opened, and taken out when it is closed.

The measure is the number of entities of the graph that are not open. It falls whenever an entity is
opened, so the recursion ends; and since every entity that is opened is closed again, what is open when an
entity is met are those on the way from the root to it.

* `Graph.shown` — the fields of an entity's document, in order;
* `Graph.writeFrom` — the recursion with the set of open entities, given up at a depth;
* `Graph.Occurs` — an entity occurs at a place of a document, while others are open.

## Main results

* `Graph.writeFrom_run`: a depth above the measure is never used up, and the set is left as it was.
* `Graph.dump_ends_and_cuts`: the recursion ends, and an occurrence of an entity is cut to its key iff the
  entity is open there.
-/

namespace EntityGraph

namespace Document

/-- Whether a document is an object. -/
def isObject : Document → Bool
  | object _ => true
  | _ => false

/-- The document under a key of an object. -/
def field? : Document → String → Option Document
  | object fields, key => (fields.find? (·.1 == key)).map (·.2)
  | _, _ => none

/-- A member of a list. -/
def item? : Document → Nat → Option Document
  | list items, i => items[i]?
  | _, _ => none

/-- A place in an object: a field, or a member of the list in a field. -/
inductive Place where
  | field (name : String)
  | member (name : String) (i : Nat)
  deriving DecidableEq, Repr

/-- The document at a place. -/
def at? (d : Document) : Place → Option Document
  | .field name => d.field? name
  | .member name i => (d.field? name).bind (·.item? i)

/-- The document at the end of a way of places. -/
def follow (d : Document) (way : List Place) : Option Document :=
  way.foldlM at? d

/-- One place further. -/
theorem follow_append_singleton (d : Document) (way : List Place) (place : Place) :
    d.follow (way ++ [place]) = (d.follow way).bind (·.at? place) := by
  rw [follow, List.foldlM_append]
  simp [follow]

/-- Of two fields of one name the later is found. -/
theorem find?_foldl_put (fields before : List (String × Document)) (name : String) :
    (fields.foldl (fun o f => put o f.1 f.2) before).find? (·.1 == name) =
      (fields.reverse.find? (·.1 == name)).or (before.find? (·.1 == name)) := by
  induction fields generalizing before with
  | nil => rfl
  | cons f fields ih =>
    rw [List.foldl_cons, ih, find?_put, List.reverse_cons, List.find?_append]
    by_cases hname : name = f.1
    · simp [hname]
    · simp [hname, Ne.symm hname]

/-- A field of an object that is given by its fields in order. -/
theorem field?_ofFields (fields : List (String × Document)) (name : String) :
    (ofFields fields).field? name = (fields.reverse.find? (·.1 == name)).map (·.2) := by
  rw [ofFields, field?, find?_foldl_put, List.find?_nil, Option.or_none]

end Document

namespace Graph

variable {g : Graph} {root d e : EntityId} {path : List EntityId} {way : List Document.Place}
  {name : String} {depth : Nat}

/-! ### What is written of an entity -/

/-- What a field of an entity's document shows. -/
inductive Shown where
  | value (v : Value)
  /-- A relation that leads to no entity. -/
  | absent
  | entity (e : EntityId)
  | members (es : List EntityId)
  deriving DecidableEq, Repr

/-- The document of a field, where `inner` answers those of entities. -/
def Shown.document (inner : EntityId → Document) : Shown → Document
  | value v => Document.ofValue v
  | absent => Document.null
  | entity e => inner e
  | members es => .list (es.map inner)

/-- The fields of an entity's document in the order in which they are written: the atomics that are set,
the embedded components that have been used, and the loaded relations. -/
def shown (g : Graph) (e : EntityId) : List (String × Shown) :=
  let x := g.entity e
  let atomics := x.schema.atomics.filterMap fun a =>
    (x.atomics.get? a.name).map fun slot => (a.name, Shown.value slot.value)
  let embedded := x.schema.embedded.filterMap fun s =>
    (x.embedded.get? s.1).map fun part => (s.1, Shown.entity part)
  let relations := (g.loadedRelations e).map fun r =>
    (r.1.name, match r.2 with
      | .one none => Shown.absent
      | .one (some target) => Shown.entity target
      | .many c => Shown.members (g.collection c).members)
  atomics ++ embedded ++ relations

/-- What the document of an entity shows under a name: of two fields of one name the later stays. -/
def shown? (g : Graph) (e : EntityId) (name : String) : Option Shown :=
  ((g.shown e).reverse.find? (·.1 == name)).map (·.2)

/-- The document of an entity in full, where `inner` answers those of other entities. -/
def fullDocument (g : Graph) (inner : EntityId → Document) (e : EntityId) : Document :=
  Document.ofFields ((g.shown e).map fun f => (f.1, f.2.document inner))

/-- An entity that is open is cut, and any other is written in full. -/
theorem dumpFrom_succ (g : Graph) (depth : Nat) (path : List EntityId) (e : EntityId) :
    g.dumpFrom (depth + 1) path e =
      if e ∈ path then g.keyDocument e
      else g.fullDocument (g.dumpFrom depth (e :: path)) e := by
  rw [dumpFrom]
  simp only [List.contains_iff_mem]
  refine if_congr Iff.rfl rfl ?_
  rw [fullDocument, shown]
  simp only [List.map_append, List.map_filterMap, List.map_map, Option.map_map]
  congr 2
  refine List.map_congr_left fun r _ => ?_
  obtain ⟨c, target⟩ := r
  rcases target with (_ | target) | c <;> rfl

/-- An entity that is not in the graph has nothing to show. -/
theorem shown_eq_nil (h : g.entities.length ≤ e.index) : g.shown e = [] := by
  have hdefault : g.entity e = default := by
    rw [entity, List.getD_eq_getElem?_getD, List.getElem?_eq_none h, Option.getD_none]
  simp only [shown, loadedRelations, hdefault]
  rfl

/-! ### The recursion with the set of open entities -/

/-- The document of a field, where `inner` writes entities and changes the set of open ones. -/
def Shown.write (inner : EntityId → StateT (Finset EntityId) Option Document) :
    Shown → StateT (Finset EntityId) Option Document
  | value v => pure (Document.ofValue v)
  | absent => pure Document.null
  | entity e => inner e
  | members es => return .list (← es.mapM inner)

/-- A field under its name. -/
def writeField (inner : EntityId → StateT (Finset EntityId) Option Document) (f : String × Shown) :
    StateT (Finset EntityId) Option (String × Document) := do
  return (f.1, ← f.2.write inner)

/-- Writes an entity: if it is open, as its key; if not, it is opened, its fields are written one after
the other, and it is closed. Given up when the depth is used up. -/
def writeFrom (g : Graph) : Nat → EntityId → StateT (Finset EntityId) Option Document
  | 0, _ => failure
  | depth + 1, e => do
    if e ∈ (← get) then return g.keyDocument e
    modify (insert e)
    let fields ← (g.shown e).mapM (writeField (g.writeFrom depth))
    modify (·.erase e)
    return Document.ofFields fields

/-- The entities of the graph that are not open. -/
def closed (g : Graph) (opened : Finset EntityId) : Finset Nat :=
  (Finset.range g.entities.length).filter fun i => ⟨i⟩ ∉ opened

/-- Opening an entity of the graph leaves fewer that can be opened. -/
theorem card_closed_insert {opened : Finset EntityId} (he : e.index < g.entities.length)
    (hnew : e ∉ opened) : (g.closed (insert e opened)).card < (g.closed opened).card := by
  refine Finset.card_lt_card ((Finset.ssubset_iff_of_subset fun i hi => ?_).2 ⟨e.index, ?_, ?_⟩)
  · simp only [closed, Finset.mem_filter, Finset.mem_insert, not_or] at hi ⊢
    exact ⟨hi.1, hi.2.2⟩
  · simpa [closed, he] using hnew
  · simp [closed]

/-- Work on the set that answers and leaves the set as it was, for each member of a list. -/
theorem run_mapM {α β : Type} {f : α → StateT (Finset EntityId) Option β} {h : α → β}
    {opened : Finset EntityId} {xs : List α}
    (hf : ∀ x ∈ xs, (f x).run opened = some (h x, opened)) :
    (xs.mapM f).run opened = some (xs.map h, opened) := by
  induction xs with
  | nil => rfl
  | cons x xs ih =>
    have hx := hf x List.mem_cons_self
    have hxs := ih fun y hy => hf y (List.mem_cons_of_mem _ hy)
    simp [List.mapM_cons, hx, hxs]

/-- A field is written as entities are, and the set is left as it was. -/
theorem writeField_run {inner : EntityId → StateT (Finset EntityId) Option Document}
    {answer : EntityId → Document} {opened : Finset EntityId}
    (h : ∀ e, (inner e).run opened = some (answer e, opened)) (f : String × Shown) :
    (writeField inner f).run opened = some ((f.1, f.2.document answer), opened) := by
  obtain ⟨name, s⟩ := f
  cases s with
  | value v => rfl
  | absent => rfl
  | entity e => simp [writeField, Shown.write, Shown.document, h e]
  | members es =>
    have hes : (es.mapM inner).run opened = some (es.map answer, opened) := run_mapM fun e _ => h e
    simp [writeField, Shown.write, Shown.document, hes]

/-- **Writing an entity ends.** A depth above the number of entities that can still be opened is not used
up; the answer is the document of the entity with the open ones on its path, and the set is left as it
was. -/
theorem writeFrom_run (hdepth : (g.closed path.toFinset).card < depth) (e : EntityId) :
    (g.writeFrom depth e).run path.toFinset = some (g.dumpFrom depth path e, path.toFinset) := by
  induction depth generalizing path e with
  | zero => omega
  | succ depth ih =>
    rw [writeFrom, dumpFrom_succ]
    by_cases he : e ∈ path
    · simp [he]
    · have hnew : e ∉ path.toFinset := by simpa using he
      have hfields : ((g.shown e).mapM (writeField (g.writeFrom depth))).run (insert e path.toFinset) =
          some ((g.shown e).map fun f => (f.1, f.2.document (g.dumpFrom depth (e :: path))),
            insert e path.toFinset) := by
        by_cases hin : e.index < g.entities.length
        · have hfewer := card_closed_insert hin hnew
          rw [← List.toFinset_cons] at hfewer ⊢
          have hinner : ∀ d, (g.writeFrom depth d).run (e :: path).toFinset =
              some (g.dumpFrom depth (e :: path) d, (e :: path).toFinset) := ih (by omega)
          exact run_mapM fun f _ => writeField_run hinner f
        · rw [shown_eq_nil (Nat.le_of_not_lt hin)]
          rfl
      simp [he, hfields, Finset.erase_insert hnew, fullDocument]

/-- All depths above the measure answer the same. -/
theorem dumpFrom_eq {depth' : Nat} (hdepth : (g.closed path.toFinset).card < depth)
    (hdepth' : (g.closed path.toFinset).card < depth') (e : EntityId) :
    g.dumpFrom depth path e = g.dumpFrom depth' path e := by
  induction depth generalizing depth' path e with
  | zero => omega
  | succ depth ih =>
    obtain ⟨depth', rfl⟩ := Nat.exists_eq_succ_of_ne_zero (Nat.ne_zero_of_lt hdepth')
    rw [dumpFrom_succ, dumpFrom_succ]
    split
    · rfl
    · next he =>
      by_cases hin : e.index < g.entities.length
      · have hnew : e ∉ path.toFinset := by simpa using he
        have hfewer := card_closed_insert hin hnew
        rw [← List.toFinset_cons] at hfewer
        have hinner : g.dumpFrom depth (e :: path) = g.dumpFrom depth' (e :: path) :=
          funext fun d => ih (by omega) (by omega) d
        rw [hinner]
      · rw [fullDocument, fullDocument, shown_eq_nil (Nat.le_of_not_lt hin)]
        rfl

/-- No more entities can be opened than the graph has. -/
theorem card_closed_le (g : Graph) (opened : Finset EntityId) :
    (g.closed opened).card ≤ g.entities.length :=
  (Finset.card_filter_le _ _).trans (Finset.card_range _).le

/-! ### Occurrences -/

/-- An entity occurs at the end of a way from the root, while those of the path are open, the latest
first: the root occurs in its own document, and whatever the fields of an entity show occurs in its
document if the entity is not cut. -/
inductive Occurs (g : Graph) (root : EntityId) :
    List Document.Place → List EntityId → EntityId → Prop
  | root : Occurs g root [] [] root
  | field {way : List Document.Place} {path : List EntityId} {e d : EntityId} {name : String}
      (he : Occurs g root way path e) (hnew : e ∉ path) (hshown : g.shown? e name = some (.entity d)) :
      Occurs g root (way ++ [.field name]) (e :: path) d
  | member {way : List Document.Place} {path : List EntityId} {e d : EntityId} {name : String}
      {es : List EntityId} {i : Nat} (he : Occurs g root way path e) (hnew : e ∉ path)
      (hshown : g.shown? e name = some (.members es)) (hd : es[i]? = some d) :
      Occurs g root (way ++ [.member name i]) (e :: path) d

/-- A field of a document in full. -/
theorem field?_fullDocument (inner : EntityId → Document) (e : EntityId) (name : String) :
    (g.fullDocument inner e).field? name = (g.shown? e name).map (Shown.document inner) := by
  rw [fullDocument, Document.field?_ofFields, shown?, ← List.map_reverse, List.find?_map,
    Option.map_map, Option.map_map]
  rfl

/-- An entity that shows something is one of the graph. -/
theorem lt_of_shown? {s : Shown} (h : g.shown? e name = some s) : e.index < g.entities.length := by
  by_contra hout
  rw [shown?, shown_eq_nil (Nat.le_of_not_lt hout)] at h
  cases h

/-- What is found at an occurrence is the document of the entity with the open ones on its path, in a
depth that is not used up. -/
theorem Occurs.exists_follow (h : g.Occurs root way path e) :
    ∃ depth, (g.closed path.toFinset).card < depth ∧
      (g.dump root).follow way = some (g.dumpFrom depth path e) := by
  -- a step from an entity that is not cut goes to a field of its document in full
  have step {way : List Document.Place} {path : List EntityId} {e : EntityId} {name : String} {s : Shown}
      (he : ∃ depth, (g.closed path.toFinset).card < depth ∧
        (g.dump root).follow way = some (g.dumpFrom depth path e))
      (hnew : e ∉ path) (hshown : g.shown? e name = some s) :
      ∃ depth d, (g.closed (e :: path).toFinset).card < depth ∧ (g.dump root).follow way = some d ∧
        d.field? name = some (s.document (g.dumpFrom depth (e :: path))) := by
    obtain ⟨depth, hdepth, hfollow⟩ := he
    obtain ⟨depth, rfl⟩ := Nat.exists_eq_succ_of_ne_zero (Nat.ne_zero_of_lt hdepth)
    have hclosed : e ∉ path.toFinset := by simpa using hnew
    have hfewer := card_closed_insert (lt_of_shown? hshown) hclosed
    rw [← List.toFinset_cons] at hfewer
    rw [dumpFrom_succ, if_neg hnew] at hfollow
    exact ⟨depth, _, by omega, hfollow, by rw [field?_fullDocument, hshown]; rfl⟩
  induction h with
  | root =>
    exact ⟨g.entities.length + 1, Nat.lt_succ_of_le (g.card_closed_le _), rfl⟩
  | field he hnew hshown ih =>
    obtain ⟨depth, d, hdepth, hfollow, hfield⟩ := step ih hnew hshown
    exact ⟨depth, hdepth, by rw [Document.follow_append_singleton, hfollow]; exact hfield⟩
  | member he hnew hshown hd ih =>
    obtain ⟨depth, d, hdepth, hfollow, hfield⟩ := step ih hnew hshown
    refine ⟨depth, hdepth, ?_⟩
    rw [Document.follow_append_singleton, hfollow]
    simp [Document.at?, hfield, Shown.document, Document.item?, hd]

/-- A key is no object. -/
theorem isObject_keyDocument (g : Graph) (e : EntityId) : (g.keyDocument e).isObject = false := by
  rw [keyDocument]
  cases g.key? e with
  | none => rfl
  | some key =>
    cases key with
    | float x =>
      simp only [Document.ofValue]
      split <;> rfl
    | _ => rfl

/-- **Documents of cyclic graphs end.** The recursion with the set of open entities uses up no depth above
the number of entities, and closes all that it has opened; its answer is the document of the root. There,
an occurrence of an entity is its key iff the entity is open at the occurrence, and has all its fields iff
it is not, however often it occurs elsewhere. -/
theorem dump_ends_and_cuts (g : Graph) (root : EntityId) :
    (∀ depth, g.entities.length < depth →
      (g.writeFrom depth root).run ∅ = some (g.dump root, ∅)) ∧
    ∀ way path e, g.Occurs root way path e → ∃ d, (g.dump root).follow way = some d ∧
      (d = g.keyDocument e ↔ e ∈ path) ∧ ((∃ inner, d = g.fullDocument inner e) ↔ e ∉ path) := by
  refine ⟨fun depth hdepth => ?_, fun way path e h => ?_⟩
  · have hclosed := g.card_closed_le [].toFinset
    have hdump : g.dumpFrom depth [] root = g.dump root :=
      dumpFrom_eq (by omega) (Nat.lt_succ_of_le hclosed) root
    have hrun : (g.writeFrom depth root).run [].toFinset =
        some (g.dumpFrom depth [] root, [].toFinset) :=
      writeFrom_run (Nat.lt_of_le_of_lt hclosed hdepth) root
    rwa [hdump] at hrun
  · obtain ⟨depth, hdepth, hfollow⟩ := h.exists_follow
    obtain ⟨depth, rfl⟩ := Nat.exists_eq_succ_of_ne_zero (Nat.ne_zero_of_lt hdepth)
    have hkey := g.isObject_keyDocument e
    refine ⟨_, hfollow, ?_⟩
    rw [dumpFrom_succ]
    by_cases he : e ∈ path
    · rw [if_pos he]
      refine ⟨by simp [he], ?_⟩
      simp only [he, not_true_eq_false, iff_false, not_exists]
      intro inner hfull
      rw [hfull] at hkey
      cases hkey
    · rw [if_neg he]
      refine ⟨?_, iff_of_true ⟨_, rfl⟩ he⟩
      simp only [he, iff_false]
      intro hfull
      rw [← hfull] at hkey
      cases hkey

end Graph

namespace Squad

/-- The key of a team or player. -/
def key : Atomic :=
  { name := "id", column := "id", kind := .int, primaryKey := true }

/-- A team has players, one of whom is its captain. -/
def team : Schema where
  name := "Team"
  table := "teams"
  secondary := []
  embeddable := false
  primaryKey := some key
  atomics := [key]
  components := [
    { name := "players", target := "Player", cardinality := .oneToMany, joinColumn := some "team_id" },
    { name := "captain", target := "Player", cardinality := .manyToOne, joinColumn := some "captain_id" }]
  embedded := []

/-- A contract is with a team. -/
def contract : Schema where
  name := "Contract"
  table := "players"
  secondary := []
  embeddable := true
  primaryKey := none
  atomics := []
  components := [
    { name := "team", target := "Team", cardinality := .manyToOne, joinColumn := some "team_id" }]
  embedded := []

/-- A player has a contract. -/
def player : Schema where
  name := "Player"
  table := "players"
  secondary := []
  embeddable := false
  primaryKey := some key
  atomics := [key]
  components := []
  embedded := [("contract", contract)]

/-- A team, its only player, who is the captain, and the player's contract with the team. -/
def graph : Graph where
  entities := [
    { schema := team, atomics := [("id", .loaded (.int 1))], toOne := [("captain", .loaded (some ⟨1⟩))],
      toMany := [("players", ⟨0⟩)] },
    { schema := player, atomics := [("id", .loaded (.int 7))], embedded := [("contract", ⟨2⟩)] },
    { schema := contract, toOne := [("team", .loaded (some ⟨0⟩))] }]
  collections := [
    { owner := ⟨0⟩
      component :=
        { name := "players", target := "Player", cardinality := .oneToMany, joinColumn := some "team_id" }
      join := ⟨.there, "team_id", "id"⟩
      members := [⟨1⟩] }]

end Squad

namespace Graph

/-- The team is cut to its key in the contract of its player. The player is written in full both among the
players and as the captain. -/
theorem dump_ends_and_cuts_squad :
    let g := Squad.graph
    let players : Document.Place := .member "players" 0
    let team : List Document.Place := [players, .field "contract", .field "team"]
    (g.entities.length < 4 ∧ (g.writeFrom 4 ⟨0⟩).run ∅ = some (g.dump ⟨0⟩, ∅)) ∧
      (g.Occurs ⟨0⟩ [players] [⟨0⟩] ⟨1⟩ ∧
        ∃ inner, (g.dump ⟨0⟩).follow [players] = some (g.fullDocument inner ⟨1⟩)) ∧
      (g.Occurs ⟨0⟩ [.field "captain"] [⟨0⟩] ⟨1⟩ ∧
        ∃ inner, (g.dump ⟨0⟩).follow [.field "captain"] = some (g.fullDocument inner ⟨1⟩)) ∧
      g.Occurs ⟨0⟩ team [⟨2⟩, ⟨1⟩, ⟨0⟩] ⟨0⟩ ∧
        (g.dump ⟨0⟩).follow team = some (.scalar (.int 1)) := by
  intro g players team
  obtain ⟨hends, hcuts⟩ := dump_ends_and_cuts g ⟨0⟩
  have hplayer : g.Occurs ⟨0⟩ [players] [⟨0⟩] ⟨1⟩ :=
    .member .root (by decide) (show g.shown? ⟨0⟩ "players" = some (.members [⟨1⟩]) by decide) rfl
  have hcaptain : g.Occurs ⟨0⟩ [.field "captain"] [⟨0⟩] ⟨1⟩ := .field .root (by decide) (by decide)
  have hcontract : g.Occurs ⟨0⟩ [players, .field "contract"] [⟨1⟩, ⟨0⟩] ⟨2⟩ :=
    .field hplayer (by decide) (by decide)
  have hteam : g.Occurs ⟨0⟩ team [⟨2⟩, ⟨1⟩, ⟨0⟩] ⟨0⟩ := .field hcontract (by decide) (by decide)
  refine ⟨⟨by decide, hends 4 (by decide)⟩, ⟨hplayer, ?_⟩, ⟨hcaptain, ?_⟩, hteam, ?_⟩
  · obtain ⟨d, hd, -, hfull⟩ := hcuts _ _ _ hplayer
    obtain ⟨inner, rfl⟩ := hfull.2 (by decide)
    exact ⟨inner, hd⟩
  · obtain ⟨d, hd, -, hfull⟩ := hcuts _ _ _ hcaptain
    obtain ⟨inner, rfl⟩ := hfull.2 (by decide)
    exact ⟨inner, hd⟩
  · obtain ⟨d, hd, hcut, -⟩ := hcuts _ _ _ hteam
    rw [hd, hcut.2 (by decide)]
    rfl

end Graph

end EntityGraph
