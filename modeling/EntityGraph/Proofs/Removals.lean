import EntityGraph.Proofs.Ending
import EntityGraph.Proofs.Integrity

/-!
# Deletions end, and delete rows once and in order

The two calls that delete, of an entity and of rows by their key, each come down to one traversal, or to
nothing. Whatever the catalog, the graph and the connection are, as long as the cells that the connection
answers with come from a finite list, a call ends. It deletes the rows of each type and key at most once,
and in order if it succeeds.

A database answers with the cells that it has, and in the course of a deletion it comes to no others.

* `Database.draws` — a database draws on its cells;
* `Session.Removal` — a call that deletes;
* `Session.Removal.orderly` — it ends, and deletes rows once and in order.
-/

namespace EntityGraph

/-! ### Databases -/

namespace Database

variable {db : Database} {V : List Value}

/-- The values of all cells. -/
def values (db : Database) : List Value :=
  db.rows.flatMap fun row => row.cells.map (·.2)

theorem length_values (db : Database) : db.values.length = Connection.cellBound db := by
  have hrows : ∀ rows : List StoredRow,
      (rows.flatMap fun row => row.cells.map (·.2)).length = StoredRow.cellCount rows := by
    intro rows
    induction rows with
    | nil => rfl
    | cons row rows ih =>
      rw [List.flatMap_cons, List.length_append, List.length_map, ih]
      rfl
  exact hrows db.rows

/-- The rows hold null and values of a list only. -/
def HoldsOnly (db : Database) (V : List Value) : Prop :=
  ∀ row ∈ db.rows, ∀ column, row.value column ≠ .null → row.value column ∈ V

theorem holdsOnly_values (db : Database) : db.HoldsOnly db.values := by
  intro row hrow column hne
  refine List.mem_flatMap.2 ⟨row, hrow, ?_⟩
  unfold StoredRow.value at hne ⊢
  cases hcell : row.cells.get? column with
  | none => simp [hcell] at hne
  | some v => exact List.mem_map.2 ⟨(column, v), Assoc.mem_of_get? hcell, rfl⟩

/-- Where nulls are written, a row keeps its values or loses them. -/
theorem value_overwrite_null {columns : List (String × Value)} (h : ∀ p ∈ columns, p.2 = .null)
    (row : StoredRow) (column : String) : (row.overwrite columns).value column = row.value column ∨
      (row.overwrite columns).value column = .null := by
  induction columns generalizing row with
  | nil => exact .inl rfl
  | cons p columns ih =>
    have hcons : row.overwrite (p :: columns) = (row.overwrite [p]).overwrite columns := rfl
    rw [hcons]
    refine (ih (fun q hq => h q (List.mem_cons_of_mem _ hq)) (row.overwrite [p])).elim (fun heq => ?_) .inr
    rw [heq, StoredRow.value_overwrite]
    split
    · exact .inr (h p List.mem_cons_self)
    · exact .inl rfl

/-- A statement that adds nothing leaves no other values. -/
theorem HoldsOnly.attempt (h : db.HoldsOnly V) {s : Statement} (hs : s.AddsNothing) :
    (s.attempt db).2.HoldsOnly V := by
  cases s with
  | insert i => exact hs.elim
  | select q =>
    unfold Statement.attempt Connection.select instConnection
    dsimp only
    split <;> exact h
  | update u =>
    unfold Statement.attempt Connection.update instConnection
    dsimp only
    split
    · exact h
    split
    · exact h
    intro row' hrow' column hne
    obtain ⟨row, hrow, rfl⟩ := List.mem_map.1 hrow'
    by_cases hmeets : (row.table == u.table && u.conditions.all (db.meets row)) = true
    · rw [if_pos hmeets] at hne ⊢
      have hkept := (value_overwrite_null hs row column).resolve_right hne
      rw [hkept] at hne ⊢
      exact h row hrow column hne
    · rw [if_neg hmeets] at hne ⊢
      exact h row hrow column hne
  | delete d =>
    unfold Statement.attempt Connection.delete instConnection
    dsimp only
    split
    · exact fun row hrow => h row (List.mem_of_mem_filter hrow)
    · exact h

theorem HoldsOnly.replay (h : db.HoldsOnly V) {l : Deletion.Journal} (hl : ∀ p ∈ l, p.2.AddsNothing) :
    (EntityGraph.replay db l).HoldsOnly V := by
  induction l generalizing db with
  | nil => exact h
  | cons p l ih =>
    exact ih (h.attempt (hl p List.mem_cons_self)) fun q hq => hl q (List.mem_cons_of_mem _ hq)

/-- A database answers with the cells that it has. -/
theorem draws (db : Database) : Connection.Draws db.values db := by
  intro l column q rows hl hq hrows row hrow hne
  have hholds := db.holdsOnly_values.replay hl
  generalize EntityGraph.replay db l = db' at hholds hrows
  have hanswer : rows = db'.answer q := by
    unfold Connection.select instConnection at hrows
    dsimp only at hrows
    split at hrows
    · exact (Except.ok.inj hrows).symm
    · cases hrows
  obtain ⟨stored, hstored, rfl⟩ : ∃ stored ∈ db'.rows, row =
      ⟨q.columns.map Storage.label, q.columns.map fun c => Bindings.value stored.cells c.1⟩ := by
    rw [hanswer] at hrow
    unfold answer at hrow
    obtain ⟨stored, hstored, rfl⟩ := List.mem_map.1 hrow
    refine ⟨stored, ?_, rfl⟩
    split at hstored
    · exact List.mem_of_mem_filter (List.mem_of_mem_take hstored)
    · exact List.mem_of_mem_filter hstored
  rw [hq] at hne ⊢
  exact hholds stored hstored column hne

end Database

namespace Session

open Deletion Traversal

/-- A call that deletes: an entity, or the rows of a type and key. -/
inductive Removal where
  | entity (e : EntityId)
  | rows (type : String) (key : Value)

namespace Removal

variable {σ : Type} [Connection σ] {ses : Session} {r : Removal} {w : World σ} {V : List Value}
  {d : Doomed} {depth : Nat}

/-- The call itself. -/
def run (ses : Session) : Removal → SessionM σ Unit
  | entity e => ses.delete e
  | rows type key => ses.deleteByKey type key

/-- What is to be deleted first, if anything. -/
def doomed? (ses : Session) (g : Graph) : Removal → Except Error (Option Doomed)
  | entity e => do
    if (g.entity e).stored then
      let key ← g.requireKey e
      return some ⟨(g.entity e).schema, key, some e⟩
    else return none
  | rows type key => do
    return some (← ses.doomedByKey type key)

/-- The call, with a depth of its own. -/
def runWithin (ses : Session) (depth : Nat) (r : Removal) : SessionM σ Unit := do
  match ← Act.ofExcept (r.doomed? ses (← get).graph) with
  | some d => Traversal.run (deleteFrom ses.catalog depth d)
  | none => return

/-- The traversal that the call makes, with all that it sends. -/
def trace (ses : Session) (depth : Nat) (r : Removal) (w : World σ) :
    Traversal (String × Value) σ :=
  match r.doomed? ses w.graph with
  | .ok (some d) => (deleteFrom ses.catalog depth d).final { world := w }
  | _ => { world := w }

/-- The call is the one with the depth that fits its world. -/
theorem run_eq (ses : Session) (r : Removal) (w : World σ) :
    r.run ses w = r.runWithin ses (depthBound ses.catalog w) w := by
  cases r with
  | entity e =>
    simp only [run, delete, runWithin, doomed?, bind, EStateM.bind, Act.get_apply]
    by_cases hstored : (w.graph.entity e).stored = true
    · simp only [hstored, if_true]
      cases hkey : w.graph.requireKey e <;> rfl
    · simp only [hstored]
      rfl
  | rows type key =>
    simp only [run, deleteByKey, runWithin, doomed?, doomedByKey, bind, EStateM.bind, Act.get_apply]
    cases ses.catalog.schema type with
    | error error => rfl
    | ok s =>
      simp only [Act.ofExcept, Except.bind]
      cases s.key with
      | error error => rfl
      | ok a =>
        dsimp only
        cases a.coerce s.name key <;> rfl

/-- What is loaded has the key under which it is deleted. -/
theorem loaded_of_doomed? {g : Graph} (h : r.doomed? ses g = .ok (some d)) :
    ∀ e ∈ d.loaded, g.key? e = some d.key := by
  cases r with
  | entity e =>
    simp only [doomed?] at h
    split at h
    · obtain ⟨key, hkey, h⟩ := bind_eq_ok_iff.1 h
      obtain rfl := Option.some.inj (Except.ok.inj h)
      intro e' he'
      obtain rfl := Option.some.inj he'
      unfold Graph.requireKey at hkey
      split at hkey
      · next k hk => rw [hk, Except.ok.inj hkey]
      · cases hkey
    · cases h
  | rows type key =>
    obtain ⟨d', hd', h⟩ := bind_eq_ok_iff.1 h
    obtain rfl := Option.some.inj (Except.ok.inj h)
    intro e he
    rw [(of_doomedByKey hd').2.1] at he
    cases he

/-- Finding out what is to be deleted fails for ordinary reasons. -/
theorem ordinary_of_doomed? {g : Graph} {error : Error} (h : r.doomed? ses g = .error error) :
    error.Ordinary := by
  cases r with
  | entity e =>
    simp only [doomed?] at h
    split at h
    · rcases bind_eq_error_iff.1 h with h | ⟨_, -, h⟩
      · exact Graph.ordinary_of_requireKey h
      · cases h
    · cases h
  | rows type key =>
    rcases bind_eq_error_iff.1 h with h | ⟨_, -, h⟩
    · rcases bind_eq_error_iff.1 h with h | ⟨s, -, h⟩
      · exact Catalog.ordinary_of_schema h
      rcases bind_eq_error_iff.1 h with h | ⟨a, -, h⟩
      · exact Schema.ordinary_of_key h
      rcases bind_eq_error_iff.1 h with h | ⟨_, -, h⟩
      · exact Atomic.ordinary_of_coerce h
      · cases h
    · cases h

/-- A call that has something to delete makes a traversal. -/
theorem runWithin_of_some (h : r.doomed? ses w.graph = .ok (some d)) (depth : Nat) :
    r.runWithin ses depth w = Traversal.run (deleteFrom ses.catalog depth d) w := by
  simp only [runWithin, bind, EStateM.bind, Act.get_apply, h, Act.ofExcept]

/-- A call that has nothing to delete does nothing. -/
theorem runWithin_of_none (h : r.doomed? ses w.graph = .ok none) (depth : Nat) :
    r.runWithin ses depth w = .ok () w := by
  simp only [runWithin, bind, EStateM.bind, Act.get_apply, h, Act.ofExcept]
  rfl

/-- A call that does not find out what to delete fails. -/
theorem runWithin_of_error {error : Error} (h : r.doomed? ses w.graph = .error error) (depth : Nat) :
    r.runWithin ses depth w = .error error w := by
  simp only [runWithin, bind, EStateM.bind, Act.get_apply, h, Act.ofExcept]

/-- The call leaves the world of its traversal. -/
theorem final_runWithin (ses : Session) (depth : Nat) (r : Removal) (w : World σ) :
    (r.runWithin ses depth).final w = (r.trace ses depth w).world := by
  rcases h : r.doomed? ses w.graph with error | _ | d
  · simp only [Act.final, runWithin_of_error h, trace, h]
  · simp only [Act.final, runWithin_of_none h, trace, h]
  · have hrun := Traversal.final_run (deleteFrom ses.catalog depth d) w
    unfold Act.final at hrun ⊢
    rw [runWithin_of_some h, hrun]
    simp only [trace, h, Act.final]

/-- How a call that deletes goes, on a connection whose cells come from a list. -/
structure Orderly (ses : Session) (r : Removal) (w : World σ) (V : List Value) : Prop where
  /-- Whatever depth it is given beyond some bound, the call does not exhaust it, and does the same. -/
  ends : ∀ depth, reach ses.catalog w.graph V < depth →
    (r.runWithin ses depth).failure? w ≠ some .exhausted ∧
      r.runWithin ses depth w = r.runWithin ses (reach ses.catalog w.graph V + 1) w
  /-- Where the connection bounds its cells, the depth that the call is given is beyond. -/
  fits : V.length ≤ Connection.cellBound w.wire.link →
    r.run ses w = r.runWithin ses (reach ses.catalog w.graph V + 1) w
  /-- What is sent is in the journal. -/
  sent : ∀ depth, ((r.runWithin ses depth).final w).wire.sent =
    w.wire.sent ++ (r.trace ses depth w).journal.map (·.2)
  /-- The rows of a type and key are deleted by one pass over the tables of the type at most, or by the
  beginning of one. -/
  once : ∀ depth row, deletesFor row (r.trace ses depth w).journal ≠ [] →
    ∃ d key, Doomed.row d = row ∧ d.schema.key = .ok key ∧
      deletesFor row (r.trace ses depth w).journal <+: d.pass key
  /-- Where the call succeeds, it has made a visit of what was to be deleted, and every visit on the way
  has its rows deleted by a whole pass, after those that it has visited first because they depend on
  them, and before those that it has visited first because they are owned. -/
  sorted : ∀ depth d, r.doomed? ses w.graph = .ok (some d) →
    (r.runWithin ses depth).succeeds w = true →
    ∃ v : Visit, v.doomed = d ∧
      visit ses.catalog depth d { world := w } = .ok v (r.trace ses depth w) ∧
      Visited [v] (r.trace ses depth w).journal { world := w } (r.trace ses depth w) ∧
      ∀ u : Visit, u.Within v → u.Sorted (r.trace ses depth w).journal

/-- A deletion that succeeds has made a visit. -/
theorem exists_visit {c : Catalog} {t : Traversal (String × Value) σ}
    (h : deleteFrom c depth d { world := w } = .ok () t) :
    ∃ v : Visit, v.doomed = d ∧ visit c depth d { world := w } = .ok v t ∧
      Visited [v] t.journal { world := w } t := by
  rw [deleteFrom_eq] at h
  obtain ⟨v, hv⟩ := exists_of_silent h
  obtain ⟨hdoomed, l, hmade⟩ := Act.Ends.of_ok (ends_visit_once c depth d { world := w }) hv
  have hjournal : t.journal = l := (Once.visited hmade).journal
  exact ⟨v, hdoomed, hv, hjournal ▸ hmade⟩

/-- The traversal of a call deletes rows once, whatever comes of it. -/
theorem once_trace (ses : Session) (depth : Nat) (r : Removal) (w : World σ) :
    Once (r.trace ses depth w).journal { world := w } (r.trace ses depth w) := by
  have hfinal : ∀ d, ∃ l, Once l { world := w }
      ((deleteFrom (σ := σ) ses.catalog depth d).final { world := w }) := by
    intro d
    refine (Act.ends_final_iff (R := fun t => ∃ l, Once l { world := w } t)).1 ?_
    rw [deleteFrom_eq, silent, Act.ends_bind]
    exact Act.Ends.mono (ends_visit_once ses.catalog depth d { world := w })
      (fun _ _ hv => ⟨_, .visited hv.2.choose_spec⟩) fun _ _ honce => honce
  have hjournal : ∀ {l t}, Once (σ := σ) l { world := w } t → Once t.journal { world := w } t := by
    intro l t honce
    obtain rfl : t.journal = l := honce.journal
    exact honce
  rcases h : r.doomed? ses w.graph with error | _ | d
  · simp only [trace, h]
    exact .refl _
  · simp only [trace, h]
    exact .refl _
  · simp only [trace, h]
    exact hjournal (hfinal d).choose_spec

/-- Where the bound on cells holds, the depth that a call is given is beyond what a path can reach. -/
theorem reach_lt_depthBound {c : Catalog} (h : V.length ≤ Connection.cellBound w.wire.link) :
    reach c w.graph V < depthBound c w := by
  unfold reach depthBound
  dsimp only
  refine Nat.mul_lt_mul_of_pos_left ?_ (Nat.succ_pos _)
  omega

/-- **A call that deletes ends, and deletes rows once and in order.** Where the cells that a connection
answers with come from a list, a call neither runs on nor depends on how deep it is let go, whatever the
types and their relations are. It deletes the rows of each type and key once at most. Where it succeeds,
it has deleted the rows that were found through a relation that cascades before those that they depend on,
and those of a cascading relation whose key is stored here after, unless the traversal had entered them
before. -/
theorem orderly (ses : Session) (r : Removal) (w : World σ) (V : List Value)
    (hdraws : Connection.Draws V w.wire.link) : r.Orderly ses w V := by
  have hsame : ∀ depth, reach ses.catalog w.graph V < depth →
      r.runWithin ses depth w = r.runWithin ses (reach ses.catalog w.graph V + 1) w := by
    intro depth hdepth
    rcases h : r.doomed? ses w.graph with error | _ | d
    · rw [runWithin_of_error h, runWithin_of_error h]
    · rw [runWithin_of_none h, runWithin_of_none h]
    · rw [runWithin_of_some h, runWithin_of_some h, Traversal.run, Traversal.run,
        deleteFrom_eq_deep hdraws (loaded_of_doomed? h) hdepth]
  have honce := fun depth => once_trace ses depth r w
  refine ⟨fun depth hdepth => ⟨?_, hsame depth hdepth⟩, fun hbound => ?_, fun depth => ?_,
    fun depth => (honce depth).pass, fun depth d hd hok => ?_⟩
  · intro hfail
    have hexhausted := Act.eq_error_of_failure? hfail
    rcases h : r.doomed? ses w.graph with error | _ | d
    · rw [runWithin_of_error h] at hexhausted
      obtain ⟨rfl, -⟩ := EStateM.Result.error.inj hexhausted
      exact ordinary_of_doomed? h
    · rw [runWithin_of_none h] at hexhausted
      cases hexhausted
    · rw [runWithin_of_some h, Traversal.run] at hexhausted
      split at hexhausted
      · cases hexhausted
      · next heq =>
        obtain ⟨rfl, -⟩ := EStateM.Result.error.inj hexhausted
        exact deleteFrom_deep hdraws (loaded_of_doomed? h) hdepth _ heq
  · rw [run_eq, hsame _ (reach_lt_depthBound hbound)]
  · rw [final_runWithin, (honce depth).sent]
  · obtain ⟨_, w', hw'⟩ := Act.exists_of_succeeds hok
    rw [runWithin_of_some hd] at hw'
    obtain ⟨t, ht, -⟩ := run_ok_iff.1 hw'
    have htrace : r.trace ses depth w = t := by
      simp only [trace, hd, Act.final, ht]
    rw [htrace]
    obtain ⟨v, hv, hvisit, hmade⟩ := exists_visit ht
    exact ⟨v, hv, hvisit, hmade, hmade.sorted v List.mem_cons_self⟩

/-- The first author goes with a note that tells the same pen name. The note is deleted before the author,
who owns it and is found again as its owner. -/
theorem orderly_author :
    Connection.Draws Press.database.values Press.world.wire.link ∧
      Press.database.values.length ≤ Connection.cellBound Press.world.wire.link ∧
      ((rows "Author" (.int 1)).run Press.session).succeeds Press.world = true ∧
      (((rows "Author" (.int 1)).trace Press.session (depthBound Press.catalog Press.world)
        Press.world).journal.filter (·.2.isDelete)).map (·.1) =
          [("Note", .int 7), ("Author", .int 1), ("Author", .int 1)] ∧
      (rows "Author" (.int 1)).Orderly Press.session Press.world Press.database.values := by
  refine ⟨Press.database.draws, Nat.le_of_eq Press.database.length_values, by decide +kernel,
    by decide +kernel, ?_⟩
  exact orderly Press.session (rows "Author" (.int 1)) Press.world Press.database.values
    Press.database.draws

end Removal

end Session

end EntityGraph
