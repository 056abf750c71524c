import EntityGraph.Proofs.Linking
import EntityGraph.Proofs.Readings

/-!
# What callers do

A caller works with a world and with mappers of queries that it has compiled. It creates and changes
entities and collections, lets sessions save, delete and fetch, and reads rows with its mappers. Each of
these is a deed, which leaves the caller in some state whether it succeeds or fails. A history is a
sequence of deeds, each on what the ones before have left.

* `Client.Leads`, `Client.Reached` — the states that histories lead to, from a state or from an empty
  graph, as long as each deed does to the graph what is required of it;
* `Client.Sound` — the graph is well typed, and mappers know entities as what they are.

## Main results

* `Client.Sound.advances` — a deed keeps that, and comes to effects unless it assigns an atomic or
  removes a member;
* `Client.Reached.sound` — every reached state is sound.
-/

namespace EntityGraph

open EntityGraph.Graph

/-- What a caller works with. -/
structure Client (σ : Type) where
  world : World σ
  /-- Mappers of compiled queries, each with what it has read so far. -/
  mappers : List Mapper := []

/-- What a caller does. -/
inductive Deed (σ : Type) where
  | operate (op : Operation)
  | write (config : Config) (call : Call) (e : EntityId)
  | delete (e : EntityId)
  | deleteByKey (type : String) (key : Value)
  | fetch (q : Query)
  | find (type : String) (key : Value)
  | compile (q : Query)
  /-- Reads rows with a mapper that has been made before. -/
  | read (i : Nat) (rows : List Row)
  /-- Turns to another session of the same catalog, with its connection and the paths it has walked. -/
  | turn (wire : Wire σ) (paths : PathCache)

variable {σ : Type}

namespace Client

/-- Work on the world alone. -/
def onWorld {α : Type} (act : SessionM σ α) : Act (Client σ) α :=
  Act.onPart Client.world (fun cl world => { cl with world }) act

/-- Work with a mapper on the graph. -/
def onMapper {α : Type} (i : Nat) (m : Mapper) (act : MapM α) : Act (Client σ) α :=
  Act.onPart (fun cl => ⟨m, cl.world.graph⟩)
    (fun cl m => ⟨{ cl.world with graph := m.graph }, cl.mappers.set i m.mapper⟩) act

end Client

namespace Deed

/-- Whether a caller can do something: its operations are those of callers, on entities and collections
that exist. -/
def possible (g : Graph) : Deed σ → Bool
  | operate (.releaseMembers _) => true
  | operate op => op.callable g
  | _ => true

/-- Whether something is done that comes to effects. -/
def quiet : Deed σ → Bool
  | operate op => op.quiet
  | _ => true

/-- Does something. -/
def run [Connection σ] (c : Catalog) : Deed σ → Act (Client σ) Unit
  | operate op => Client.onWorld (SessionM.onGraph (op.run c))
  | write config call e => Client.onWorld (call.run ⟨c, config⟩ e)
  | delete e => Client.onWorld (Session.delete { catalog := c } e)
  | deleteByKey type key => Client.onWorld (Session.deleteByKey { catalog := c } type key)
  | fetch q => do let _ ← Client.onWorld (Session.fetch { catalog := c } q)
  | find type key => do let _ ← Client.onWorld (Session.find { catalog := c } type key)
  | compile q => do
    let compiled ← Client.onWorld (Session.compile { catalog := c } q)
    modify fun cl => { cl with mappers := cl.mappers ++ [compiled.mapper] }
  | read i rows => do
    match (← get).mappers[i]? with
    | some m => let _ ← Client.onMapper i m (Mapper.mapRows c rows)
    | none => pure ()
  | turn wire paths => modify fun cl => { cl with world := ⟨cl.world.graph, wire, paths⟩ }

/-- What is left of a caller's state when something has been done, whether it succeeds or fails. -/
def after [Connection σ] (c : Catalog) (d : Deed σ) (cl : Client σ) : Client σ :=
  (d.run c).final cl

/-- An operation changes the graph alone. -/
theorem graph_after_operate [Connection σ] (c : Catalog) (op : Operation) (cl : Client σ) :
    ((operate op).after c cl).world.graph = (op.run c).final cl.world.graph := by
  rw [after, ← Act.ends_final_iff (R := fun cl' : Client σ =>
    cl'.world.graph = (op.run c).final cl.world.graph)]
  simp only [run, Client.onWorld, SessionM.onGraph, Act.ends_onPart]
  exact (Act.ends_final_iff (R := fun g => g = (op.run c).final cl.world.graph)).2 rfl

end Deed

variable {c : Catalog} {V : EntityId → Value → Prop} {cl cl' : Client σ} {w : World σ} {g g' : Graph}

/-! ### What deeds keep -/

namespace Session

/-- Reading rows with a new mapper of a compiled query leads onward. -/
theorem ends_readRows_onward (h : WellTyped c w.graph) {compiled : CompiledQuery}
    (hp : compiled.plan.Sound c) (rows : List Row) :
    (readRows { catalog := c } compiled rows : SessionM σ _).Ends w
      (fun _ w' => Onward c V w.graph w'.graph) (fun _ w' => Onward c V w.graph w'.graph) := by
  have hstart : Mapping.Proceeds c V ⟨compiled.mapper, w.graph⟩ ⟨compiled.mapper, w.graph⟩ :=
    ⟨.refl h, fun _ _ hx => (by cases hx), rfl⟩
  have hreads := Mapper.ends_mapRows_proceeds hp hstart rows
  unfold Act.Ends at hreads ⊢
  simp only [readRows, mapRows]
  cases hrun : Mapper.mapRows c rows ⟨compiled.mapper, w.graph⟩ with
  | ok tuples m => exact (hrun ▸ hreads).onward
  | error e m => exact (hrun ▸ hreads).onward

/-- Compiling a query leaves the graph as it is, and makes a sound plan. -/
theorem ends_compile (q : Query) (w : World σ) :
    (compile { catalog := c } q : SessionM σ _).Ends w
      (fun compiled w' => w'.graph = w.graph ∧ compiled.plan.Sound c)
      (fun _ w' => w'.graph = w.graph) := by
  simp only [Act.Ends, compile]
  cases hrun : q.compile c w.paths with
  | mk result paths =>
    cases result with
    | ok compiled => exact ⟨rfl, Query.sound_of_compile hrun⟩
    | error e => rfl

variable [Connection σ]

/-- Fetching leads onward, whatever comes of it. -/
theorem ends_fetch_onward (h : WellTyped c w.graph) (q : Query) :
    (fetch { catalog := c } q : SessionM σ _).Ends w (fun _ w' => Onward c V w.graph w'.graph)
      (fun _ w' => Onward c V w.graph w'.graph) := by
  unfold fetch
  simp only [Act.ends_bind]
  refine (ends_compile q w).mono (fun compiled w₁ h₁ => ?_) fun _ _ heq => by
    rw [heq]
    exact .refl h
  obtain ⟨hgraph, hp⟩ := h₁
  rw [← hgraph] at h ⊢
  rw [SessionM.onWire, Act.ends_onPart]
  refine Act.Ends.mono (P := fun _ _ => True) (E := fun _ _ => True)
    (Act.ends_final_iff.2 trivial) (fun rows wire _ => ?_) fun _ _ _ => .refl h
  exact ends_readRows_onward (w := { w₁ with wire }) h hp rows

/-- Finding an entity leads onward, whatever comes of it. -/
theorem ends_find_onward (h : WellTyped c w.graph) (type : String) (key : Value) :
    (find { catalog := c } type key : SessionM σ _).Ends w
      (fun _ w' => Onward c V w.graph w'.graph) (fun _ w' => Onward c V w.graph w'.graph) := by
  unfold find fetchEntities
  simp only [Act.ends_bind, Act.ends_ofExcept, Act.ends_pure]
  exact ⟨fun _ _ => ⟨fun _ _ => ends_fetch_onward h _, fun _ _ => .refl h⟩, fun _ _ => .refl h⟩

end Session

/-- Operations of callers fit. -/
theorem Graph.Operation.fits_of_possible {op : Operation}
    (hop : (Deed.operate op : Deed σ).possible g = true) : op.Fits c V g := by
  cases op with
  | assignOne e name target =>
    simp only [Deed.possible, callable, Bool.and_eq_true, Option.all_eq_true, decide_eq_true_eq] at hop
    exact hop.2
  | push i m =>
    simp only [Deed.possible, callable, Bool.and_eq_true, decide_eq_true_eq] at hop
    exact hop.2
  | create | assign | many | embedded | remove | releaseMembers => trivial
  | _ => cases hop

/-- No operation makes entities other than they were. -/
theorem Graph.WellTyped.schema_operation (h : WellTyped c g) {op : Operation} (hop : op.Fits c V g) :
    g.entities.length ≤ ((op.run c).final g).entities.length ∧ ∀ x, x.index < g.entities.length →
      (((op.run c).final g).entity x).schema = (g.entity x).schema := by
  cases op with
  | assign e name v =>
    have hshape := (h.altered e name v).shape
    exact ⟨Nat.le_of_eq hshape.length.symm, fun x _ => hshape.schema x⟩
  | remove i m =>
    have hremoved := h.removed i m
    exact ⟨Nat.le_of_eq hremoved.length.symm, fun x _ => hremoved.schema x⟩
  | _ => exact ⟨Effects.length_le (h.effects hop rfl), fun x hx => Effects.schema (h.effects hop rfl) hx⟩

namespace Client

/-- The graph is well typed, and mappers know entities as what they are. -/
structure Sound (c : Catalog) (cl : Client σ) : Prop where
  typed : WellTyped c cl.world.graph
  plans : ∀ m ∈ cl.mappers, m.plan.Sound c
  knows : ∀ m ∈ cl.mappers, cl.world.graph.Knows c m.identity

namespace Sound

/-- A world with an empty graph, and no mappers, are sound. -/
theorem start (hempty : w.graph = {}) : Sound c (⟨w, []⟩ : Client σ) where
  typed := ⟨hempty ▸ .empty c, hempty ▸ .empty c⟩
  plans _ hm := absurd hm List.not_mem_nil
  knows _ hm := absurd hm List.not_mem_nil

/-- Work on the world that leads onward keeps that. -/
theorem onward (h : Sound c cl) (hw : Onward c V cl.world.graph w.graph) :
    Sound c { cl with world := w } where
  typed := hw.typed
  plans := h.plans
  knows m hm := (h.knows m hm).effects hw.effects

/-- Operations that fit keep that. -/
theorem operated (h : Sound c cl) {op : Operation} (hop : op.Fits c V cl.world.graph) :
    Sound c { cl with world := { cl.world with graph := (op.run c).final cl.world.graph } } := by
  obtain ⟨hlength, hschema⟩ := h.typed.schema_operation hop
  exact ⟨h.typed.operation hop, h.plans, fun m hm => (h.knows m hm).mono hlength hschema⟩

/-- A mapper that has read nothing yet keeps that. -/
theorem compiled (h : Sound c cl) (hgraph : w.graph = cl.world.graph) {compiled : CompiledQuery}
    (hp : compiled.plan.Sound c) : Sound c ⟨w, cl.mappers ++ [compiled.mapper]⟩ := by
  refine ⟨hgraph ▸ h.typed, fun m hm => ?_, fun m hm => ?_⟩
  all_goals rcases List.mem_append.1 hm with hm | hm
  · exact h.plans m hm
  · exact List.mem_singleton.1 hm ▸ hp
  · exact hgraph ▸ h.knows m hm
  · rw [List.mem_singleton.1 hm]
    exact fun _ _ hx => by cases hx

/-- Work on the world that leads onward, whatever comes of it, keeps that and comes to effects. -/
theorem ends_onWorld (h : Sound c cl) {α : Type} {act : SessionM σ α}
    (hact : act.Ends cl.world (fun _ w => Onward c V cl.world.graph w.graph)
      (fun _ w => Onward c V cl.world.graph w.graph)) :
    (onWorld act).Ends cl (fun _ cl' => Sound c cl' ∧ Effects c V cl.world.graph cl'.world.graph)
      (fun _ cl' => Sound c cl' ∧ Effects c V cl.world.graph cl'.world.graph) := by
  rw [onWorld, Act.ends_onPart]
  exact hact.mono (fun _ _ hw => ⟨h.onward hw, hw.effects⟩) fun _ _ hw => ⟨h.onward hw, hw.effects⟩

/-- Reading rows with a mapper keeps that and comes to effects. -/
theorem ends_onMapper (h : Sound c cl) {i : Nat} {m : Mapper} (hm : cl.mappers[i]? = some m)
    (rows : List Row) :
    (onMapper i m (Mapper.mapRows c rows)).Ends cl
      (fun _ cl' => Sound c cl' ∧ Effects c V cl.world.graph cl'.world.graph)
      (fun _ cl' => Sound c cl' ∧ Effects c V cl.world.graph cl'.world.graph) := by
  have hmem := List.mem_of_getElem? hm
  have hstart : Mapping.Proceeds c V ⟨m, cl.world.graph⟩ ⟨m, cl.world.graph⟩ :=
    ⟨.refl h.typed, h.knows m hmem, rfl⟩
  have hreads := Mapper.ends_mapRows_proceeds (h.plans m hmem) hstart rows
  have hsound : ∀ m' : Mapping, Mapping.Proceeds c V ⟨m, cl.world.graph⟩ m' →
      Sound c ⟨{ cl.world with graph := m'.graph }, cl.mappers.set i m'.mapper⟩ ∧
        Effects c V cl.world.graph m'.graph := by
    refine fun m' hm' => ⟨⟨hm'.onward.typed, fun x hx => ?_, fun x hx => ?_⟩, hm'.onward.effects⟩
    all_goals rcases List.mem_or_eq_of_mem_set hx with hx | rfl
    · exact h.plans x hx
    · exact hm'.plan ▸ h.plans m hmem
    · exact (h.knows x hx).effects hm'.onward.effects
    · exact hm'.knows
  rw [onMapper, Act.ends_onPart]
  exact hreads.mono (fun _ => hsound) fun _ => hsound

variable [Connection σ]

/-- What is done keeps that, and comes to effects, unless an atomic is assigned or a member removed. -/
theorem advances (h : Sound c cl)
    (hmakes : ∀ e, e.index < cl.world.graph.entities.length → Save.Makes σ (V e)) {d : Deed σ}
    (hd : d.possible cl.world.graph = true) :
    Sound c (d.after c cl) ∧
      (d.quiet = true → Effects c V cl.world.graph (d.after c cl).world.graph) := by
  have hquiet : ∀ cl' : Client σ, (Sound c cl' ∧ Effects c V cl.world.graph cl'.world.graph) →
      Sound c cl' ∧ (d.quiet = true → Effects c V cl.world.graph cl'.world.graph) :=
    fun _ h' => ⟨h'.1, fun _ => h'.2⟩
  have hrefl := hquiet cl ⟨h, .refl⟩
  rw [Deed.after, ← Act.ends_final_iff (R := fun cl' : Client σ => Sound c cl' ∧
    (d.quiet = true → Effects c V cl.world.graph cl'.world.graph))]
  cases d with
  | operate op =>
    have hop := Operation.fits_of_possible (c := c) (V := V) hd
    simp only [Deed.run, onWorld, SessionM.onGraph, Act.ends_onPart]
    exact (Act.ends_final_iff (R := fun g => Sound c { cl with world := { cl.world with graph := g } } ∧
      (op.quiet = true → Effects c V cl.world.graph g))).2 ⟨h.operated hop, h.typed.effects hop⟩
  | write config call e =>
    have htrace := Call.ongoing_trace ⟨c, config⟩ h.typed hmakes e call
    refine (h.ends_onWorld (V := V) ?_).mono (fun _ => hquiet) fun _ => hquiet
    rw [Act.ends_final_iff (R := fun w : World σ => Onward c V cl.world.graph w.graph), Call.final_run]
    exact htrace.onward
  | delete e =>
    exact (h.ends_onWorld (Session.ends_delete_onward { catalog := c } h.typed e)).mono
      (fun _ => hquiet) fun _ => hquiet
  | deleteByKey type key =>
    exact (h.ends_onWorld (Session.ends_deleteByKey_onward { catalog := c } h.typed type key)).mono
      (fun _ => hquiet) fun _ => hquiet
  | fetch q =>
    simp only [Deed.run, Act.ends_bind, Act.ends_pure]
    exact (h.ends_onWorld (Session.ends_fetch_onward h.typed q)).mono (fun _ => hquiet) fun _ => hquiet
  | find type key =>
    simp only [Deed.run, Act.ends_bind, Act.ends_pure]
    exact (h.ends_onWorld (Session.ends_find_onward h.typed type key)).mono (fun _ => hquiet)
      fun _ => hquiet
  | compile q =>
    simp only [Deed.run, Act.ends_bind, Act.ends_modify, onWorld, Act.ends_onPart]
    refine (Session.ends_compile q cl.world).mono (fun compiled w' hw' => ?_) fun _ w' hw' => ?_
    · exact hquiet _ ⟨h.compiled hw'.1 hw'.2, hw'.1 ▸ .refl⟩
    · exact hquiet _ ⟨⟨hw' ▸ h.typed, h.plans, hw' ▸ h.knows⟩, hw' ▸ .refl⟩
  | read i rows =>
    simp only [Deed.run, Act.ends_bind, Act.ends_get]
    cases hm : cl.mappers[i]? with
    | none => exact hrefl
    | some m =>
      simp only [Act.ends_bind, Act.ends_pure]
      exact (h.ends_onMapper hm rows).mono (fun _ => hquiet) fun _ => hquiet
  | turn wire paths => exact hquiet _ ⟨⟨h.typed, h.plans, h.knows⟩, .refl⟩

end Sound

variable [Connection σ] {K : Graph → Graph → Prop}

/-- A deed that can be done, and that does to the graph what is required. -/
inductive Step (c : Catalog) (K : Graph → Graph → Prop) (cl : Client σ) : Client σ → Prop
  | deed (d : Deed σ) (hd : d.possible cl.world.graph = true)
      (hk : K cl.world.graph (d.after c cl).world.graph) : Step c K cl (d.after c cl)

/-- A history leads from one state to another, and each deed does to the graph what is required. -/
abbrev Leads (c : Catalog) (K : Graph → Graph → Prop) : Client σ → Client σ → Prop :=
  Relation.ReflTransGen (Step c K)

/-- A history leads to a state from an empty graph. -/
def Reached (c : Catalog) (K : Graph → Graph → Prop) (cl : Client σ) : Prop :=
  ∃ w : World σ, w.graph = {} ∧ Leads c K ⟨w, []⟩ cl

/-- A history keeps states sound. -/
theorem Leads.sound (hleads : Leads c K cl cl') (h : Sound c cl) : Sound c cl' := by
  induction hleads with
  | refl => exact h
  | tail _ hstep ih =>
    obtain ⟨d, hd, -⟩ := hstep
    exact (ih.advances (V := fun _ _ => True) (fun _ _ _ _ _ _ => trivial) hd).1

/-- Every reached state is sound. -/
theorem Reached.sound (h : Reached c K cl) : Sound c cl := by
  obtain ⟨w, hempty, hleads⟩ := h
  exact Leads.sound hleads (.start hempty)

/-- Whether deeds can be done, one after the other, and each does to the graph what is required. -/
def allowed (c : Catalog) (k : Graph → Graph → Bool) : List (Deed σ) → Client σ → Bool
  | [], _ => true
  | d :: ds, cl => d.possible cl.world.graph && k cl.world.graph (d.after c cl).world.graph &&
      allowed c k ds (d.after c cl)

/-- What is left of a caller's state when one deed has been done after the other. -/
def afterAll (c : Catalog) (ds : List (Deed σ)) (cl : Client σ) : Client σ :=
  ds.foldl (fun cl d => d.after c cl) cl

/-- Deeds that are allowed lead on. -/
theorem leads_afterAll {k : Graph → Graph → Bool} (hk : ∀ g g', k g g' = true → K g g')
    {ds : List (Deed σ)} (h : allowed c k ds cl = true) : Leads c K cl (afterAll c ds cl) := by
  induction ds generalizing cl with
  | nil => exact .refl
  | cons d ds ih =>
    simp only [allowed, Bool.and_eq_true] at h
    exact .head (.deed d h.1.1 (hk _ _ h.1.2)) (ih h.2)

end Client

end EntityGraph
