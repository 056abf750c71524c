import EntityGraph.Proofs.Occurrences
import Mathlib.Logic.Relation

/-!
# How a plan grows

Compiling a query changes its plan by steps of three kinds: a root is placed, a relation is joined, or
a node is mapped. What each step does is said once, by `Planner.Step`; whatever all steps keep holds of
every plan. Nodes are only added, and a node that is there changes no more than to be mapped, so what a
path has reached stays reached. What a walk does is said once as well, by `Planner.Walks`; what is known
of walks is by induction on it, and does not come back to how they are computed.

## Main results

* `Planner.Sound.steps`: the nodes of a plan stand for schemas of the catalog, and each is joined to an
  earlier node through a component of that node's schema.
* `Planner.comesTo_walkFrom`: a walk goes along relations, then through embedded schemas, and ends there
  or at an atomic; it fails only where a segment names nothing, or where a relation cannot be joined.
* `Planner.Walks.reaches`: what a walk reaches is there in the end.
-/

namespace EntityGraph

namespace Planner

variable {c : Catalog} {p p' p'' : Planner} {s target : Schema} {key : Atomic} {path : String}
  {i j parent : Nat} {comp : Component} {mapped : Bool}

/-! ### What a step does -/

/-- The node that is added for a schema, with aliases that are new. -/
def fresh (p : Planner) (s : Schema) (parent : Option (Nat × Component)) : PlanNode where
  schema := s
  tableAlias := aliasFor s.table p.next
  tables := (aliasesFrom p.next s.tables).reverse
  parent

/-- How a secondary table of a node is joined. -/
def secondaryJoin (n : PlanNode) (key : Atomic) (table : String) : JoinClause :=
  let name := (n.tables.lookup table).getD ""
  { kind := .left
    table := ⟨table, some name⟩
    conditions := [.binary (.name (name ++ "." ++ key.column)) .eq
      (.name (n.tableAlias ++ "." ++ key.column))] }

/-- The plan with one more node, which a path leads to. -/
def grow (p : Planner) (n : PlanNode) (path : String) (clauses : List JoinClause) (key : Atomic) :
    Planner :=
  { p with
    nodes := p.nodes ++ [n]
    byPath := (path, p.nodes.length) :: p.byPath
    joins := p.joins ++ (clauses ++ n.schema.secondary.map (secondaryJoin n key))
    next := p.next + n.schema.tables.length }

/-- The node that is added for a root. -/
def freshRoot (p : Planner) (s : Schema) : PlanNode :=
  { p.fresh s none with mapped := true }

/-- The primary table of the next root. -/
def rootTable (p : Planner) (s : Schema) : TableRef :=
  ⟨s.table, some (aliasFor s.table p.next)⟩

/-- The plan in which a root has been placed. -/
def withRoot (p : Planner) (path : String) (s : Schema) (key : Atomic) : Planner :=
  { p.grow (p.freshRoot s) path
      (if p.tables.isEmpty then [] else [⟨.cross, p.rootTable s, []⟩]) key with
    tables := if p.tables.isEmpty then [p.rootTable s] else p.tables
    roots := p.roots ++ [p.nodes.length] }

/-- The plan in which a relation has been joined. -/
def withChild (p : Planner) (path : String) (parent : Nat) (comp : Component) (target : Schema)
    (key : Atomic) (left right : String) : Planner :=
  let n := p.fresh target (some (parent, comp))
  p.grow n path [⟨.left, ⟨target.table, some n.tableAlias⟩, [.binary (.name left) .eq (.name right)]⟩]
    key

/-- What one step does to a plan. -/
inductive Step (c : Catalog) (p : Planner) : Planner → Prop
  | root {path : String} {s : Schema} {key : Atomic}
      (hs : c.schema s.name = .ok s) (hkey : s.primaryKey = some key) :
      Step c p (p.withRoot path s key)
  | child {path : String} {parent : Nat} {comp : Component} {target : Schema} {key here there : Atomic}
      {join : Join} {left right : String}
      (hparent : parent < p.nodes.length)
      (hcomp : (p.node parent).schema.component? comp.name = some comp)
      (hnew : p.byPath.lookup path = none)
      (htarget : c.schema comp.target = .ok target) (hkey : target.primaryKey = some key)
      (hjoin : c.join (p.node parent).schema comp = .ok join)
      (hhere : (p.node parent).schema.atomic join.localAtomic = .ok here)
      (hthere : target.atomic join.remoteAtomic = .ok there)
      (htable : target.tableOf there = target.table)
      (hleft : (p.fresh target (some (parent, comp))).column target there = .ok left)
      (hright : (p.node parent).column (p.node parent).schema here = .ok right) :
      Step c p (p.withChild path parent comp target key left right)
  | map {i : Nat} (hi : i < p.nodes.length) : Step c p (p.setMapped i)

/-- What some steps, one after the other, do to a plan. -/
abbrev Steps (c : Catalog) : Planner → Planner → Prop :=
  Relation.ReflTransGen (Step c)

/-! ### Nodes stay -/

/-- A node is found at its position. -/
theorem node_eq_getElem (hi : i < p.nodes.length) : p.node i = p.nodes[i] := by
  simp [node, List.getD_eq_getElem?_getD, hi]

/-- The nodes of a plan are those at its positions. -/
theorem mem_nodes_iff {n : PlanNode} : n ∈ p.nodes ↔ ∃ i < p.nodes.length, p.node i = n := by
  rw [List.mem_iff_getElem]
  refine exists_congr fun i => ⟨fun ⟨hi, hn⟩ => ⟨hi, (node_eq_getElem hi).trans hn⟩, fun ⟨hi, hn⟩ => ?_⟩
  exact ⟨hi, (node_eq_getElem hi).symm.trans hn⟩

/-- A node that was there before is there after another has been added. -/
theorem node_of_lt {n : PlanNode} (h : p'.nodes = p.nodes ++ [n]) (hi : i < p.nodes.length) :
    p'.node i = p.node i := by
  unfold node
  rw [h, List.getD_eq_getElem?_getD, List.getD_eq_getElem?_getD, List.getElem?_append_left hi]

/-- A node that has been added comes last. -/
theorem node_length {n : PlanNode} (h : p'.nodes = p.nodes ++ [n]) : p'.node p.nodes.length = n := by
  simp [node, h, List.getD_eq_getElem?_getD]

/-- The nodes are those that were there before, and the one that has been added. -/
theorem lt_or_eq {n : PlanNode} (h : p'.nodes = p.nodes ++ [n]) (hi : i < p'.nodes.length) :
    i < p.nodes.length ∨ i = p.nodes.length := by
  rw [h, List.length_append, List.length_singleton] at hi
  exact Nat.lt_or_eq_of_le (Nat.le_of_lt_succ hi)

/-- There are as many nodes when one has been mapped. -/
@[simp] theorem length_setMapped (p : Planner) (i : Nat) :
    (p.setMapped i).nodes.length = p.nodes.length := by
  simp [setMapped]

/-- A node that has been mapped is otherwise as it was, and so are all others. -/
theorem node_setMapped (p : Planner) (i j : Nat) : (p.setMapped i).node j =
    { p.node j with mapped := (p.node j).mapped || (decide (j = i) && decide (i < p.nodes.length)) } := by
  unfold node setMapped
  by_cases hij : i = j
  · subst hij
    by_cases hi : i < p.nodes.length
    · simp [List.getD_eq_getElem?_getD, hi, node]
    · simp [List.getD_eq_getElem?_getD, hi]
  · simp [List.getD_eq_getElem?_getD, hij, Ne.symm hij]

/-- All nodes of a plan are mapped. -/
def AllMapped (p : Planner) : Prop :=
  ∀ i < p.nodes.length, (p.node i).mapped = true

/-- Where all nodes are mapped, mapping one changes nothing. -/
theorem AllMapped.setMapped (h : AllMapped p) : AllMapped (p.setMapped i) := fun j hj => by
  rw [node_setMapped, h j (by simpa using hj)]
  rfl

/-- A mapped node may be added where all nodes are mapped. -/
theorem AllMapped.append {n : PlanNode} (h : AllMapped p) (hnodes : p'.nodes = p.nodes ++ [n])
    (hn : n.mapped = true) : AllMapped p' := fun i hi => by
  rcases lt_or_eq hnodes hi with hi | rfl
  · rw [node_of_lt hnodes hi]
    exact h i hi
  · rw [node_length hnodes]
    exact hn

/-- A node that is not mapped may be added, if it is mapped next. -/
theorem AllMapped.append_setMapped {n : PlanNode} (h : AllMapped p)
    (hnodes : p'.nodes = p.nodes ++ [n]) : AllMapped (p'.setMapped p.nodes.length) := fun i hi => by
  rw [length_setMapped] at hi
  rw [node_setMapped]
  rcases lt_or_eq hnodes hi with hlt | rfl
  · rw [node_of_lt hnodes hlt, h i hlt]
    rfl
  · rw [decide_eq_true rfl, decide_eq_true hi]
    exact Bool.or_true _

/-- Nodes are added, and those that are there are at most mapped. -/
structure Extends (p p' : Planner) : Prop where
  length : p.nodes.length ≤ p'.nodes.length
  node : ∀ i < p.nodes.length, ∃ b, p'.node i = { p.node i with mapped := (p.node i).mapped || b }
  roots : p.roots <+: p'.roots

namespace Extends

theorem refl (p : Planner) : Extends p p :=
  ⟨Nat.le_refl _, fun _ _ => ⟨false, by rw [Bool.or_false]⟩, List.prefix_refl _⟩

theorem trans (h : Extends p p') (h' : Extends p' p'') : Extends p p'' where
  length := Nat.le_trans h.length h'.length
  node i hi := by
    obtain ⟨b, hb⟩ := h.node i hi
    obtain ⟨b', hb'⟩ := h'.node i (Nat.lt_of_lt_of_le hi h.length)
    exact ⟨b || b', by rw [hb', hb, Bool.or_assoc]⟩
  roots := h.roots.trans h'.roots

/-- A plan with one more node. -/
theorem grow {n : PlanNode} {clauses : List JoinClause} : Extends p (p.grow n path clauses key) where
  length := by simp [Planner.grow]
  node i hi := ⟨false, by rw [Bool.or_false, node_of_lt rfl hi]⟩
  roots := List.prefix_refl _

theorem step (h : Step c p p') : Extends p p' := by
  cases h with
  | @root path s key hs hkey =>
    have hgrow : Extends p (p.grow (p.freshRoot s) path
      (if p.tables.isEmpty then [] else [⟨.cross, p.rootTable s, []⟩]) key) := grow
    exact ⟨hgrow.length, hgrow.node, List.prefix_append _ _⟩
  | child => exact grow
  | map hi =>
    exact ⟨Nat.le_of_eq (length_setMapped _ _).symm, fun j _ => ⟨_, node_setMapped _ _ _⟩,
      List.prefix_refl _⟩

theorem steps (h : Steps c p p') : Extends p p' := by
  induction h with
  | refl => exact refl p
  | tail _ hstep ih => exact ih.trans (.step hstep)

end Extends

/-! ### Sound plans -/

/-- Nodes stand for schemas of the catalog; a node that is not a root is joined to an earlier one
through a component of its schema. Paths and roots are nodes. -/
structure Sound (c : Catalog) (p : Planner) : Prop where
  schema : ∀ i < p.nodes.length, c.schema (p.node i).schema.name = .ok (p.node i).schema
  parent : ∀ i < p.nodes.length, ∀ j comp, (p.node i).parent = some (j, comp) →
    j < i ∧ (p.node j).schema.component? comp.name = some comp ∧
      comp.target = (p.node i).schema.name ∧ ∃ join, c.join (p.node j).schema comp = .ok join
  byPath : ∀ x ∈ p.byPath, x.2 < p.nodes.length
  roots : ∀ i ∈ p.roots, i < p.nodes.length ∧ (p.node i).mapped = true ∧ (p.node i).parent = none

namespace Sound

/-- There is nothing in an empty plan. -/
theorem empty (c : Catalog) : Sound c {} where
  schema _ hi := absurd hi (Nat.not_lt_zero _)
  parent _ hi := absurd hi (Nat.not_lt_zero _)
  byPath _ hx := absurd hx List.not_mem_nil
  roots _ hi := absurd hi List.not_mem_nil

/-- A node may be added whose schema is one of the catalog, and whose parent is there. -/
theorem grow {n : PlanNode} {clauses : List JoinClause} (h : Sound c p)
    (hschema : c.schema n.schema.name = .ok n.schema)
    (hparent : ∀ j comp, n.parent = some (j, comp) → j < p.nodes.length ∧
      (p.node j).schema.component? comp.name = some comp ∧ comp.target = n.schema.name ∧
        ∃ join, c.join (p.node j).schema comp = .ok join) :
    Sound c (p.grow n path clauses key) := by
  have hlength : (p.grow n path clauses key).nodes.length = p.nodes.length + 1 := by
    simp [Planner.grow]
  refine ⟨fun i hi => ?_, fun i hi j comp hj => ?_, fun x hx => ?_, fun i hi => ?_⟩
  · rcases lt_or_eq rfl hi with hi | rfl
    · rw [node_of_lt rfl hi]
      exact h.schema i hi
    · rw [node_length rfl]
      exact hschema
  · rcases lt_or_eq rfl hi with hi | rfl
    · rw [node_of_lt rfl hi] at hj ⊢
      obtain ⟨hlt, hrest⟩ := h.parent i hi j comp hj
      rw [node_of_lt rfl (Nat.lt_trans hlt hi)]
      exact ⟨hlt, hrest⟩
    · rw [node_length rfl] at hj ⊢
      obtain ⟨hlt, hrest⟩ := hparent j comp hj
      rw [node_of_lt rfl hlt]
      exact ⟨hlt, hrest⟩
  · rw [hlength]
    rcases List.mem_cons.1 hx with rfl | hx
    · exact Nat.lt_succ_self _
    · exact Nat.lt_succ_of_lt (h.byPath x hx)
  · obtain ⟨hlt, hroot⟩ := h.roots i hi
    rw [node_of_lt rfl hlt, hlength]
    exact ⟨Nat.lt_succ_of_lt hlt, hroot⟩

theorem step (h : Sound c p) (hstep : Step c p p') : Sound c p' := by
  cases hstep with
  | @root path s key hs hkey =>
    have hgrow : Sound c (p.grow (p.freshRoot s) path
        (if p.tables.isEmpty then [] else [⟨.cross, p.rootTable s, []⟩]) key) :=
      h.grow hs fun _ _ hj => nomatch hj
    refine ⟨hgrow.schema, hgrow.parent, hgrow.byPath, fun i hi => ?_⟩
    rcases List.mem_append.1 hi with hi | hi
    · exact hgrow.roots i hi
    · rw [List.mem_singleton.1 hi]
      have hnode : (p.withRoot path s key).node p.nodes.length = p.freshRoot s :=
        node_length rfl
      rw [hnode]
      exact ⟨by simp [withRoot, Planner.grow], rfl, rfl⟩
  | child hparent hcomp hnew htarget hkey hjoin hhere hthere htable hleft hright =>
    refine h.grow (Catalog.schema_schema_name htarget) fun j comp' hj => ?_
    obtain ⟨rfl, rfl⟩ := Prod.mk.inj (Option.some.inj hj)
    exact ⟨hparent, hcomp, (Catalog.schema_name htarget).symm, _, hjoin⟩
  | map hi =>
    refine ⟨fun j hj => ?_, fun j hj => ?_, fun x hx => ?_, fun j hj => ?_⟩
    · rw [node_setMapped]
      exact h.schema j (by simpa using hj)
    · simp only [node_setMapped]
      exact h.parent j (by simpa using hj)
    · rw [length_setMapped]
      exact h.byPath x hx
    · obtain ⟨hlt, hmapped, hnone⟩ := h.roots j hj
      rw [node_setMapped, length_setMapped]
      exact ⟨hlt, by simp [hmapped], hnone⟩

/-- Steps keep a plan sound. -/
theorem steps (h : Sound c p) (hsteps : Steps c p p') : Sound c p' := by
  induction hsteps with
  | refl => exact h
  | tail _ hstep ih => exact ih.step hstep

end Sound

/-! ### Work that succeeds -/

section run

variable {α β : Type} {a : α} {b : β}

theorem run_bind_iff {m : PlanM α} {f : α → PlanM β} :
    (m >>= f).run p = .ok (b, p'') ↔ ∃ a p', m.run p = .ok (a, p') ∧ (f a).run p' = .ok (b, p'') := by
  rw [StateT.run_bind, bind_eq_ok_iff, Prod.exists]

theorem run_pure_iff : (pure a : PlanM α).run p = .ok (b', p') ↔ b' = a ∧ p' = p := by
  rw [StateT.run_pure]
  simp [pure, Except.pure, eq_comm]

theorem run_get_bind (f : Planner → PlanM α) : (get >>= f).run p = (f p).run p := rfl

theorem run_set_iff {x : PUnit} {q : Planner} : (set q : PlanM PUnit).run p = .ok (x, p') ↔ p' = q := by
  rw [StateT.run_set]
  simp [pure, Except.pure, eq_comm]

theorem run_modify_iff {x : PUnit} {f : Planner → Planner} :
    (modify f : PlanM PUnit).run p = .ok (x, p') ↔ p' = f p := by
  rw [StateT.run_modify]
  simp [pure, Except.pure, eq_comm]

theorem run_liftM_bind_iff {x : Except Error α} {f : α → PlanM β} :
    (liftM x >>= f).run p = .ok (b, p') ↔ ∃ a, x = .ok a ∧ (f a).run p = .ok (b, p') := by
  cases x with
  | ok a => exact ⟨fun h => ⟨a, rfl, h⟩, fun ⟨_, ha, h⟩ => Except.ok.inj ha ▸ h⟩
  | error e => exact ⟨fun h => (nomatch h), fun ⟨_, ha, _⟩ => (nomatch ha)⟩

end run

/-! ### The functions of the planner take steps -/

/-- A node is added behind those that are there. -/
theorem run_pushNode {parent : Option (Nat × Component)} (h : (pushNode s parent).run p = .ok (i, p')) :
    i = p.nodes.length ∧ p' = { p with
      nodes := p.nodes ++ [p.fresh s parent]
      next := p.next + s.tables.length } := by
  obtain ⟨rfl, rfl⟩ := Prod.mk.inj (Except.ok.inj h)
  exact ⟨rfl, rfl⟩

/-- Secondary tables are joined by the primary key. -/
theorem run_joinSecondaries {x : Unit} (h : (joinSecondaries i).run p = .ok (x, p')) :
    ∃ key, (p.node i).schema.primaryKey = some key ∧ p' = { p with
      joins := p.joins ++ (p.node i).schema.secondary.map (secondaryJoin (p.node i) key) } := by
  unfold joinSecondaries at h
  rw [run_get_bind] at h
  obtain ⟨key, hkey, h⟩ := run_liftM_bind_iff.1 h
  exact ⟨key, Schema.key_eq_ok_iff.1 hkey, run_set_iff.1 h⟩

/-- The node of a root is mapped at once, and its primary table comes behind what is there. -/
theorem placeRoot_push (p : Planner) (s : Schema) :
    (({ p with nodes := p.nodes ++ [p.fresh s none], next := p.next + s.tables.length } :
        Planner).setMapped p.nodes.length).placeRoot p.nodes.length =
      { p with
        nodes := p.nodes ++ [p.freshRoot s]
        next := p.next + s.tables.length
        tables := if p.tables.isEmpty then [p.rootTable s] else p.tables
        joins := p.joins ++ if p.tables.isEmpty then [] else [⟨.cross, p.rootTable s, []⟩] } := by
  have hmapped : ({ p with nodes := p.nodes ++ [p.fresh s none], next := p.next + s.tables.length } :
      Planner).setMapped p.nodes.length =
      { p with nodes := p.nodes ++ [p.freshRoot s], next := p.next + s.tables.length } := by
    simp [setMapped, node, freshRoot, List.getD_eq_getElem?_getD]
  have hnode : ({ p with nodes := p.nodes ++ [p.freshRoot s], next := p.next + s.tables.length } :
      Planner).node p.nodes.length = p.freshRoot s := node_length rfl
  rw [hmapped]
  unfold placeRoot
  rw [hnode]
  split <;> simp [rootTable, freshRoot, fresh]

/-- Adding a root is one step. -/
theorem run_addRoot {x : Unit} (h : (addRoot path s).run p = .ok (x, p')) :
    ∃ key, s.primaryKey = some key ∧ p' = p.withRoot path s key := by
  unfold addRoot at h
  obtain ⟨i, p₁, hpush, h⟩ := run_bind_iff.1 h
  obtain ⟨rfl, rfl⟩ := run_pushNode hpush
  obtain ⟨_, p₂, hplace, h⟩ := run_bind_iff.1 h
  have hp₂ := (run_modify_iff.1 hplace).trans (placeRoot_push p s)
  obtain ⟨_, p₃, hjoin, h⟩ := run_bind_iff.1 h
  have hp' := run_modify_iff.1 h
  obtain ⟨key, hkey, hp₃⟩ := run_joinSecondaries hjoin
  have hnode : p₂.node p.nodes.length = p.freshRoot s := node_length (by rw [hp₂])
  rw [hnode] at hkey hp₃
  refine ⟨key, hkey, ?_⟩
  rw [hp', hp₃, hp₂]
  simp [withRoot, grow, freshRoot, fresh]

/-- A root is mapped at once. -/
theorem run_addRoot_step {x : Unit} (hs : c.schema s.name = .ok s)
    (h : (addRoot path s).run p = .ok (x, p')) :
    Steps c p p' ∧ p'.roots ≠ [] ∧ (AllMapped p → AllMapped p') := by
  obtain ⟨key, hkey, rfl⟩ := run_addRoot h
  exact ⟨.single (.root hs hkey), by simp [withRoot], fun hall => hall.append rfl rfl⟩

/-- Roots are added one after the other. -/
theorem run_addRoots {l : List (String × String)} {x : Unit}
    (h : (l.forM fun r => do addRoot r.1 (← liftM (c.schema r.2)) : PlanM Unit).run p = .ok (x, p')) :
    Steps c p p' ∧ (l ≠ [] → p'.roots ≠ []) ∧ (AllMapped p → AllMapped p') := by
  induction l generalizing p with
  | nil =>
    obtain ⟨-, rfl⟩ := run_pure_iff.1 h
    exact ⟨.refl, fun hne => absurd rfl hne, id⟩
  | cons r l ih =>
    obtain ⟨_, p₁, hadd, h⟩ := (run_bind_iff (f := fun _ => l.forM _)).1 h
    obtain ⟨s, hs, hadd⟩ := run_liftM_bind_iff.1 hadd
    obtain ⟨hsteps, hne, hall⟩ := run_addRoot_step (Catalog.schema_schema_name hs) hadd
    obtain ⟨hrest, -, hall'⟩ := ih h
    refine ⟨hsteps.trans hrest, fun _ hnil => hne ?_, hall' ∘ hall⟩
    have hprefix := (Extends.steps hrest).roots
    rw [hnil] at hprefix
    exact List.prefix_nil.1 hprefix

/-- What joining a relation comes to: the node that its path is known to lead to, or one that a step
adds. -/
inductive Joins (c : Catalog) (p : Planner) (path : String) (parent : Nat) (comp : Component) :
    Nat → Planner → Prop
  | known {i : Nat} (hfound : p.byPath.lookup path = some i) : Joins c p path parent comp i p
  | added {target : Schema} {key : Atomic} {left right : String}
      (hnew : p.byPath.lookup path = none) (htarget : c.schema comp.target = .ok target)
      (hstep : Step c p (p.withChild path parent comp target key left right)) :
      Joins c p path parent comp p.nodes.length (p.withChild path parent comp target key left right)

/-- A component of a node is joined so. -/
theorem joins_of_child (hparent : parent < p.nodes.length)
    (hcomp : (p.node parent).schema.component? comp.name = some comp)
    (h : (child c parent path comp).run p = .ok (j, p')) : Joins c p path parent comp j p' := by
  unfold child at h
  rw [run_get_bind] at h
  cases hfound : p.byPath.lookup path with
  | some i =>
    rw [hfound] at h
    obtain ⟨rfl, rfl⟩ := run_pure_iff.1 h
    exact .known hfound
  | none =>
    rw [hfound] at h
    dsimp only at h
    rw [run_get_bind] at h
    obtain ⟨target, htarget, h⟩ := run_liftM_bind_iff.1 h
    obtain ⟨join, hjoin, h⟩ := run_liftM_bind_iff.1 h
    obtain ⟨here, hhere, h⟩ := run_liftM_bind_iff.1 h
    obtain ⟨there, hthere, h⟩ := run_liftM_bind_iff.1 h
    split at h
    · obtain ⟨_, _, hthrow, -⟩ := run_bind_iff.1 h
      cases hthrow
    next htable =>
    obtain ⟨i, p₁, hpush, h⟩ := run_bind_iff.1 h
    obtain ⟨rfl, hp₁⟩ := run_pushNode hpush
    rw [run_get_bind] at h
    obtain ⟨left, hleft, h⟩ := run_liftM_bind_iff.1 h
    obtain ⟨right, hright, h⟩ := run_liftM_bind_iff.1 h
    obtain ⟨_, p₂, hset, h⟩ := run_bind_iff.1 h
    have hp₂ := run_set_iff.1 hset
    obtain ⟨_, p₃, hsecondary, h⟩ := run_bind_iff.1 h
    obtain ⟨key, hkey, hp₃⟩ := run_joinSecondaries hsecondary
    obtain ⟨_, p₄, hmodify, h⟩ := run_bind_iff.1 h
    have hp₄ := run_modify_iff.1 hmodify
    obtain ⟨rfl, rfl⟩ := run_pure_iff.1 h
    have hnode : p₁.node p.nodes.length = p.fresh target (some (parent, comp)) :=
      node_length (by rw [hp₁])
    have hother : p₁.node parent = p.node parent := node_of_lt (by rw [hp₁]) hparent
    have hnode₂ : p₂.node p.nodes.length = p.fresh target (some (parent, comp)) :=
      node_length (by rw [hp₂, hp₁])
    rw [hnode₂] at hkey hp₃
    rw [hnode] at hleft hp₂
    rw [hother] at hright
    have heq : p' = p.withChild path parent comp target key left right := by
      rw [hp₄, hp₃, hp₂, hp₁]
      simp [withChild, grow, fresh]
    rw [heq]
    exact .added hfound htarget (.child hparent hcomp hfound htarget hkey hjoin hhere hthere
      (Classical.not_not.1 htable) hleft hright)

namespace Joins

/-- At most one step is taken. -/
theorem steps (h : Joins c p path parent comp j p') : Steps c p p' := by
  cases h with
  | known => exact .refl
  | added _ _ hstep => exact .single hstep

/-- The node of the relation is found by its path. -/
theorem mem_byPath (h : Joins c p path parent comp j p') : (path, j) ∈ p'.byPath := by
  cases h with
  | known hfound =>
    obtain ⟨l₁, l₂, hmem, -⟩ := List.lookup_eq_some_iff.1 hfound
    exact hmem ▸ List.mem_append_right _ List.mem_cons_self
  | added => exact List.mem_cons_self

/-- There is a node for the relation. -/
theorem lt (h : Joins c p path parent comp j p') (hsound : Sound c p) : j < p'.nodes.length :=
  (hsound.steps h.steps).byPath _ h.mem_byPath

/-- Where all nodes are mapped, they are again when that of the relation has been mapped. -/
theorem allMapped (h : Joins c p path parent comp j p') (hall : AllMapped p) :
    AllMapped (p'.setMapped j) := by
  cases h with
  | known => exact hall.setMapped
  | added => exact hall.append_setMapped rfl

end Joins

end Planner

/-! ### What a path reaches -/

/-- The node that a path has led to. -/
def Reached.home : Reached → Nat
  | .node i | .embedded i _ | .scalar i _ _ _ => i

namespace Planner

variable {c : Catalog} {p p' : Planner} {s : Schema} {i j : Nat} {path chain : String} {mapped : Bool}

/-- What a path has reached is a node, or something that the schema of a node embeds or declares. -/
def Reaches (p : Planner) : Reached → Prop
  | .node i => i < p.nodes.length
  | .embedded i path => i < p.nodes.length ∧ ∃ s, (p.node i).schema.embeddedAt? path = some s
  | .scalar i path s a => i < p.nodes.length ∧ (p.node i).schema.embeddedAt? path = some s ∧
      s.atomic? a.name = some a

/-- What has been reached is at a node. -/
theorem Reaches.home_lt {r : Reached} (h : Reaches p r) : r.home < p.nodes.length := by
  cases r with
  | node => exact h
  | embedded => exact h.1
  | scalar => exact h.1

namespace Extends

/-- What has been reached stays reached. -/
theorem reaches (h : Extends p p') {r : Reached} (hr : Reaches p r) : Reaches p' r := by
  have hnode : ∀ {i}, i < p.nodes.length → i < p'.nodes.length ∧
      (p'.node i).schema = (p.node i).schema := fun hi => by
    obtain ⟨b, hb⟩ := h.node _ hi
    exact ⟨Nat.lt_of_lt_of_le hi h.length, by rw [hb]⟩
  cases r with
  | node i => exact (hnode hr).1
  | embedded i path => exact ⟨(hnode hr.1).1, (hnode hr.1).2 ▸ hr.2⟩
  | scalar i path s a => exact ⟨(hnode hr.1).1, (hnode hr.1).2 ▸ hr.2⟩

/-- The column of what has been reached stays the same. -/
theorem columnOf_eq (h : Extends p p') {r : Reached} (hr : Reaches p r) (chain : String) :
    p'.columnOf chain r = p.columnOf chain r := by
  cases r with
  | node i =>
    obtain ⟨b, hb⟩ := h.node i hr
    simp only [columnOf, hb]
    rfl
  | embedded i path => rfl
  | scalar i path s a =>
    obtain ⟨b, hb⟩ := h.node i hr.1
    simp only [columnOf, hb]
    rfl

/-- The output of what has been reached stays the same. -/
theorem outputOf_eq (h : Extends p p') {r : Reached} (hr : Reaches p r) (chain : String) :
    p'.outputOf chain r = p.outputOf chain r := by
  cases r with
  | node i =>
    obtain ⟨b, hb⟩ := h.node i hr
    simp only [outputOf, hb]
  | embedded i path => rfl
  | scalar i path s a => rfl

end Extends

/-- The plan in which a node has been mapped, if it is to be. -/
def setMappedIf (p : Planner) (mapped : Bool) (i : Nat) : Planner :=
  if mapped then p.setMapped i else p

/-- Mapping a node adds none. -/
@[simp] theorem length_setMappedIf (p : Planner) (mapped : Bool) (i : Nat) :
    (p.setMappedIf mapped i).nodes.length = p.nodes.length := by
  cases mapped
  · rfl
  · exact length_setMapped p i

/-- Mapping a node changes no paths. -/
@[simp] theorem byPath_setMappedIf (p : Planner) (mapped : Bool) (i : Nat) :
    (p.setMappedIf mapped i).byPath = p.byPath := by
  cases mapped <;> rfl

/-- Mapping a node changes no schemas. -/
@[simp] theorem schema_setMappedIf (p : Planner) (mapped : Bool) (i j : Nat) :
    ((p.setMappedIf mapped i).node j).schema = (p.node j).schema := by
  cases mapped
  · rfl
  · show ((p.setMapped i).node j).schema = _
    rw [node_setMapped]

/-- Mapping a node is a step. -/
theorem steps_setMappedIf (c : Catalog) (mapped : Bool) (hi : i < p.nodes.length) :
    Steps c p (p.setMappedIf mapped i) := by
  cases mapped
  · exact .refl
  · exact .single (.map hi)

/-- The text of a path with one more segment. -/
def pathTo (path segment : String) : String :=
  if path.isEmpty then segment else path ++ "." ++ segment

/-- What a walk does that starts at a node, or at a schema embedded in it, and succeeds: it goes along
relations, then through embedded schemas, and ends there or at an atomic. -/
inductive Walks (c : Catalog) (mapped : Bool) :
    Planner → Nat → String → List String → Schema → List String → Reached → Planner → Prop
  | node {p : Planner} {i : Nat} {path : String} (hi : i < p.nodes.length) :
      Walks c mapped p i path [] (p.node i).schema [] (.node i) p
  | embedded {p : Planner} {i : Nat} {path : String} {embeds : List String} {s : Schema}
      (hi : i < p.nodes.length) (hs : (p.node i).schema.embeddedAt? embeds = some s)
      (hembeds : embeds ≠ []) : Walks c mapped p i path embeds s [] (.embedded i embeds) p
  | scalar {p : Planner} {i : Nat} {path : String} {embeds rest : List String} {s : Schema} {a : Atomic}
      (hi : i < p.nodes.length) (hs : (p.node i).schema.embeddedAt? embeds = some s)
      (hcomp : s.component? a.name = none) (hembedded : s.embedded? a.name = none)
      (hatomic : s.atomic? a.name = some a) :
      Walks c mapped p i path embeds s (a.name :: rest) (.scalar i embeds s a) p
  | through {p p' : Planner} {i : Nat} {path segment : String} {embeds rest : List String}
      {s e : Schema} {r : Reached} (hcomp : s.component? segment = none)
      (hembedded : s.embedded? segment = some e)
      (hrest : Walks c mapped p i path (embeds ++ [segment]) e rest r p') :
      Walks c mapped p i path embeds s (segment :: rest) r p'
  | along {p p₁ p' : Planner} {i j : Nat} {path : String} {comp : Component} {rest : List String}
      {r : Reached} (hi : i < p.nodes.length)
      (hcomp : (p.node i).schema.component? comp.name = some comp)
      (hjoins : Joins c p (pathTo path comp.name) i comp j p₁)
      (hrest : Walks c mapped (p₁.setMappedIf mapped j) j (pathTo path comp.name) []
        ((p₁.setMappedIf mapped j).node j).schema rest r p') :
      Walks c mapped p i path [] (p.node i).schema (comp.name :: rest) r p'

namespace Walks

variable {segments embeds : List String} {r : Reached}

/-- A walk starts at a node. -/
theorem lt (h : Walks c mapped p i path embeds s segments r p') : i < p.nodes.length := by
  induction h with
  | through _ _ _ ih => exact ih
  | node hi | embedded hi | scalar hi | along hi => exact hi

/-- A walk takes steps. -/
theorem steps (h : Walks c mapped p i path embeds s segments r p') : Steps c p p' := by
  induction h with
  | node | embedded | scalar => exact .refl
  | through _ _ _ ih => exact ih
  | along _ _ hjoins hrest ih =>
    exact (hjoins.steps.trans (steps_setMappedIf c mapped (by simpa using hrest.lt))).trans ih

/-- What a walk reaches is there in the end. -/
theorem reaches (h : Walks c mapped p i path embeds s segments r p') : Reaches p' r := by
  induction h with
  | node hi => exact hi
  | embedded hi hs => exact ⟨hi, _, hs⟩
  | scalar hi hs _ _ hatomic => exact ⟨hi, hs, hatomic⟩
  | through _ _ _ ih => exact ih
  | along _ _ _ _ ih => exact ih

/-- A walk that maps what it comes to leaves no node unmapped. -/
theorem allMapped (h : Walks c true p i path embeds s segments r p') (hall : AllMapped p) :
    AllMapped p' := by
  induction h with
  | node | embedded | scalar => exact hall
  | through _ _ _ ih => exact ih hall
  | along _ _ hjoins _ ih => exact ih (hjoins.allMapped hall)

end Walks

/-- Why a walk fails: a segment names nothing, or a relation that it has come to cannot be joined. -/
def Fails (c : Catalog) (p : Planner) (chain : String) (error : Error) : Prop :=
  error = .unresolved chain ∨ ∃ p' parent path comp, Steps c p p' ∧ parent < p'.nodes.length ∧
    (p'.node parent).schema.component? comp.name = some comp ∧
      (child c parent path comp).run p' = .error error

/-- A walk that fails later on fails. -/
theorem Fails.of_steps {error : Error} (h : Fails c p' chain error) (hsteps : Steps c p p') :
    Fails c p chain error :=
  h.imp_right fun ⟨p'', parent, path, comp, hmore, hrest⟩ =>
    ⟨p'', parent, path, comp, hsteps.trans hmore, hrest⟩

/-- What walking segments comes to: it succeeds or fails. -/
def ComesTo (c : Catalog) (chain : String) (mapped : Bool) (p : Planner) (i : Nat) (path : String)
    (embeds : List String) (s : Schema) (segments : List String) :
    Except Error (Reached × Planner) → Prop
  | .ok (r, p') => Walks c mapped p i path embeds s segments r p'
  | .error error => Fails c p chain error

/-- At the end, a walk has come to the node or to the embedded schema where it is. -/
theorem comesTo_nil {embeds : List String} (hi : i < p.nodes.length)
    (hs : (p.node i).schema.embeddedAt? embeds = some s) :
    ComesTo c chain mapped p i path embeds s [] ((walkFrom c chain mapped i path embeds s []).run p) := by
  unfold walkFrom
  cases embeds with
  | nil =>
    obtain rfl : (p.node i).schema = s := Option.some.inj hs
    exact .node hi
  | cons name names => exact .embedded hi hs (List.cons_ne_nil name names)

/-- Walking goes on along a relation from the node that it is joined at, which may be mapped first. -/
theorem run_walkFrom_along {comp : Component} (hcomp : s.component? comp.name = some comp)
    (rest : List String) :
    (walkFrom c chain mapped i path [] s (comp.name :: rest)).run p =
      (child c i (pathTo path comp.name) comp).run p >>= fun (j, p') =>
        (walkFrom c chain mapped j (pathTo path comp.name) [] ((p'.setMappedIf mapped j).node j).schema
          rest).run (p'.setMappedIf mapped j) := by
  conv_lhs => unfold walkFrom
  simp only [hcomp]
  cases mapped <;> rfl

/-- A relation is no way on from an embedded schema. -/
theorem run_walkFrom_astray {segment : String} {embeds : List String} {comp : Component}
    (hcomp : s.component? segment = some comp) (hembeds : embeds ≠ []) (rest : List String) :
    (walkFrom c chain mapped i path embeds s (segment :: rest)).run p = .error (.unresolved chain) := by
  unfold walkFrom
  simp only [hcomp]
  rw [if_pos (by simpa using hembeds)]
  rfl

/-- What walking comes to from the node of a relation is what it comes to along the relation. -/
theorem ComesTo.along {comp : Component} {p₁ : Planner} {rest : List String}
    {out : Except Error (Reached × Planner)} (hi : i < p.nodes.length)
    (hcomp : (p.node i).schema.component? comp.name = some comp)
    (hjoins : Joins c p (pathTo path comp.name) i comp j p₁) (hj : j < p₁.nodes.length)
    (h : ComesTo c chain mapped (p₁.setMappedIf mapped j) j (pathTo path comp.name) []
      ((p₁.setMappedIf mapped j).node j).schema rest out) :
    ComesTo c chain mapped p i path [] (p.node i).schema (comp.name :: rest) out := by
  cases out with
  | ok x => exact Walks.along hi hcomp hjoins h
  | error e => exact Fails.of_steps h (hjoins.steps.trans (steps_setMappedIf c mapped hj))

/-- What walking comes to from an embedded schema is what it comes to through it. -/
theorem ComesTo.through {segment : String} {embeds rest : List String} {e : Schema}
    {out : Except Error (Reached × Planner)} (hcomp : s.component? segment = none)
    (hembedded : s.embedded? segment = some e)
    (h : ComesTo c chain mapped p i path (embeds ++ [segment]) e rest out) :
    ComesTo c chain mapped p i path embeds s (segment :: rest) out := by
  cases out with
  | ok x => exact Walks.through hcomp hembedded h
  | error e => exact h

/-- **Walking segments succeeds or fails so**, from a node or from a schema embedded in it. -/
theorem comesTo_walkFrom {segments embeds : List String} (hsound : Sound c p) (hi : i < p.nodes.length)
    (hs : (p.node i).schema.embeddedAt? embeds = some s) :
    ComesTo c chain mapped p i path embeds s segments
      ((walkFrom c chain mapped i path embeds s segments).run p) := by
  induction segments generalizing p i path embeds s with
  | nil => exact comesTo_nil hi hs
  | cons segment rest ih =>
    cases hcomp : s.component? segment with
    | some comp =>
      by_cases hembeds : embeds = []
      · -- a component is declared by the node's own schema
        subst hembeds
        obtain rfl : (p.node i).schema = s := Option.some.inj hs
        obtain rfl := Schema.name_of_component? hcomp
        rw [run_walkFrom_along hcomp]
        cases hchild : (child c i (pathTo path comp.name) comp).run p with
        | error error => exact .inr ⟨p, i, _, comp, .refl, hi, hcomp, hchild⟩
        | ok x =>
          have hjoins := joins_of_child hi hcomp hchild
          have hj := hjoins.lt hsound
          have hsound' := hsound.steps (hjoins.steps.trans (steps_setMappedIf c mapped hj))
          exact .along hi hcomp hjoins hj (ih hsound' (by simpa using hj) rfl)
      · rw [run_walkFrom_astray hcomp hembeds]
        exact .inl rfl
    | none =>
      unfold walkFrom
      simp only [hcomp]
      cases hembedded : s.embedded? segment with
      | some e =>
        refine .through hcomp hembedded (ih hsound hi ?_)
        rw [Schema.embeddedAt?_append, hs]
        exact congrArg (Option.bind · _) hembedded
      | none =>
        cases hatomic : s.atomic? segment with
        | some a =>
          obtain rfl := (Schema.mem_of_atomic? hatomic).2
          exact .scalar hi hs hcomp hembedded hatomic
        | none => exact .inl rfl

/-- A walk that succeeds goes along relations and through embedded schemas. -/
theorem walks_of_walkFrom {segments embeds : List String} {r : Reached} (hsound : Sound c p)
    (hi : i < p.nodes.length) (hs : (p.node i).schema.embeddedAt? embeds = some s)
    (h : (walkFrom c chain mapped i path embeds s segments).run p = .ok (r, p')) :
    Walks c mapped p i path embeds s segments r p' := by
  have hcomes : ComesTo c chain mapped p i path embeds s segments _ := comesTo_walkFrom hsound hi hs
  rwa [h] at hcomes

/-- A walk that does not leads nowhere, or to a relation that is not joined. -/
theorem fails_of_walkFrom {segments embeds : List String} {error : Error} (hsound : Sound c p)
    (hi : i < p.nodes.length) (hs : (p.node i).schema.embeddedAt? embeds = some s)
    (h : (walkFrom c chain mapped i path embeds s segments).run p = .error error) :
    Fails c p chain error := by
  have hcomes : ComesTo c chain mapped p i path embeds s segments _ := comesTo_walkFrom hsound hi hs
  rwa [h] at hcomes

/-- A first segment names a node. -/
theorem lt_of_root? {segment : String} (hsound : Sound c p) (h : p.root? segment = some i) :
    i < p.nodes.length := by
  unfold root? at h
  split at h
  · next j hfound =>
    obtain rfl := Option.some.inj h
    obtain ⟨l₁, l₂, hmem, -⟩ := List.lookup_eq_some_iff.1 hfound
    exact hsound.byPath (segment, j) (hmem ▸ List.mem_append_right _ List.mem_cons_self)
  · split at h
    · next j honly =>
      obtain rfl := Option.some.inj h
      have hmem : j ∈ p.roots.filter fun i => (p.node i).schema.name == segment :=
        honly ▸ List.mem_singleton_self j
      exact (hsound.roots j (List.mem_filter.1 hmem).1).1
    · cases h

/-- Walking a path is walking segments from some node, or leads nowhere. -/
theorem run_walk_eq {rooted : Bool} (hsound : Sound c p) (hnodes : 0 < p.nodes.length) :
    (walk c rooted chain mapped).run p = .error (.unresolved chain) ∨
      ∃ i < p.nodes.length, ∃ path segments, (walk c rooted chain mapped).run p =
        (walkFrom c chain mapped i path [] (p.node i).schema segments).run p := by
  unfold walk
  rw [run_get_bind]
  split
  · exact .inr ⟨0, hnodes, "", _, rfl⟩
  cases Text.splitDots chain with
  | nil => exact .inl rfl
  | cons first rest =>
    cases hroot : p.root? first with
    | none =>
      simp only [hroot]
      exact .inl rfl
    | some i =>
      simp only [hroot]
      exact .inr ⟨i, lt_of_root? hsound hroot, first, rest, rfl⟩

/-- A path that is walked leads from a node to what it reaches. -/
theorem walks_of_walk {rooted : Bool} {r : Reached} (hsound : Sound c p) (hnodes : 0 < p.nodes.length)
    (h : (walk c rooted chain mapped).run p = .ok (r, p')) :
    ∃ i path segments, Walks c mapped p i path [] (p.node i).schema segments r p' := by
  rcases run_walk_eq hsound hnodes with hrun | ⟨i, hi, path, segments, hrun⟩
  · cases hrun.symm.trans h
  · exact ⟨i, path, segments, walks_of_walkFrom hsound hi rfl (hrun.symm.trans h)⟩

/-- A path that is not walked leads nowhere, or to a relation that is not joined. -/
theorem fails_of_walk {rooted : Bool} {error : Error} (hsound : Sound c p) (hnodes : 0 < p.nodes.length)
    (h : (walk c rooted chain mapped).run p = .error error) : Fails c p chain error := by
  rcases run_walk_eq hsound hnodes with hrun | ⟨i, hi, path, segments, hrun⟩
  · exact .inl (Except.error.inj (h.symm.trans hrun))
  · exact fails_of_walkFrom hsound hi rfl (hrun.symm.trans h)

end Planner

end EntityGraph
