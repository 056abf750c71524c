import EntityGraph.Proofs.Causes
import EntityGraph.Proofs.Deleting
import EntityGraph.Proofs.Sides

/-!
# Policies that cannot be applied

Where rows are deleted by their key, nothing is loaded. What refers to them through another atomic than
the key is found by a query for that atomic, which has to be unique. If it is not, the deletion is
refused. But a deletion deals with one relation after the other, and it finds out about each when it is
its turn. So it is refused before any statement only if nothing is sent for the relations before.

* `Catalog.Ambiguous` — the policy of a relation cannot be applied;
* `Catalog.Silent` — nothing is sent for a relation before the rows go;
* `Catalog.RefusedAtOnce` — the first relation of a type that is not silent is ambiguous.

## Main results

* `Session.sends_nothing_iff`: a deletion by key that is refused for that reason has sent nothing iff the
  type is refused at once. It is then refused whatever storage has, and nothing in memory has changed.
* `Session.sends_before_refusal`: a deletion that is refused after a statement.
-/

namespace EntityGraph

/-! ### Relations of rows that are not loaded -/

namespace Catalog

/-- The policy of a relation cannot be applied to what refers to rows that are not loaded: the foreign key
is on the other side, and refers to an atomic that is neither the key nor unique. -/
structure Ambiguous (c : Catalog) (s : Schema) (comp : Component) (a : Atomic) : Prop where
  policy : comp.onDelete ≠ .keep
  join : ∃ join, c.join s comp = .ok join ∧ join.side = .there ∧ s.atomic? join.referenced = some a
  key : a.primaryKey = false
  unique : a.constraints.unique = false

/-- Nothing is sent for a relation before the rows go: it has no policy, or it has its foreign key here
and does not cascade along it, or the foreign key is the key of the rows. -/
def Silent (c : Catalog) (s : Schema) (comp : Component) : Prop :=
  comp.onDelete = .keep ∨ ∃ join, c.join s comp = .ok join ∧ join.side = .here ∧
    (comp.onDelete ≠ .cascade ∨ ∃ a, s.atomic? join.foreignKey = some a ∧ a.primaryKey = true)

/-- The first relation of a type that is not silent is ambiguous. -/
def RefusedAtOnce (c : Catalog) (s : Schema) : Prop :=
  ∃ before comp after a, s.components = before ++ comp :: after ∧
    (∀ b ∈ before, c.Silent s b) ∧ c.Ambiguous s comp a

/-- How a deletion is refused that cannot apply a policy. -/
def refusal (s : Schema) (comp : Component) (a : Atomic) : Error :=
  .malformedRelation s.name comp.name (.policyNeedsUnique a.name)

/-- A failure that blames the policy of a relation for an atomic that is not unique does so for a relation
whose policy cannot be applied. -/
def Accounts (c : Catalog) (e : Error) : Prop :=
  ∀ type property referenced, e = .malformedRelation type property (.policyNeedsUnique referenced) →
    ∃ s comp a, c.schema type = .ok s ∧ comp ∈ s.components ∧ comp.name = property ∧
      c.Ambiguous s comp a ∧ a.name = referenced

variable {c : Catalog} {s : Schema} {comp : Component} {a : Atomic} {e : Error}

/-- No structural failure blames a policy. -/
theorem Accounts.of_structural (h : e.Structural) : c.Accounts e := by
  rintro type property referenced rfl
  exact h.elim

/-- Nor does the database. -/
theorem accounts_database (sql message : String) : c.Accounts (.database sql message) :=
  fun _ _ _ h => nomatch h

/-- A refusal does so for a relation that is ambiguous. -/
theorem Accounts.of_ambiguous (hs : c.schema s.name = .ok s) (hcomp : comp ∈ s.components)
    (h : c.Ambiguous s comp a) : c.Accounts (refusal s comp a) := by
  intro type property referenced heq
  obtain ⟨rfl, rfl, hfault⟩ := Error.malformedRelation.inj heq
  exact ⟨s, comp, a, hs, hcomp, rfl, h, RelationFault.policyNeedsUnique.inj hfault⟩

end Catalog

namespace Deletion

open Catalog Traversal

variable {σ : Type} [Connection σ] {c : Catalog} {d : Doomed} {comp : Component} {join : Join}
  {a : Atomic} {target : Schema} {delete : Doomed → DeletionM σ Unit}
  {t t' t'' : Traversal (String × Value) σ}

/-! ### What is sent for a relation -/

/-- Rows that are not loaded may be referred to. -/
theorem isSome_of_referenceCondition? {g : Graph} {column : String} {condition? : Option Expr}
    (hloaded : d.loaded = none) (h : referenceCondition? g d comp join column = .ok condition?) :
    condition?.isSome = true := by
  unfold referenceCondition? at h
  obtain ⟨a, -, h⟩ := bind_eq_ok_iff.1 h
  simp only [hloaded] at h
  split at h
  · exact Except.ok.inj h ▸ rfl
  · split at h
    · cases h
    · obtain ⟨_, -, h⟩ := bind_eq_ok_iff.1 h
      exact Except.ok.inj h ▸ rfl

/-- The condition that refers to rows that are not loaded is found, unless the relation is ambiguous. -/
theorem ambiguous_of_referenceCondition? {g : Graph} {column : String} {e : Error}
    (hloaded : d.loaded = none) (hpolicy : comp.onDelete ≠ .keep)
    (hjoin : c.join d.schema comp = .ok join) (hside : join.side = .there)
    (h : referenceCondition? g d comp join column = .error e) :
    e.Structural ∨ ∃ a, c.Ambiguous d.schema comp a ∧ e = refusal d.schema comp a := by
  unfold referenceCondition? at h
  rcases bind_eq_error_iff.1 h with h | ⟨a, ha, h⟩
  · exact .inl (Schema.structural_of_atomic h)
  simp only [hloaded] at h
  split at h
  · cases h
  next hkey =>
  split at h
  · next hunique =>
    obtain rfl := Except.error.inj h
    refine .inr ⟨a, ⟨hpolicy, ⟨join, hjoin, hside, Schema.atomic_eq_ok_iff.1 ha⟩, ?_, ?_⟩, rfl⟩
    · exact Bool.eq_false_iff.2 hkey
    · simpa using hunique
  · rcases bind_eq_error_iff.1 h with h | ⟨_, -, h⟩
    · exact .inl (Schema.structural_of_key h)
    · cases h

/-- Something has been sent. -/
def Sends (t t' : Traversal (String × Value) σ) : Prop :=
  t.world.wire.sent.length < t'.world.wire.sent.length

/-- Nothing in memory has changed, and what was sent stays so. -/
structure Aloof (t t' : Traversal (String × Value) σ) : Prop where
  graph : t'.world.graph = t.world.graph
  sent : t.world.wire.sent.length ≤ t'.world.wire.sent.length

omit [Connection σ] in
theorem Aloof.refl (t : Traversal (String × Value) σ) : Aloof t t :=
  ⟨rfl, Nat.le_refl _⟩

omit [Connection σ] in
/-- A statement that is sent changes nothing in memory. -/
theorem Aloof.sent_after {r : String × Value} {l : List Statement} (h : Aloof t t')
    (hsent : Sent r l t' t'') : Aloof t t'' where
  graph := hsent.graph.trans h.graph
  sent := Nat.le_trans h.sent (by rw [hsent.sent, List.length_append]; exact Nat.le_add_right _ _)

omit [Connection σ] in
/-- One statement is something. -/
theorem Sends.of_sent {r : String × Value} {statement : Statement} (h : Sent r [statement] t t') :
    Sends t t' := by
  rw [Sends, h.sent]
  simp

omit [Connection σ] in
/-- The steps of deleting rows that are not loaded change nothing in memory. -/
theorem aloof_rules (c : Catalog) (t₀ : Traversal (String × Value) σ) :
    Rules c (fun d => d.loaded = none) (Aloof t₀) (fun _ => Aloof t₀) := by
  refine ⟨fun _ _ h _ => h, fun _ _ _ h => ⟨h.graph, h.sent⟩, fun _ _ _ _ _ h => h.sent_after,
    fun _ _ _ _ _ h => h.sent_after, fun _ _ _ _ _ _ _ h => h.sent_after,
    fun d x _ _ _ hd hx => ?_, fun d x _ hd hx => ?_, fun d comp target t v hd _ _ _ _ _ _ => ⟨rfl, ?_⟩⟩
  · rw [hd] at hx
    cases hx
  · rw [hd] at hx
    cases hx
  · intro x hx
    simp only [known, hd, List.not_mem_nil] at hx

omit [Connection σ] in
theorem Sends.aloof (h : Sends t t') (h' : Aloof t' t'') : Sends t t'' :=
  Nat.lt_of_lt_of_le h h'.sent

omit [Connection σ] in
theorem Aloof.sends (h : Aloof t t') (h' : Sends t' t'') : Sends t t'' :=
  Nat.lt_of_le_of_lt h.sent h'

omit [Connection σ] in
theorem Sends.trans (h : Sends t t') (h' : Sends t' t'') : Sends t t'' :=
  Nat.lt_trans h h'

/-- How the work for a relation of rows that are not loaded fails: after something has been sent, for a
structural reason, or because the relation is ambiguous. -/
def Stops (c : Catalog) (s : Schema) (t : Traversal (String × Value) σ) (e : Error)
    (t' : Traversal (String × Value) σ) (comp : Component) : Prop :=
  Sends t t' ∨ e.Structural ∨ ∃ a, c.Ambiguous s comp a ∧ e = refusal s comp a

section sends

variable (hdelete : ∀ t₀, Keeps (fun d => d.loaded = none) (Aloof t₀) (fun _ => Aloof t₀) delete)

include hdelete

/-- Rows are asked for before any of them is deleted. -/
theorem ends_deleteMatching_sends {table : String} {condition : Expr} :
    (deleteMatching delete d target table condition []).Ends t (fun _ t' => Sends t t')
      (fun e t' => Sends t t' ∨ e.Structural) := by
  unfold deleteMatching
  rw [Act.ends_bind, Act.ends_ofExcept]
  refine ⟨fun key _ => ?_, fun e he => .inr (Schema.structural_of_key he)⟩
  rw [Act.ends_bind]
  refine ends_onWire_select (fun rows t₁ _ hsent => ?_) fun _ t' hsent => .inl (.of_sent hsent)
  refine Act.ends_forM (fun row _ t₂ h₂ => ?_) (Sends.of_sent hsent.toSent)
  rw [Act.ends_bind, Act.ends_ofExcept]
  refine ⟨fun v _ => ?_, fun _ _ => .inl h₂⟩
  simp only [Act.ends_ite, Act.ends_pure, Act.ends_bind, ends_graph]
  refine ⟨fun _ => h₂, fun _ => ?_⟩
  exact (hdelete t₂ ⟨target, v, none⟩ t₂ rfl (.refl t₂)).mono (fun _ _ h => h₂.aloof h)
    fun _ _ h => .inl (h₂.aloof h)

/-- The policy of a relation whose foreign key is on the other side sends a statement. -/
theorem ends_applyPolicy_sends (hloaded : d.loaded = none) (hpolicy : comp.onDelete ≠ .keep)
    (hjoin : c.join d.schema comp = .ok join) (hside : join.side = .there) :
    (applyPolicy c delete d comp join).Ends t (fun _ t' => Sends t t')
      (fun e t' => Stops c d.schema t e t' comp) := by
  unfold applyPolicy
  simp only [Act.ends_bind, ends_graph, Act.ends_ofExcept]
  refine ⟨fun target _ => ⟨fun foreignKey _ => ⟨fun condition? hcondition => ?_, fun e he => ?_⟩,
    fun e he => .inr (.inl (Schema.structural_of_atomic he))⟩,
    fun e he => .inr (.inl (Catalog.structural_of_schema he))⟩
  · obtain ⟨condition, rfl⟩ := Option.isSome_iff_exists.1
      (isSome_of_referenceCondition? hloaded hcondition)
    cases hcase : comp.onDelete with
    | keep => exact absurd hcase hpolicy
    | setNull =>
      simp only [hloaded, Act.ends_bind, Act.ends_pure]
      exact ends_onWire_update (fun hnil => by cases hnil)
        (fun _ t' _ hsent => Sends.of_sent hsent.toSent) fun _ t' _ hsent => .inl (.of_sent hsent)
    | cascade =>
      simp only [Act.ends_bind, ends_graph, known, hloaded]
      exact (ends_deleteMatching_sends hdelete).mono (fun _ _ h => h)
        fun _ _ h => h.imp_right .inl
  · exact .inr (ambiguous_of_referenceCondition? hloaded hpolicy hjoin hside he)

end sends

/-- A value that rows do not have as their key is asked for. -/
theorem ends_storedValue_sends (hloaded : d.loaded = none) (name : String) :
    (storedValue d name).Ends t
      (fun _ t' => Sends t t' ∨ t' = t ∧ ∃ a, d.schema.atomic? name = some a ∧ a.primaryKey = true)
      (fun e t' => Sends t t' ∨ e.Structural) := by
  unfold storedValue
  rw [Act.ends_bind, Act.ends_ofExcept]
  refine ⟨fun a ha => ?_, fun e he => .inr (Schema.structural_of_atomic he)⟩
  simp only [Act.ends_ite, Act.ends_pure, hloaded]
  refine ⟨fun hkey => .inr ⟨trivial, a, Schema.atomic_eq_ok_iff.1 ha, hkey⟩, fun _ => ?_⟩
  simp only [Act.ends_bind]
  rw [Act.ends_ofExcept]
  refine ⟨fun key _ => ?_, fun e he => .inr (Schema.structural_of_key he)⟩
  refine ends_onWire_select (fun rows t₁ _ hsent => ?_) fun _ t' hsent => .inl (.of_sent hsent)
  rw [Act.ends_ofExcept]
  exact ⟨fun _ _ => .inl (.of_sent hsent.toSent), fun _ _ => .inl (.of_sent hsent.toSent)⟩

/-- The work for a relation sends something, or the relation is silent and nothing has happened. -/
theorem ends_prepare_sends (hdelete : ∀ t₀, Keeps (fun d => d.loaded = none) (Aloof t₀) (fun _ => Aloof t₀) delete)
    (hloaded : d.loaded = none) :
    (prepare c delete d comp).Ends t
      (fun _ t' => Sends t t' ∨ t' = t ∧ c.Silent d.schema comp)
      (fun e t' => Stops c d.schema t e t' comp) := by
  unfold prepare
  simp only [Act.ends_ite, Act.ends_pure]
  refine ⟨fun hkeep => .inr ⟨trivial, .inl hkeep⟩, fun hpolicy => ?_⟩
  rw [Act.ends_bind, Act.ends_ofExcept]
  refine ⟨fun join hjoin => ?_, fun e he => .inr (.inl (Catalog.structural_of_join he))⟩
  cases hside : join.side with
  | there =>
    simp only [Act.ends_bind, Act.ends_pure]
    exact (ends_applyPolicy_sends hdelete hloaded hpolicy hjoin hside).mono (fun _ _ h => .inl h)
      fun _ _ h => h
  | here =>
    simp only [Act.ends_ite, Act.ends_pure, Act.ends_bind]
    refine ⟨fun hnot => .inr ⟨trivial, .inr ⟨join, hjoin, hside, .inl hnot⟩⟩, fun _ => ?_⟩
    refine (ends_storedValue_sends hloaded join.foreignKey).mono (fun _ _ h => ?_)
      fun _ _ h => h.imp_right .inl
    exact h.imp_right fun hkey => ⟨hkey.1, .inr ⟨join, hjoin, hside, .inr hkey.2⟩⟩

/-! ### Refusals -/

/-- The first of some relations that is not silent is ambiguous. -/
def Refused (c : Catalog) (s : Schema) (l : List Component) (e : Error) : Prop :=
  ∃ before comp after a, l = before ++ comp :: after ∧ (∀ b ∈ before, c.Silent s b) ∧
    c.Ambiguous s comp a ∧ e = refusal s comp a

/-- A relation for which nothing is sent may come before. -/
theorem Refused.cons {s : Schema} {b : Component} {l : List Component} {e : Error}
    (hb : c.Silent s b) (h : Refused c s l e) : Refused c s (b :: l) e := by
  obtain ⟨before, comp, after, a, rfl, hbefore, hrest⟩ := h
  exact ⟨b :: before, comp, after, a, rfl, List.forall_mem_cons.2 ⟨hb, hbefore⟩, hrest⟩

/-- The work for some relations sends something, or nothing has happened; and it fails after something
has been sent, for a structural reason, or at the first relation that is not silent. -/
theorem ends_prepareAll_sends (hdelete : ∀ t₀, Keeps (fun d => d.loaded = none) (Aloof t₀) (fun _ => Aloof t₀) delete)
    (hloaded : d.loaded = none) {l : List Component} (hl : l ⊆ d.schema.components) :
    (l.mapM (prepare c delete d)).Ends t (fun _ t' => Sends t t' ∨ t' = t)
      (fun e t' => Sends t t' ∨ e.Structural ∨ Refused c d.schema l e) := by
  induction l with
  | nil => exact .inr rfl
  | cons comp l ih =>
    obtain ⟨hcomp, hl⟩ := List.cons_subset.1 hl
    rw [List.mapM_cons, Act.ends_bind]
    refine (ends_prepare_sends hdelete hloaded).mono (fun _ t₁ h₁ => ?_) fun e t' h => ?_
    · simp only [Act.ends_bind, Act.ends_pure]
      rcases h₁ with hsends | ⟨rfl, hsilent⟩
      · -- what follows does not take back what has been sent
        exact (ends_prepareAll_keeps (aloof_rules c t₁) (hdelete t₁) hloaded hl (.refl t₁)).mono
          (fun _ _ h => .inl (hsends.aloof h.1)) fun _ _ h => .inl (hsends.aloof h)
      · refine (ih hl).mono (fun _ _ h => h) fun e t' h => h.imp_right (Or.imp_right ?_)
        exact .cons hsilent
    · refine h.imp_right (Or.imp_right ?_)
      rintro ⟨a, hambiguous, rfl⟩
      exact ⟨[], comp, l, a, rfl, List.forall_mem_nil _, hambiguous, rfl⟩

/-- The rows of an entity are deleted by statements. -/
theorem ends_deleteRows_sends {tables : List String} (hne : tables ≠ []) (r : String × Value)
    (conditions : List Expr) :
    (tables.forM fun table => do
      let statement : Delete := { table, conditions }
      let _ ← onWire r statement.execute : DeletionM σ Unit).Ends t
      (fun _ t' => Sends t t') (fun _ t' => Sends t t') := by
  have hone : ∀ (t₁ : Traversal (String × Value) σ) (table : String),
      (do
        let statement : Delete := { table, conditions }
        let _ ← onWire r statement.execute : DeletionM σ Unit).Ends t₁
        (fun _ t' => Sends t₁ t') (fun _ t' => Sends t₁ t') := by
    intro t₁ table
    simp only [Act.ends_bind, Act.ends_pure]
    exact ends_onWire_delete (fun _ t' hsent => .of_sent hsent.toSent) fun _ t' hsent => .of_sent hsent
  obtain ⟨table, tables, rfl⟩ := List.exists_cons_of_ne_nil hne
  rw [Act.ends_forM_cons]
  refine (hone t table).mono (fun _ t₁ h₁ => ?_) fun _ _ h => h
  exact Act.ends_forM (fun table _ t₂ h₂ => (hone t₂ table).mono (fun _ _ h => h₂.trans h)
    fun _ _ h => h₂.trans h) h₁

/-- A deletion of rows that have not been entered and are not loaded, where it fails, has sent something,
or fails for a structural reason or for want of depth, or at the first relation that is not silent. -/
theorem ends_deleteFrom_sends (depth : Nat) (hloaded : d.loaded = none) (hentered : d.row ∉ t.entered) :
    (deleteFrom c depth d).Ends t (fun _ _ => True)
      (fun e t' => Sends t t' ∨ e.Structural ∨ e = .exhausted ∨
        Refused c d.schema d.schema.components e) := by
  have hdelete (depth : Nat) (t₀ : Traversal (String × Value) σ) :
      Keeps (fun d => d.loaded = none) (Aloof t₀) (fun _ => Aloof t₀) (deleteFrom c depth) :=
    ends_deleteFrom (aloof_rules c t₀) depth
  cases depth with
  | zero => exact .inr (.inr (.inl rfl))
  | succ depth =>
    unfold deleteFrom
    rw [Act.ends_bind, Act.Ends, enter_of_not_mem hentered]
    simp only [Bool.not_true, Bool.false_eq_true, if_false]
    rw [Act.ends_bind, Act.ends_ofExcept]
    refine ⟨fun key _ => ?_, fun e he => .inr (.inl (Schema.structural_of_key he))⟩
    set t₀ : Traversal (String × Value) σ := { t with entered := d.row :: t.entered }
    have hall : d.schema.components ⊆ d.schema.components := List.Subset.refl _
    rw [Act.ends_bind]
    refine ((ends_prepareAll_sends (hdelete depth) hloaded hall).and (ends_prepareAll_keeps
      (aloof_rules c t₀) (hdelete depth t₀) hloaded hall (.refl t₀))).mono (fun owned t₁ h₁ => ?_)
      fun e t' h => h.1.imp_right (Or.imp_right .inr)
    obtain ⟨haloof, howned⟩ := h₁.2
    rw [Act.ends_bind]
    refine (ends_deleteRows_sends (by simp) d.row _).mono (fun _ t₂ h₂ => ?_)
      fun _ _ h => .inl (haloof.sends h)
    have hsends : Sends t t₂ := haloof.sends h₂
    rw [Act.ends_bind]
    refine (Act.ends_forM (I := Aloof t₂) (fun o ho t₃ h₃ => ?_) (.refl t₂)).mono (fun _ t₃ _ => ?_)
      fun _ _ h => .inl (hsends.aloof h)
    · exact ends_deleteOwned_keeps (aloof_rules c t₂) (hdelete depth t₂) hloaded
        ((howned o ho).of_not_loaded hloaded) h₃
    · simp only [hloaded]
      trivial

/-! ### Refusals at once -/

/-- Nothing happens for a relation that is silent. -/
theorem ends_prepare_of_silent (h : c.Silent d.schema comp) :
    (prepare c delete d comp).Ends t (fun _ t' => t' = t) (fun _ _ => False) := by
  unfold prepare
  rcases h with hkeep | ⟨join, hjoin, hside, hsilent⟩
  · rw [if_pos hkeep]
    rfl
  rw [Act.ends_ite]
  refine ⟨fun _ => rfl, fun _ => ?_⟩
  simp only [hjoin, hside, Act.ends_bind, Act.ends_ofExcept_ok, Act.ends_ite, Act.ends_pure]
  refine ⟨fun _ => trivial, fun hcascade => ?_⟩
  obtain ⟨a, ha, hkey⟩ := hsilent.resolve_left hcascade
  unfold storedValue
  rw [Act.ends_bind, Schema.atomic_eq_ok_iff.2 ha, Act.ends_ofExcept_ok, if_pos hkey]
  rfl

/-- A relation that is ambiguous is refused. -/
theorem ends_prepare_of_ambiguous (hloaded : d.loaded = none) (h : c.Ambiguous d.schema comp a) :
    (prepare c delete d comp).Ends t (fun _ _ => False)
      (fun e t' => e = refusal d.schema comp a ∧ t' = t) := by
  obtain ⟨join, hjoin, hside, ha⟩ := h.join
  obtain ⟨target, foreignKey, htarget, hforeignKey⟩ := Catalog.declared_of_there hjoin hside
  have hrefused : referenceCondition? t.world.graph d comp join foreignKey.column =
      .error (refusal d.schema comp a) := by
    simp [referenceCondition?, Schema.atomic_eq_ok_iff.2 ha, h.key, h.unique, hloaded, refusal, bind,
      Except.bind, throw, throwThe, MonadExceptOf.throw]
  unfold prepare applyPolicy
  rw [if_neg h.policy]
  simp only [hjoin, hside, htarget, Schema.atomic_eq_ok_iff.2 hforeignKey, Act.ends_bind, ends_graph,
    Act.ends_ofExcept_ok, hrefused, Act.ends_ofExcept_error]
  exact ⟨trivial, trivial⟩

/-- Among some relations the first one that is not silent decides. -/
theorem ends_prepareAll_of_refused (hloaded : d.loaded = none) {before after : List Component}
    (hbefore : ∀ b ∈ before, c.Silent d.schema b) (h : c.Ambiguous d.schema comp a) :
    ((before ++ comp :: after).mapM (prepare c delete d)).Ends t (fun _ _ => False)
      (fun e t' => e = refusal d.schema comp a ∧ t' = t) := by
  induction before with
  | nil =>
    rw [List.nil_append, List.mapM_cons, Act.ends_bind]
    exact (ends_prepare_of_ambiguous hloaded h).mono (fun _ _ hfalse => hfalse.elim) fun _ _ h => h
  | cons b before ih =>
    obtain ⟨hb, hbefore⟩ := List.forall_mem_cons.1 hbefore
    rw [List.cons_append, List.mapM_cons, Act.ends_bind]
    refine (ends_prepare_of_silent hb).mono (fun _ t' ht => ?_) fun _ _ hfalse => hfalse.elim
    rw [ht, Act.ends_bind]
    exact (ih hbefore).mono (fun _ _ hfalse => hfalse.elim) fun _ _ h => h

/-- Rows of a type that is refused at once are not deleted. -/
theorem ends_deleteFrom_of_refused (depth : Nat) {key : Atomic} {before after : List Component}
    (hloaded : d.loaded = none) (hentered : d.row ∉ t.entered) (hkey : d.schema.key = .ok key)
    (hcomponents : d.schema.components = before ++ comp :: after)
    (hbefore : ∀ b ∈ before, c.Silent d.schema b) (h : c.Ambiguous d.schema comp a) :
    (deleteFrom c (depth + 1) d).Ends t (fun _ _ => False)
      (fun e t' => e = refusal d.schema comp a ∧ t'.world = t.world) := by
  unfold deleteFrom
  rw [Act.ends_bind, Act.Ends, enter_of_not_mem hentered]
  simp only [Bool.not_true, Bool.false_eq_true, if_false]
  rw [Act.ends_bind, hkey, Act.ends_ofExcept_ok, hcomponents, Act.ends_bind]
  refine (ends_prepareAll_of_refused hloaded hbefore h).mono (fun _ _ hfalse => hfalse.elim) ?_
  rintro e t' ⟨he, rfl⟩
  exact ⟨he, rfl⟩

/-! ### What a refusal names -/

section accounts

omit [Connection σ] in
theorem accounts_ofExcept {α : Type} {x : Except Error α}
    (h : ∀ {e}, x = .error e → e.Structural) :
    Act.Fails c.Accounts (Act.ofExcept x : DeletionM σ α) :=
  Act.fails_ofExcept fun _ he => .of_structural (h he)

theorem accounts_send {α : Type} (r : String × Value) (statement : Statement)
    (answer : σ → Except String α × σ) :
    Act.Fails c.Accounts (onWire r (Wire.send statement answer) : DeletionM σ α) :=
  Fails.onWire (fails_send_of_database accounts_database statement answer)

variable (hdelete : ∀ d : Doomed, d.loaded = none → c.schema d.schema.name = .ok d.schema →
  Act.Fails c.Accounts (delete d))

include hdelete

theorem accounts_deleteMatching (htarget : c.schema target.name = .ok target) (table : String)
    (condition : Expr) :
    Act.Fails c.Accounts (deleteMatching delete d target table condition []) := by
  unfold deleteMatching
  refine (accounts_ofExcept Schema.structural_of_key).bind fun key => ?_
  refine (accounts_send _ _ _).bind fun rows => ?_
  refine Act.fails_forM fun row _ => ?_
  refine (accounts_ofExcept Atomic.structural_of_coerce).bind fun v => ?_
  exact .ite (Act.fails_pure ()) (fails_graph.bind fun g => hdelete _ rfl htarget)

theorem accounts_applyPolicy (hloaded : d.loaded = none) (hd : c.schema d.schema.name = .ok d.schema)
    (hcomp : comp ∈ d.schema.components) (hpolicy : comp.onDelete ≠ .keep)
    (hjoin : c.join d.schema comp = .ok join) (hside : join.side = .there) :
    Act.Fails c.Accounts (applyPolicy c delete d comp join) := by
  rw [Act.fails_iff_ends]
  intro t
  unfold applyPolicy
  simp only [Act.ends_bind, ends_graph, Act.ends_ofExcept]
  refine ⟨fun target htarget => ⟨fun foreignKey _ => ⟨fun condition? _ => ?_, fun e he => ?_⟩,
    fun e he => .of_structural (Schema.structural_of_atomic he)⟩,
    fun e he => .of_structural (Catalog.structural_of_schema he)⟩
  · cases condition? with
    | none => trivial
    | some condition =>
      refine Act.fails_iff_ends.1 ?_ t
      cases comp.onDelete with
      | keep => exact Act.fails_pure ()
      | setNull =>
        simp only [hloaded]
        exact (Fails.onWire (.ite (Act.fails_pure 0)
          (fails_send_of_database accounts_database _ _))).bind fun _ => Act.fails_pure ()
      | cascade =>
        simp only [known, hloaded]
        exact fails_graph.bind fun _ =>
          accounts_deleteMatching hdelete (Catalog.schema_schema_name htarget) _ _
  · rcases ambiguous_of_referenceCondition? hloaded hpolicy hjoin hside he with he | ⟨a, ha, rfl⟩
    · exact .of_structural he
    · exact .of_ambiguous hd hcomp ha

theorem accounts_prepare (hloaded : d.loaded = none) (hd : c.schema d.schema.name = .ok d.schema)
    (hcomp : comp ∈ d.schema.components) : Act.Fails c.Accounts (prepare c delete d comp) := by
  rw [Act.fails_iff_ends]
  intro t
  unfold prepare
  simp only [Act.ends_ite, Act.ends_pure, Act.ends_bind, Act.ends_ofExcept]
  refine ⟨fun _ => trivial, fun hpolicy =>
    ⟨fun join hjoin => ?_, fun e he => .of_structural (Catalog.structural_of_join he)⟩⟩
  cases hside : join.side with
  | there =>
    refine Act.fails_iff_ends.1 ?_ t
    exact (accounts_applyPolicy hdelete hloaded hd hcomp hpolicy hjoin hside).bind fun _ =>
      Act.fails_pure none
  | here =>
    simp only [Act.ends_ite, Act.ends_pure, Act.ends_bind]
    refine ⟨fun _ => trivial, fun _ => ?_⟩
    refine Act.fails_iff_ends.1 ?_ t
    unfold storedValue
    refine (accounts_ofExcept Schema.structural_of_atomic).bind fun a => .ite (Act.fails_pure _) ?_
    simp only [hloaded]
    refine (accounts_ofExcept Schema.structural_of_key).bind fun key => ?_
    refine (accounts_send _ _ _).bind fun rows => ?_
    exact accounts_ofExcept Atomic.structural_of_coerce

theorem accounts_deleteOwned (hloaded : d.loaded = none) (o : Owned) :
    Act.Fails c.Accounts (deleteOwned c delete d o) := by
  rw [Act.fails_iff_ends]
  intro t
  unfold deleteOwned
  simp only [Act.ends_bind, ends_graph, Act.ends_ofExcept, known, hloaded]
  refine ⟨fun target htarget =>
    ⟨fun a _ => ?_, fun e he => .of_structural (Schema.structural_of_atomic he)⟩,
    fun e he => .of_structural (Catalog.structural_of_schema he)⟩
  have hname := Catalog.schema_schema_name htarget
  exact Act.fails_iff_ends.1 (.ite (hdelete _ rfl hname) (accounts_deleteMatching hdelete hname _ _)) t

end accounts

/-- A deletion that blames a policy does so for a relation that is ambiguous. -/
theorem accounts_deleteFrom (depth : Nat) (hloaded : d.loaded = none)
    (hd : c.schema d.schema.name = .ok d.schema) :
    Act.Fails c.Accounts (deleteFrom c depth d : DeletionM σ Unit) := by
  induction depth generalizing d with
  | zero => exact Act.fails_throw fun _ _ _ h => nomatch h
  | succ depth ih =>
    have hdelete : ∀ d : Doomed, d.loaded = none → c.schema d.schema.name = .ok d.schema →
        Act.Fails c.Accounts (deleteFrom c depth d : DeletionM σ Unit) := fun _ => ih
    unfold deleteFrom
    refine Act.Fails.bind (fun t e t' h => ?_) fun new => .ite (Act.fails_pure ()) ?_
    · unfold enter at h
      split at h <;> cases h
    refine (accounts_ofExcept Schema.structural_of_key).bind fun key => ?_
    refine (Act.fails_mapM fun comp hcomp => accounts_prepare hdelete hloaded hd hcomp).bind
      fun owned => ?_
    refine (Act.fails_forM fun table _ => ?_).bind fun _ => ?_
    · exact (accounts_send _ _ _).bind fun _ => Act.fails_pure ()
    refine (Act.fails_forM fun o _ => accounts_deleteOwned hdelete hloaded o).bind fun _ => ?_
    simp only [hloaded]
    exact Act.fails_pure ()

/-- How a deletion of rows that are not loaded fails, seen from outside. -/
theorem ends_run_sends {w : World σ} (hloaded : d.loaded = none)
    (hd : c.schema d.schema.name = .ok d.schema) :
    (Deletion.run c d).Ends w (fun _ _ => True) fun e w' =>
      c.Accounts e ∧ w'.graph = w.graph ∧ (w.wire.sent.length < w'.wire.sent.length ∨ e.Structural ∨
        e = .exhausted ∨ Refused c d.schema d.schema.components e) := by
  unfold Deletion.run
  rw [Act.ends_bind, Act.ends_get, Traversal.ends_run_iff]
  have haccounts := Act.fails_iff_ends.1 (accounts_deleteFrom (depthBound c w) hloaded hd) { world := w }
  have haloof := ends_deleteFrom (aloof_rules c { world := w }) (depthBound c w) d { world := w }
    hloaded (.refl _)
  have hsends := ends_deleteFrom_sends (c := c) (t := { world := w }) (depthBound c w) hloaded
    List.not_mem_nil
  exact (haccounts.and (haloof.and hsends)).mono (fun _ _ _ => trivial)
    fun _ _ h => ⟨h.1, h.2.1.graph, h.2.2⟩

/-- Rows of a type that is refused at once are not deleted, whatever the world is. -/
theorem run_of_refused {key : Atomic} {before after : List Component} (hloaded : d.loaded = none)
    (hkey : d.schema.key = .ok key) (hcomponents : d.schema.components = before ++ comp :: after)
    (hbefore : ∀ b ∈ before, c.Silent d.schema b) (h : c.Ambiguous d.schema comp a) (w : World σ) :
    Deletion.run c d w = .error (refusal d.schema comp a) w := by
  obtain ⟨depth, hdepth⟩ : ∃ depth, depthBound c w = depth + 1 :=
    Nat.exists_eq_add_one.2 (Nat.mul_pos (Nat.succ_pos _) (by omega))
  have hends := ends_deleteFrom_of_refused (t := { world := w }) depth hloaded
    List.not_mem_nil hkey hcomponents hbefore h
  have hrun : (Deletion.run c d).Ends w (fun _ _ => False)
      (fun e w' => e = refusal d.schema comp a ∧ w' = w) := by
    unfold Deletion.run
    rw [Act.ends_bind, Act.ends_get, Traversal.ends_run_iff, hdepth]
    exact hends
  cases hcase : Deletion.run c d w with
  | ok a w' => exact (hrun.of_ok hcase).elim
  | error e w' =>
    obtain ⟨rfl, rfl⟩ := hrun.of_error hcase
    rfl

end Deletion

namespace Session

open Catalog

variable {σ : Type} [Connection σ] {ses : Session} {type : String} {s : Schema} {key : Value}

/-- A deletion by key fails for a structural reason, or deletes rows that are not loaded. -/
theorem deleteByKey_cases (key : Value) (hs : ses.catalog.schema type = .ok s) :
    (∃ e, e.Structural ∧ ∀ w : World σ, ses.deleteByKey type key w = .error e w) ∨
      ∃ a v, s.key = .ok a ∧
        ∀ w : World σ, ses.deleteByKey type key w = Deletion.run ses.catalog ⟨s, v, none⟩ w := by
  simp only [deleteByKey, bind, EStateM.bind, hs, Act.ofExcept]
  cases ha : s.key with
  | error e => exact .inl ⟨e, Schema.structural_of_key ha, fun _ => rfl⟩
  | ok a =>
    cases hv : a.coerce s.name key with
    | error e => exact .inl ⟨e, Atomic.structural_of_coerce hv, fun _ => by simp only [hv]⟩
    | ok v => exact .inr ⟨a, v, rfl, fun _ => by simp only [hv]⟩

/-- A deletion by key that is refused because a policy needs an atomic to be unique names a relation
whose policy cannot be applied, of the type or of another one that it has come to, and has changed
nothing in memory. It has sent nothing iff the first relation of the type that is not silent is such a
one. Then it is refused whatever the world is, and leaves it as it is. -/
theorem sends_nothing_iff {w w' : World σ} {owner property referenced : String}
    (hs : ses.catalog.schema type = .ok s)
    (h : ses.deleteByKey type key w =
      .error (.malformedRelation owner property (.policyNeedsUnique referenced)) w') :
    (∃ t comp a, ses.catalog.schema owner = .ok t ∧ comp ∈ t.components ∧ comp.name = property ∧
      ses.catalog.Ambiguous t comp a ∧ a.name = referenced) ∧
    w'.graph = w.graph ∧
    (w'.wire.sent = w.wire.sent ↔ ses.catalog.RefusedAtOnce s) ∧
    (ses.catalog.RefusedAtOnce s → ∀ v : World σ, ses.deleteByKey type key v =
      .error (.malformedRelation owner property (.policyNeedsUnique referenced)) v) := by
  obtain ⟨e, he, hfails⟩ | ⟨k, v, hkey, hrun⟩ := deleteByKey_cases (σ := σ) key hs
  · rw [hfails w] at h
    rw [(EStateM.Result.error.inj h).1] at he
    exact he.elim
  rw [hrun w] at h
  obtain ⟨haccounts, hgraph, hcases⟩ :=
    (Deletion.ends_run_sends rfl (Catalog.schema_schema_name hs)).of_error h
  have hall : ses.catalog.RefusedAtOnce s → ∀ u : World σ, ses.deleteByKey type key u =
      .error (.malformedRelation owner property (.policyNeedsUnique referenced)) u := by
    rintro ⟨before, comp, after, a, hcomponents, hbefore, ha⟩ u
    have hrefused := Deletion.run_of_refused (d := ⟨s, v, none⟩) rfl hkey hcomponents hbefore ha
      (σ := σ)
    rw [hrun u, hrefused u]
    rw [hrefused w] at h
    rw [(EStateM.Result.error.inj h).1]
  refine ⟨haccounts _ _ _ rfl, hgraph, ⟨fun hsent => ?_, fun hrefused => ?_⟩, hall⟩
  · rcases hcases with hsends | hstructural | hexhausted | hrefused
    · rw [hsent] at hsends
      exact absurd hsends (Nat.lt_irrefl _)
    · exact hstructural.elim
    · cases hexhausted
    · obtain ⟨before, comp, after, a, hcomponents, hbefore, ha, -⟩ := hrefused
      exact ⟨before, comp, after, a, hcomponents, hbefore, ha⟩
  · have hw := hall hrefused w
    rw [hrun w, h] at hw
    rw [(EStateM.Result.error.inj hw).2]

end Session

/-! ### Teams, games and members -/

namespace Shop

/-- The games of a team stay without it. -/
def games : Component :=
  { name := "games", target := "Game", cardinality := .oneToMany, joinColumn := some "team_fk",
    onDelete := .setNull }

/-- The members of a team refer to its code, which other teams may have as well. -/
def members : Component :=
  { name := "members", target := "Member", cardinality := .oneToMany, joinColumn := some "team_code",
    referenced := some "code", onDelete := .setNull }

/-- Teams have a code and some relations. -/
def teams (relations : List Component) : Session where
  catalog := ⟨[
    { name := "Team", steps := .atomic key :: .atomic { name := "code", column := "code", kind := .string } ::
        relations.map .component },
    { name := "Game", steps := [.atomic key, .atomic (reference "team_fk")] },
    { name := "Member", steps := [.atomic key,
        .atomic { name := "team_code", column := "team_code", kind := .string }] }]⟩

end Shop

namespace Session

open Shop

/-- A team whose first relation is to its members is not deleted, and nothing is sent. -/
theorem sends_nothing_team :
    (teams [members, games]).catalog.RefusedAtOnce
        (((teams [members, games]).catalog.schema "Team").toOption.getD default) ∧
      ∀ w : World Counter, (teams [members, games]).deleteByKey "Team" (.int 1) w =
        .error (.malformedRelation "Team" "members" (.policyNeedsUnique "code")) w := by
  have hs : (teams [members, games]).catalog.schema "Team" =
      .ok (((teams [members, games]).catalog.schema "Team").toOption.getD default) := rfl
  have hrun : (teams [members, games]).deleteByKey "Team" (.int 1) (Shop.world {}) =
      .error (.malformedRelation "Team" "members" (.policyNeedsUnique "code")) _ :=
    Act.eq_error_of_failure? (by decide)
  obtain ⟨-, -, hiff, hall⟩ := sends_nothing_iff hs hrun
  have hatonce := hiff.1 (List.eq_nil_of_length_eq_zero (by decide))
  exact ⟨hatonce, hall hatonce⟩

/-- A team whose first relation is to its games is not deleted either. But its games have already been
told that they are without it. -/
theorem sends_before_refusal :
    let act : SessionM Counter Unit := (teams [games, members]).deleteByKey "Team" (.int 1)
    act.failure? (Shop.world {}) =
        some (.malformedRelation "Team" "members" (.policyNeedsUnique "code")) ∧
      (Shop.world {}).wire.sent = [] ∧
      (act.final (Shop.world {})).wire.sent.map (Statement.text .mysql) =
        ["UPDATE `Game` SET `team_fk` = NULL WHERE `team_fk` = '1'"] := by
  decide

end Session

end EntityGraph
