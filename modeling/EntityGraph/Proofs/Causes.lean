import EntityGraph.Proofs.Accepted
import EntityGraph.Proofs.Sending
import EntityGraph.Session.Save
import Mathlib.Data.List.Perm.Subperm

/-!
# Causes of failure

Why work fails, whatever it was done on. Most failures are *ordinary*: schemas that do not hold
together, values of the wrong kind, statements that the database refuses. Those that schemas and values
account for by themselves are *structural*. Two failures are not ordinary. A value may break a
constraint, which only the checks before a write report; and a depth bound may be exhausted, which only a
recursion reports that is not deep enough.

* `Act.Fails P act` — whatever `act` fails with is a `P`, with one rule for each way to combine work.

## Main results

* `Constraints.isConstraint_of_violation?`: what values of an atomic break is a constraint.
* `Catalog.ordinary_of_schema`: the depth that a build of a schema begins with is enough.
* `Save.fails_insertRows`, `Save.fails_updateRows`: when the rows of an entity break a constraint,
  nothing has been done yet.
-/

namespace EntityGraph

/-- Whether a rule that was broken is a constraint of an atomic. -/
def Violation.IsConstraint : Violation → Prop
  | isNull | tooLong _ _ | wrongLength _ _ | noMatch _ => True
  | _ => False

/-- A failure that neither a constraint nor a depth bound has caused. -/
def Error.Ordinary : Error → Prop
  | violation _ _ fault => ¬fault.IsConstraint
  | exhausted => False
  | _ => True

/-- A failure that the schemas and a value at hand account for: names that are unknown or of another kind,
schemas and relations that do not hold together, and values that cannot be converted. What a policy needs
of an atomic is not among them. -/
def Error.Structural : Error → Prop
  | unknownEntity _ | unknownProperty _ _ | primaryKeyCount _ _ | invalidSchema _ _ => True
  | notConvertible _ _ _ _ => True
  | malformedRelation _ _ (.policyNeedsUnique _) => False
  | malformedRelation _ _ _ => True
  | _ => False

/-- A failure that the declarations of types account for: types that are unknown, and schemas and
relations that do not hold together. -/
def Error.Declared : Error → Prop
  | unknownEntity _ | primaryKeyCount _ _ | invalidSchema _ _ => True
  | malformedRelation _ _ (.policyNeedsUnique _) => False
  | malformedRelation _ _ _ => True
  | _ => False

/-- A failure to find a property of a type. -/
def Error.IsUnknownProperty : Error → Prop
  | unknownProperty _ _ => True
  | _ => False

/-- A failure to write a row: there is nothing to write, or the database refuses it. -/
def Error.OfStatement : Error → Prop
  | malformedStatement _ | database _ _ => True
  | _ => False

/-- What declarations account for is structural. -/
theorem Error.Declared.structural {error : Error} (h : error.Declared) : error.Structural := by
  cases error with
  | malformedRelation _ _ fault =>
    cases fault with
    | policyNeedsUnique => exact h
    | _ => trivial
  | unknownEntity | primaryKeyCount | invalidSchema => trivial
  | _ => exact h.elim

/-- What is wrong with declarations is not that a property is missing. -/
theorem Error.Declared.not_isUnknownProperty {error : Error} (h : error.Declared) :
    ¬error.IsUnknownProperty := by
  cases error with
  | unknownProperty => exact h.elim
  | _ => exact id

/-- What is wrong with a statement is not that a property is missing. -/
theorem Error.OfStatement.not_isUnknownProperty {error : Error} (h : error.OfStatement) :
    ¬error.IsUnknownProperty := by
  cases error with
  | unknownProperty => exact h.elim
  | _ => exact id

/-- A value only breaks constraints. -/
theorem Constraints.isConstraint_of_violation? {c : Constraints} {v : Value} {fault : Violation}
    (h : c.violation? v = some fault) : fault.IsConstraint := by
  simp only [violation?] at h
  split at h
  · split at h
    · obtain rfl := Option.some.inj h
      trivial
    · cases h
  · simp only [Option.orElse_eq_orElse, Option.orElse_eq_or, Option.or_eq_some_iff,
      Option.bind_eq_some_iff] at h
    rcases h with ⟨_, -, h⟩ | ⟨-, ⟨_, -, h⟩ | ⟨-, _, -, h⟩⟩ <;> split at h <;> cases h <;> trivial

/-- A sequence of computations fails iff one of its parts does. -/
theorem bind_eq_error_iff {α β ε : Type} {x : Except ε α} {f : α → Except ε β} {e : ε} :
    (x >>= f) = .error e ↔ x = .error e ∨ ∃ a, x = .ok a ∧ f a = .error e := by
  cases x <;> simp [bind, Except.bind]

/-- A list of computations fails where one of them does. -/
theorem exists_of_mapM_error {α β ε : Type} {f : α → Except ε β} {l : List α} {e : ε}
    (h : l.mapM f = .error e) : ∃ x ∈ l, f x = .error e := by
  induction l with
  | nil => cases h
  | cons x l ih =>
    rw [List.mapM_cons, bind_eq_error_iff] at h
    rcases h with h | ⟨y, -, h⟩
    · exact ⟨x, List.mem_cons_self, h⟩
    · rcases bind_eq_error_iff.1 h with h | ⟨_, -, h⟩
      · obtain ⟨z, hz, hfz⟩ := ih h
        exact ⟨z, List.mem_cons_of_mem _ hz, hfz⟩
      · cases h

/-! ### Work whose failures are of a sort -/

namespace Act

variable {σ τ α β : Type} {P : Error → Prop}

/-- Whatever some work fails with is of a sort. -/
def Fails (P : Error → Prop) (act : Act σ α) : Prop :=
  ∀ s e t, act s = .error e t → P e

theorem fails_iff_ends {act : Act σ α} :
    Fails P act ↔ ∀ s, act.Ends s (fun _ _ => True) fun e _ => P e := by
  refine forall_congr' fun s => ⟨fun h => ?_, fun h e t heq => h.of_error heq⟩
  exact (ends_run act s).mono (fun _ _ _ => trivial) fun e t heq => h e t heq

/-- What fails for reasons of a sort does so for reasons of a wider one. -/
theorem Fails.mono {Q : Error → Prop} {act : Act σ α} (h : Fails P act) (hPQ : ∀ e, P e → Q e) :
    Fails Q act :=
  fun s e t heq => hPQ e (h s e t heq)

theorem fails_pure (a : α) : Fails P (pure a : Act σ α) :=
  fun _ _ _ h => nomatch h

theorem fails_get : Fails P (get : Act σ σ) :=
  fun _ _ _ h => nomatch h

theorem fails_modify (f : σ → σ) : Fails P (modify f : Act σ Unit) :=
  fun _ _ _ h => nomatch h

theorem fails_throw {e : Error} (he : P e) : Fails P (throw e : Act σ α) := by
  rintro s e' t h
  obtain ⟨rfl, -⟩ := EStateM.Result.error.inj h
  exact he

theorem fails_ofExcept {x : Except Error α} (h : ∀ e, x = .error e → P e) :
    Fails P (ofExcept x : Act σ α) :=
  fails_iff_ends.2 fun _ => ends_ofExcept.2 ⟨fun _ _ => trivial, fun e he => h e he⟩

theorem Fails.bind {act : Act σ β} {f : β → Act σ α} (h : Fails P act) (hf : ∀ b, Fails P (f b)) :
    Fails P (act >>= f) := by
  rw [fails_iff_ends] at h ⊢
  intro s
  rw [ends_bind]
  exact (h s).mono (fun b t _ => fails_iff_ends.1 (hf b) t) fun _ _ he => he

theorem Fails.ite {c : Prop} [Decidable c] {act act' : Act σ α} (h : Fails P act)
    (h' : Fails P act') : Fails P (if c then act else act') := by
  split
  · exact h
  · exact h'

theorem fails_forM {l : List β} {f : β → Act σ Unit} (h : ∀ b ∈ l, Fails P (f b)) :
    Fails P (l.forM f) := by
  induction l with
  | nil => exact fails_pure ()
  | cons b l ih =>
    exact (h b List.mem_cons_self).bind fun _ => ih fun b' hb' => h b' (List.mem_cons_of_mem _ hb')

theorem fails_mapM {l : List β} {f : β → Act σ α} (h : ∀ b ∈ l, Fails P (f b)) :
    Fails P (l.mapM f) := by
  induction l with
  | nil => exact fails_pure []
  | cons b l ih =>
    rw [List.mapM_cons]
    refine (h b List.mem_cons_self).bind fun a => Fails.bind ?_ fun _ => fails_pure _
    exact ih fun b' hb' => h b' (List.mem_cons_of_mem _ hb')

theorem fails_forAll {l : List β} {f : β → Act σ Unit} (h : ∀ b ∈ l, Fails P (f b)) :
    Fails P (forAll f l) := by
  have hloop := fails_iff_ends.1 (fails_forM h)
  refine fails_iff_ends.2 fun s => (ends_forAll_of_forM (hloop s)).mono (fun _ _ _ => trivial) ?_
  rintro e _ ⟨-, he⟩
  exact he

theorem Fails.onPart {view : τ → σ} {put : τ → σ → τ} {act : Act σ α} (h : Fails P act) :
    Fails P (onPart view put act) := by
  rw [fails_iff_ends] at h ⊢
  intro t
  rw [ends_onPart]
  exact h (view t)

end Act

/-! ### Schemas -/

/-- Looking up a primary key fails where there is none. -/
theorem Schema.declared_of_key {s : Schema} {error : Error} (h : s.key = .error error) :
    error.Declared := by
  simp only [Schema.key] at h
  split at h <;> cases h
  trivial

theorem Schema.structural_of_key {s : Schema} {error : Error} (h : s.key = .error error) :
    error.Structural :=
  (declared_of_key h).structural

/-- Looking up an atomic fails where it is unknown. -/
theorem Schema.structural_of_atomic {s : Schema} {name : String} {error : Error}
    (h : s.atomic name = .error error) : error.Structural := by
  simp only [Schema.atomic] at h
  split at h <;> cases h
  trivial

namespace Draft

variable {d : Draft} {error : Error}

/-- What is wrong with atomics is so with the schema. -/
theorem declared_of_checkAtomics {earlier : List String} {l : List Atomic}
    (h : d.checkAtomics earlier l = .error error) : error.Declared := by
  induction l generalizing earlier with
  | nil => cases h
  | cons a l ih =>
    simp only [checkAtomics] at h
    split at h
    · cases h
      trivial
    · split at h
      · cases h
        trivial
      · exact ih h

/-- What is wrong with embedded properties is so with the schema. -/
theorem declared_of_checkEmbeds {earlier : List String} {l : List (String × String)}
    (h : d.checkEmbeds earlier l = .error error) : error.Declared := by
  induction l generalizing earlier with
  | nil => cases h
  | cons p l ih =>
    simp only [checkEmbeds] at h
    split at h
    · cases h
      trivial
    · exact ih h

/-- What is wrong with a component can be seen from the draft. -/
theorem declared_of_componentFault? {comp : Component} {fault : RelationFault}
    (h : d.componentFault? comp = some fault) :
    (Error.malformedRelation d.name comp.name fault).Declared := by
  simp only [componentFault?] at h
  split at h
  · cases h
    trivial
  · split at h
    · cases h
      trivial
    · cases h
      trivial
    · cases h
    · split at h <;> split at h
      · split at h <;> cases h
        trivial
      · cases h
      · cases h
      · cases h
        trivial

/-- What is wrong with components is so with a relation. -/
theorem declared_of_checkComponents {l : List Component}
    (h : d.checkComponents l = .error error) : error.Declared := by
  induction l with
  | nil => cases h
  | cons c l ih =>
    simp only [checkComponents] at h
    split at h
    · next fault hfault =>
      cases h
      exact declared_of_componentFault? hfault
    · exact ih h

/-- A draft is refused for what it declares. -/
theorem declared_of_finish {embedded : List (String × Schema)} (h : d.finish embedded = .error error) :
    error.Declared := by
  simp only [finish, check, bind_eq_error_iff] at h
  rcases h with (h | ⟨_, -, h | ⟨_, -, h | ⟨_, -, h⟩⟩⟩) | ⟨_, -, h⟩
  · simp only [checkKeys] at h
    split at h <;> split at h <;> cases h <;> trivial
  · exact declared_of_checkAtomics h
  · exact declared_of_checkEmbeds h
  · exact declared_of_checkComponents h
  · cases h

end Draft

namespace Catalog

variable {c : Catalog} {error : Error}

/-- The names that have definitions. -/
def names (c : Catalog) : List String :=
  c.definitions.map (·.name)

/-- An embeddable type has a definition. -/
theorem mem_names_of_embeddable? {type : String} {d : Definition} (h : c.embeddable? type = some d) :
    type ∈ c.names := by
  have hdef := (Option.filter_eq_some_iff.1 h).1
  exact definition?_name hdef ▸ List.mem_map_of_mem (List.mem_of_find?_eq_some hdef)

/-- Embeds are resolved or refused: a path of different types is not longer than there are
definitions, so the depth that is left is not used up. -/
theorem declared_of_resolveEmbeds {depth : Nat} {path : List String} {owner : Draft}
    (hnodup : path.Nodup) (hpath : path ⊆ c.names) (hdepth : c.names.length < depth + path.length)
    (h : c.resolveEmbeds depth path owner = .error error) : error.Declared := by
  induction depth generalizing path owner error with
  | zero =>
    have hle := (hnodup.subperm hpath).length_le
    omega
  | succ depth ih =>
    simp only [resolveEmbeds] at h
    obtain ⟨⟨property, type⟩, -, h⟩ := exists_of_mapM_error h
    simp only at h
    split at h
    · cases h
      trivial
    · next hnew =>
      split at h
      · cases h
        trivial
      · next d hd =>
        have htype : type ∉ path := by simpa using hnew
        rcases bind_eq_error_iff.1 h with h | ⟨parts, -, h⟩
        · refine ih (List.nodup_cons.2 ⟨htype, hnodup⟩)
            (List.cons_subset.2 ⟨mem_names_of_embeddable? hd, hpath⟩) ?_ h
          rw [List.length_cons]
          omega
        · rcases bind_eq_error_iff.1 h with h | ⟨_, -, h⟩
          · exact Draft.declared_of_finish h
          · cases h

/-- A schema is built, or refused for what is declared. -/
theorem declared_of_schema {name : String} (h : c.schema name = .error error) : error.Declared := by
  simp only [schema] at h
  split at h
  · cases h
    trivial
  · rcases bind_eq_error_iff.1 h with h | ⟨_, -, h⟩
    · refine declared_of_resolveEmbeds List.nodup_nil (List.nil_subset _) ?_ h
      simp [depthBound, names]
    · exact Draft.declared_of_finish h

/-- A schema is built or refused. -/
theorem structural_of_schema {name : String} (h : c.schema name = .error error) : error.Structural :=
  (declared_of_schema h).structural

end Catalog

/-- An owning component is joined or refused. -/
theorem Join.structural_of_owning {owner target : Schema} {comp : Component} {error : Error}
    (h : Join.owning owner comp target = .error error) : error.Structural := by
  have hatomic : ∀ {name : String} {join : Join}, (do
      let _ ← target.atomic name
      return join : Except Error Join) = .error error → error.Structural := by
    intro name join h
    rcases bind_eq_error_iff.1 h with h | ⟨_, -, h⟩
    · exact Schema.structural_of_atomic h
    · cases h
  simp only [Join.owning] at h
  split at h
  · cases h
    trivial
  · split at h
    · split at h
      · cases h
        trivial
      · split at h
        · cases h
        · rcases bind_eq_error_iff.1 h with h | ⟨_, -, h⟩
          · exact Schema.structural_of_key h
          · cases h
    · split at h
      · exact hatomic h
      · rcases bind_eq_error_iff.1 h with h | ⟨_, -, h⟩
        · exact Schema.structural_of_key h
        · exact hatomic h

/-- A component is joined or refused. -/
theorem Catalog.structural_of_join {c : Catalog} {owner : Schema} {comp : Component} {error : Error}
    (h : c.join owner comp = .error error) : error.Structural := by
  simp only [Catalog.join] at h
  rcases bind_eq_error_iff.1 h with h | ⟨target, -, h⟩
  · exact Catalog.structural_of_schema h
  · simp only [Join.resolve] at h
    split at h
    · exact Join.structural_of_owning h
    · split at h
      · cases h
        trivial
      · next remote _ =>
        split at h
        · cases h
          trivial
        · split at h
          · cases h
            trivial
          · cases hjoin : Join.owning target remote owner with
            | ok join => rw [hjoin] at h; cases h
            | error e =>
              rw [hjoin] at h
              cases h
              exact Join.structural_of_owning hjoin

namespace Catalog

/-- A relation of a known type is not resolved, for some reason. -/
def Unresolved (c : Catalog) (error : Error) : Prop :=
  ∃ s comp, c.Known s ∧ comp ∈ s.components ∧ c.join s comp = .error error

/-- A failure that the declarations of types account for, or a relation that is not resolved. -/
def Faulty (c : Catalog) (error : Error) : Prop :=
  error.Declared ∨ c.Unresolved error

end Catalog

/-- A value is converted, or it is of the wrong kind. -/
theorem Atomic.structural_of_coerce {entity : String} {a : Atomic} {v : Value} {error : Error}
    (h : a.coerce entity v = .error error) : error.Structural := by
  simp only [Atomic.coerce] at h
  split at h <;> cases h
  trivial

/-! ### Structural failures are ordinary -/

/-- What can be seen from the schemas is ordinary. -/
theorem Error.Structural.ordinary {error : Error} (h : error.Structural) : error.Ordinary := by
  cases error with
  | violation => exact h.elim
  | exhausted => exact h
  | _ => trivial

theorem Error.Declared.ordinary {error : Error} (h : error.Declared) : error.Ordinary :=
  h.structural.ordinary

theorem Error.OfStatement.ordinary {error : Error} (h : error.OfStatement) : error.Ordinary := by
  cases error with
  | malformedStatement | database => trivial
  | _ => exact h.elim

theorem Catalog.Faulty.ordinary {c : Catalog} {error : Error} (h : c.Faulty error) :
    error.Ordinary := by
  rcases h with h | ⟨_, _, -, -, h⟩
  · exact h.ordinary
  · exact (structural_of_join h).ordinary

theorem Schema.ordinary_of_key {s : Schema} {error : Error} (h : s.key = .error error) :
    error.Ordinary :=
  (structural_of_key h).ordinary

theorem Schema.ordinary_of_atomic {s : Schema} {name : String} {error : Error}
    (h : s.atomic name = .error error) : error.Ordinary :=
  (structural_of_atomic h).ordinary

theorem Catalog.ordinary_of_schema {c : Catalog} {name : String} {error : Error}
    (h : c.schema name = .error error) : error.Ordinary :=
  (structural_of_schema h).ordinary

theorem Catalog.ordinary_of_join {c : Catalog} {owner : Schema} {comp : Component} {error : Error}
    (h : c.join owner comp = .error error) : error.Ordinary :=
  (structural_of_join h).ordinary

theorem Atomic.ordinary_of_coerce {entity : String} {a : Atomic} {v : Value} {error : Error}
    (h : a.coerce entity v = .error error) : error.Ordinary :=
  (structural_of_coerce h).ordinary

/-! ### The graph -/

/-- A name is that of an atomic, or of something else, or unknown. -/
theorem Entity.ordinary_of_atomic {s : Schema} {name : String} {error : Error}
    (h : Entity.atomic s name = .error error) : error.Ordinary := by
  simp only [Entity.atomic, Entity.notOfKind, Schema.property] at h
  split at h
  · cases h
  · split at h
    · cases h
      trivial
    · next heq =>
      split at heq <;> cases heq
      cases h
      trivial

namespace Graph

open Act

variable {g : Graph} {e : EntityId} {error : Error}

theorem ordinary_of_value {name : String} (h : g.value e name = .error error) : error.Ordinary := by
  rcases bind_eq_error_iff.1 h with h | ⟨_, -, h⟩
  · exact Entity.ordinary_of_atomic h
  · cases h

theorem ordinary_of_requireKey (h : g.requireKey e = .error error) : error.Ordinary := by
  simp only [requireKey] at h
  split at h <;> cases h
  exact not_false

theorem fails_writeForeignKey (holder : EntityId) (name : String) (v : Value) :
    Fails Error.Ordinary (writeForeignKey holder name v) :=
  fails_get.bind fun _ => (fails_ofExcept fun _ h => Schema.ordinary_of_atomic h).bind fun _ =>
    (fails_ofExcept fun _ h => Atomic.ordinary_of_coerce h).bind fun _ => fails_modify _

theorem fails_hear (source : EntityId) (l : KeyListener) :
    Fails Error.Ordinary (hear source l) := by
  cases l with
  | foreignKey holder name referenced =>
    refine fails_get.bind fun g => .ite ?_ (fails_pure ())
    exact (fails_ofExcept fun _ h => ordinary_of_value h).bind fun _ => fails_writeForeignKey _ _ _
  | collection c => exact fails_modify _

/-- An entity takes over a key that is of the right kind, and so do all that wait for it. -/
theorem fails_assignGeneratedKey (e : EntityId) (v : Value) :
    Fails Error.Ordinary (assignGeneratedKey e v) := by
  refine fails_get.bind fun g => (fails_ofExcept fun _ h => Schema.ordinary_of_key h).bind fun a => ?_
  refine (fails_ofExcept fun _ h => Atomic.ordinary_of_coerce h).bind fun _ => ?_
  refine (fails_modify _).bind fun _ => fails_get.bind fun _ => (fails_modify _).bind fun _ => ?_
  exact fails_forAll fun l _ => fails_hear e l

/-- A failure reports that a value of an entity breaks a constraint. -/
structure Offends (g : Graph) (e : EntityId) (a : Atomic) (v : Value) (fault : Violation) : Prop where
  mem : (a, v) ∈ g.allAtomics e
  breaks : a.constraints.violation? v = some fault

/-- What differs from storage is among all values. -/
theorem dirtyAtomics_subset (g : Graph) (e : EntityId) : g.dirtyAtomics e ⊆ g.allAtomics e := by
  rintro ⟨a, v⟩ h
  obtain ⟨x, hx, h⟩ := List.mem_flatMap.1 h
  refine List.mem_flatMap.2 ⟨x, hx, ?_⟩
  obtain ⟨b, hb, hslot⟩ := List.mem_filterMap.1 h
  split at hslot
  · next slot hget =>
    split at hslot <;> cases hslot
    exact List.mem_map.2 ⟨a, hb, by simp [Entity.atomicValue, hget]⟩
  · cases hslot

end Graph

/-! ### Writing rows -/

namespace Traversal

open Act

variable {κ σ α : Type} {P : Error → Prop} {k : κ}

theorem fails_graph : Fails P (graph : TraversalM κ σ Graph) :=
  fun _ _ _ h => nomatch h

theorem Fails.onGraph {act : GraphM α} (h : Fails P act) :
    Fails P (onGraph act : TraversalM κ σ α) :=
  h.onPart.onPart

theorem Fails.onWire {act : WireM σ α} (h : Fails P act) : Fails P (onWire k act) := by
  intro t e t' heq
  simp only [Traversal.onWire] at heq
  split at heq
  · cases heq
  · next e' wire hact =>
    obtain ⟨rfl, -⟩ := EStateM.Result.error.inj heq
    exact h _ _ _ hact

variable [Connection σ]

/-- A statement fails if the database refuses it. -/
theorem fails_send_of_database (hP : ∀ sql message, P (.database sql message)) (s : Statement)
    (answer : σ → Except String α × σ) : Fails P (Wire.send s answer) := by
  intro w e w' h
  simp only [Wire.send] at h
  split at h <;> cases h
  exact hP _ _

/-- A database refuses a statement for reasons of its own. -/
theorem fails_send (s : Statement) (answer : σ → Except String α × σ) :
    Fails Error.OfStatement (Wire.send s answer) :=
  fails_send_of_database (fun _ _ => trivial) s answer

end Traversal

namespace Save

open Act Traversal

variable {σ : Type} [Connection σ] {ses : Session} {e : EntityId} {g : Graph} {error : Error}

theorem ordinary_of_checkPending (h : checkPending g e = .error error) : error.Ordinary := by
  simp only [checkPending] at h
  split at h <;> cases h
  exact not_false

theorem fails_insert (i : Insert) : Fails Error.OfStatement (i.execute : WireM σ _) :=
  .ite (fails_throw trivial) (fails_send _ _)

theorem fails_update (u : Update) : Fails Error.OfStatement (u.execute : WireM σ _) :=
  .ite (fails_pure 0) (fails_send _ _)

theorem fails_insertFirst (e : EntityId) (table : String) (columns : List (String × Value)) :
    Fails Error.Ordinary (insertFirst e table columns : SaveM σ Unit) := by
  refine (Fails.onWire ((fails_insert _).mono fun _ => Error.OfStatement.ordinary)).bind fun made =>
    fails_graph.bind fun g => .ite ?_ (fails_pure ())
  cases made with
  | none => exact fails_throw trivial
  | some v => exact Fails.onGraph (Graph.fails_assignGeneratedKey e v)

theorem fails_insertRest (e : EntityId) (key : Atomic) (v : Value)
    (tables : List (String × List (String × Value))) :
    Fails Error.OfStatement (insertRest e key v tables : SaveM σ Unit) :=
  fails_forM fun _ _ => (Fails.onWire (fails_insert _)).bind fun _ => fails_pure ()

theorem fails_updateTables (e : EntityId) (key : Atomic) (v : Value)
    (tables : List (String × List (String × Value))) :
    Fails Error.OfStatement (updateTables e key v tables : SaveM σ Unit) :=
  fails_forM fun _ _ => (Fails.onWire (fails_update _)).bind fun _ => fails_pure ()

/-- A failure is ordinary, or a value of an entity breaks a constraint, which the session checks. -/
def Objects (ses : Session) (g : Graph) (e : EntityId) (error : Error) : Prop :=
  error.Ordinary ∨ ses.config.validate = true ∧ ∃ a v fault, g.Offends e a v fault ∧
    error = .violation (g.entity e).schema.name a.name fault

/-- A check of some values finds one that breaks a constraint. -/
theorem exists_of_checkAll {entity : String} {values : List (Atomic × Value)}
    (h : checkAll entity values = .error error) : ∃ p ∈ values, ∃ fault,
      p.1.constraints.violation? p.2 = some fault ∧ error = .violation entity p.1.name fault := by
  induction values with
  | nil => cases h
  | cons p values ih =>
    obtain ⟨a, v⟩ := p
    rcases bind_eq_error_iff.1 h with h | ⟨_, -, h⟩
    · simp only [Atomic.check] at h
      split at h <;> cases h
      next fault hfault => exact ⟨_, List.mem_cons_self, fault, hfault, rfl⟩
    · obtain ⟨p, hp, hfault⟩ := ih h
      exact ⟨p, List.mem_cons_of_mem _ hp, hfault⟩

/-- A check of some values of an entity finds one that breaks a constraint. -/
theorem objects_of_checkAll {values : List (Atomic × Value)} (hvalidate : ses.config.validate = true)
    (hvalues : values ⊆ g.allAtomics e)
    (h : checkAll (g.entity e).schema.name values = .error error) : Objects ses g e error := by
  obtain ⟨p, hp, fault, hbreaks, rfl⟩ := exists_of_checkAll h
  exact .inr ⟨hvalidate, p.1, p.2, fault, ⟨hvalues hp, hbreaks⟩, rfl⟩

/-- What keeps an entity from being inserted. -/
theorem objects_of_checkInsert (h : checkInsert ses g e = .error error) : Objects ses g e error := by
  simp only [checkInsert] at h
  rcases bind_eq_error_iff.1 h with h | ⟨_, -, h⟩
  · exact .inl (ordinary_of_checkPending h)
  rcases bind_eq_error_iff.1 h with h | ⟨key, -, h⟩
  · exact .inl (Schema.ordinary_of_key h)
  have hkey : ∀ {error : Error}, (if ((g.key? e).isNone && !key.generated) = true then
      throw (.violation (g.entity e).schema.name key.name .keyNotAssigned)
      else pure PUnit.unit : Except Error PUnit) = .error error → error.Ordinary := by
    intro error h
    split at h <;> cases h
    exact not_false
  split at h
  · next hvalidate =>
    rcases bind_eq_error_iff.1 h with h | ⟨_, -, h⟩
    · exact objects_of_checkAll hvalidate (fun _ hp => List.mem_of_mem_filter hp) h
    · exact .inl (hkey h)
  · exact .inl (hkey h)

/-- How the writing of rows that starts somewhere fails: for an ordinary reason, or before anything has
been done. -/
def Objected (ses : Session) (e : EntityId) (t : Traversal EntityId σ) (error : Error)
    (t' : Traversal EntityId σ) : Prop :=
  error.Ordinary ∨ t' = t ∧ Objects ses t.world.graph e error

variable {t t' : Traversal EntityId σ}

omit [Connection σ] in
/-- Writing rows does not exhaust a depth. -/
theorem Objected.ne_exhausted (h : Objected ses e t error t') : error ≠ .exhausted := by
  rintro rfl
  rcases h with h | ⟨-, h | ⟨-, _, _, _, -, h⟩⟩
  · exact h
  · exact h
  · cases h

omit [Connection σ] in
/-- Work that fails for ordinary reasons objects to nothing else. -/
theorem objected_of_fails {act : SaveM σ Unit} (h : Fails Error.Ordinary act) :
    act.Ends t (fun _ _ => True) (Objected ses e t) :=
  (fails_iff_ends.1 h t).mono (fun _ _ _ => trivial) fun _ _ he => .inl he

theorem fails_insertRows :
    (insertRows ses e).Ends t (fun _ _ => True) (Objected ses e t) := by
  simp only [insertRows]
  rw [ends_bind, ends_graph, ends_bind, ends_ofExcept]
  refine ⟨fun _ _ => objected_of_fails ?_,
    fun error herror => .inr ⟨rfl, objects_of_checkInsert herror⟩⟩
  -- after the checks, whatever fails does so for an ordinary reason
  refine (fails_ofExcept fun _ h => Schema.ordinary_of_key h).bind fun key => ?_
  refine (fails_insertFirst e _ _).bind fun _ => fails_graph.bind fun g' => ?_
  refine (fails_ofExcept fun _ h => Graph.ordinary_of_requireKey h).bind fun v => ?_
  exact ((fails_insertRest _ _ _ _).mono fun _ => Error.OfStatement.ordinary).bind fun _ =>
    Fails.onGraph (fails_modify _)

theorem fails_updateRows :
    (updateRows ses e).Ends t (fun _ _ => True) (Objected ses e t) := by
  have hmarks : Fails Error.Ordinary (onGraph (modify fun g => (g.markClean e).markStored e) :
      SaveM σ Unit) := Fails.onGraph (fails_modify _)
  have hwrites : ∀ g : Graph, Fails Error.Ordinary (do
      let key ← Act.ofExcept (g.entity e).schema.key
      let v ← Act.ofExcept (g.requireKey e)
      updateTables e key v (columnsByTable (g.entity e).schema (changes g e))
      onGraph (modify fun g => (g.markClean e).markStored e) : SaveM σ Unit) := by
    intro g
    refine (fails_ofExcept fun _ h => Schema.ordinary_of_key h).bind fun key => ?_
    refine (fails_ofExcept fun _ h => Graph.ordinary_of_requireKey h).bind fun v => ?_
    exact ((fails_updateTables _ _ _ _).mono fun _ => Error.OfStatement.ordinary).bind fun _ => hmarks
  simp only [updateRows]
  rw [ends_bind, ends_graph, ends_bind, ends_ofExcept]
  refine ⟨fun _ _ => ?_, fun error herror => .inl (ordinary_of_checkPending herror)⟩
  rw [ends_ite]
  refine ⟨fun _ => ends_ite.2 ⟨fun hvalidate => ?_, fun _ => objected_of_fails (hwrites _)⟩,
    fun _ => objected_of_fails hmarks⟩
  rw [ends_bind, ends_ofExcept]
  have hvalues : changes t.world.graph e ⊆ t.world.graph.allAtomics e :=
    fun _ hp => Graph.dirtyAtomics_subset _ _ (List.mem_of_mem_filter hp)
  exact ⟨fun _ _ => objected_of_fails (hwrites _), fun error herror =>
    .inr ⟨rfl, objects_of_checkAll hvalidate hvalues herror⟩⟩

end Save

end EntityGraph
