import EntityGraph.Act
import Mathlib.Data.List.Forall2

/-!
# How work ends

A sequence of computations in `Except` succeeds when each of them does. `Act.Ends act s P E` says of
some work on a state `s` that it ends well: `P` holds of its answer and the state that it leaves, or,
where it fails, `E` holds of the failure and the state that it leaves. What holds at the end of a
sequence is computed backwards from the last step, by one rewriting rule for each way to combine
work.

* `ends_bind` — a sequence ends well iff its first part ends where the second one ends well;
* `ends_forM`, `ends_forAll` — an invariant of each round is an invariant of the loop.
-/

namespace EntityGraph

/-- A sequence of computations succeeds iff both parts do. -/
theorem bind_eq_ok_iff {α β ε : Type} {x : Except ε α} {f : α → Except ε β} {b : β} :
    (x >>= f) = .ok b ↔ ∃ a, x = .ok a ∧ f a = .ok b := by
  cases x <;> simp [bind, Except.bind]

/-- Computations that succeed one by one succeed as a list. -/
theorem mapM_eq_ok {α β ε : Type} {f : α → Except ε β} {g : α → β} {l : List α}
    (h : ∀ x ∈ l, f x = .ok (g x)) : l.mapM f = .ok (l.map g) := by
  induction l with
  | nil => rfl
  | cons x l ih =>
    rw [List.mapM_cons, h x List.mem_cons_self, ih fun y hy => h y (List.mem_cons_of_mem _ hy)]
    rfl

/-- A successful list of computations succeeds at each member. -/
theorem mapM_ok_forall₂ {α β ε : Type} {f : α → Except ε β} {l : List α} {ys : List β}
    (h : l.mapM f = .ok ys) : List.Forall₂ (fun x y => f x = .ok y) l ys := by
  induction l generalizing ys with
  | nil =>
    rw [List.mapM_nil] at h
    cases h
    exact .nil
  | cons x l ih =>
    rw [List.mapM_cons, bind_eq_ok_iff] at h
    obtain ⟨y, hy, h⟩ := h
    obtain ⟨zs, hzs, h⟩ := bind_eq_ok_iff.1 h
    obtain rfl := Except.ok.inj h
    exact .cons hy (ih hzs)

/-- Each member of a list is related to one of the other list. -/
theorem exists_of_forall₂ {α β : Type} {R : α → β → Prop} {l : List α} {ys : List β}
    (h : List.Forall₂ R l ys) {x : α} (hx : x ∈ l) : ∃ y ∈ ys, R x y := by
  induction h with
  | nil => cases hx
  | cons hxy _ ih =>
    rcases List.mem_cons.1 hx with rfl | hx
    · exact ⟨_, List.mem_cons_self, hxy⟩
    · obtain ⟨y, hy, hxy⟩ := ih hx
      exact ⟨y, List.mem_cons_of_mem _ hy, hxy⟩

/-- Each member of a successful list has a result. -/
theorem exists_of_mapM_ok {α β ε : Type} {f : α → Except ε β} {l : List α} {ys : List β}
    (h : l.mapM f = .ok ys) {x : α} (hx : x ∈ l) : ∃ y, f x = .ok y :=
  let ⟨y, _, hy⟩ := exists_of_forall₂ (mapM_ok_forall₂ h) hx
  ⟨y, hy⟩

/-- What is at a position after one more has come was there before, or is the last one. -/
theorem getElem?_append_singleton {α : Type} {l : List α} {x y : α} {n : Nat} :
    (l ++ [x])[n]? = some y ↔ l[n]? = some y ∨ n = l.length ∧ x = y := by
  rcases Nat.lt_trichotomy n l.length with hlt | rfl | hgt
  · simp [List.getElem?_append_left hlt, Nat.ne_of_lt hlt]
  · simp
  · simp [List.getElem?_eq_none (l := l ++ [x]) (i := n) (by simp; omega),
      List.getElem?_eq_none (Nat.le_of_lt hgt), Nat.ne_of_gt hgt]

namespace Act

variable {σ τ α β : Type}

/-- Some work ends well: with an answer of `P`, or with a failure of `E`. -/
def Ends (act : Act σ α) (s : σ) (P : α → σ → Prop) (E : Error → σ → Prop) : Prop :=
  match act s with
  | .ok a t => P a t
  | .error e t => E e t

/-- The state that some work leaves, whether it answers or fails. -/
def final (act : Act σ α) (s : σ) : σ :=
  match act s with
  | .ok _ t => t
  | .error _ t => t

/-- Whether some work answers. -/
def succeeds (act : Act σ α) (s : σ) : Bool :=
  match act s with
  | .ok _ _ => true
  | .error _ _ => false

/-- How some work fails, if it does. -/
def failure? (act : Act σ α) (s : σ) : Option Error :=
  match act s with
  | .ok _ _ => none
  | .error e _ => some e

/-- Work that answers leaves the state that comes with the answer. -/
theorem final_of_ok {act : Act σ α} {s t : σ} {a : α} (h : act s = .ok a t) : act.final s = t := by
  unfold final
  rw [h]

/-- Work that succeeds has an answer and leaves a state. -/
theorem exists_of_succeeds {act : Act σ α} {s : σ} (h : act.succeeds s = true) :
    ∃ a t, act s = .ok a t := by
  unfold succeeds at h
  split at h
  · next a t heq => exact ⟨a, t, heq⟩
  · cases h

/-- Work that fails leaves a state. -/
theorem eq_error_of_failure? {act : Act σ α} {s : σ} {e : Error} (h : act.failure? s = some e) :
    act s = .error e (act.final s) := by
  simp only [failure?] at h
  split at h
  · cases h
  · next e' t heq =>
    obtain rfl := Option.some.inj h
    rw [final, heq]

/-- Work that does not succeed fails and leaves a state. -/
theorem exists_of_not_succeeds {act : Act σ α} {s : σ} (h : act.succeeds s = false) :
    ∃ e t, act s = .error e t := by
  unfold succeeds at h
  split at h
  · cases h
  · next e t heq => exact ⟨e, t, heq⟩

/-- What some work answers, if it does. -/
def answer? (act : Act σ α) (s : σ) : Option α :=
  match act s with
  | .ok a _ => some a
  | .error _ _ => none

/-- Work that answers does so in the state that it leaves. -/
theorem eq_ok_of_answer? {act : Act σ α} {s : σ} {a : α} (h : act.answer? s = some a) :
    act s = .ok a (act.final s) := by
  unfold answer? at h
  unfold final
  split at h
  · next b t heq =>
    rw [heq, Option.some.inj h]
  · cases h

/-- The state is its own answer. -/
theorem get_apply (s : σ) : (get : Act σ σ) s = .ok s s := rfl

variable {s : σ} {P Q : α → σ → Prop} {E F : Error → σ → Prop}

/-- Weaker conditions at the end hold as well. -/
theorem Ends.mono {act : Act σ α} (h : Ends act s P E) (hP : ∀ a t, P a t → Q a t)
    (hE : ∀ e t, E e t → F e t) : Ends act s Q F := by
  unfold Ends at h ⊢
  split at h
  · exact hP _ _ h
  · exact hE _ _ h

/-- Two conditions at the end hold together. -/
theorem Ends.and {act : Act σ α} (h : Ends act s P E) (h' : Ends act s Q F) :
    Ends act s (fun a t => P a t ∧ Q a t) (fun e t => E e t ∧ F e t) := by
  unfold Ends at h h' ⊢
  split <;> simp_all

/-- What holds of an answer that was given. -/
theorem Ends.of_ok {act : Act σ α} (h : Ends act s P E) {a : α} {t : σ} (ht : act s = .ok a t) :
    P a t := by
  simpa [Ends, ht] using h

/-- Some work that ends well has answered. -/
theorem ends_run (act : Act σ α) (s : σ) :
    Ends act s (fun a t => act s = .ok a t) (fun e t => act s = .error e t) := by
  unfold Ends
  split <;> assumption

/-- What holds of a failure that was met. -/
theorem Ends.of_error {act : Act σ α} (h : Ends act s P E) {e : Error} {t : σ}
    (ht : act s = .error e t) : E e t := by
  simpa [Ends, ht] using h

/-- Some work leaves the state that it leaves. -/
theorem ends_final (act : Act σ α) (s : σ) :
    Ends act s (fun _ t => t = act.final s) (fun _ t => t = act.final s) := by
  unfold Ends final
  split <;> rfl

/-- A condition on the state alone holds of the state that is left. -/
theorem ends_final_iff {act : Act σ α} {R : σ → Prop} :
    Ends act s (fun _ => R) (fun _ => R) ↔ R (act.final s) := by
  unfold Ends final
  split <;> rfl

@[simp] theorem ends_pure {a : α} : Ends (pure a) s P E ↔ P a s := Iff.rfl

@[simp] theorem ends_throw {e : Error} : Ends (throw e : Act σ α) s P E ↔ E e s := Iff.rfl

/-- A sequence ends well iff its first part ends where the second one ends well. -/
@[simp] theorem ends_bind {act : Act σ β} {f : β → Act σ α} :
    Ends (act >>= f) s P E ↔ Ends act s (fun b t => Ends (f b) t P E) E := by
  simp only [Ends, bind, EStateM.bind]
  cases act s <;> rfl

@[simp] theorem ends_map {act : Act σ β} {f : β → α} :
    Ends (f <$> act) s P E ↔ Ends act s (fun b t => P (f b) t) E := by
  simp only [Ends, Functor.map, EStateM.map]
  cases act s <;> rfl

@[simp] theorem ends_get {P : σ → σ → Prop} : Ends (get : Act σ σ) s P E ↔ P s s := Iff.rfl

@[simp] theorem ends_set {t : σ} {P : Unit → σ → Prop} :
    Ends (set t : Act σ Unit) s P E ↔ P () t := Iff.rfl

@[simp] theorem ends_modify {f : σ → σ} {P : Unit → σ → Prop} :
    Ends (modify f : Act σ Unit) s P E ↔ P () (f s) := Iff.rfl

@[simp] theorem ends_ofExcept_ok {a : α} : Ends (ofExcept (.ok a)) s P E ↔ P a s := Iff.rfl

@[simp] theorem ends_ofExcept_error {e : Error} :
    Ends (ofExcept (.error e) : Act σ α) s P E ↔ E e s := Iff.rfl

/-- A computation without a state leaves the state as it is. -/
theorem ends_ofExcept {x : Except Error α} :
    Ends (ofExcept x) s P E ↔ (∀ a, x = .ok a → P a s) ∧ ∀ e, x = .error e → E e s := by
  cases x <;> simp

@[simp] theorem ends_ite {c : Prop} [Decidable c] {act act' : Act σ α} :
    Ends (if c then act else act') s P E ↔ (c → Ends act s P E) ∧ (¬c → Ends act' s P E) := by
  split <;> simp_all

/-- Work on a part of a state. -/
@[simp] theorem ends_onPart {view : τ → σ} {put : τ → σ → τ} {act : Act σ α} {t : τ}
    {P : α → τ → Prop} {E : Error → τ → Prop} :
    Ends (onPart view put act) t P E ↔
      Ends act (view t) (fun a s => P a (put t s)) (fun e s => E e (put t s)) := by
  simp only [Ends, onPart]
  cases act (view t) <;> rfl

@[simp] theorem ends_forM_nil {f : β → Act σ Unit} {P : Unit → σ → Prop} :
    Ends (List.forM [] f) s P E ↔ P () s := Iff.rfl

@[simp] theorem ends_forM_cons {b : β} {l : List β} {f : β → Act σ Unit} {P : Unit → σ → Prop} :
    Ends ((b :: l).forM f) s P E ↔ Ends (f b) s (fun _ t => Ends (l.forM f) t P E) E :=
  ends_bind (f := fun _ => l.forM f)

/-- An invariant of each round is an invariant of the loop. -/
theorem ends_forM {l : List β} {f : β → Act σ Unit} {I : σ → Prop}
    (hf : ∀ b ∈ l, ∀ s, I s → Ends (f b) s (fun _ => I) E) (hs : I s) :
    Ends (l.forM f) s (fun _ => I) E := by
  induction l generalizing s with
  | nil => exact hs
  | cons b l ih =>
    rw [ends_forM_cons]
    refine (hf b List.mem_cons_self s hs).mono (fun _ t ht => ?_) (fun _ _ h => h)
    exact ih (fun b' hb' => hf b' (List.mem_cons_of_mem _ hb')) ht

/-- What each round establishes for its item, and later rounds keep, holds of all items at the end of
the loop. -/
theorem ends_forM_all {l : List β} {f : β → Act σ Unit} {I : σ → Prop} {Q : β → σ → Prop}
    (hf : ∀ b ∈ l, ∀ s, I s →
      Ends (f b) s (fun _ s' => I s' ∧ Q b s' ∧ ∀ b', Q b' s → Q b' s') E) (hs : I s) :
    Ends (l.forM f) s (fun _ s' => I s' ∧ ∀ b ∈ l, Q b s') E := by
  suffices h : ∀ done, (∀ b ∈ done, Q b s) →
      Ends (l.forM f) s (fun _ s' => I s' ∧ ∀ b, b ∈ done ∨ b ∈ l → Q b s') E by
    exact (h [] fun _ hb => absurd hb List.not_mem_nil).mono (fun _ _ ht => ⟨ht.1, fun b hb => ht.2 b (.inr hb)⟩)
      fun _ _ he => he
  induction l generalizing s with
  | nil => exact fun done hdone => ⟨hs, fun b hb => hdone b (hb.resolve_right List.not_mem_nil)⟩
  | cons b l ih =>
    intro done hdone
    rw [ends_forM_cons]
    refine (hf b List.mem_cons_self s hs).mono (fun _ t ht => ?_) fun _ _ he => he
    have hdone' : ∀ b' ∈ b :: done, Q b' t := by
      intro b' hb'
      rcases List.mem_cons.1 hb' with rfl | hb'
      · exact ht.2.1
      · exact ht.2.2 b' (hdone b' hb')
    have hl := ih (fun b' hb' => hf b' (List.mem_cons_of_mem _ hb')) ht.1 (b :: done) hdone'
    refine hl.mono (fun _ s' hs' => ⟨hs'.1, fun b' hb' => hs'.2 b' ?_⟩) fun _ _ he => he
    rw [List.mem_cons] at hb' ⊢
    tauto

/-- What each round answers for its item, and later rounds do not undo, holds of all answers at the end
of the loop. -/
theorem ends_mapM {l : List β} {f : β → Act σ α} {R : σ → σ → Prop} {Q : β → α → σ → Prop}
    (hrefl : ∀ s, R s s) (htrans : ∀ s t u, R s t → R t u → R s u)
    (hkeep : ∀ b a s t, R s t → Q b a s → Q b a t)
    (hf : ∀ b ∈ l, ∀ t, R s t → Ends (f b) t (fun a u => R t u ∧ Q b a u) E) :
    Ends (l.mapM f) s (fun as t => R s t ∧ List.Forall₂ (fun b a => Q b a t) l as) E := by
  induction l generalizing s with
  | nil => exact ⟨hrefl s, .nil⟩
  | cons b l ih =>
    rw [List.mapM_cons]
    simp only [ends_bind, ends_pure]
    refine (hf b List.mem_cons_self s (hrefl s)).mono (fun a t ht => ?_) fun _ _ he => he
    refine (ih fun b' hb' u hu => ?_).mono (fun as u hu => ?_) fun _ _ he => he
    · exact hf b' (List.mem_cons_of_mem _ hb') u (htrans _ _ _ ht.1 hu)
    · exact ⟨htrans _ _ _ ht.1 hu.1, .cons (hkeep _ _ _ _ hu.1 ht.2) hu.2⟩

/-- Where the answers do not matter, work for each item ends as a loop. -/
theorem ends_mapM_iff {l : List β} {f : β → Act σ α} {R : σ → Prop} :
    Ends (l.mapM f) s (fun _ => R) E ↔
      Ends (l.forM fun b => f b >>= fun _ => pure ()) s (fun _ => R) E := by
  induction l generalizing s with
  | nil => rfl
  | cons b l ih =>
    rw [List.mapM_cons, ends_forM_cons]
    simp only [ends_bind, ends_pure, ih]

/-- Running some work for each item, whatever comes of it, keeps what each run keeps. -/
theorem ends_forAll {l : List β} {f : β → Act σ Unit} {I : σ → Prop}
    (hf : ∀ b ∈ l, ∀ s, I s → Ends (f b) s (fun _ => I) (fun _ => I)) (hs : I s) :
    Ends (forAll f l) s (fun _ => I) (fun _ => I) := by
  rw [ends_final_iff]
  induction l generalizing s with
  | nil => exact hs
  | cons b l ih =>
    have hb := ends_final_iff.1 (hf b List.mem_cons_self s hs)
    have hl := ih (fun b' hb' => hf b' (List.mem_cons_of_mem _ hb')) hb
    unfold final at hb hl ⊢
    unfold forAll
    cases hfb : f b s with
    | ok _ t => simpa [hfb] using hl
    | error e t =>
      simp only [hfb] at hl ⊢
      cases hft : forAll f l t <;> simpa [hft] using hl

/-- Answers that leave the state alone come, one by one, as a list. -/
theorem mapM_eq_ok {l : List β} {f : β → Act σ α} {g : β → α} (hf : ∀ b ∈ l, f b s = .ok (g b) s) :
    l.mapM f s = .ok (l.map g) s := by
  induction l with
  | nil => rfl
  | cons b l ih =>
    rw [List.mapM_cons]
    simp only [bind, EStateM.bind, hf b List.mem_cons_self,
      ih fun b' hb' => hf b' (List.mem_cons_of_mem _ hb')]
    rfl

/-- Running some work for each item ends as running one after another does, or fails as that does. -/
theorem ends_forAll_of_forM {l : List β} {f : β → Act σ Unit} {P : Unit → σ → Prop}
    (h : Ends (l.forM f) s P E) : Ends (forAll f l) s P (fun e _ => ∃ t, E e t) := by
  induction l generalizing s with
  | nil => exact h
  | cons b l ih =>
    rw [ends_forM_cons] at h
    unfold Ends at h
    unfold Ends forAll
    cases hb : f b s with
    | ok _ t =>
      simp only [hb] at h
      exact ih h
    | error e t =>
      simp only [hb] at h
      cases hrest : forAll f l t <;> simp only [hrest] <;> exact ⟨t, h⟩

end Act

end EntityGraph
