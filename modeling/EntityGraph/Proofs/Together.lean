import EntityGraph.Proofs.Ends

/-!
# Two pieces of work side by side

`Act.Together act act' s s' P` says of two pieces of work, each on a state of its own, that `P` holds of
their answers and of the states that they leave, if both of them answer. It is shown step by step: a
step of both sides, or a step of one side that the other does not make.

* `together_bind` — sequences go together if their parts do;
* `together_left`, `together_right` — one side makes a step alone;
* `together_forM`, `together_mapM` — loops over one list go together if their rounds do.
-/

namespace EntityGraph.Act

variable {σ τ α β γ δ : Type} {s : σ} {s' : τ}

/-- Whenever two pieces of work both answer, their answers and the states that they leave are related. -/
def Together (act : Act σ α) (act' : Act τ β) (s : σ) (s' : τ) (P : α → β → σ → τ → Prop) : Prop :=
  ∀ a t b t', act s = .ok a t → act' s' = .ok b t' → P a b t t'

variable {P Q : α → β → σ → τ → Prop}

theorem Together.mono {act : Act σ α} {act' : Act τ β} (h : Together act act' s s' P)
    (hPQ : ∀ a b t t', P a b t t' → Q a b t t') : Together act act' s s' Q :=
  fun a t b t' ha hb => hPQ a b t t' (h a t b t' ha hb)

/-- What holds of each side alone holds of both. -/
theorem together_of_ends {act : Act σ α} {act' : Act τ β} {R : α → σ → Prop} {R' : β → τ → Prop}
    (h : act.Ends s R fun _ _ => True) (h' : act'.Ends s' R' fun _ _ => True) :
    Together act act' s s' fun a b t t' => R a t ∧ R' b t' :=
  fun _ _ _ _ ha hb => ⟨h.of_ok ha, h'.of_ok hb⟩

/-- Answers alone are related as they are. -/
theorem together_pure {a : α} {b : β} (h : P a b s s') : Together (pure a) (pure b) s s' P := by
  intro _ _ _ _ ha hb
  cases ha
  cases hb
  exact h

/-- The states themselves are related as they are. -/
theorem together_get {P : σ → τ → σ → τ → Prop} (h : P s s' s s') : Together get get s s' P := by
  intro _ _ _ _ ha hb
  cases ha
  cases hb
  exact h

/-- The left side works on where the right one has nothing to do. -/
theorem together_pure_right {act : Act σ α} {b : β}
    (h : act.Ends s (fun a t => P a b t s') fun _ _ => True) : Together act (pure b) s s' P := by
  intro _ _ _ _ ha hb
  cases hb
  exact h.of_ok ha

/-- The right side works on where the left one has nothing to do. -/
theorem together_pure_left {a : α} {act' : Act τ β}
    (h : act'.Ends s' (fun b t' => P a b s t') fun _ _ => True) : Together (pure a) act' s s' P := by
  intro _ _ _ _ ha hb
  cases ha
  exact h.of_ok hb

/-- A sequence that answers does so in both parts. -/
theorem ok_of_bind {act : Act σ γ} {f : γ → Act σ α} {a : α} {t : σ}
    (h : (act >>= f) s = .ok a t) : ∃ c u, act s = .ok c u ∧ f c u = .ok a t := by
  simp only [bind, EStateM.bind] at h
  split at h
  · next c u hact => exact ⟨c, u, hact, h⟩
  · cases h

/-- Sequences go together if their parts do. -/
theorem together_bind {act : Act σ γ} {act' : Act τ δ} {f : γ → Act σ α} {f' : δ → Act τ β}
    {R : γ → δ → σ → τ → Prop} (h : Together act act' s s' R)
    (hf : ∀ c d t t', R c d t t' → Together (f c) (f' d) t t' P) :
    Together (act >>= f) (act' >>= f') s s' P := by
  intro a t b t' ha hb
  obtain ⟨c, u, hact, ha⟩ := ok_of_bind ha
  obtain ⟨d, u', hact', hb⟩ := ok_of_bind hb
  exact hf c d u u' (h c u d u' hact hact') a t b t' ha hb

/-- The left side makes a step alone. -/
theorem together_left {act : Act σ γ} {f : γ → Act σ α} {act' : Act τ β}
    (h : act.Ends s (fun c t => Together (f c) act' t s' P) fun _ _ => True) :
    Together (act >>= f) act' s s' P := by
  intro a t b t' ha hb
  obtain ⟨c, u, hact, ha⟩ := ok_of_bind ha
  exact h.of_ok hact a t b t' ha hb

/-- The right side makes a step alone. -/
theorem together_right {act : Act σ α} {act' : Act τ δ} {f' : δ → Act τ β}
    (h : act'.Ends s' (fun d t' => Together act (f' d) s t' P) fun _ _ => True) :
    Together act (act' >>= f') s s' P := by
  intro a t b t' ha hb
  obtain ⟨d, u', hact', hb⟩ := ok_of_bind hb
  exact h.of_ok hact' a t b t' ha hb

/-- Answers that touch nothing. -/
theorem together_ofExcept {x : Except Error α} {x' : Except Error β}
    (h : ∀ a b, x = .ok a → x' = .ok b → P a b s s') :
    Together (ofExcept x) (ofExcept x') s s' P := by
  intro a t b t' ha hb
  cases hx : x with
  | error _ =>
    rw [hx] at ha
    cases ha
  | ok a' =>
    cases hx' : x' with
    | error _ =>
      rw [hx'] at hb
      cases hb
    | ok b' =>
      rw [hx] at ha
      rw [hx'] at hb
      cases ha
      cases hb
      exact h a b hx hx'

/-- Both sides look up the same. -/
theorem together_lookup {x : Except Error γ} {f : γ → Act σ α} {f' : γ → Act τ β}
    (h : ∀ c, x = .ok c → Together (f c) (f' c) s s' P) :
    Together (ofExcept x >>= f) (ofExcept x >>= f') s s' P := by
  refine together_left (ends_ofExcept.2 ⟨fun c hc => ?_, fun _ _ => trivial⟩)
  refine together_right (ends_ofExcept.2 ⟨fun d hd => ?_, fun _ _ => trivial⟩)
  obtain rfl := Except.ok.inj (hc.symm.trans hd)
  exact h c hc

/-- Loops over one list go together if their rounds do. -/
theorem together_forM {l : List γ} {f : γ → Act σ Unit} {f' : γ → Act τ Unit} {I : σ → τ → Prop}
    (hf : ∀ c ∈ l, ∀ t t', I t t' → Together (f c) (f' c) t t' fun _ _ => I) (hs : I s s') :
    Together (l.forM f) (l.forM f') s s' fun _ _ => I := by
  induction l generalizing s s' with
  | nil => exact together_pure hs
  | cons c l ih =>
    refine together_bind (hf c List.mem_cons_self s s' hs) fun _ _ t t' ht => ?_
    exact ih (fun d hd => hf d (List.mem_cons_of_mem _ hd)) ht

/-- Answers for one list come out the same if each of them does. -/
theorem together_mapM {l : List γ} {f : γ → Act σ α} {f' : γ → Act τ α} {I : σ → τ → Prop}
    {Q : α → Prop} (hf : ∀ c ∈ l, ∀ t t', I t t' →
      Together (f c) (f' c) t t' fun a b u u' => (a = b ∧ Q a) ∧ I u u') (hs : I s s') :
    Together (l.mapM f) (l.mapM f') s s' fun as bs u u' => (as = bs ∧ ∀ a ∈ as, Q a) ∧ I u u' := by
  induction l generalizing s s' with
  | nil => exact together_pure ⟨⟨rfl, fun a ha => absurd ha List.not_mem_nil⟩, hs⟩
  | cons c l ih =>
    rw [List.mapM_cons, List.mapM_cons]
    refine together_bind (hf c List.mem_cons_self s s' hs) fun a b t t' ht => ?_
    obtain ⟨⟨rfl, ha⟩, ht⟩ := ht
    refine together_bind (ih (fun d hd => hf d (List.mem_cons_of_mem _ hd)) ht) fun as bs u u' hu => ?_
    obtain ⟨⟨rfl, has⟩, hu⟩ := hu
    exact together_pure ⟨⟨rfl, List.forall_mem_cons.2 ⟨ha, has⟩⟩, hu⟩

end EntityGraph.Act
