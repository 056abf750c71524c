/-!
# Association lists

Finite maps as lists of pairs in order of first insertion. Each operation is pinned down by what
`get?` finds afterwards.

* `get?_put_self`, `get?_put_of_ne` — a put changes the value of its own key only;
* `get?_erase_self`, `get?_erase_of_ne` — so does an erasure.
-/

namespace EntityGraph

/-- A finite map as a list of pairs. -/
abbrev Assoc (α β : Type) := List (α × β)

namespace Assoc

variable {α β : Type} [DecidableEq α]

/-- The value of a key. -/
def get? (m : Assoc α β) (k : α) : Option β :=
  match m with
  | [] => none
  | (a, b) :: m => if a = k then some b else get? m k

/-- Sets the value of a key, in its place if it has one. -/
def put (m : Assoc α β) (k : α) (v : β) : Assoc α β :=
  match m with
  | [] => [(k, v)]
  | (a, b) :: m => if a = k then (k, v) :: m else (a, b) :: put m k v

/-- Forgets a key. -/
def erase (m : Assoc α β) (k : α) : Assoc α β :=
  m.filter (·.1 ≠ k)

/-- Whether a key has a value. -/
def contains (m : Assoc α β) (k : α) : Bool :=
  (get? m k).isSome

/-- Changes every value. -/
def mapValues {γ : Type} (f : β → γ) (m : Assoc α β) : Assoc α γ :=
  m.map fun p => (p.1, f p.2)

/-- The empty map has no keys. -/
@[simp] theorem get?_nil (k : α) : get? ([] : Assoc α β) k = none := rfl

/-- The first pair with a key decides its value. -/
theorem get?_cons (p : α × β) (m : Assoc α β) (k : α) :
    get? (p :: m) k = if p.1 = k then some p.2 else get? m k := rfl

/-- A put into the empty map is its only pair. -/
theorem put_nil (k : α) (v : β) : put ([] : Assoc α β) k v = [(k, v)] := rfl

/-- A put replaces the first pair with its key, or passes it by. -/
theorem put_cons (p : α × β) (m : Assoc α β) (k : α) (v : β) :
    put (p :: m) k v = if p.1 = k then (k, v) :: m else p :: put m k v := rfl

/-- A put sets the value of its key. -/
@[simp] theorem get?_put_self (m : Assoc α β) (k : α) (v : β) : get? (put m k v) k = some v := by
  induction m with
  | nil => simp [put_nil, get?_cons]
  | cons p m ih =>
    by_cases h : p.1 = k
    · simp [put_cons, get?_cons, h]
    · simp [put_cons, get?_cons, h, ih]

/-- What is listed after a put is the new pair or was listed before. -/
theorem mem_put {m : Assoc α β} {k : α} {v : β} {p : α × β} (h : p ∈ put m k v) :
    p = (k, v) ∨ p ∈ m := by
  induction m with
  | nil => exact .inl (List.mem_singleton.1 h)
  | cons q m ih =>
    by_cases hq : q.1 = k
    · rw [put_cons, if_pos hq] at h
      exact (List.mem_cons.1 h).imp_right (List.mem_cons_of_mem _)
    · rw [put_cons, if_neg hq] at h
      rcases List.mem_cons.1 h with rfl | h
      · exact .inr List.mem_cons_self
      · exact (ih h).imp_right (List.mem_cons_of_mem _)

/-- A put leaves the other keys alone. -/
theorem get?_put_of_ne (m : Assoc α β) {k l : α} (v : β) (h : l ≠ k) :
    get? (put m k v) l = get? m l := by
  induction m with
  | nil => simp [put_nil, get?_cons, Ne.symm h]
  | cons p m ih =>
    by_cases hk : p.1 = k
    · simp [put_cons, get?_cons, hk, Ne.symm h]
    · by_cases hl : p.1 = l
      · simp [put_cons, get?_cons, hl, h]
      · simp [put_cons, get?_cons, hk, hl, ih]

/-- An erased key has no value. -/
@[simp] theorem get?_erase_self (m : Assoc α β) (k : α) : get? (erase m k) k = none := by
  induction m with
  | nil => rfl
  | cons p m ih =>
    unfold erase at ih ⊢
    by_cases h : p.1 = k
    · simpa [List.filter_cons, h] using ih
    · simpa [List.filter_cons, get?_cons, h] using ih

/-- An erasure leaves the other keys alone. -/
theorem get?_erase_of_ne (m : Assoc α β) {k l : α} (h : l ≠ k) :
    get? (erase m k) l = get? m l := by
  induction m with
  | nil => rfl
  | cons p m ih =>
    unfold erase at ih ⊢
    by_cases hk : p.1 = k
    · have hl : p.1 ≠ l := fun hl => h (hl ▸ hk)
      simpa [List.filter_cons, get?_cons, hk, hl, Ne.symm h] using ih
    · by_cases hl : p.1 = l
      · simp [get?_cons, hl, h]
      · simpa [List.filter_cons, get?_cons, hk, hl] using ih

/-- Changing every value changes what is found. -/
theorem get?_mapValues {γ : Type} (f : β → γ) (m : Assoc α β) (k : α) :
    get? (mapValues f m) k = (get? m k).map f := by
  induction m with
  | nil => rfl
  | cons p m ih =>
    by_cases h : p.1 = k
    · simp [mapValues, get?_cons, h]
    · simpa [mapValues, get?_cons, h] using ih

/-- What the first of two maps does not have is looked up in the second one. -/
theorem get?_append (m n : Assoc α β) (k : α) : get? (m ++ n) k = (get? m k).or (get? n k) := by
  induction m with
  | nil => rfl
  | cons p m ih =>
    by_cases h : p.1 = k
    · simp [get?_cons, h]
    · simpa [get?_cons, h] using ih

/-- Keys may be renamed, as long as no other key gets the name of the one that is looked up. -/
theorem get?_map_key {γ : Type} [DecidableEq γ] (f : α → γ) {m : Assoc α β} {k : α}
    (h : ∀ p ∈ m, f p.1 = f k → p.1 = k) :
    get? (m.map fun p => (f p.1, p.2)) (f k) = get? m k := by
  induction m with
  | nil => rfl
  | cons p m ih =>
    have hrest := ih fun q hq => h q (List.mem_cons_of_mem _ hq)
    by_cases hp : p.1 = k
    · simp [get?_cons, hp]
    · have hf : f p.1 ≠ f k := fun heq => hp (h p List.mem_cons_self heq)
      simpa [get?_cons, hp, hf] using hrest

/-- What is found is listed. -/
theorem mem_of_get? {m : Assoc α β} {k : α} {v : β} (h : get? m k = some v) : (k, v) ∈ m := by
  induction m with
  | nil => cases h
  | cons q m ih =>
    by_cases hq : q.1 = k
    · obtain rfl : q.2 = v := by simpa [get?_cons, hq] using h
      exact hq ▸ List.mem_cons_self
    · exact List.mem_cons_of_mem _ (ih (by simpa [get?_cons, hq] using h))

/-- What is listed can be found. -/
theorem exists_get?_of_mem {m : Assoc α β} {p : α × β} (h : p ∈ m) : ∃ v, get? m p.1 = some v := by
  induction m with
  | nil => cases h
  | cons q m ih =>
    by_cases hq : q.1 = p.1
    · exact ⟨q.2, by simp [get?_cons, hq]⟩
    · have hmem : p ∈ m := by
        rcases List.mem_cons.1 h with rfl | hmem
        · exact absurd rfl hq
        · exact hmem
      obtain ⟨v, hv⟩ := ih hmem
      exact ⟨v, by simp [get?_cons, hq, hv]⟩

end Assoc

end EntityGraph
