/-!
# Segments between dots

Dotted names and paths are cut at their dots. There is one segment more than there are dots, and
segments may be empty.

* `segments_flatten` — cutting loses only the dots;
* `segments_free` — no segment contains a dot.
-/

namespace EntityGraph.Text

/-- The segments of a name between its dots; there is always at least one. -/
def segments : List Char → List (List Char)
  | [] => [[]]
  | c :: cs =>
    if c = '.' then [] :: segments cs
    else match segments cs with
      | [] => [[c]]
      | s :: rest => (c :: s) :: rest

/-- A character begins the first segment, or is a dot and ends it. -/
theorem segments_cons (c : Char) (cs : List Char) : segments (c :: cs) =
    if c = '.' then [] :: segments cs
    else match segments cs with
      | [] => [[c]]
      | s :: rest => (c :: s) :: rest :=
  rfl

/-- There is at least one segment. -/
theorem segments_ne_nil (cs : List Char) : segments cs ≠ [] := by
  cases cs with
  | nil => exact List.cons_ne_nil _ _
  | cons c cs =>
    rw [segments_cons]
    split
    · simp
    · split <;> simp

/-- Cutting a name at its dots loses only the dots. -/
theorem segments_flatten (cs : List Char) : (segments cs).flatten = cs.filter (· ≠ '.') := by
  induction cs with
  | nil => rfl
  | cons c cs ih =>
    rw [segments_cons]
    split
    · next h => simp [h, ih]
    · next h =>
      split
      · next hnil => exact absurd hnil (segments_ne_nil cs)
      · next s rest hs =>
        rw [List.filter_cons_of_pos (by simpa using h), ← ih, hs]
        rfl

/-- No segment contains a dot. -/
theorem segments_free (cs : List Char) : ∀ s ∈ segments cs, '.' ∉ s := by
  induction cs with
  | nil => exact List.forall_mem_singleton.2 List.not_mem_nil
  | cons c cs ih =>
    rw [segments_cons]
    split
    · simpa using ih
    · next h =>
      split
      · simpa using Ne.symm h
      · next s rest hs =>
        rw [hs] at ih
        intro t ht
        rcases List.mem_cons.1 ht with rfl | ht
        · have := ih s List.mem_cons_self
          simp [Ne.symm h, this]
        · exact ih t (List.mem_cons_of_mem _ ht)

/-- Without a dot there is nothing to cut. -/
theorem segments_of_not_mem {cs : List Char} (h : '.' ∉ cs) : segments cs = [cs] := by
  induction cs with
  | nil => rfl
  | cons c cs ih =>
    rw [List.mem_cons, not_or] at h
    rw [segments_cons, if_neg (Ne.symm h.1), ih h.2]

/-- The segments of a text. -/
def splitDots (s : String) : List String :=
  (segments s.toList).map String.ofList

/-- A text without a dot is its only segment. -/
theorem splitDots_of_not_mem {s : String} (h : '.' ∉ s.toList) : splitDots s = [s] := by
  rw [splitDots, segments_of_not_mem h, List.map_singleton, String.ofList_toList]

end EntityGraph.Text
