import EntityGraph.Proofs.Visiting

/-!
# Rows are deleted once, and in order

The statements that delete rows under their key are one pass over the tables of the type. A traversal
makes at most one pass for each type and key, also where it fails in the middle of one. In a traversal
that succeeds, what depends on rows and is visited for the first time on their behalf is deleted before
them, and what they own and is visited for the first time on their behalf is deleted after them.

* `Deletion.Once` — in a stretch of a traversal, rows are deleted once, if they are entered in it;
* `Deletion.Precedes` — the statements that delete some rows come before those that delete others;
* `Deletion.ends_visit_once` — each visit deletes rows once, whatever comes of it;
* `Deletion.Visited.sorted` — each visit that was made has its rows deleted in between the others.
-/

namespace EntityGraph

namespace Deletion

open Traversal

/-- The statements of a journal that were sent for some rows and delete. -/
def deletesFor (r : String × Value) (l : Journal) : List Statement :=
  (l.filter fun p => p.1 = r && p.2.isDelete).map (·.2)

section journal

variable {r k : String × Value} {l l' : Journal} {d : Doomed} {key : Atomic}

@[simp] theorem deletesFor_append : deletesFor r (l ++ l') = deletesFor r l ++ deletesFor r l' := by
  simp [deletesFor]

/-- Statements that do not delete are none of those that do. -/
theorem deletesFor_of_mild (h : ∀ p ∈ l, p.2.isDelete = false) : deletesFor r l = [] := by
  simp only [deletesFor, List.map_eq_nil_iff, List.filter_eq_nil_iff]
  intro p hp
  simp [h p hp]

/-- What is sent for some rows alone. -/
theorem deletesFor_sentFor {l : List Statement} (h : ∀ s ∈ l, s.isDelete = true) :
    deletesFor r (l.map (k, ·)) = if k = r then l else [] := by
  by_cases hk : k = r
  · rw [if_pos hk, deletesFor, List.filter_eq_self.2 fun p hp => ?_, map_snd_sentFor]
    obtain ⟨s, hs, rfl⟩ := List.mem_map.1 hp
    simp [hk, h s hs]
  · rw [if_neg hk, deletesFor, List.map_eq_nil_iff, List.filter_eq_nil_iff]
    intro p hp
    obtain ⟨s, -, rfl⟩ := List.mem_map.1 hp
    simp [hk]

/-- A pass consists of deletions. -/
theorem isDelete_of_mem_pass {s : Statement} (h : s ∈ d.pass key) : s.isDelete = true := by
  obtain ⟨table, -, rfl⟩ := List.mem_map.1 h
  rfl

end journal

variable {σ : Type} [Connection σ] {c : Catalog} {d : Doomed} {key : Atomic}
  {t t' t'' t₁ t₂ : Traversal (String × Value) σ} {l l' l'' : Journal} {vs : List Visit}

/-! ### At most once -/

/-- A stretch of a traversal deletes only rows that are entered in it, by one pass for each type and key,
or by the beginning of one. -/
structure Once (l : Journal) (t t' : Traversal (String × Value) σ) : Prop where
  entered : t.entered ⊆ t'.entered
  journal : t'.journal = t.journal ++ l
  sent : t'.world.wire.sent = t.world.wire.sent ++ l.map (·.2)
  new : ∀ r, deletesFor r l ≠ [] → r ∉ t.entered ∧ r ∈ t'.entered
  pass : ∀ r, deletesFor r l ≠ [] → ∃ d key, Doomed.row d = r ∧ d.schema.key = .ok key ∧
    deletesFor r l <+: d.pass key

namespace Once

omit [Connection σ] in
/-- Rows that were entered before are not deleted. -/
theorem none_of_entered (h : Once l t t') {r : String × Value} (hr : r ∈ t.entered) :
    deletesFor r l = [] :=
  by_contra fun hne => (h.new r hne).1 hr

omit [Connection σ] in
/-- Rows that have not been entered in the end are not deleted. -/
theorem none_of_not_entered (h : Once l t t') {r : String × Value} (hr : r ∉ t'.entered) :
    deletesFor r l = [] :=
  by_contra fun hne => hr (h.new r hne).2

omit [Connection σ] in
theorem refl (t : Traversal (String × Value) σ) : Once [] t t :=
  ⟨fun _ hr => hr, by simp, by simp, fun _ hne => absurd rfl hne, fun _ hne => absurd rfl hne⟩

omit [Connection σ] in
/-- One stretch after the other: what has been deleted in the first one has been entered. -/
theorem trans (h : Once l t t₁) (h' : Once l' t₁ t') : Once (l ++ l') t t' := by
  have hcases : ∀ r, deletesFor r (l ++ l') = deletesFor r l ∧ r ∈ t₁.entered ∨
      deletesFor r (l ++ l') = deletesFor r l' ∧ r ∉ t₁.entered := by
    intro r
    rw [deletesFor_append]
    by_cases hr : r ∈ t₁.entered
    · exact .inl ⟨by rw [h'.none_of_entered hr, List.append_nil], hr⟩
    · exact .inr ⟨by rw [h.none_of_not_entered hr, List.nil_append], hr⟩
  refine ⟨List.Subset.trans h.entered h'.entered, ?_, ?_, fun r hne => ?_, fun r hne => ?_⟩
  · rw [h'.journal, h.journal, List.append_assoc]
  · rw [h'.sent, h.sent, List.map_append, List.append_assoc]
  · rcases hcases r with ⟨heq, hr⟩ | ⟨heq, hr⟩
    · exact ⟨(h.new r (heq ▸ hne)).1, h'.entered hr⟩
    · exact ⟨fun hr' => hr (h.entered hr'), (h'.new r (heq ▸ hne)).2⟩
  · rcases hcases r with ⟨heq, -⟩ | ⟨heq, -⟩
    · exact heq ▸ h.pass r (heq ▸ hne)
    · exact heq ▸ h'.pass r (heq ▸ hne)

/-- What is done aside deletes nothing. -/
theorem aside (h : Aside l t t') : Once l t t' := by
  have hnone : ∀ r, deletesFor r l = [] := fun r => deletesFor_of_mild fun p hp => (h.mild p hp).2
  exact ⟨h.entered ▸ List.Subset.refl _, h.journal, h.sent, fun r hne => absurd (hnone r) hne,
    fun r hne => absurd (hnone r) hne⟩

omit [Connection σ] in
/-- Rows that are entered first are not deleted in the stretch that follows. -/
theorem entering {r : String × Value} (h : Once l { t with entered := r :: t.entered } t') :
    Once l t t' where
  entered := List.subset_of_cons_subset h.entered
  journal := h.journal
  sent := h.sent
  new r' hne := ⟨fun hr' => (h.new r' hne).1 (List.mem_cons_of_mem _ hr'), (h.new r' hne).2⟩
  pass := h.pass

omit [Connection σ] in
/-- Rows that are entered first are deleted between two stretches. -/
theorem around {l₀ : List Statement} (hnew : d.row ∉ t.entered) (hkey : d.schema.key = .ok key)
    (h : Once l { t with entered := d.row :: t.entered } t₁) (hsent : Sent d.row l₀ t₁ t₂)
    (hpass : l₀ <+: d.pass key) (h' : Once l' t₂ t') :
    Once (l ++ (l₀.map (d.row, ·) ++ l')) t t' := by
  have hopen : d.row ∈ t₁.entered := h.entered List.mem_cons_self
  have hall : ∀ s ∈ l₀, s.isDelete = true := fun s hs => isDelete_of_mem_pass (hpass.subset hs)
  have hcases : ∀ r, let all := deletesFor r (l ++ (l₀.map (d.row, ·) ++ l'))
      r = d.row ∧ all = l₀ ∨ all = deletesFor r l ∧ r ∈ t₁.entered ∨
        all = deletesFor r l' ∧ r ∉ t₁.entered := by
    intro r
    simp only [deletesFor_append, deletesFor_sentFor hall]
    by_cases hd : d.row = r
    · subst hd
      refine .inl ⟨rfl, ?_⟩
      rw [h.none_of_entered List.mem_cons_self, h'.none_of_entered (hsent.entered ▸ hopen), if_pos rfl]
      simp
    · rw [if_neg hd, List.nil_append]
      by_cases hr : r ∈ t₁.entered
      · refine .inr (.inl ⟨?_, hr⟩)
        rw [h'.none_of_entered (hsent.entered ▸ hr), List.append_nil]
      · exact .inr (.inr ⟨by rw [h.none_of_not_entered hr, List.nil_append], hr⟩)
  have hentered : t₁.entered ⊆ t'.entered := hsent.entered ▸ h'.entered
  have hopened : t.entered ⊆ t₁.entered := List.subset_of_cons_subset h.entered
  refine ⟨List.Subset.trans hopened hentered, ?_, ?_, fun r hne => ?_, fun r hne => ?_⟩
  · rw [h'.journal, hsent.journal, h.journal, List.append_assoc, List.append_assoc]
  · rw [h'.sent, hsent.sent, h.sent]
    simp only [List.map_append, map_snd_sentFor, List.append_assoc]
  · rcases hcases r with ⟨rfl, -⟩ | ⟨heq, hr⟩ | ⟨heq, hr⟩
    · exact ⟨hnew, hentered hopen⟩
    · exact ⟨fun hr' => (h.new r (heq ▸ hne)).1 (List.mem_cons_of_mem _ hr'), hentered hr⟩
    · exact ⟨fun hr' => hr (hopened hr'), (h'.new r (heq ▸ hne)).2⟩
  · rcases hcases r with ⟨rfl, heq⟩ | ⟨heq, -⟩ | ⟨heq, -⟩
    · exact ⟨d, key, rfl, hkey, by rwa [heq]⟩
    · exact heq ▸ h.pass r (heq ▸ hne)
    · exact heq ▸ h'.pass r (heq ▸ hne)

/-- What visits have made deletes rows once. -/
theorem visited (h : Visited vs l t t') : Once l t t' := by
  induction h with
  | done t => exact .refl t
  | aside ha _ ih => exact (aside ha).trans ih
  | again _ _ ih => exact ih
  | first hd hkey _ hpass _ _ ihdependents ihowned ih =>
    exact around hd hkey ihdependents hpass.toSent (List.prefix_refl _) (ihowned.trans ih)

end Once

/-- A failure leaves rows deleted once. -/
theorem faults_once :
    Faults (σ := σ) fun t _ t' => ∃ l, Once l t t' where
  aside := by
    intro t t' r l _ _ hsent hmild
    have hnone : ∀ r', deletesFor r' (l.map (r, ·)) = [] := fun r' => deletesFor_of_mild fun p hp => by
      obtain ⟨s, hs, rfl⟩ := List.mem_map.1 hp
      exact hmild s hs
    refine ⟨l.map (r, ·), hsent.entered ▸ List.Subset.refl _, hsent.journal, ?_,
      fun r' hne => absurd (hnone r') hne, fun r' hne => absurd (hnone r') hne⟩
    rw [hsent.sent, map_snd_sentFor]
  after hmade := fun ⟨_, honce⟩ => ⟨_, (Once.visited hmade).trans honce⟩
  entered _ := fun ⟨_, honce⟩ => ⟨_, honce.entering⟩
  pass hd hkey hmade _ hsent hpass :=
    ⟨_, Once.around hd hkey (.visited hmade) hsent hpass (.refl _)⟩
  owned hd hkey hmade hpass := fun ⟨_, honce⟩ =>
    ⟨_, Once.around hd hkey (.visited hmade) hpass.toSent (List.prefix_refl _) honce⟩

/-- Each visit makes what it answers with, and deletes rows once where it fails. -/
theorem ends_visit_once (c : Catalog) (depth : Nat) (d : Doomed) (t : Traversal (String × Value) σ) :
    Visits (fun t _ t' => ∃ l, Once l t t') (visit c depth d) d t := by
  induction depth generalizing d t with
  | zero => exact ⟨[], .refl t⟩
  | succ depth ih =>
    exact faults_once.ends_visit_succ (fun _ => True) fun _ =>
      ⟨fun _ _ _ _ _ _ _ _ _ _ => trivial, fun x t' _ _ => ih x t'⟩

/-! ### In order -/

/-- All statements that delete some rows come before all that delete others. -/
def Precedes (l : Journal) (r r' : String × Value) : Prop :=
  ∃ l₁ l₂, l = l₁ ++ l₂ ∧ deletesFor r l₂ = [] ∧ deletesFor r' l₁ = []

/-- A visit, or one that it has made, directly or further on. -/
inductive Visit.Within (u : Visit) : Visit → Prop
  | self : u.Within u
  | dependent {v : Visit} {d : Doomed} {key : Atomic} {dependents owned : List Visit} :
      v ∈ dependents → u.Within v → u.Within (.first d key dependents owned)
  | owned {v : Visit} {d : Doomed} {key : Atomic} {dependents owned : List Visit} :
      v ∈ owned → u.Within v → u.Within (.first d key dependents owned)

/-- The rows of a visit are deleted by one pass, after those that it has visited first because they depend
on them, and before those that it has visited first because they are owned. -/
def Visit.Sorted (l : Journal) : Visit → Prop
  | again _ => True
  | first d key dependents owned => deletesFor d.row l = d.pass key ∧
      (∀ x k ds os, .first x k ds os ∈ dependents → Precedes l x.row d.row) ∧
      (∀ x k ds os, .first x k ds os ∈ owned → Precedes l d.row x.row)

namespace Visit

theorem Within.trans {u v w : Visit} (h : u.Within v) (h' : v.Within w) : u.Within w := by
  induction h' with
  | self => exact h
  | dependent hmem _ ih => exact .dependent hmem ih
  | owned hmem _ ih => exact .owned hmem ih

/-- What does not delete the rows of visits does not put them out of order. -/
theorem Sorted.frame {v : Visit} {l : Journal} (l₀ l' : Journal)
    (hnone : ∀ x k ds os, (first x k ds os).Within v →
      deletesFor x.row l₀ = [] ∧ deletesFor x.row l' = [])
    (h : ∀ u : Visit, u.Within v → u.Sorted l) :
    ∀ u : Visit, u.Within v → u.Sorted (l₀ ++ (l ++ l')) := by
  have hprecedes : ∀ {r r'}, deletesFor r l' = [] → deletesFor r' l₀ = [] → Precedes l r r' →
      Precedes (l₀ ++ (l ++ l')) r r' := by
    rintro r r' hr hr' ⟨l₁, l₂, rfl, hnone₁, hnone₂⟩
    exact ⟨l₀ ++ l₁, l₂ ++ l', by simp only [List.append_assoc], by simp [hnone₁, hr],
      by simp [hnone₂, hr']⟩
  intro u hu
  cases u with
  | again d => trivial
  | first d key dependents owned =>
    obtain ⟨hself, hdependents, howned⟩ := h _ hu
    have hd := hnone d key dependents owned hu
    refine ⟨by simp [hself, hd.1, hd.2], fun x k ds os hx => ?_, fun x k ds os hx => ?_⟩
    · have hx' := hnone x k ds os ((Within.dependent hx .self).trans hu)
      exact hprecedes hx'.2 hd.1 (hdependents x k ds os hx)
    · have hx' := hnone x k ds os ((Within.owned hx .self).trans hu)
      exact hprecedes hd.2 hx'.1 (howned x k ds os hx)

end Visit

/-- Rows that are visited for the first time are entered on the way. -/
theorem Visited.entered (h : Visited vs l t t') {x : Doomed} {k : Atomic} {ds os : List Visit} {v : Visit}
    (hv : v ∈ vs) (hx : (Visit.first x k ds os).Within v) : x.row ∉ t.entered ∧ x.row ∈ t'.entered := by
  induction h generalizing v with
  | done _ => cases hv
  | aside ha _ ih => exact ha.entered ▸ ih hv hx
  | again _ _ ih =>
    rcases List.mem_cons.1 hv with rfl | hv
    · cases hx
    · exact ih hv hx
  | @first d key _ _ _ _ _ _ t t₁ t₂ t₃ t' hd hkey hdependents hpass howned hrest ihdependents ihowned ih =>
    have hopened : t.entered ⊆ t₂.entered := by
      rw [hpass.entered]
      exact List.subset_of_cons_subset (Later.visited hdependents).entered
    have hclosed : t₂.entered ⊆ t'.entered :=
      List.Subset.trans (Later.visited howned).entered (Later.visited hrest).entered
    rcases List.mem_cons.1 hv with rfl | hv
    · cases hx with
      | self =>
        exact ⟨hd, hclosed (hpass.entered ▸ (Later.visited hdependents).entered List.mem_cons_self)⟩
      | dependent hv hx =>
        obtain ⟨hnew, hold⟩ := ihdependents hv hx
        exact ⟨fun hr => hnew (List.mem_cons_of_mem _ hr), hclosed (hpass.entered ▸ hold)⟩
      | owned hv hx =>
        obtain ⟨hnew, hold⟩ := ihowned hv hx
        exact ⟨fun hr => hnew (hopened hr), (Later.visited hrest).entered hold⟩
    · obtain ⟨hnew, hold⟩ := ih hv hx
      exact ⟨fun hr => hnew ((Later.visited howned).entered (hopened hr)), hold⟩

/-! A visit of rows that had not been entered before: `l` is what its visits to dependents have sent, `l'`
what its visits to owned rows have, and `l''` what has been sent since. -/

section first

variable {dependents owned : List Visit} {t₃ : Traversal (String × Value) σ}

/-- A pass deletes no rows but its own. -/
theorem deletesFor_pass {r : String × Value} :
    deletesFor r ((d.pass key).map (d.row, ·)) = if d.row = r then d.pass key else [] :=
  deletesFor_sentFor fun _ => isDelete_of_mem_pass

/-- What had been entered before the pass is not deleted after it. -/
theorem Visited.none_after (howned : Visited owned l' t₂ t₃) (hrest : Visited vs l'' t₃ t')
    {r : String × Value} (hr : r ∈ t₂.entered) : deletesFor r (l' ++ l'') = [] := by
  have hafter := Once.visited howned
  rw [deletesFor_append, hafter.none_of_entered hr,
    (Once.visited hrest).none_of_entered (hafter.entered hr), List.append_nil]

/-- What had not been entered before the pass is not deleted up to its end. -/
theorem Visited.none_before (hdependents : Visited dependents l { t with entered := d.row :: t.entered } t₁)
    (hpass : Executed d.row (d.pass key) t₁ t₂) {r : String × Value} (hr : r ∉ t₂.entered) :
    deletesFor r (l ++ (d.pass key).map (d.row, ·)) = [] := by
  have hbefore := Once.visited hdependents
  rw [hpass.entered] at hr
  have hne : d.row ≠ r := fun heq => hr (heq ▸ hbefore.entered List.mem_cons_self)
  rw [deletesFor_append, hbefore.none_of_not_entered hr, deletesFor_pass, if_neg hne, List.append_nil]

/-- Dependents that have been visited first are not deleted any more once the pass begins. -/
theorem Visited.none_from_pass
    (hdependents : Visited dependents l { t with entered := d.row :: t.entered } t₁)
    (hpass : Executed d.row (d.pass key) t₁ t₂) (howned : Visited owned l' t₂ t₃)
    (hrest : Visited vs l'' t₃ t') {v : Visit} (hv : v ∈ dependents) {x : Doomed} {k : Atomic}
    {ds os : List Visit} (hx : (Visit.first x k ds os).Within v) :
    deletesFor x.row ((d.pass key).map (d.row, ·) ++ (l' ++ l'')) = [] := by
  obtain ⟨hnew, hold⟩ := hdependents.entered hv hx
  have hne : d.row ≠ x.row := fun heq => hnew (heq ▸ List.mem_cons_self)
  rw [deletesFor_append, deletesFor_pass, if_neg hne, howned.none_after hrest (hpass.entered ▸ hold),
    List.append_nil]

/-- The rows of the visit go after those of its dependents and before those that are owned. -/
theorem Visited.sorted_first
    (hdependents : Visited dependents l { t with entered := d.row :: t.entered } t₁)
    (hpass : Executed d.row (d.pass key) t₁ t₂) (howned : Visited owned l' t₂ t₃)
    (hrest : Visited vs l'' t₃ t') :
    (Visit.first d key dependents owned).Sorted (l ++ ((d.pass key).map (d.row, ·) ++ (l' ++ l''))) := by
  have hbefore := Once.visited hdependents
  have hnone : deletesFor d.row l = [] := hbefore.none_of_entered List.mem_cons_self
  have hafter : deletesFor d.row (l' ++ l'') = [] :=
    howned.none_after hrest (hpass.entered ▸ hbefore.entered List.mem_cons_self)
  refine ⟨?_, fun x k ds os hx => ⟨l, _, rfl, ?_, hnone⟩, fun x k ds os hx =>
    ⟨l ++ (d.pass key).map (d.row, ·), l' ++ l'', by rw [List.append_assoc], hafter, ?_⟩⟩
  · rw [deletesFor_append, deletesFor_append, hnone, hafter, deletesFor_pass, if_pos rfl, List.nil_append,
      List.append_nil]
  · exact hdependents.none_from_pass hpass howned hrest hx .self
  · exact hdependents.none_before hpass (howned.entered hx .self).1

end first

/-- Every visit that was made has its rows deleted in between. -/
theorem Visited.sorted (h : Visited vs l t t') : ∀ v ∈ vs, ∀ u : Visit, u.Within v → u.Sorted l := by
  induction h with
  | done _ => exact fun _ hv => absurd hv List.not_mem_nil
  | @aside l l' _ _ _ _ ha _ ih =>
    intro v hv
    have hnone : ∀ r, deletesFor r l = [] := fun r => deletesFor_of_mild fun p hp => (ha.mild p hp).2
    simpa using Visit.Sorted.frame l [] (fun x _ _ _ _ => ⟨hnone x.row, rfl⟩) (ih v hv)
  | again _ _ ih =>
    intro v hv
    rcases List.mem_cons.1 hv with rfl | hv
    · rintro u ⟨⟩
      trivial
    · exact ih v hv
  | @first d key dependents owned vs l l' l'' t t₁ t₂ t₃ t' hd hkey hdependents hpass howned hrest
      ihdependents ihowned ih =>
    intro v hv u hu
    rcases List.mem_cons.1 hv with rfl | hv
    · cases hu with
      | self => exact hdependents.sorted_first hpass howned hrest
      | dependent hv hu =>
        exact Visit.Sorted.frame [] _
          (fun x k ds os hx => ⟨rfl, hdependents.none_from_pass hpass howned hrest hv hx⟩)
          (ihdependents _ hv) u hu
      | owned hv hu =>
        rw [← List.append_assoc]
        refine Visit.Sorted.frame _ _ (fun x k ds os hx => ?_) (ihowned _ hv) u hu
        obtain ⟨hnew, hold⟩ := howned.entered hv hx
        exact ⟨hdependents.none_before hpass hnew, (Once.visited hrest).none_of_entered hold⟩
    · -- what was visited later had not been entered before
      have hframe := Visit.Sorted.frame (l ++ (d.pass key).map (d.row, ·) ++ l') []
        (fun x k ds os hx => ⟨?_, rfl⟩) (ih v hv) u hu
      · simpa only [List.append_assoc, List.append_nil] using hframe
      · have hafter := Once.visited howned
        have hnew := (hrest.entered hv hx).1
        rw [deletesFor_append, hdependents.none_before hpass fun hr => hnew (hafter.entered hr),
          hafter.none_of_not_entered hnew, List.append_nil]

end Deletion

end EntityGraph
