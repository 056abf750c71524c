import EntityGraph.Proofs.Client
import Mathlib.Data.List.Induction

/-!
# Collections and their indexes

A collection finds its members by their primary keys. Its index notes a key where a member comes with
it, and where a member that came without gets one. So the index is right as long as members keep the
keys that they have, and get keys that no other member has. Then members are different, so are their
keys, and what is found under a key is the member that has it.

* `Graph.Positions` — an index has the positions of members by their keys;
* `Graph.Indexed` — a collection has such an index, and listens for the keys that are missing.

## Main results

* `Effects.indexed` — effects keep collections indexed, as long as keys that are given are new;
* `Client.Reached.found_by_key` — collections find their members by their keys.
-/

namespace EntityGraph

namespace Graph

variable {c : Catalog} {V : EntityId → Value → Prop} {g g' g'' : Graph} {i j : CollectionId}
  {e m s : EntityId} {l : List EntityId} {index : Assoc Value Nat} {k v : Value} {n : Nat} {a : Atomic}
  {slot : Slot Value}

/-! ### Positions of members -/

/-- An index has the positions of members by their keys. -/
def Positions (g : Graph) (l : List EntityId) (index : Assoc Value Nat) : Prop :=
  ∀ k n, index.get? k = some n ↔ ∃ m, l[n]? = some m ∧ g.key? m = some k

/-- The position of something in a list of different things. -/
theorem idxOf?_eq_some_iff_of_nodup {α : Type} [DecidableEq α] {l : List α} {x : α} {n : Nat}
    (h : l.Nodup) : l.idxOf? x = some n ↔ l[n]? = some x := by
  rw [List.idxOf?_eq_some_iff]
  constructor
  · rintro ⟨hn, hx, -⟩
    exact List.getElem?_eq_some_iff.2 ⟨hn, hx⟩
  · intro hx
    obtain ⟨hn, hx⟩ := List.getElem?_eq_some_iff.1 hx
    refine ⟨hn, hx, fun j hj hjx => ?_⟩
    exact Nat.ne_of_lt hj ((h.getElem_inj_iff).1 (hjx.trans hx.symm))

namespace Positions

theorem nil (g : Graph) : Positions g [] [] := fun k n => by simp

/-- Members with the same keys have the same positions. -/
theorem of_key? (h : Positions g l index) (hkey : ∀ m ∈ l, g'.key? m = g.key? m) :
    Positions g' l index := fun k n => by
  rw [h k n]
  refine exists_congr fun m => and_congr_right fun hm => ?_
  rw [hkey m (List.mem_of_getElem? hm)]

/-- A key that is not noted is no member's. -/
theorem key?_ne (h : Positions g l index) (hnew : index.get? k = none) (hm : m ∈ l) :
    g.key? m ≠ some k := fun hk => by
  obtain ⟨n, hn⟩ := List.mem_iff_getElem?.1 hm
  rw [(h k n).2 ⟨m, hn, hk⟩] at hnew
  cases hnew

/-- A member that comes last with a key of its own is noted under it. -/
theorem append_key (h : Positions g l index) (hk : g.key? m = some k) (hnew : index.get? k = none) :
    Positions g (l ++ [m]) (index.put k l.length) := by
  intro k' n
  simp only [getElem?_append_singleton]
  by_cases hk' : k' = k
  · subst hk'
    rw [Assoc.get?_put_self]
    constructor
    · intro hn
      exact ⟨m, .inr ⟨(Option.some.inj hn).symm, rfl⟩, hk⟩
    · rintro ⟨m', hm' | ⟨rfl, -⟩, hkey⟩
      · exact absurd hkey (h.key?_ne hnew (List.mem_of_getElem? hm'))
      · rfl
  · rw [Assoc.get?_put_of_ne _ _ hk', h k' n]
    refine exists_congr fun m' => and_congr_left fun hkey => ?_
    refine (or_iff_left ?_).symm
    rintro ⟨-, rfl⟩
    exact hk' (Option.some.inj (hkey.symm.trans hk))

/-- A member that comes last without a key is not noted. -/
theorem append_none (h : Positions g l index) (hk : g.key? m = none) :
    Positions g (l ++ [m]) index := by
  intro k n
  simp only [getElem?_append_singleton]
  rw [h k n]
  refine exists_congr fun m' => and_congr_left fun hkey => ?_
  refine (or_iff_left ?_).symm
  rintro ⟨-, rfl⟩
  rw [hk] at hkey
  cases hkey

/-- Members whose keys are noted have different keys. -/
theorem nodup (h : Positions g l index) : (l.filterMap g.key?).Nodup := by
  refine List.pairwise_filterMap.2 (List.pairwise_iff_getElem.2 fun n n' hn hn' hlt k hk k' hk' => ?_)
  rintro rfl
  have hfirst := (h k n).2 ⟨_, List.getElem?_eq_getElem hn, hk⟩
  have hsecond := (h k n').2 ⟨_, List.getElem?_eq_getElem hn', hk'⟩
  exact Nat.ne_of_lt hlt (Option.some.inj (hfirst.symm.trans hsecond))

/-- A member that gets its first key is noted under it, if no other member has that. -/
theorem keyed {index' : Assoc Value Nat} (h : Positions g l index) (hl : l.Nodup)
    (hnoted : index'.get? k = l.idxOf? s) (hrest : ∀ k', k' ≠ k → index'.get? k' = index.get? k')
    (hself : g'.key? s = some k) (hothers : ∀ x ∈ l, x ≠ s → g'.key? x = g.key? x)
    (hfirst : g.key? s = none ∨ g.key? s = some k)
    (hfresh : ∀ x ∈ l, g.key? x = some k → x = s) : Positions g' l index' := by
  intro k' n
  by_cases hk : k' = k
  · subst hk
    rw [hnoted, idxOf?_eq_some_iff_of_nodup hl]
    constructor
    · exact fun hn => ⟨s, hn, hself⟩
    · rintro ⟨x, hn, hx⟩
      by_cases hxs : x = s
      · exact hxs ▸ hn
      · have hx' := List.mem_of_getElem? hn
        rw [hothers x hx' hxs] at hx
        exact absurd (hfresh x hx' hx) hxs
  · rw [hrest k' hk, h k' n]
    refine exists_congr fun x => and_congr_right fun hn => ?_
    by_cases hxs : x = s
    · subst hxs
      rw [hself]
      rcases hfirst with hnone | hhas
      · simp [hnone, Ne.symm hk]
      · rw [hhas]
    · rw [hothers x (List.mem_of_getElem? hn) hxs]

/-- Members with different keys are indexed anew. -/
theorem keyIndex (h : (l.filterMap g.key?).Nodup) : Positions g l (g.keyIndex l) := by
  induction l using List.reverseRecOn with
  | nil => exact nil g
  | append_singleton l m ih =>
    rw [List.filterMap_append] at h
    obtain ⟨hl, -, hne⟩ := List.nodup_append.1 h
    cases hk : g.key? m with
    | none =>
      have hlast : g.keyIndex (l ++ [m]) = g.keyIndex l := by
        simp [Graph.keyIndex, List.zipIdx_append, hk]
      exact hlast ▸ (ih hl).append_none hk
    | some k =>
      have hlast : g.keyIndex (l ++ [m]) = (g.keyIndex l).put k l.length := by
        simp [Graph.keyIndex, List.zipIdx_append, hk]
      refine hlast ▸ (ih hl).append_key hk (Option.eq_none_iff_forall_ne_some.2 fun n hn => ?_)
      obtain ⟨m', hm', hk'⟩ := (ih hl k n).1 hn
      exact hne k (List.mem_filterMap.2 ⟨m', List.mem_of_getElem? hm', hk'⟩) k (by simp [hk]) rfl

end Positions

/-! ### Collections that are indexed -/

/-- The members of a collection are different. It has their positions by their keys, and listens for the
keys that are missing. -/
structure Indexed (g : Graph) (i : CollectionId) : Prop where
  nodup : (g.collection i).members.Nodup
  positions : g.Positions (g.collection i).members (g.collection i).index
  listening : ∀ m ∈ (g.collection i).members, g.key? m = none →
    .collection i ∈ (g.entity m).listeners

namespace Indexed

/-- What is found under a key is the member that has it. -/
theorem memberByKey?_eq_some_iff (h : Indexed g i) :
    g.memberByKey? i k = some m ↔ m ∈ (g.collection i).members ∧ g.key? m = some k := by
  simp only [memberByKey?, Option.bind_eq_some_iff]
  constructor
  · rintro ⟨n, hn, hm⟩
    obtain ⟨m', hm', hk⟩ := (h.positions k n).1 hn
    obtain rfl := Option.some.inj (hm'.symm.trans hm)
    exact ⟨List.mem_of_getElem? hm, hk⟩
  · rintro ⟨hm, hk⟩
    obtain ⟨n, hn⟩ := List.mem_iff_getElem?.1 hm
    exact ⟨n, (h.positions k n).2 ⟨m, hn, hk⟩, hn⟩

/-- A collection without members is indexed. -/
theorem of_empty (hmembers : (g.collection i).members = []) (hindex : (g.collection i).index = []) :
    Indexed g i where
  nodup := hmembers ▸ .nil
  positions := by
    rw [hmembers, hindex]
    exact .nil g
  listening m hm := by
    rw [hmembers] at hm
    cases hm

/-- A collection stays indexed as long as its members keep their keys and what listens. -/
theorem of_key? (h : Indexed g i) (hcollection : g'.collection i = g.collection i)
    (hkey : ∀ m ∈ (g.collection i).members, g'.key? m = g.key? m)
    (hlisteners : ∀ m ∈ (g.collection i).members, (g.entity m).listeners ⊆ (g'.entity m).listeners) :
    Indexed g' i where
  nodup := hcollection ▸ h.nodup
  positions := hcollection ▸ h.positions.of_key? hkey
  listening m hm hnone := by
    rw [hcollection] at hm
    exact hlisteners m hm (h.listening m hm (hkey m hm ▸ hnone))

/-- Foreign keys do not matter, unless they are keys of members. -/
theorem rewired (h : Indexed g i) (hg' : Rewired c g g')
    (hown : ∀ m ∈ (g.collection i).members, c.OwnsKey (g.entity m).schema) : Indexed g' i :=
  h.of_key? (collection_congr hg'.collections i) (fun m hm => hg'.key? (hown m hm))
    fun m _ => hg'.listeners m

/-- New entities do not matter. -/
theorem enlarged (h : Indexed g i) (hg : Consistent c g) (hg' : Enlarged g g') : Indexed g' i := by
  have hold : ∀ m ∈ (g.collection i).members,
      g'.entity m = { g.entity m with embedded := (g'.entity m).embedded } :=
    fun m hm => hg'.old m (hg.members i m hm).1
  refine h.of_key? (collection_congr hg'.collections i) (fun m hm => ?_) fun m hm => ?_
  · rw [Graph.key?, hold m hm]
    rfl
  · rw [hold m hm]
    exact List.Subset.refl _

/-- Marks do not matter. -/
theorem remarked (h : Indexed g i) (hg' : Remarked c g g') : Indexed g' i := by
  refine h.of_key? (collection_congr hg'.collections i) (fun m _ => hg'.key? m) fun m _ => ?_
  rw [hg'.listeners]
  exact List.Subset.refl _

/-- To-one relations do not matter. -/
theorem related (h : Indexed g i) {u : Entity → Entity} (hu : ∀ x, ∃ toOne, u x = { x with toOne }) :
    Indexed (g.modifyEntity e u) i := by
  obtain ⟨toOne, heq⟩ := hu (g.entity e)
  refine h.of_key? rfl (fun x _ => view_modifyEntity (v := Entity.key?) (by rw [heq]; rfl)) fun x _ => ?_
  rw [view_modifyEntity (v := (·.listeners)) (by rw [heq])]
  exact List.Subset.refl _

/-- Values that are loaded do not matter, since what they are loaded into has no key, or is no member. -/
theorem loaded (h : Indexed g i) (he : g.Unloaded e) (values : List (String × Value)) :
    Indexed (g.modifyEntity e fun x => values.foldl (fun x p => x.loadAtomic p.1 p.2) x) i := by
  refine h.of_key? rfl (fun x hx => ?_) fun x _ => ?_
  · by_cases hxe : x = e
    · subst hxe
      have hkey : (g.entity x).schema.primaryKey = none := he.resolve_right fun hno => hno.2.2 i hx
      have hschema : ((g.modifyEntity x fun y => values.foldl (fun x p => x.loadAtomic p.1 p.2) y).entity
          x).schema = (g.entity x).schema :=
        view_modifyEntity (v := (·.schema)) (view_loaded (fun _ _ => rfl) values _)
      simp only [Graph.key?, Entity.key?, Schema.keyName?, hschema, hkey, Option.map_none]
      rfl
    · rw [Graph.key?, entity_modifyEntity_of_ne _ hxe, ← Graph.key?]
  · rw [view_modifyEntity (v := (·.listeners)) (view_loaded (fun _ _ => rfl) values _)]
    exact List.Subset.refl _

/-- A collection that is new is indexed, as are those that there were. -/
theorem opened (h : Indexed g i) (e : EntityId) (comp : Component) (join : Join) :
    Indexed (g.withCollection e comp join) i := by
  rcases Nat.lt_trichotomy i.index g.collections.length with hlt | heq | hgt
  · refine h.of_key? (collection_withCollection _ _ _ hlt) (fun x _ => ?_) fun x _ => ?_
    · exact view_withCollection (v := Entity.key?) (fun _ _ => rfl) _ _ x
    · rw [view_withCollection (v := (·.listeners)) fun _ _ => rfl]
      exact List.Subset.refl _
  · obtain rfl : i = ⟨g.collections.length⟩ := by cases i; exact congrArg _ heq
    apply of_empty <;> rw [collection_withCollection_new]
  · -- there is no such collection before or after
    have hdefault : (g.withCollection e comp join).collection i = default := by
      simp only [collection, collections_withCollection, List.getD_eq_getElem?_getD]
      rw [List.getElem?_eq_none (by simp; omega)]
      rfl
    apply of_empty <;> (rw [hdefault]; rfl)

/-- One more member comes last, and is noted or listened for. -/
theorem append (h : Indexed g i)
    (hmembers : (g'.collection i).members = (g.collection i).members ++ [m])
    (hnew : m ∉ (g.collection i).members)
    (hpositions : g.Positions ((g.collection i).members ++ [m]) (g'.collection i).index)
    (hkey : ∀ x, g'.key? x = g.key? x)
    (hlisteners : ∀ x, (g.entity x).listeners ⊆ (g'.entity x).listeners)
    (hlast : g.key? m = none → .collection i ∈ (g'.entity m).listeners) : Indexed g' i where
  nodup := by
    rw [hmembers]
    refine List.nodup_append.2 ⟨h.nodup, by simp, fun x hx y hy hxy => hnew ?_⟩
    rwa [← List.mem_singleton.1 hy, ← hxy]
  positions := by
    rw [hmembers]
    exact hpositions.of_key? fun x _ => hkey x
  listening x hx hnone := by
    rw [hkey] at hnone
    rw [hmembers] at hx
    rcases List.mem_append.1 hx with hx | hx
    · exact hlisteners x (h.listening x hx hnone)
    · obtain rfl := List.mem_singleton.1 hx
      exact hlast hnone

/-- A member with a key of its own may join a collection. -/
theorem joined (h : Indexed g i) (hk : g.key? m = some k)
    (hnew : (g.collection j).index.contains k = false) : Indexed (g.joined j m k) i := by
  have hsame : ∀ x, (g.joined j m k).key? x = g.key? x := fun _ => rfl
  by_cases hij : i = j
  · subst hij
    have hnone : (g.collection i).index.get? k = none := by simpa [Assoc.contains] using hnew
    rcases collection_modifyCollection_cases g i i (fun x => { x with
      members := x.members ++ [m], index := x.index.put k x.members.length }) with heq | heq
    · exact h.of_key? heq (fun x _ => hsame x) fun _ _ => List.Subset.refl _
    · refine h.append (by rw [Graph.joined, heq]) (fun hm => h.positions.key?_ne hnone hm hk) ?_ hsame
        (fun _ => List.Subset.refl _) fun hno => by rw [hno] at hk; cases hk
      rw [Graph.joined, heq]
      exact h.positions.append_key hk hnone
  · exact h.of_key? (collection_modifyCollection_of_ne _ hij) (fun x _ => hsame x)
      fun _ _ => List.Subset.refl _

/-- A member without a key may join a collection, which listens for the key. -/
theorem listed (h : Indexed g i) (hlt : m.index < g.entities.length) (hk : g.key? m = none)
    (hnew : m ∉ (g.collection j).members) : Indexed (g.listed j m) i := by
  have hsame : ∀ x, (g.listed j m).key? x = g.key? x := fun x =>
    view_modifyEntity (v := Entity.key?) rfl
  have hlisteners : ∀ x, (g.entity x).listeners ⊆ ((g.listed j m).entity x).listeners := fun x => by
    rcases entity_modifyEntity_cases (g.modifyCollection j fun x =>
      { x with members := x.members ++ [m] }) x m fun x =>
        { x with listeners := x.listeners ++ [.collection j] } with heq | ⟨rfl, -, heq⟩
    · rw [Graph.listed, heq]
      exact List.Subset.refl _
    · rw [Graph.listed, heq]
      exact List.subset_append_left _ _
  by_cases hij : i = j
  · subst hij
    rcases collection_modifyCollection_cases g i i (fun x => { x with members := x.members ++ [m] }) with
      heq | heq
    · exact h.of_key? heq (fun x _ => hsame x) fun x _ => hlisteners x
    · refine h.append (congrArg Collection.members heq) hnew ?_ hsame hlisteners fun _ => ?_
      · exact (congrArg Collection.index heq).symm ▸ h.positions.append_none hk
      · rw [Graph.listed, entity_modifyEntity_self _ (by simpa [modifyCollection] using hlt)]
        exact List.mem_append_right _ List.mem_cons_self
  · exact h.of_key? (collection_modifyCollection_of_ne _ hij) (fun x _ => hsame x)
      fun x _ => hlisteners x

/-- A member may leave a collection. -/
theorem parted (h : Indexed g i) (j : CollectionId) (m : EntityId) : Indexed (g.parted j m) i := by
  have hsame : ∀ x, (g.parted j m).key? x = g.key? x := fun _ => rfl
  by_cases hij : i = j
  · subst hij
    rcases collection_modifyCollection_cases g i i (fun x => { x with
      members := (g.collection i).members.erase m
      index := g.keyIndex ((g.collection i).members.erase m) }) with heq | heq
    · exact h.of_key? heq (fun x _ => hsame x) fun _ _ => List.Subset.refl _
    · refine ⟨?_, ?_, fun x hx hnone => ?_⟩
      all_goals rw [Graph.parted, heq] at *
      · exact h.nodup.erase m
      · refine Positions.of_key? (.keyIndex ?_) fun x _ => hsame x
        exact h.positions.nodup.sublist (List.erase_sublist.filterMap _)
      · exact h.listening x (List.mem_of_mem_erase hx) hnone
  · exact h.of_key? (collection_modifyCollection_of_ne _ hij) (fun x _ => hsame x)
      fun _ _ => List.Subset.refl _

/-- Members with the same key are the same. -/
theorem eq_of_key? (h : Indexed g i) (hm : m ∈ (g.collection i).members) (hk : g.key? m = some k)
    (hs : s ∈ (g.collection i).members) (hk' : g.key? s = some k) : m = s :=
  Option.some.inj ((h.memberByKey?_eq_some_iff.2 ⟨hm, hk⟩).symm.trans
    (h.memberByKey?_eq_some_iff.2 ⟨hs, hk'⟩))

/-- A member may get its first key, if no other member has that. -/
theorem keyed (h : Indexed g i) (hg' : Keyed s a.name slot g g')
    (hkey : (g.entity s).schema.primaryKey = some a) (hnull : slot.value ≠ .null)
    (hothers : ∀ x ∈ (g.collection i).members, x ≠ s → g'.key? x = g.key? x)
    (hfirst : s ∈ (g.collection i).members → g.key? s = none ∨ g.key? s = some slot.value)
    (hfresh : s ∈ (g.collection i).members →
      ∀ x ∈ (g.collection i).members, g.key? x = some slot.value → x = s) : Indexed g' i := by
  obtain ⟨index, hindex⟩ := hg'.collections i
  have hmembers : (g'.collection i).members = (g.collection i).members := by rw [hindex]
  have hself : g'.key? s = some slot.value := by
    rw [hg'.key?_self hkey rfl, if_neg (by simpa using hnull)]
  refine ⟨hmembers ▸ h.nodup, ?_, fun x hx hnone => ?_⟩
  · rw [hmembers]
    by_cases hmem : s ∈ (g.collection i).members
    · -- the position of the member is noted, or was
      have hposition : (g'.collection i).index.get? slot.value = (g.collection i).members.idxOf? s := by
        by_cases hnotes : g.Notes s i
        · exact hg'.noted i hnotes hnull
        · have hhas := (hfirst hmem).resolve_left fun hnone => hnotes ⟨h.listening s hmem hnone, hmem⟩
          obtain ⟨n, hn⟩ := List.mem_iff_getElem?.1 hmem
          rw [hg'.index i _ fun hno => hnotes hno.1, (h.positions _ n).2 ⟨s, hn, hhas⟩,
            (idxOf?_eq_some_iff_of_nodup h.nodup).2 hn]
      exact h.positions.keyed h.nodup hposition (fun k hk => hg'.index i k fun hno => hk hno.2) hself
        hothers (hfirst hmem) (hfresh hmem)
    · have hkeys := h.positions.of_key? fun x hx => hothers x hx fun hxs => hmem (hxs ▸ hx)
      intro k n
      rw [hg'.index i k fun hno => hmem hno.1.member, hkeys k n]
  · rw [hmembers] at hx
    have hxs : x ≠ s := by
      rintro rfl
      rw [hself] at hnone
      cases hnone
    rw [hg'.listeners x hxs]
    exact h.listening x hx (hothers x hx hxs ▸ hnone)

end Indexed

/-! ### What keeps collections indexed -/

namespace Effect

/-- Members are not lost. -/
theorem members_subset (he : Effect c V g g') (i : CollectionId) :
    (g.collection i).members ⊆ (g'.collection i).members := by
  cases he with
  | rewired h | enlarged h | remarked h =>
    rw [collection_congr h.collections]
    exact List.Subset.refl _
  | opened =>
    intro x hx
    rwa [collection_withCollection _ _ _ (index_lt_of_member hx)]
  | related => exact List.Subset.refl _
  | @joined j m k =>
    rcases collection_modifyCollection_cases g j i (fun x => { x with
      members := x.members ++ [m], index := x.index.put k x.members.length }) with heq | heq
    · rw [Graph.joined, heq]; exact List.Subset.refl _
    · rw [Graph.joined, heq]; exact List.subset_append_left _ _
  | @listed j m =>
    rcases collection_modifyCollection_cases g j i (fun x => { x with members := x.members ++ [m] })
      with heq | heq
    · exact (congrArg Collection.members heq) ▸ List.Subset.refl _
    · exact (congrArg Collection.members heq) ▸ List.subset_append_left _ _
  | loaded => exact List.Subset.refl _
  | given _ _ _ _ h =>
    obtain ⟨index, hindex⟩ := h.collections i
    rw [hindex]
    exact List.Subset.refl _

/-- A collection stays indexed, if members whose key is no foreign key are given new keys. -/
theorem indexed (he : Effect c V g g') (h : Consistent c g) (hi : Indexed g i)
    (hown : ∀ m ∈ (g.collection i).members, c.OwnsKey (g.entity m).schema)
    (hnull : ∀ e v, V e v → v ≠ .null)
    (hfresh : ∀ e v k, V e v → g.key? e = none → e ∈ (g.collection i).members → g'.key? e = some k →
      ∀ m ∈ (g.collection i).members, g.key? m ≠ some k) : Indexed g' i := by
  cases he with
  | rewired hg' => exact hi.rewired hg' hown
  | enlarged hg' => exact hi.enlarged h hg'
  | remarked hg' => exact hi.remarked hg'
  | opened => exact hi.opened ..
  | related hu => exact hi.related hu
  | joined hm hk hnew => exact hi.joined hk hnew
  | listed hm hk hnew => exact hi.listed hm.1 hk hnew
  | loaded _ he => exact hi.loaded he _
  | @given e a v w g' hv hnone hkey hw hg' =>
    have hw' := Atomic.ne_null_of_coerce hw (hnull e v hv)
    have hself : g'.key? e = some w := by
      rw [hg'.key?_self hkey rfl, if_neg (by simpa [Slot.loaded] using hw')]
      rfl
    refine hi.keyed hg' hkey hw' (fun x hx hxe => hg'.key?_of_ne h hxe (hown x hx)) (fun _ => .inl hnone)
      fun hmem x hx hk => ?_
    exact absurd hk (hfresh e v w hv hnone hmem hself x hx)

end Effect

namespace Effects

/-- Members are not lost. -/
theorem members_subset (he : Effects c V g g') (i : CollectionId) :
    (g.collection i).members ⊆ (g'.collection i).members := by
  induction he with
  | refl => exact List.Subset.refl _
  | tail _ hstep ih => exact List.Subset.trans ih (hstep.members_subset i)

/-- A collection stays indexed, if in the end the keys of members are no foreign keys, and keys that
members are given are new. -/
theorem indexed (he : Effects c V g g') (h : Consistent c g) (hi : Indexed g i)
    (hown : ∀ m ∈ (g'.collection i).members, c.OwnsKey (g'.entity m).schema)
    (hnull : ∀ e v, V e v → v ≠ .null)
    (hfresh : ∀ e v k, V e v → g.key? e = none → e ∈ (g'.collection i).members → g'.key? e = some k →
      ∀ m ∈ (g'.collection i).members, g'.key? m = some k → m = e) : Indexed g' i := by
  induction he using Relation.ReflTransGen.head_induction_on with
  | refl => exact hi
  | @head g₁ g₂ hstep hrest ih =>
    have h₂ := hstep.consistent h
    have hown₂ : ∀ m ∈ (g₂.collection i).members, c.OwnsKey (g₂.entity m).schema := fun m hm => by
      rw [← Effects.schema hrest (h₂.members i m hm).1]
      exact hown m (members_subset hrest i hm)
    have hown₁ : ∀ m ∈ (g₁.collection i).members, c.OwnsKey (g₁.entity m).schema := fun m hm => by
      rw [← hstep.schema (h.members i m hm).1]
      exact hown₂ m (hstep.members_subset i hm)
    -- keys that there are now are there in the end
    have hstays : ∀ m ∈ (g₂.collection i).members, ∀ k, g₂.key? m = some k → g'.key? m = some k :=
      fun m hm k hk => Effects.key? hrest h₂ (hown₂ m hm) hk
    refine ih h₂ (hstep.indexed h hi hown₁ hnull fun e v k hv hnone hmem hk m hm hm' => ?_)
      fun e v k hv hnone hmem => hfresh e v k hv ?_ hmem
    · have hmem₂ := hstep.members_subset i hmem
      have hm₂ := hstep.members_subset i hm
      obtain rfl := hfresh e v k hv hnone (members_subset hrest i hmem₂) (hstays e hmem₂ k hk) m
        (members_subset hrest i hm₂) (hstays m hm₂ k (hstep.key? h (hown₁ m hm) hm'))
      rw [hnone] at hm'
      cases hm'
    · refine Option.eq_none_iff_forall_ne_some.2 fun k' hk' => ?_
      have hlt := (of_key?_isSome (by rw [hk']; rfl)).1
      have hown' := hown e hmem
      rw [Effects.schema (.head hstep hrest) hlt] at hown'
      rw [hstep.key? h hown' hk'] at hnone
      cases hnone

end Effects

end Graph

/-! ### Histories -/

open EntityGraph.Graph

variable {σ : Type} {c : Catalog} {V : EntityId → Value → Prop} {g : Graph} {i : CollectionId}
  {e : EntityId} {k : Value}

/-- Something done keeps the keys of a collection apart: the keys of members are no foreign keys, members
keep the keys that they have, and a member that gets one gets one that no other member has. -/
structure Graph.KeepsApart (c : Catalog) (i : CollectionId) (g g' : Graph) : Prop where
  own : ∀ m ∈ (g'.collection i).members, c.OwnsKey (g'.entity m).schema
  kept : ∀ m ∈ (g.collection i).members, ∀ k, g.key? m = some k → g'.key? m = some k
  fresh : ∀ m ∈ (g'.collection i).members, m.index < g.entities.length → g.key? m = none →
    ∀ k, g'.key? m = some k → ∀ m' ∈ (g'.collection i).members, g'.key? m' = some k → m' = m

/-- Assigning an atomic keeps a collection indexed, if it keeps the keys of members apart. -/
theorem Graph.Indexed.altered {g' : Graph} (hi : Indexed g i) (hg' : Altered c e g g')
    (hk : KeepsApart c i g g') : Indexed g' i := by
  have hschema : ∀ m, (g'.entity m).schema = (g.entity m).schema := hg'.shape.schema
  have hmembers : (g'.collection i).members = (g.collection i).members := hg'.shape.members i
  have hown : ∀ m ∈ (g.collection i).members, c.OwnsKey (g.entity m).schema := fun m hm => by
    rw [← hschema]
    exact hk.own m (hmembers ▸ hm)
  have hothers : ∀ m ∈ (g.collection i).members, m ≠ e → g'.key? m = g.key? m := fun m hm hne =>
    hg'.others m hne (hown m hm)
  rcases hg'.told with ⟨hcollections, hlisteners, hsame⟩ | ⟨a, slot, hkey, hnull, hkeyed⟩
  · refine hi.of_key? (collection_congr hcollections i) (fun m hm => ?_) fun m _ => hlisteners m
    by_cases hme : m = e
    · subst hme
      rcases hsame (hown m hm) with hsame | hnone
      · exact hsame
      · cases hold : g.key? m with
        | none => exact hnone
        | some k => exact hk.kept m hm k hold
    · exact hothers m hm hme
  · have hself : g'.key? e = some slot.value := by
      rw [hkeyed.key?_self hkey rfl, if_neg (by simpa using hnull)]
    have hfirst : e ∈ (g.collection i).members → g.key? e = none ∨ g.key? e = some slot.value := by
      intro hmem
      cases hold : g.key? e with
      | none => exact .inl rfl
      | some k => exact .inr ((hk.kept e hmem k hold).symm.trans hself)
    refine hi.keyed hkeyed hkey hnull hothers hfirst fun hmem x hx hxk => ?_
    rcases hfirst hmem with hnone | hhas
    · by_contra hne
      refine hne (hk.fresh e (hmembers ▸ hmem) (index_lt_of_primaryKey hkey) hnone _ hself x
        (hmembers ▸ hx) ?_)
      rw [hothers x hx hne, hxk]
    · exact hi.eq_of_key? hx hxk hmem hhas

/-- Removing a member keeps a collection indexed. -/
theorem Graph.Indexed.removed {g' : Graph} {j : CollectionId} {m : EntityId} (hi : Indexed g i)
    (hg' : Removed c j m g g') (hk : KeepsApart c i g g') : Indexed g' i := by
  cases hg' with
  | nothing => exact hi
  | parted hg' =>
    refine (hi.parted j m).rewired hg' fun x hx => ?_
    rw [← hg'.shape.schema]
    exact hk.own x (hg'.shape.members i ▸ hx)

namespace Client

variable [Connection σ] {cl cl' : Client σ}

/-- Whatever is done keeps a collection indexed, if it keeps the keys of members apart. -/
theorem Sound.indexed_after (h : Sound c cl) (hmakes : Save.Makes σ (· ≠ .null)) {d : Deed σ}
    (hd : d.possible cl.world.graph = true) (hi : Indexed cl.world.graph i)
    (hk : KeepsApart c i cl.world.graph (d.after c cl).world.graph) :
    Indexed (d.after c cl).world.graph i := by
  have hadvances := (h.advances (V := fun e v => e.index < cl.world.graph.entities.length ∧ v ≠ .null)
    (fun e he i link v hv => ⟨he, hmakes i link v hv⟩) hd).2
  have hquiet : d.quiet = true → Indexed (d.after c cl).world.graph i := fun hq =>
    Effects.indexed (hadvances hq) h.typed.toConsistent hi hk.own (fun _ _ hv => hv.2)
      fun e v k hv hnone hmem hek m hm hmk => hk.fresh e hmem hv.1 hnone k hek m hm hmk
  cases d with
  | operate op =>
    cases op with
    | assign e name v =>
      rw [Deed.graph_after_operate] at hk ⊢
      exact hi.altered (h.typed.altered e name v) hk
    | remove j m =>
      rw [Deed.graph_after_operate] at hk ⊢
      exact hi.removed (h.typed.removed j m) hk
    | _ => exact hquiet rfl
  | _ => exact hquiet rfl

/-- Collections stay indexed in histories that keep the keys of their members apart. -/
theorem Reached.indexed (hmakes : Save.Makes σ (· ≠ .null)) (h : cl.Reached c (KeepsApart c i)) :
    Indexed cl.world.graph i := by
  obtain ⟨w, hempty, hleads⟩ := h
  suffices hboth : Sound c cl ∧ Indexed cl.world.graph i from hboth.2
  induction hleads with
  | refl =>
    refine ⟨.start hempty, ?_⟩
    rw [hempty]
    exact .of_empty rfl rfl
  | tail _ hstep ih =>
    obtain ⟨d, hd, hk⟩ := hstep
    exact ⟨(ih.1.advances (V := fun _ _ => True) (fun _ _ _ _ _ _ => trivial) hd).1,
      ih.1.indexed_after hmakes hd ih.2 hk⟩

/-- In histories that keep the keys of a collection's members apart, its members are different, so are
their keys, and what it finds under a key is the member that has the key. -/
theorem Reached.found_by_key (hmakes : Save.Makes σ (· ≠ .null))
    (h : cl.Reached c (KeepsApart c i)) :
    (cl.world.graph.collection i).members.Nodup ∧ (cl.world.graph.memberKeys i).Nodup ∧
      ∀ k m, cl.world.graph.memberByKey? i k = some m ↔
        m ∈ (cl.world.graph.collection i).members ∧ cl.world.graph.key? m = some k := by
  have hi := h.indexed hmakes
  exact ⟨hi.nodup, hi.positions.nodup, fun _ _ => hi.memberByKey?_eq_some_iff⟩

end Client

end EntityGraph

/-! ### Orders of a customer -/

namespace EntityGraph.Graph

/-- Whether something done keeps the keys of a collection apart, and no key of a member is named like a
join column. -/
def keepsApart (c : Catalog) (i : CollectionId) (g g' : Graph) : Bool :=
  (g'.collection i).members.all (fun m => (g'.entity m).schema.keyName?.all (· ∉ c.joinColumns)) &&
    (g.collection i).members.all (fun m => g.key? m = none || g'.key? m = g.key? m) &&
      (g'.collection i).members.all fun m => g.entities.length ≤ m.index || (g.key? m).isSome ||
        (g'.collection i).members.all fun m' => g'.key? m' ≠ g'.key? m || g'.key? m = none || m' = m

/-- What passes the check keeps the keys of a collection apart. -/
theorem keepsApart_of_check {c : Catalog} {i : CollectionId} {g g' : Graph}
    (h : keepsApart c i g g' = true) : KeepsApart c i g g' := by
  simp only [keepsApart, Bool.and_eq_true, List.all_eq_true] at h
  obtain ⟨⟨hown, hkept⟩, hfresh⟩ := h
  refine ⟨fun m hm => Catalog.ownsKey_of_joinColumns fun name hname => ?_, fun m hm k hk => ?_,
    fun m hm hlt hnone k hk m' hm' hk' => ?_⟩
  · simpa using Option.all_eq_true _ _ |>.1 (hown m hm) name hname
  · have hsame := hkept m hm
    simpa [hk] using hsame
  · have hnew := hfresh m hm
    simp only [hnone, Option.isSome_none, Bool.or_false, Bool.or_eq_true, decide_eq_true_eq,
      List.all_eq_true] at hnew
    have hm'' := (hnew.resolve_left (Nat.not_le_of_lt hlt)) m' hm'
    simpa [hk, hk'] using hm''

end EntityGraph.Graph

namespace EntityGraph.Shop

open EntityGraph.Graph

/-- Nothing has been done yet. -/
def opened : Client Counter :=
  ⟨world {}, []⟩

/-- A customer has an order that came with a key, and one that came without. -/
def stocked : List (Deed Counter) :=
  [.operate (.create "Customer"), .operate (.many ⟨0⟩ "orders"), .operate (.create "Order"),
    .operate (.assign ⟨1⟩ "id" (.int 7)), .operate (.push ⟨0⟩ ⟨1⟩), .operate (.create "Order"),
    .operate (.push ⟨0⟩ ⟨2⟩)]

/-- The customer has been saved with both orders, and the first one has been removed. -/
def served : Client Counter :=
  Client.afterAll catalog (stocked ++ [.write {} .save ⟨0⟩, .operate (.remove ⟨0⟩ ⟨1⟩)]) opened

/-- The first order has got another key before it was saved. -/
def renumbered : Client Counter :=
  Client.afterAll catalog (stocked ++ [.operate (.assign ⟨1⟩ "id" (.int 8))]) opened

/-- Then it has been added once more. -/
def repeated : Client Counter :=
  Client.afterAll catalog [.operate (.push ⟨0⟩ ⟨1⟩)] renumbered

/-- Both orders have got the same key. -/
def shared : Client Counter :=
  Client.afterAll catalog (stocked ++ [.operate (.assign ⟨2⟩ "id" (.int 7))]) opened

end EntityGraph.Shop

namespace EntityGraph.Client

open EntityGraph.Graph

/-- The order that is left is found under the key that it has got from the database. -/
theorem found_by_key_served :
    (Shop.served.world.graph.collection ⟨0⟩).members = [⟨2⟩] ∧
      Shop.served.world.graph.memberByKey? ⟨0⟩ (.int 2) = some ⟨2⟩ ∧
      Shop.served.world.graph.memberByKey? ⟨0⟩ (.int 7) = none := by
  have hmakes : Save.Makes Counter (· ≠ .null) := by
    intro i link v hv
    obtain rfl := Option.some.inj (Except.ok.inj hv)
    exact Value.noConfusion
  have hreached : Shop.served.Reached Shop.catalog (KeepsApart Shop.catalog ⟨0⟩) :=
    ⟨Shop.world {}, rfl, leads_afterAll (fun _ _ => keepsApart_of_check) (by decide +kernel)⟩
  have hmembers : (Shop.served.world.graph.collection ⟨0⟩).members = [⟨2⟩] := by decide +kernel
  have hkey : Shop.served.world.graph.key? ⟨2⟩ = some (.int 2) := by decide +kernel
  have hfound := (hreached.found_by_key hmakes).2.2
  refine ⟨hmembers, (hfound _ _).2 ⟨by simp [hmembers], hkey⟩, ?_⟩
  refine Option.eq_none_iff_forall_ne_some.2 fun m hm => ?_
  obtain ⟨hmem, hk⟩ := (hfound _ _).1 hm
  rw [hmembers, List.mem_singleton] at hmem
  rw [hmem, hkey] at hk
  cases hk

/-- A collection does not follow keys that change, and does not see that keys are the same. An order that
gets another key is found under the one before alone, and can be added once more; and a member that
gets the key of another one is found in its place. -/
theorem not_found_by_key_changed :
    Shop.renumbered.Reached Shop.catalog (fun _ _ => True) ∧
      ⟨1⟩ ∈ (Shop.renumbered.world.graph.collection ⟨0⟩).members ∧
      Shop.renumbered.world.graph.key? ⟨1⟩ = some (.int 8) ∧
      Shop.renumbered.world.graph.memberByKey? ⟨0⟩ (.int 8) = none ∧
      Shop.renumbered.world.graph.memberByKey? ⟨0⟩ (.int 7) = some ⟨1⟩ ∧
      (Shop.repeated.world.graph.collection ⟨0⟩).members = [⟨1⟩, ⟨2⟩, ⟨1⟩] ∧
      Shop.shared.world.graph.memberKeys ⟨0⟩ = [.int 7, .int 7] ∧
      Shop.shared.world.graph.memberByKey? ⟨0⟩ (.int 7) = some ⟨2⟩ := by
  refine ⟨⟨Shop.world {}, rfl, ?_⟩, by decide⟩
  exact leads_afterAll (k := fun _ _ => true) (fun _ _ _ => trivial) (by decide)

end EntityGraph.Client
