import EntityGraph.Proofs.Accepted
import EntityGraph.Query.Plan

/-!
# Paths without a cache

Scopes over one catalog share a cache of walked paths, under the entity type a path starts from. The
cache cannot be told apart from no cache at all. What a path denotes is `Scope.lookup`, the walk from
left to right through the schemas; `PathCache.Sound` says of every entry that the walk leads there.
Resolving a path keeps this, and so does everything else that can happen to a `Naming`: types are
defined, scopes are opened and get aliases, paths are resolved and queries are compiled, in any
order. Types that are defined later change nothing, because a schema that can be built stays what it
is.

* `Catalog.grows_define` — a schema that can be built can be built after every definition;
* `Scope.resolve_eq_lookup` — with a sound cache, resolving a path is looking it up;
* `Query.compile_alike` — a query compiles alike with any two sound caches;
* `answers_independent_of_cache` — answers after any history do not depend on the cache.
-/

namespace EntityGraph

/-! ### Catalogs that grow -/

namespace Catalog

variable {c c' : Catalog} {name : String} {s : Schema}

/-- Every schema that can be built in `c` is built in `c'` too. -/
def Grows (c c' : Catalog) : Prop :=
  ∀ name s, c.schema name = .ok s → c'.schema name = .ok s

theorem Grows.refl (c : Catalog) : c.Grows c :=
  fun _ _ h => h

/-- A list of computations succeeds as before if each member does. -/
theorem mapM_ok_mono {α β ε : Type} {f g : α → Except ε β} {l : List α} {ys : List β}
    (h : l.mapM f = .ok ys) (hfg : ∀ x y, f x = .ok y → g x = .ok y) : l.mapM g = .ok ys := by
  induction l generalizing ys with
  | nil => exact h
  | cons x l ih =>
    rw [List.mapM_cons, bind_eq_ok_iff] at h
    obtain ⟨y, hy, h⟩ := h
    obtain ⟨zs, hzs, h⟩ := bind_eq_ok_iff.1 h
    rw [List.mapM_cons, hfg x y hy, ih hzs]
    exact h

/-- An embeddable type stays what it is after a definition. -/
theorem embeddable?_define {d e : Definition} (h : c.embeddable? name = some e) :
    (c.define d).embeddable? name = some e := by
  rw [embeddable?, Option.filter_eq_some_iff] at h ⊢
  exact ⟨define_definition? h.1, h.2⟩

/-- So does an entity type. -/
theorem entity?_define {d e : Definition} (h : c.entity? name = some e) :
    (c.define d).entity? name = some e := by
  rw [entity?, Option.filter_eq_some_iff] at h ⊢
  exact ⟨define_definition? h.1, h.2⟩

/-- Embeds that can be resolved are resolved alike after a definition, at any greater depth. -/
theorem resolveEmbeds_define {d : Definition} {depth depth' : Nat} (hdepth : depth ≤ depth')
    {path : List String} {owner : Draft} {embedded : List (String × Schema)}
    (h : c.resolveEmbeds depth path owner = .ok embedded) :
    (c.define d).resolveEmbeds depth' path owner = .ok embedded := by
  induction depth generalizing depth' path owner embedded with
  | zero => cases h
  | succ depth ih =>
    obtain ⟨depth', rfl⟩ : ∃ n, depth' = n + 1 := ⟨depth' - 1, by omega⟩
    rw [resolveEmbeds] at h ⊢
    refine mapM_ok_mono h fun (property, type) p hp => ?_
    simp only at hp ⊢
    split at hp
    · cases hp
    next hpath =>
    rw [if_neg hpath]
    split at hp
    · cases hp
    next e he =>
    obtain ⟨parts, hparts, hp⟩ := bind_eq_ok_iff.1 hp
    rw [embeddable?_define he]
    exact bind_eq_ok_iff.2 ⟨parts, ih (by omega) hparts, hp⟩

/-- A definition takes away no schema that can be built. -/
theorem grows_define (c : Catalog) (d : Definition) : c.Grows (c.define d) := by
  intro name s h
  rw [schema] at h ⊢
  split at h
  · cases h
  next e he =>
  obtain ⟨embedded, hembedded, h⟩ := bind_eq_ok_iff.1 h
  have hdepth : c.depthBound ≤ (c.define d).depthBound := by
    simp [depthBound, define]
  rw [entity?_define he]
  exact bind_eq_ok_iff.2 ⟨embedded, resolveEmbeds_define hdepth hembedded, h⟩

end Catalog

/-! ### Walking without a cache -/

namespace Resolution

variable {c c' : Catalog} {path path' : String} {r r' : Resolution} {segments : List String}

/-- What segments lead to, from left to right. -/
def follow (c : Catalog) (path : String) (r : Resolution) (segments : List String) :
    Except Error Resolution :=
  segments.foldlM (step c path) r

/-- One more segment at the beginning. -/
theorem follow_cons (c : Catalog) (path : String) (r : Resolution) (segment : String)
    (segments : List String) : follow c path r (segment :: segments) =
      r.step c path segment >>= fun r' => follow c path r' segments :=
  List.foldlM_cons

/-- One more segment at the end. -/
theorem follow_concat (c : Catalog) (path : String) (r : Resolution) (segments : List String)
    (segment : String) : follow c path r (segments ++ [segment]) =
      follow c path r segments >>= fun r' => r'.step c path segment := by
  simp [follow]

/-- A segment that leads somewhere does so in every larger catalog, and under any name for the
path. -/
theorem step_grows {segment : String} (hc : c.Grows c') (h : r.step c path segment = .ok r') :
    r.step c' path' segment = .ok r' := by
  cases r with
  | scalar owner a => cases h
  | entity s =>
    simp only [step] at h ⊢
    split at h
    · next comp _ =>
      cases hs : c.schema comp.target with
      | error e =>
        rw [hs] at h
        cases h
      | ok t =>
        rw [hs] at h
        rw [hc _ _ hs]
        exact h
    · exact h
    · exact h
    · cases h

/-- So do several segments. -/
theorem follow_grows (hc : c.Grows c') (h : follow c path r segments = .ok r') :
    follow c' path' r segments = .ok r' := by
  induction segments generalizing r with
  | nil => exact h
  | cons segment segments ih =>
    rw [follow_cons] at h ⊢
    obtain ⟨next, hnext, h⟩ := bind_eq_ok_iff.1 h
    exact bind_eq_ok_iff.2 ⟨next, step_grows hc hnext, ih h⟩

end Resolution

open Resolution

/-- What a path denotes, walked from where it starts. -/
def Scope.lookup (c : Catalog) (sc : Scope) (path : String) : Except Error Resolution :=
  let segments := Text.splitDots path
  if segments.contains "" then .error (.unresolved path)
  else match sc.start? c segments with
    | none => .error (.unresolved path)
    | some (start, rest) => follow c path (.entity start) rest

/-! ### Sound caches -/

namespace PathCache

variable {c c' : Catalog} {cache cache' cache'' : PathCache}

/-- Every entry is what its segments lead to from the type that they start at. -/
def Sound (c : Catalog) (cache : PathCache) : Prop :=
  ∀ start segments r, cache.find? start segments = some r →
    ∃ s, c.schema start = .ok s ∧ follow c "" (.entity s) segments = .ok r

/-- Every entry of the one cache is an entry of the other. -/
def Extends (cache cache' : PathCache) : Prop :=
  ∀ start segments r, cache.find? start segments = some r → cache'.find? start segments = some r

theorem Extends.refl (cache : PathCache) : cache.Extends cache :=
  fun _ _ _ h => h

theorem Extends.trans (h : cache.Extends cache') (h' : cache'.Extends cache'') :
    cache.Extends cache'' :=
  fun start segments r hr => h' start segments r (h start segments r hr)

/-- Nothing has been walked yet. -/
theorem sound_empty (c : Catalog) : Sound c {} :=
  fun _ _ _ h => nomatch h

/-- Entries stay right when the catalog grows. -/
theorem Sound.grows (h : cache.Sound c) (hc : c.Grows c') : cache.Sound c' := by
  intro start segments r hr
  obtain ⟨s, hs, hfollow⟩ := h start segments r hr
  exact ⟨s, hc _ _ hs, follow_grows hc hfollow⟩

/-- Adding an entry takes none away. -/
theorem extends_insert (cache : PathCache) (start : String) (segments : List String)
    (r : Resolution) : cache.Extends (cache.insert start segments r) :=
  fun _ _ _ h => find?_insert h

/-- An entry is an old one or the one that was added. -/
theorem find?_of_insert {start start' : String} {segments segments' : List String}
    {r r' : Resolution}
    (h : (cache.insert start segments r).find? start' segments' = some r') :
    cache.find? start' segments' = some r' ∨ (start' = start ∧ segments' = segments ∧ r' = r) := by
  simp only [find?, insert, List.find?_append] at h ⊢
  cases hfound : cache.entries.find? (·.1 == (start', segments')) with
  | some e =>
    rw [hfound] at h
    exact .inl h
  | none =>
    rw [hfound, Option.none_or] at h
    obtain ⟨e, he, rfl⟩ := Option.map_eq_some_iff.1 h
    have hkey := List.find?_some he
    obtain rfl := List.mem_singleton.1 (List.mem_of_find?_eq_some he)
    simp only [beq_iff_eq, Prod.mk.injEq] at hkey
    exact .inr ⟨hkey.1.symm, hkey.2.symm, rfl⟩

/-- An entry may be added for what its segments lead to. -/
theorem Sound.insert {s : Schema} {start : String} {segments : List String} {r : Resolution}
    (h : cache.Sound c) (hs : c.schema start = .ok s)
    (hr : follow c "" (.entity s) segments = .ok r) : (cache.insert start segments r).Sound c := by
  intro start' segments' r' hfound
  rcases find?_of_insert hfound with hfound | ⟨rfl, rfl, rfl⟩
  · exact h start' segments' r' hfound
  · exact ⟨s, hs, hr⟩

/-- What may happen to a cache over a catalog: entries are added, and they are right. -/
structure Kept (c : Catalog) (cache cache' : PathCache) : Prop where
  entries : cache.Extends cache'
  sound : cache'.Sound c

theorem Kept.refl (h : cache.Sound c) : Kept c cache cache :=
  ⟨.refl cache, h⟩

theorem Kept.trans (h : Kept c cache cache') (h' : Kept c cache' cache'') : Kept c cache cache'' :=
  ⟨h.entries.trans h'.entries, h'.sound⟩

end PathCache

/-! ### Resolving -/

namespace Scope

open PathCache

variable {c c' : Catalog} {sc : Scope} {cache : PathCache} {path start : String} {s : Schema}

/-- What paths can start from are schemas of the catalog. -/
structure Built (c : Catalog) (sc : Scope) : Prop where
  root : ∀ s, sc.root = some s → c.schema s.name = .ok s
  aliases : ∀ p ∈ sc.aliases, c.schema p.2.name = .ok p.2

/-- A scope stays built when the catalog grows. -/
theorem Built.grows (h : sc.Built c) (hc : c.Grows c') : sc.Built c' where
  root s hs := hc _ _ (h.root s hs)
  aliases p hp := hc _ _ (h.aliases p hp)

/-- A new scope without a root is built. -/
theorem built_empty (c : Catalog) : Built c {} where
  root _ h := nomatch h
  aliases _ h := nomatch h

/-- A scope with a root is built. -/
theorem built_rooted {root : String} (h : Scope.rooted c root = .ok sc) : sc.Built c := by
  obtain ⟨s, hs, h⟩ := bind_eq_ok_iff.1 h
  obtain rfl := Except.ok.inj h
  refine ⟨fun t ht => ?_, fun _ h => nomatch h⟩
  obtain rfl := Option.some.inj ht
  exact Catalog.schema_schema_name hs

/-- An alias stands for a schema of the catalog. -/
theorem Built.addAlias (h : sc.Built c) {name entity : String} {sc' : Scope}
    (hsc : sc.addAlias c name entity = .ok sc') : sc'.Built c := by
  obtain ⟨s, hs, hsc⟩ := bind_eq_ok_iff.1 hsc
  obtain rfl := Except.ok.inj hsc
  refine ⟨h.root, fun p hp => ?_⟩
  rcases List.mem_cons.1 hp with rfl | hp
  · exact Catalog.schema_schema_name hs
  · exact h.aliases p hp

/-- A path starts at a schema of the catalog. -/
theorem Built.of_start? (h : sc.Built c) {segments rest : List String}
    (hstart : sc.start? c segments = some (s, rest)) : c.schema s.name = .ok s := by
  rw [start?.eq_def] at hstart
  split at hstart
  · next root hroot =>
    obtain ⟨rfl, -⟩ := Prod.mk.inj (Option.some.inj hstart)
    exact h.root _ hroot
  · split at hstart
    · cases hstart
    · next first rest' =>
      obtain ⟨t, ht, hstart⟩ := Option.map_eq_some_iff.1 hstart
      obtain ⟨rfl, -⟩ := Prod.mk.inj hstart
      rw [named?] at ht
      split at ht
      · next p halias =>
        obtain rfl := Option.some.inj ht
        exact h.aliases _ (List.mem_of_find?_eq_some halias)
      · split at ht
        · cases ht' : c.schema first with
          | error e =>
            rw [ht'] at ht
            cases ht
          | ok t' =>
            rw [ht'] at ht
            obtain rfl := Option.some.inj ht
            exact Catalog.schema_schema_name ht'
        · cases ht

/-- From what a prefix leads to, walking through a sound cache comes to what the remaining segments
lead to. -/
theorem walk_eq_follow (hs : c.schema start = .ok s) {walked : List String} {r : Resolution}
    (hr : follow c "" (.entity s) walked = .ok r) (segments : List String)
    (hcache : cache.Sound c) :
    (walk c path start walked r segments cache).1 = follow c path r segments ∧
      Kept c cache (walk c path start walked r segments cache).2 := by
  induction segments generalizing walked r cache with
  | nil => exact ⟨rfl, .refl hcache⟩
  | cons segment rest ih =>
    have hconcat : follow c "" (.entity s) (walked ++ [segment]) = r.step c "" segment := by
      rw [follow_concat, hr]
      rfl
    rw [walk, follow_cons]
    split
    · next hit hhit =>
      -- The entry belongs to the type that the walk started from, so it is the next step.
      obtain ⟨t, ht, hit'⟩ := hcache _ _ _ hhit
      obtain rfl := Except.ok.inj (hs.symm.trans ht)
      have hstep : r.step c path segment = .ok hit := by
        rw [hconcat] at hit'
        exact step_grows (.refl c) hit'
      rw [hstep]
      exact ih hit' hcache
    · split
      · next e he =>
        rw [he]
        exact ⟨rfl, .refl hcache⟩
      · next next hnext =>
        have hnext' : follow c "" (.entity s) (walked ++ [segment]) = .ok next := by
          rw [hconcat]
          exact step_grows (.refl c) hnext
        obtain ⟨heq, hkept⟩ := ih hnext' (hcache.insert hs hnext')
        rw [hnext]
        exact ⟨heq, ⟨(extends_insert cache _ _ _).trans hkept.entries, hkept.sound⟩⟩

/-- Resolving a path through a sound cache is looking it up, and adds only right entries. -/
theorem resolve_eq_lookup (hsc : sc.Built c) (hcache : cache.Sound c) (path : String) :
    (sc.resolve c path cache).1 = sc.lookup c path ∧ Kept c cache (sc.resolve c path cache).2 := by
  rw [resolve, lookup]
  split
  · exact ⟨rfl, .refl hcache⟩
  split
  · next hstart =>
    rw [hstart]
    exact ⟨rfl, .refl hcache⟩
  · next start hstart =>
    rw [hstart]
    exact ⟨rfl, .refl hcache⟩
  · next start rest _ hstart =>
    rw [hstart]
    have hs := hsc.of_start? hstart
    split
    · next hit hhit =>
      obtain ⟨t, ht, hit'⟩ := hcache _ _ _ hhit
      obtain rfl := Except.ok.inj (hs.symm.trans ht)
      exact ⟨(follow_grows (.refl c) hit').symm, .refl hcache⟩
    · exact walk_eq_follow hs rfl rest hcache

end Scope

/-! ### Compiling -/

namespace Query

open PathCache

variable {c : Catalog} {sc : Scope} {q : Query} {α β : Type}

/-- Two compilations that began with different caches have come to the same: they have the same plan
and answer or error, and each has kept its cache. -/
inductive EndAlike (c : Catalog) (st st' : Progress) :
    EStateM.Result Error Progress α → EStateM.Result Error Progress α → Prop
  | ok {a : α} {p : Planner} {cache cache' : PathCache} (h : Kept c st.cache cache)
    (h' : Kept c st'.cache cache') : EndAlike c st st' (.ok a ⟨p, cache⟩) (.ok a ⟨p, cache'⟩)
  | error {e : Error} {p : Planner} {cache cache' : PathCache} (h : Kept c st.cache cache)
    (h' : Kept c st'.cache cache') : EndAlike c st st' (.error e ⟨p, cache⟩) (.error e ⟨p, cache'⟩)

/-- Work on a compilation that comes to the same with any two sound caches. -/
def Alike (c : Catalog) (act : CompileM α) : Prop :=
  ∀ p cache cache', cache.Sound c → cache'.Sound c →
    EndAlike c ⟨p, cache⟩ ⟨p, cache'⟩ (act ⟨p, cache⟩) (act ⟨p, cache'⟩)

theorem alike_pure (a : α) : Alike c (pure a) :=
  fun _ _ _ h h' => .ok (.refl h) (.refl h')

theorem alike_throw (e : Error) : Alike c (throw e : CompileM α) :=
  fun _ _ _ h h' => .error (.refl h) (.refl h')

/-- A sequence comes to the same if its parts do. -/
theorem alike_bind {act : CompileM α} {f : α → CompileM β} (h : Alike c act)
    (hf : ∀ a, Alike c (f a)) : Alike c (act >>= f) := by
  intro p cache cache' hs hs'
  have hact := h p cache cache' hs hs'
  simp only [bind, EStateM.bind]
  generalize act ⟨p, cache⟩ = x at hact
  generalize act ⟨p, cache'⟩ = x' at hact
  cases hact with
  | error hk hk' => exact .error hk hk'
  | @ok a p₁ cache₁ cache₁' hk hk' =>
    have hrest := hf a p₁ cache₁ cache₁' hk.sound hk'.sound
    show EndAlike c _ _ (f a ⟨p₁, cache₁⟩) (f a ⟨p₁, cache₁'⟩)
    generalize f a ⟨p₁, cache₁⟩ = y at hrest
    generalize f a ⟨p₁, cache₁'⟩ = y' at hrest
    cases hrest with
    | ok hl hl' => exact .ok (hk.trans hl) (hk'.trans hl')
    | error hl hl' => exact .error (hk.trans hl) (hk'.trans hl')

/-- Of the progress so far, only the plan is read. -/
theorem alike_get {f : Progress → CompileM α}
    (hf : ∀ st st' : Progress, st.planner = st'.planner → f st = f st')
    (h : ∀ st, Alike c (f st)) : Alike c (get >>= f) := by
  intro p cache cache' hs hs'
  have hsame := hf ⟨p, cache'⟩ ⟨p, cache⟩ rfl
  have hend := h ⟨p, cache⟩ p cache cache' hs hs'
  show EndAlike c _ _ (f ⟨p, cache⟩ ⟨p, cache⟩) (f ⟨p, cache'⟩ ⟨p, cache'⟩)
  rwa [hsame]

/-- Work for every member of a list comes to the same if it does for each. -/
theorem alike_mapM {f : α → CompileM β} (h : ∀ a, Alike c (f a)) (l : List α) :
    Alike c (l.mapM f) := by
  induction l with
  | nil => exact alike_pure []
  | cons a l ih =>
    rw [List.mapM_cons]
    exact alike_bind (h a) fun b => alike_bind ih fun bs => alike_pure _

/-- Visiting a path asks only what the path denotes. -/
theorem alike_visit (hsc : sc.Built c) (chain : String) (mapped : Bool) :
    Alike c (visit c sc chain mapped) := by
  intro p cache cache' hs hs'
  obtain ⟨heq, hk⟩ := sc.resolve_eq_lookup hsc hs chain
  obtain ⟨heq', hk'⟩ := sc.resolve_eq_lookup hsc hs' chain
  simp only [visit]
  cases hr : sc.resolve c chain cache with
  | mk x cache₁ =>
  cases hr' : sc.resolve c chain cache' with
  | mk x' cache₁' =>
  rw [hr] at heq hk
  rw [hr'] at heq' hk'
  obtain rfl : x = x' := heq.trans heq'.symm
  cases x with
  | error e => exact .error hk hk'
  | ok r =>
    cases (Planner.walk c sc.root.isSome chain mapped).run p with
    | error e => exact .error hk hk'
    | ok reached => exact .ok hk hk'

/-- So does compiling what is compared. -/
theorem alike_compileColumn (hsc : sc.Built c) (chain : String) :
    Alike c (compileColumn c sc chain) := by
  rw [compileColumn]
  refine alike_bind (alike_visit hsc chain false) fun reached => ?_
  refine alike_get (fun st st' h => by simp only [h]) fun st => ?_
  split
  · exact alike_pure _
  · exact alike_throw _

/-- So does compiling a selection. -/
theorem alike_compileSelection (hsc : sc.Built c) (sel : Selection) :
    Alike c (compileSelection c sc sel) := by
  cases sel with
  | raw sql label => exact alike_pure _
  | path chain =>
    refine alike_bind (alike_visit hsc chain true) fun reached => ?_
    exact alike_get (fun st st' h => by simp only [h]) fun st => alike_pure _

/-- So does compiling a filter. -/
theorem alike_compileFilter (hsc : sc.Built c) (f : Filter) : Alike c (compileFilter c sc f) := by
  rw [compileFilter]
  exact alike_bind (alike_compileColumn hsc f.path) fun column => alike_pure _

/-- The whole of a compilation comes to the same. -/
theorem alike_compileBody (hsc : sc.Built c) (q : Query) (rootOutputs : List Output) :
    Alike c (compileBody c q sc rootOutputs) := by
  have ordered (o : String × Direction) :
      Alike c (do return (← compileColumn c sc o.1, o.2)) :=
    alike_bind (alike_compileColumn hsc o.1) fun column => alike_pure (column, o.2)
  rw [compileBody]
  refine alike_bind (alike_mapM (alike_compileSelection hsc) q.selections) fun outputs => ?_
  refine alike_bind (alike_mapM (alike_compileFilter hsc) q.filters) fun conditions => ?_
  refine alike_bind (alike_mapM ordered q.order) fun orderBy => ?_
  refine alike_get (fun st st' h => by simp only [h]) fun st => ?_
  dsimp only
  split
  · exact alike_throw _
  · exact alike_pure _

/-- The scope of a query is built. -/
theorem built_scope (h : q.scope c = .ok sc) : sc.Built c := by
  rw [scope] at h
  split at h
  · exact Scope.built_rooted h
  · split at h
    · cases h
    · have hempty := Scope.built_empty c
      generalize ({} : Scope) = sc₀ at h hempty
      generalize q.roots = roots at h
      induction roots generalizing sc₀ with
      | nil =>
        obtain rfl := Except.ok.inj h
        exact hempty
      | cons r roots ih =>
        rw [List.foldlM_cons] at h
        obtain ⟨sc₁, hsc₁, h⟩ := bind_eq_ok_iff.1 h
        exact ih sc₁ (hempty.addAlias hsc₁) h

/-- A query compiles alike with any two sound caches, and keeps the one that it is given. -/
theorem compile_alike (q : Query) {cache cache' : PathCache} (h : cache.Sound c)
    (h' : cache'.Sound c) :
    (q.compile c cache).1 = (q.compile c cache').1 ∧ Kept c cache (q.compile c cache).2 := by
  rw [compile, compile]
  split
  · exact ⟨rfl, .refl h⟩
  next sc hsc =>
  split
  · exact ⟨rfl, .refl h⟩
  next rootOutputs planner _ =>
  have hbody := alike_compileBody (built_scope hsc) q rootOutputs planner cache cache' h h'
  simp only [EStateM.run]
  generalize compileBody c q sc rootOutputs ⟨planner, cache⟩ = x at hbody
  generalize compileBody c q sc rootOutputs ⟨planner, cache'⟩ = x' at hbody
  cases hbody with
  | ok hk _ => exact ⟨rfl, hk⟩
  | error hk _ => exact ⟨rfl, hk⟩

end Query

/-! ### Histories -/

/-- Scopes over one catalog that share one cache. -/
structure Naming where
  catalog : Catalog
  scopes : List Scope := []
  cache : PathCache := {}

namespace Naming

open PathCache

/-- What can happen to scopes over one catalog. -/
inductive Event where
  | define (d : Definition)
  /-- A new scope, with or without a root. -/
  | openScope (root : Option String)
  | addAlias (i : Nat) (name target : String)
  | resolve (i : Nat) (path : String)
  | compile (q : Query)

/-- What is left after an event; one that fails leaves all but the cache as it was. -/
def run (n : Naming) : Event → Naming
  | .define d => { n with catalog := n.catalog.define d }
  | .openScope none => { n with scopes := n.scopes ++ [{}] }
  | .openScope (some root) =>
    match Scope.rooted n.catalog root with
    | .ok sc => { n with scopes := n.scopes ++ [sc] }
    | .error _ => n
  | .addAlias i name target =>
    match n.scopes[i]? with
    | none => n
    | some sc =>
      match sc.addAlias n.catalog name target with
      | .ok sc' => { n with scopes := n.scopes.set i sc' }
      | .error _ => n
  | .resolve i path =>
    match n.scopes[i]? with
    | none => n
    | some sc => { n with cache := (sc.resolve n.catalog path n.cache).2 }
  | .compile q => { n with cache := (q.compile n.catalog n.cache).2 }

/-- What is left after a history. -/
def runAll (n : Naming) (es : List Event) : Naming :=
  es.foldl run n

/-- All scopes are built, and the cache is sound. -/
structure Sound (n : Naming) : Prop where
  scopes : ∀ sc ∈ n.scopes, sc.Built n.catalog
  cache : n.cache.Sound n.catalog

/-- Nothing has happened yet. -/
theorem sound_empty (c : Catalog) : Sound ⟨c, [], {}⟩ where
  scopes _ h := nomatch h
  cache := PathCache.sound_empty c

/-- An event leaves the entries of the cache as they are, and everything sound. -/
theorem Sound.run {n : Naming} (h : n.Sound) (e : Event) :
    (n.run e).Sound ∧ n.cache.Extends (n.run e).cache := by
  have opened {sc : Scope} (hsc : sc.Built n.catalog) :
      Sound { n with scopes := n.scopes ++ [sc] } := by
    refine ⟨fun sc' hsc' => ?_, h.cache⟩
    rcases List.mem_append.1 hsc' with hsc' | hsc'
    · exact h.scopes sc' hsc'
    · exact List.mem_singleton.1 hsc' ▸ hsc
  have same : n.Sound ∧ n.cache.Extends n.cache := ⟨h, .refl n.cache⟩
  have kept {cache : PathCache} (hk : Kept n.catalog n.cache cache) :
      Sound { n with cache } ∧ n.cache.Extends cache := ⟨⟨h.scopes, hk.sound⟩, hk.entries⟩
  cases e with
  | define d =>
    have hgrows := n.catalog.grows_define d
    exact ⟨⟨fun sc hsc => (h.scopes sc hsc).grows hgrows, h.cache.grows hgrows⟩, .refl n.cache⟩
  | openScope root =>
    cases root with
    | none => exact ⟨opened (Scope.built_empty _), .refl n.cache⟩
    | some root =>
      simp only [Naming.run]
      split
      · next sc hsc => exact ⟨opened (Scope.built_rooted hsc), .refl n.cache⟩
      · exact same
  | addAlias i name target =>
    simp only [Naming.run]
    split
    · exact same
    next sc hsc =>
    split
    · next sc' hsc' =>
      refine ⟨⟨fun t ht => ?_, h.cache⟩, .refl n.cache⟩
      rcases List.mem_or_eq_of_mem_set ht with ht | rfl
      · exact h.scopes t ht
      · exact (h.scopes sc (List.mem_of_getElem? hsc)).addAlias hsc'
    · exact same
  | resolve i path =>
    simp only [Naming.run]
    split
    · exact same
    next sc hsc =>
    exact kept (sc.resolve_eq_lookup (h.scopes sc (List.mem_of_getElem? hsc)) h.cache path).2
  | compile q => exact kept (q.compile_alike h.cache h.cache).2

/-- So does a history. -/
theorem Sound.runAll {n : Naming} (h : n.Sound) (es : List Event) :
    (n.runAll es).Sound ∧ n.cache.Extends (n.runAll es).cache := by
  induction es generalizing n with
  | nil => exact ⟨h, .refl n.cache⟩
  | cons e es ih =>
    obtain ⟨he, hextends⟩ := h.run e
    obtain ⟨hes, hextends'⟩ := ih he
    exact ⟨hes, hextends.trans hextends'⟩

end Naming

/-- **Answers do not depend on the cache.** After any history over any catalog, every scope resolves
every path to what looking it up in the catalog gives then, a type or an atomic with its owner or an
error; no later event changes an entry of the cache or takes it away; and every query compiles to what
it compiles to with an empty cache. -/
theorem answers_independent_of_cache (c : Catalog) (es : List Naming.Event) :
    let n := Naming.runAll ⟨c, [], {}⟩ es
    (∀ sc ∈ n.scopes, ∀ path,
      (sc.resolve n.catalog path n.cache).1 = sc.lookup n.catalog path) ∧
    (∀ later, n.cache.Extends (n.runAll later).cache) ∧
    ∀ q : Query, (q.compile n.catalog n.cache).1 = (q.compile n.catalog {}).1 := by
  intro n
  have hn : n.Sound := ((Naming.sound_empty c).runAll es).1
  refine ⟨fun sc hsc path => ?_, fun later => (hn.runAll later).2, fun q => ?_⟩
  · exact (sc.resolve_eq_lookup (hn.scopes sc hsc) hn.cache path).1
  · exact (q.compile_alike hn.cache (PathCache.sound_empty _)).1

end EntityGraph
