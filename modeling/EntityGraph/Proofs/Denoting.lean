import EntityGraph.Proofs.Routes

/-!
# Paths are read where they denote

The roots of a query are placed in its plan in the order in which they are listed, and the latest one
with an alias is found under it; the scope in which paths are resolved knows the same alias for its type.
From there on, both walks of a path agree.

* `Query.Placed` — the roots that have been placed in a plan;
* `Query.Lists` — the roots that have been listed in a scope;
* `Query.leads_of_compile` — paths that are not shadowed are read where they denote;
* `Query.misleads_of_alias` — a path that is shadowed is read somewhere else.
-/

namespace EntityGraph

namespace Query

open Planner

variable {c : Catalog} {q : Query} {sc : Scope} {p p' : Planner} {segments : List String}

/-! ### Placing the roots -/

/-- The roots that have been placed: one node each, found under their aliases. -/
structure Placed (c : Catalog) (roots : List (String × String)) (p : Planner) : Prop where
  count : p.nodes.length = roots.length
  range : p.roots = List.range roots.length
  schema : ∀ k r, roots[k]? = some r → c.schema r.2 = .ok (p.node k).schema
  found : ∀ name k, p.byPath.lookup name = some k → Latest roots name k
  known : ∀ r ∈ roots, (p.byPath.lookup r.1).isSome

/-- No roots have been placed yet. -/
theorem Placed.empty (c : Catalog) : Placed c [] {} where
  count := rfl
  range := rfl
  schema _ _ h := nomatch h
  found _ _ h := nomatch h
  known _ h := nomatch h

/-- One more root is placed behind the others. -/
theorem Placed.withRoot {roots : List (String × String)} {r : String × String} {s : Schema}
    (h : Placed c roots p) (hs : c.schema r.2 = .ok s) (key : Atomic) :
    Placed c (roots ++ [r]) (p.withRoot r.1 s key) := by
  have hlookup : ∀ name, (p.withRoot r.1 s key).byPath.lookup name =
      if name == r.1 then some roots.length else p.byPath.lookup name := fun name => by
    show List.lookup name ((r.1, p.nodes.length) :: p.byPath) = _
    rw [List.lookup_cons, h.count]
    split <;> simp_all
  refine ⟨?_, ?_, fun k r' hk => ?_, fun name k hk => ?_, fun r' hr' => ?_⟩
  · simp [Planner.withRoot, grow, h.count]
  · simp [Planner.withRoot, grow, h.count, h.range, List.range_succ]
  · rcases getElem?_append_singleton.1 hk with hk | ⟨rfl, rfl⟩
    · have hlt := h.count ▸ (List.getElem?_eq_some_iff.1 hk).1
      have hnode : (p.withRoot r.1 s key).node k = p.node k := node_of_lt rfl hlt
      rw [hnode]
      exact h.schema k r' hk
    · have hnode : (p.withRoot r.1 s key).node roots.length = p.freshRoot s :=
        h.count ▸ node_length rfl
      rw [hnode]
      exact hs
  · rw [hlookup] at hk
    split at hk
    · next heq =>
      obtain rfl := eq_of_beq heq
      exact Option.some.inj hk ▸ Latest.concat roots r
    · next hne => exact (h.found name k hk).append fun heq => hne (beq_iff_eq.2 heq.symm)
  · rw [hlookup]
    split
    · rfl
    · next hne =>
      rcases List.mem_append.1 hr' with hr' | hr'
      · exact h.known r' hr'
      · exact absurd (by rw [List.mem_singleton.1 hr']; exact beq_self_eq_true _) hne

/-- Roots are placed one after the other. -/
theorem Placed.run {roots l : List (String × String)} {x : Unit} (h : Placed c roots p)
    (hrun : (l.forM fun r => do addRoot r.1 (← liftM (c.schema r.2)) : PlanM Unit).run p =
      .ok (x, p')) : Placed c (roots ++ l) p' := by
  induction l generalizing p roots with
  | nil =>
    obtain ⟨-, rfl⟩ := run_pure_iff.1 hrun
    rwa [List.append_nil]
  | cons r l ih =>
    obtain ⟨_, p₁, hadd, hrun⟩ := (run_bind_iff (f := fun _ => l.forM _)).1 hrun
    obtain ⟨s, hs, hadd⟩ := run_liftM_bind_iff.1 hadd
    obtain ⟨key, -, rfl⟩ := run_addRoot hadd
    have hrest := ih (h.withRoot hs key) hrun
    rwa [List.append_assoc] at hrest

/-- The aliases of a scope stand for the types of the roots that have been listed. -/
structure Lists (c : Catalog) (roots : List (String × String)) (sc : Scope) : Prop where
  root : sc.root = none
  found : ∀ name e, sc.aliases.find? (·.1 == name) = some e → ∃ k type, Latest roots name k ∧
    roots[k]? = some (name, type) ∧ c.schema type = .ok e.2
  known : ∀ r ∈ roots, (sc.aliases.find? (·.1 == r.1)).isSome

/-- No roots have been listed yet. -/
theorem Lists.empty (c : Catalog) : Lists c [] {} where
  root := rfl
  found _ _ h := nomatch h
  known _ h := nomatch h

/-- One more root is listed. -/
theorem Lists.addAlias {roots : List (String × String)} {r : String × String} {sc' : Scope}
    (h : Lists c roots sc) (hsc : sc.addAlias c r.1 r.2 = .ok sc') : Lists c (roots ++ [r]) sc' := by
  obtain ⟨s, hs, hsc⟩ := bind_eq_ok_iff.1 hsc
  obtain rfl := Except.ok.inj hsc
  refine ⟨h.root, fun name e he => ?_, fun r' hr' => ?_⟩
  · rw [List.find?_cons] at he
    split at he
    · next heq =>
      obtain rfl := eq_of_beq heq
      obtain rfl := Option.some.inj he
      exact ⟨roots.length, r.2, .concat roots r, by simp, hs⟩
    · next hne =>
      obtain ⟨k, type, hlatest, hk, htype⟩ := h.found name e he
      exact ⟨k, type, hlatest.append fun heq => by simp [heq] at hne,
        getElem?_append_singleton.2 (.inl hk), htype⟩
  · rw [List.find?_cons]
    split
    · rfl
    · next hne =>
      rcases List.mem_append.1 hr' with hr' | hr'
      · exact h.known r' hr'
      · rw [List.mem_singleton.1 hr', beq_self_eq_true] at hne
        cases hne

/-- Roots are listed one after the other. -/
theorem Lists.foldlM {roots l : List (String × String)} {sc' : Scope} (h : Lists c roots sc)
    (hfold : l.foldlM (fun sc r => sc.addAlias c r.1 r.2) sc = .ok sc') : Lists c (roots ++ l) sc' := by
  induction l generalizing sc roots with
  | nil =>
    obtain rfl := Except.ok.inj hfold
    rwa [List.append_nil]
  | cons r l ih =>
    rw [List.foldlM_cons] at hfold
    obtain ⟨sc₁, hadd, hfold⟩ := bind_eq_ok_iff.1 hfold
    have hrest := ih (h.addAlias hadd) hfold
    rwa [List.append_assoc] at hrest

/-- What has been listed is what first segments say. -/
theorem Lists.scoped (h : Lists c q.roots sc) (hnone : q.root = none) : Scoped c q sc where
  implicit type htype := by rw [hnone] at htype; cases htype
  explicit _ := h.root
  aliased _ name k type hk htype := by
    obtain ⟨e, he⟩ := Option.isSome_iff_exists.1 (h.known _ (List.mem_of_getElem? htype))
    obtain ⟨k', type', hk', htype', hs⟩ := h.found name e he
    obtain rfl := hk.unique hk'
    obtain rfl := (Prod.mk.inj (Option.some.inj (htype.symm.trans htype'))).2
    exact ⟨e.2, hs, by rw [Scope.named?, he]⟩
  typed _ type hno s hs := by
    rw [Scope.named?] at hs
    split at hs
    · next p he =>
      obtain ⟨k, _, -, hk, -⟩ := h.found _ _ he
      exact absurd rfl (hno _ (List.mem_of_getElem? hk))
    · split at hs
      · cases hschema : c.schema type with
        | ok t =>
          rw [hschema] at hs
          exact congrArg _ (Option.some.inj hs)
        | error e => rw [hschema] at hs; cases hs
      · cases hs

/-- The scope of a query says what its roots say. -/
theorem scoped_of_scope (h : q.scope c = .ok sc) : Scoped c q sc := by
  unfold scope at h
  split at h
  · next root hroot =>
    obtain ⟨s, hs, h⟩ := bind_eq_ok_iff.1 h
    obtain rfl := Except.ok.inj h
    have hsome : q.root ≠ none := by rw [hroot]; simp
    exact ⟨fun type htype => ⟨s, rfl, (Option.some.inj (hroot.symm.trans htype)) ▸ hs⟩,
      fun hnone => absurd hnone hsome, fun hnone => absurd hnone hsome,
      fun hnone => absurd hnone hsome⟩
  · next hroot =>
    split at h
    · cases h
    · exact ((Lists.empty c).foldlM h).scoped hroot

/-- A plan is charted when the roots have been placed. -/
theorem charted_of_plannedRoots {rootOutputs : List Output} (hscoped : Scoped c q sc)
    (h : (q.plannedRoots c sc).run {} = .ok (rootOutputs, p)) (hbegun : Begun c p) :
    Charted c q sc p := by
  unfold plannedRoots at h
  cases hroot : q.root with
  | some type =>
    obtain ⟨root, hsc, hs⟩ := hscoped.implicit type hroot
    have hsome : q.root ≠ none := by rw [hroot]; simp
    simp only [hsc] at h
    obtain ⟨_, p₁, hadd, h⟩ := run_bind_iff.1 h
    obtain ⟨-, rfl⟩ := run_pure_iff.1 h
    obtain ⟨key, -, rfl⟩ := run_addRoot hadd
    refine ⟨hbegun, ⟨fun type' htype' => ⟨rfl, ?_⟩, fun hnone => absurd hnone hsome⟩,
      fun text i hi => ?_, fun hnone => absurd hnone hsome⟩
    · obtain rfl := Option.some.inj (hroot.symm.trans htype')
      exact hs
    · have hlookup : List.lookup text [("", 0)] = some i := hi
      rw [List.lookup_cons] at hlookup
      split at hlookup
      · next heq =>
        obtain rfl := eq_of_beq heq
        exact Option.some.inj hlookup ▸ .implicit (by rw [hroot]; rfl)
      · cases hlookup
  | none =>
    simp only [hscoped.explicit hroot] at h
    obtain ⟨_, p₁, hadd, h⟩ := run_bind_iff.1 h
    obtain ⟨-, rfl⟩ := run_pure_iff.1 h
    have hplaced := (Placed.empty c).run hadd
    rw [List.nil_append] at hplaced
    exact ⟨hbegun, ⟨fun _ htype => (nomatch hroot.symm.trans htype),
      fun _ => ⟨hplaced.range, hplaced.schema⟩⟩, fun _ _ hi => .root hroot (hplaced.found _ _ hi),
      fun _ => hplaced.known⟩

/-! ### Compiled queries -/

/-- **Paths are read where they denote.** A query that compiles has a plan whose first nodes are its
roots, and in which every other node is joined along a relation of the node before. What is selected,
filtered or ordered by a path is what the path leads to in this plan, from the root that its first segment
names, along its own relations; and it is what resolving the path says it denotes. Only a path that the
alias of a root shadows may lead elsewhere. -/
theorem leads_of_compile {cache cache' : PathCache} {compiled : CompiledQuery} (hcache : cache.Sound c)
    (h : q.compile c cache = (.ok compiled, cache')) :
    ∃ sc p, q.scope c = .ok sc ∧ Rooted c q p ∧ p.Linked c ∧
      DescribesAs (fun p chain r => ¬ Shadowed c q sc (Text.splitDots chain) →
        ∃ denoted start rest,
          (∀ cache : PathCache, cache.Sound c → (sc.resolve c chain cache).1 = .ok denoted) ∧
          q.Starts (Text.splitDots chain) start rest ∧ p.Leads start rest denoted r) q p compiled := by
  obtain ⟨sc, st, hsc, hsteps, -, ⟨hcharted, -⟩, hdescribes⟩ := described_of_compile
    (fun sc hsc => knowing_finds (scoped_of_scope hsc) (built_scope hsc))
    (fun sc _ p hsc hrun hbegun =>
      ⟨charted_of_plannedRoots (scoped_of_scope hsc) hrun hbegun, hcache⟩) h
  have hresolves : ∀ chain r, (¬ Shadowed c q sc (Text.splitDots chain) →
      Finds c q sc st.planner chain r) → ¬ Shadowed c q sc (Text.splitDots chain) →
      ∃ denoted start rest,
        (∀ cache : PathCache, cache.Sound c → (sc.resolve c chain cache).1 = .ok denoted) ∧
        q.Starts (Text.splitDots chain) start rest ∧ st.planner.Leads start rest denoted r := by
    intro chain r hfinds hfree
    obtain ⟨denoted, start, rest, hlookup, hleads⟩ := hfinds hfree
    exact ⟨denoted, start, rest,
      fun cache hc => (Scope.resolve_eq_lookup (built_scope hsc) hc chain).1.trans hlookup, hleads⟩
  exact ⟨sc, st.planner, hsc, hcharted.rooted, linked_of_steps hsteps,
    hdescribes.mono fun chain r => hresolves chain r⟩

/-- Aliases without dots shadow nothing. -/
theorem not_shadowed (h : ∀ r ∈ q.roots, '.' ∉ r.1.toList) : ¬ Shadowed c q sc segments := by
  rintro ⟨-, r, hr, first, names, -, hne, -, hspells, -⟩
  refine h r hr ?_
  rw [hspells, String.intercalate_cons_of_ne_nil hne]
  simp

/-- The paths of the blog are read where they denote. -/
theorem leads_of_compile_blog : PathCache.Sound Blog.catalog {} ∧
    ∃ compiled cache' sc p, Blog.query.compile Blog.catalog {} = (.ok compiled, cache') ∧
      Rooted Blog.catalog Blog.query p ∧ p.Linked Blog.catalog ∧
      (∀ chain, ¬ Shadowed Blog.catalog Blog.query sc (Text.splitDots chain)) ∧
      DescribesAs (fun p chain r =>
        ¬ Shadowed Blog.catalog Blog.query sc (Text.splitDots chain) → ∃ denoted start rest,
          (∀ cache : PathCache, cache.Sound Blog.catalog →
            (sc.resolve Blog.catalog chain cache).1 = .ok denoted) ∧
          Blog.query.Starts (Text.splitDots chain) start rest ∧ p.Leads start rest denoted r)
        Blog.query p compiled := by
  have hanswers : (Blog.query.compile Blog.catalog {}).1.toOption.any (fun _ => true) = true := by
    decide +kernel
  obtain ⟨compiled, cache', h, -⟩ := exists_compiled hanswers
  obtain ⟨sc, p, -, hrooted, hlinked, hdescribes⟩ :=
    leads_of_compile (PathCache.sound_empty Blog.catalog) h
  exact ⟨PathCache.sound_empty _, compiled, cache', sc, p, h, hrooted, hlinked,
    fun _ => not_shadowed (by decide), hdescribes⟩

end Query

/-- Users, and users again under an alias that spells the way to the posts of the first ones. -/
def Blog.shadowing : Query where
  roots := [("u", "User"), ("u.posts", "User")]
  selections := [.path "u.posts.id"]

/-- **A path that is shadowed is read somewhere else.** `u.posts.id` denotes the key of a post, but is read
at the second root, which is a user; no post is joined. -/
theorem Query.misleads_of_alias : ∃ sc s a compiled cache',
    Blog.shadowing.scope Blog.catalog = .ok sc ∧
    (sc.resolve Blog.catalog "u.posts.id" {}).1 = .ok (.scalar s a) ∧ s.name = "Post" ∧
    Blog.shadowing.compile Blog.catalog {} = (.ok compiled, cache') ∧
    compiled.plan.outputs = [.scalar "u.posts.id" 1 [] "id"] ∧
    compiled.plan.nodes.map (fun n => (n.schema.name, n.parent.isSome)) =
      [("User", false), ("User", false)] := by
  have hanswers : (Blog.shadowing.compile Blog.catalog {}).1.toOption.any (fun compiled =>
      compiled.plan.outputs == [.scalar "u.posts.id" 1 [] "id"] &&
      compiled.plan.nodes.map (fun n => (n.schema.name, n.parent.isSome)) ==
        [("User", false), ("User", false)]) = true := by
    decide +kernel
  obtain ⟨compiled, cache', h, hplan⟩ := exists_compiled hanswers
  rw [Bool.and_eq_true, beq_iff_eq, beq_iff_eq] at hplan
  have hdenotes : ((Blog.shadowing.scope Blog.catalog).toOption.bind fun sc =>
      (sc.resolve Blog.catalog "u.posts.id" {}).1.toOption.bind fun denoted =>
        denoted.casesOn (fun _ => none) fun s _ => some s.name) = some "Post" := by
    decide +kernel
  have hok : ∀ {α : Type} {x : Except Error α} {a : α}, x.toOption = some a → x = .ok a := by
    rintro α (e | a) b h
    · cases h
    · exact congrArg _ (Option.some.inj h)
  obtain ⟨sc, hsc, hdenotes⟩ := Option.bind_eq_some_iff.1 hdenotes
  obtain ⟨denoted, hresolve, hname⟩ := Option.bind_eq_some_iff.1 hdenotes
  cases denoted with
  | entity s => cases hname
  | scalar s a =>
    exact ⟨sc, s, a, compiled, cache', hok hsc, hok hresolve, Option.some.inj hname, h, hplan⟩

end EntityGraph
