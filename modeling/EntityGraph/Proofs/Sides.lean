import EntityGraph.Proofs.Client
import EntityGraph.Proofs.Properties

/-!
# Where relations have their foreign keys

A to-many relation has its foreign key on the members, where collections write it: adding and removing a
member and releasing all of them go to the foreign key of the join, and do not ask for its side. An
owning to-many relation is resolved that way, and so is an inverse one whose owning relation is to-one.
Nothing is known to keep an inverse side from naming a to-many relation. Such a relation is crossed: both
sides lead to many entities, and the foreign key is that of the owning side's members, which is here.

* `Catalog.Crossed` — an inverse side of a to-many relation;
* `Graph.Confined` — nothing but a foreign key of some entities has been written, which they declare.

## Main results

* `Registry.Reached.side_of_toMany`: a to-many relation has its foreign key among the atomics of its
  members, and collections write nothing else, unless it is crossed.
* `Registry.accepts_crossed`: a crossed relation, whose collections write an atomic that members lack.
-/

namespace EntityGraph

/-! ### Join columns -/

namespace Draft

variable {d : Draft} {parts : List (String × Schema)} {s : Schema} {comp : Component}

/-- An atomic that a finished draft declares is found in its schema. -/
theorem atomic?_of_hasAtomic {name : String} (h : d.finish parts = .ok s)
    (hatomic : d.hasAtomic name = true) : ∃ a, s.atomic? name = some a := by
  obtain ⟨-, -, -, -, rfl⟩ := finish_eq_ok_iff.1 h
  obtain ⟨a, ha, hname⟩ := List.any_eq_true.1 hatomic
  exact Option.isSome_iff_exists.1 (List.find?_isSome.2 ⟨a, ha, hname⟩)

/-- A component of a finished schema has no fault. -/
theorem componentFault?_of_finish (h : d.finish parts = .ok s) (hcomp : comp ∈ s.components) :
    d.componentFault? comp = none := by
  obtain ⟨-, -, -, hcomponents, rfl⟩ := finish_eq_ok_iff.1 h
  exact componentFault?_of_checkComponents hcomponents comp hcomp

/-- The join column of an owning to-one relation without a fault is an atomic. -/
theorem hasAtomic_of_joinColumn {column : String} (h : d.componentFault? comp = none)
    (howning : comp.mappedBy = none) (hone : comp.isToMany = false)
    (hcolumn : comp.joinColumn = some column) : d.hasAtomic column = true := by
  unfold componentFault? at h
  split at h
  · cases h
  · simp only [howning, hcolumn, hone, Bool.false_eq_true, if_false] at h
    split at h
    · assumption
    · cases h

end Draft

/-- An owning to-one relation has its foreign key here. -/
theorem Join.here_of_owning {s t : Schema} {comp : Component} {join : Join}
    (h : Join.owning s comp t = .ok join) (hone : comp.isToMany = false) : join.side = .here := by
  cases hside : join.side with
  | here => rfl
  | there => exact absurd ((Join.owning_side h).1 hside) (by simp [hone])

namespace Catalog

variable {c : Catalog} {s t : Schema} {comp : Component} {join : Join}

/-- A known type has the join columns of its owning to-one relations. -/
theorem atomic?_of_joinColumn {column : String} (h : c.Known s) (hcomp : comp ∈ s.components)
    (howning : comp.mappedBy = none) (hone : comp.isToMany = false)
    (hcolumn : comp.joinColumn = some column) : ∃ a, s.atomic? column = some a := by
  obtain ⟨d, parts, hfinish⟩ := h.finished
  have hfault := Draft.componentFault?_of_finish hfinish hcomp
  exact Draft.atomic?_of_hasAtomic hfinish
    (Draft.hasAtomic_of_joinColumn hfault howning hone hcolumn)

/-- The target of an owning to-many relation has its join column. -/
theorem atomic?_of_owning (h : Join.owning s comp t = .ok join) (hmany : comp.isToMany = true) :
    ∃ a, t.atomic? join.foreignKey = some a := by
  have hcolumn := joinColumn_of_owning h
  unfold Join.owning at h
  simp only [hcolumn, hmany, if_true] at h
  split at h
  · cases h
  · next hsome =>
    rw [Option.isNone_iff_eq_none] at hsome
    exact Option.ne_none_iff_exists'.1 hsome

/-- The target of a relation that has its foreign key on the other side declares it. -/
theorem declared_of_there (h : c.join s comp = .ok join) (hside : join.side = .there) :
    ∃ t a, c.schema comp.target = .ok t ∧ t.atomic? join.foreignKey = some a := by
  obtain ⟨t, ht, ⟨-, howning⟩ | ⟨_, owning, join', -, hfound, howns, howning, rfl⟩⟩ := join_cases h
  · obtain ⟨a, ha⟩ := atomic?_of_owning howning ((Join.owning_side howning).1 hside)
    exact ⟨t, a, ht, ha⟩
  · have hone : owning.isToMany = false := by
      refine Bool.eq_false_iff.2 fun hmany => ?_
      rw [Join.flipped, (Join.owning_side howning).2 hmany] at hside
      cases hside
    obtain ⟨a, ha⟩ := atomic?_of_joinColumn ⟨_, t, ht, .refl t⟩ (List.mem_of_find?_eq_some hfound)
      howns hone (joinColumn_of_owning howning)
    exact ⟨t, a, ht, ha⟩

/-- A relation is the inverse side of a to-many relation of its target. -/
def Crossed (c : Catalog) (comp : Component) : Prop :=
  ∃ name t owning, comp.mappedBy = some name ∧ c.schema comp.target = .ok t ∧
    t.component? name = some owning ∧ owning.isToMany = true

/-- A resolved to-many relation has its foreign key on the other side, unless it is crossed. Then it has
it here, and the owner declares it. -/
theorem side_or_crossed (h : c.join s comp = .ok join) (hmany : comp.isToMany = true) :
    join.side = .there ∧ ¬c.Crossed comp ∨
      join.side = .here ∧ c.Crossed comp ∧ ∃ a, s.atomic? join.foreignKey = some a := by
  obtain ⟨t, ht, ⟨howns, howning⟩ | ⟨name, owning, join', hinverse, hfound, -, howning, rfl⟩⟩ :=
    join_cases h
  · refine .inl ⟨(Join.owning_side howning).2 hmany, ?_⟩
    rintro ⟨_, _, _, hinverse, -⟩
    rw [howns] at hinverse
    cases hinverse
  · cases hcrossed : owning.isToMany with
    | true =>
      have hthere : join'.side = .there := (Join.owning_side howning).2 hcrossed
      obtain ⟨a, ha⟩ := atomic?_of_owning howning hcrossed
      exact .inr ⟨by simp [Join.flipped, hthere, Side.opposite],
        ⟨name, t, owning, hinverse, ht, hfound, hcrossed⟩, a, ha⟩
    | false =>
      have hhere := Join.here_of_owning howning hcrossed
      refine .inl ⟨by simp [Join.flipped, hhere, Side.opposite], ?_⟩
      rintro ⟨name', t', owning', hinverse', ht', hfound', hmany'⟩
      obtain rfl := Option.some.inj (hinverse.symm.trans hinverse')
      obtain rfl := Except.ok.inj (ht.symm.trans ht')
      obtain rfl := Option.some.inj (hfound.symm.trans hfound')
      rw [hcrossed] at hmany'
      cases hmany'

end Catalog

/-! ### What collections write -/

namespace Graph

variable {c : Catalog} {g g' g'' : Graph} {i : CollectionId} {m x : EntityId} {f : String}
  {holders : List EntityId}

/-- Nothing but one foreign key of some entities has been written, and these declare it. -/
def Confined (holders : List EntityId) (f : String) (g g' : Graph) : Prop :=
  ∀ x name, Spared x name g g' ∨
    x ∈ holders ∧ name = f ∧ ∃ a, (g.entity x).schema.atomic? name = some a

/-- Where nothing is written, nothing else is. -/
theorem Confined.refl (holders : List EntityId) (f : String) (g : Graph) : Confined holders f g g :=
  fun x name => .inl (.refl x name g)

/-- What leaves every other foreign key alone is confined, if the holders declare theirs. -/
theorem Confined.of_spared
    (hdeclared : ∀ x ∈ holders, ∃ a, (g.entity x).schema.atomic? f = some a)
    (hspared : ∀ x name, ¬(x ∈ holders ∧ name = f) → Spared x name g g') :
    Confined holders f g g' := by
  intro x name
  by_cases hx : x ∈ holders ∧ name = f
  · obtain ⟨hmem, rfl⟩ := hx
    exact .inr ⟨hmem, rfl, hdeclared x hmem⟩
  · exact .inl (hspared x name hx)

/-- Appending a member writes nothing. -/
theorem ends_append_spared (g : Graph) (i : CollectionId) (m x : EntityId) (name : String) :
    (append i m).Ends g (fun _ => Spared x name g) (fun _ _ => False) := by
  unfold append
  simp only [Act.ends_bind, Act.ends_get]
  split
  · simp only [Act.ends_ite, Act.ends_pure, Act.ends_bind, Act.ends_modify]
    exact ⟨fun _ => .refl x name g, fun _ => ⟨rfl, rfl⟩⟩
  · simp only [Act.ends_ite, Act.ends_pure, Act.ends_bind, Act.ends_modify, addListener]
    refine ⟨fun _ => .refl x name g, fun _ => ?_⟩
    have hmember : Spared x name g
        (g.modifyCollection i fun y => { y with members := y.members ++ [m] }) := ⟨rfl, rfl⟩
    exact hmember.trans (.modifyEntity _ m (fun _ _ => rfl) fun _ _ => rfl)

/-- Adding a member writes its foreign key alone. -/
theorem ends_push_spared (hne : ¬(x = m ∧ f = (g.collection i).join.foreignKey)) :
    (push i m).Ends g (fun _ => Spared x f g) (fun _ => Spared x f g) := by
  unfold push
  simp only [Act.ends_bind, Act.ends_get, Act.ends_ofExcept, Act.ends_ite, Act.ends_pure]
  refine ⟨fun _ _ => ?_, fun _ _ => .refl x f g⟩
  refine (ends_append_spared g i m x f).mono (fun _ g₁ h₁ => ⟨fun _ => ?_, fun _ => h₁⟩)
    fun _ _ hno => hno.elim
  have hlink := ends_link_spared (fun heq => hne ⟨heq.1.symm, heq.2.symm⟩) g₁
    (g.collection i).owner (g.collection i).join.referenced
  exact hlink.mono (fun _ _ h => h₁.trans h) fun _ _ h => h₁.trans h

/-- Adding an entity of another type than the target fails and changes nothing. -/
theorem push_of_checkTarget {e : Error}
    (h : checkTarget (g.entity (g.collection i).owner).schema (g.collection i).component
      (g.entity m).schema = .error e) : push i m g = .error e g := by
  unfold push
  simp only [bind, EStateM.bind, Act.get_apply, h, Act.ofExcept]

/-- Releasing members writes their foreign keys alone. -/
theorem ends_releaseMembers_spared
    (hne : ¬(x ∈ (g.collection i).members ∧ f = (g.collection i).join.foreignKey)) :
    (releaseMembers i).Ends g (fun _ => Spared x f g) (fun _ => Spared x f g) := by
  unfold releaseMembers
  simp only [Act.ends_bind, Act.ends_get]
  refine Act.ends_forM (fun m hm g₁ h₁ => ?_) (.refl x f g)
  refine h₁.trans (.cleared (fun heq => ?_) g₁)
  obtain ⟨rfl, rfl⟩ := heq
  exact hne ⟨hm, rfl⟩

/-- Removing a member writes its foreign key alone. -/
theorem ends_remove_member_spared (hne : ¬(x = m ∧ f = (g.collection i).join.foreignKey)) :
    (Graph.remove i m).Ends g (fun _ => Spared x f g) (fun _ => Spared x f g) := by
  unfold Graph.remove
  simp only [Act.ends_bind, Act.ends_get, Act.ends_ite, Act.ends_modify, Act.ends_pure]
  refine ⟨fun _ => ?_, fun _ => .refl x f g⟩
  have hcollection : Spared x f g (g.modifyCollection i fun y => { y with
    members := (g.collection i).members.erase m,
    index := g.keyIndex ((g.collection i).members.erase m) }) := ⟨rfl, rfl⟩
  refine ends_writeForeignKey (fun _ w _ _ => ?_) fun _ => hcollection
  exact hcollection.trans (.receive (fun heq => hne ⟨heq.1.symm, heq.2.symm⟩) _ w)

/-- What the operations on a collection write, where its members declare its foreign key: at most that
of the member, or of all members when these are released. -/
structure WritesMembers (c : Catalog) (g : Graph) (i : CollectionId) : Prop where
  members : ∀ m ∈ (g.collection i).members,
    ∃ a, (g.entity m).schema.atomic? (g.collection i).join.foreignKey = some a
  push : ∀ m, m.index < g.entities.length →
    Confined [m] (g.collection i).join.foreignKey g ((Operation.push i m).run c |>.final g)
  remove : ∀ m, Confined [m] (g.collection i).join.foreignKey g
    ((Operation.remove i m).run c |>.final g)
  release : Confined (g.collection i).members (g.collection i).join.foreignKey g
    ((Operation.releaseMembers i).run c |>.final g)

/-- Collections of a well-typed graph write what the target of their relation declares. -/
theorem WellTyped.writesMembers (h : WellTyped c g) (hi : i.index < g.collections.length)
    (hdeclared : ∀ t, c.schema (g.collection i).component.target = .ok t →
      ∃ a, t.atomic? (g.collection i).join.foreignKey = some a) : WritesMembers c g i := by
  have hmembers : ∀ m ∈ (g.collection i).members,
      ∃ a, (g.entity m).schema.atomic? (g.collection i).join.foreignKey = some a :=
    fun m hm => hdeclared _ (h.members i m hm).2
  refine ⟨hmembers, fun m hm => ?_, fun m => ?_, .of_spared hmembers fun x name hne =>
    Act.ends_final_iff.1 (ends_releaseMembers_spared hne)⟩
  · cases hcheck : checkTarget (g.entity (g.collection i).owner).schema (g.collection i).component
      (g.entity m).schema with
    | error e =>
      have hrun : (Operation.push i m).run c g = .error e g := by
        simp only [Operation.run, bind, EStateM.bind, Act.get_apply, hi, if_true,
          push_of_checkTarget hcheck]
      rw [Act.final, hrun]
      exact .refl _ _ g
    | ok =>
      obtain ⟨t, ht⟩ := h.collections i hi
      have htype := h.toWellFormed.schema_of_checkTarget hm ht hcheck
      refine .of_spared (by simpa using hdeclared _ htype) fun x name hne => ?_
      rw [← Act.ends_final_iff (R := Spared x name g)]
      simp only [Operation.run, Act.ends_bind, Act.ends_get, Act.ends_ite, Act.ends_pure]
      exact ⟨fun _ => ends_push_spared (by simpa using hne), fun hout => absurd hi hout⟩
  · by_cases hm : m ∈ (g.collection i).members
    · refine .of_spared (by simpa using hmembers m hm) fun x name hne => ?_
      rw [← Act.ends_final_iff (R := Spared x name g)]
      simp only [Operation.run, Act.ends_bind, Act.ends_pure]
      exact ends_remove_member_spared (by simpa using hne)
    · have hrun : (Operation.remove i m).run c g = .ok () g := by
        simp only [Operation.run, Graph.remove, bind, EStateM.bind, Act.get_apply,
          List.contains_eq_mem, hm, decide_false, Bool.false_eq_true, if_false]
        rfl
      rw [Act.final, hrun]
      exact .refl _ _ g

end Graph

namespace Registry

variable {r : Registry} {s : Schema} {comp : Component} {join : Join}

/-- The join that a registry answers is that of its catalog. -/
theorem Reached.join_eq (hr : r.Reached) (s : Schema) (comp : Component) :
    (r.join s comp).1 = r.catalog.join s comp := by
  unfold Registry.join Catalog.join
  rw [← hr.schema_eq comp.target]
  rfl

/-- **Where to-many relations have their foreign keys.** Unless it is crossed, a to-many relation that is
resolved has its foreign key on the other side, the target declares it, and the collections of its owners
write it alone, in entities that declare it. A crossed relation has its foreign key here. -/
theorem Reached.side_of_toMany {σ : Type} [Connection σ] (hr : r.Reached)
    (hjoin : (r.join s comp).1 = .ok join) (hmany : comp.isToMany = true) :
    (join.side = .there ↔ ¬r.catalog.Crossed comp) ∧
      (r.catalog.Crossed comp → ∃ a, s.atomic? join.foreignKey = some a) ∧
      (¬r.catalog.Crossed comp →
        (∃ t a, (r.schema comp.target).1 = .ok t ∧ t.atomic? join.foreignKey = some a) ∧
        ∀ (K : Graph → Graph → Prop) (cl : Client σ), cl.Reached r.catalog K → ∀ i,
          let g := cl.world.graph
          i.index < g.collections.length → (g.collection i).component = comp →
            (g.entity (g.collection i).owner).schema = s →
              (g.collection i).join = join ∧ g.WritesMembers r.catalog i) := by
  rw [hr.join_eq] at hjoin
  rcases Catalog.side_or_crossed hjoin hmany with ⟨hside, hplain⟩ | ⟨hside, hcrossed, hhere⟩
  · obtain ⟨t, a, ht, ha⟩ := Catalog.declared_of_there hjoin hside
    refine ⟨⟨fun _ => hplain, fun _ => hside⟩, fun hcrossed => absurd hcrossed hplain,
      fun _ => ⟨⟨t, a, hr.schema_eq _ ▸ ht, ha⟩, ?_⟩⟩
    intro K cl hcl i g hi hcomp howner
    have htyped := hcl.sound.typed
    obtain ⟨-, -, hown, -⟩ := htyped.collection i hi
    have hsame : (g.collection i).join = join := by
      rw [howner, hcomp] at hown
      exact Except.ok.inj (hown.symm.trans hjoin)
    refine ⟨hsame, htyped.writesMembers hi fun t' ht' => ?_⟩
    rw [hcomp, ht] at ht'
    exact Except.ok.inj ht' ▸ hsame ▸ ⟨a, ha⟩
  · refine ⟨⟨fun hthere => ?_, fun hplain => absurd hcrossed hplain⟩, fun _ => hhere,
      fun hplain => absurd hcrossed hplain⟩
    rw [hside] at hthere
    cases hthere

end Registry

namespace Shop

/-- A customer has got an order. -/
def ordering : Client Counter :=
  Client.afterAll catalog [.operate (.create "Customer"), .operate (.many ⟨0⟩ "orders"),
    .operate (.create "Order"), .operate (.push ⟨0⟩ ⟨1⟩)] ⟨world {}, []⟩

/-- The members of a club, seen from the other side. -/
def clubMembers : Component :=
  { name := "members", target := "Person", cardinality := .oneToMany, mappedBy := some "clubs" }

/-- The clubs of a person, which refer to the person. -/
def personClubs : Component :=
  { name := "clubs", target := "Club", cardinality := .oneToMany, joinColumn := some "person_fk" }

/-- Clubs have members, and people have clubs. -/
def clubs : Catalog where
  definitions := [
    { name := "Club",
      steps := [.atomic key, .atomic (reference "person_fk"), .component clubMembers] },
    { name := "Person", steps := [.atomic key, .component personClubs] }]

/-- A person, whom a club that has no key yet has taken and let go. -/
def leaving : Graph :=
  Graph.Operation.runAll clubs [.create "Club", .many ⟨0⟩ "members", .create "Person",
    .push ⟨0⟩ ⟨1⟩, .releaseMembers ⟨0⟩] {}

end Shop

namespace Registry

open Shop

/-- The orders of a customer are an inverse side, and have their foreign key on the orders. -/
theorem side_of_orders :
    let g := ordering.world.graph
    (g.collection ⟨0⟩).join.side = .there ∧ (g.collection ⟨0⟩).members = [⟨1⟩] ∧
      g.WritesMembers Shop.catalog ⟨0⟩ := by
  intro g
  have hjoin : (Registry.join { catalog := Shop.catalog } (g.entity ⟨0⟩).schema customerOrders).1 =
      .ok (g.collection ⟨0⟩).join := by rfl
  obtain ⟨hside, -, hwrites⟩ :=
    (Reached.of_catalog Shop.catalog).side_of_toMany (σ := Counter) hjoin (by decide)
  have hthere : (g.collection ⟨0⟩).join.side = .there := by decide
  have hreached : ordering.Reached Shop.catalog fun _ _ => True :=
    ⟨world {}, rfl, Client.leads_afterAll (k := fun _ _ => true) (fun _ _ _ => trivial)
      (by decide)⟩
  exact ⟨hthere, by decide, ((hwrites (hside.1 hthere)).2 _ _ hreached ⟨0⟩ (by decide)
    (by decide) rfl).2⟩

/-- A to-many relation that names a to-many relation is accepted and resolved, with the foreign key
here. Its collection writes an atomic of the owner's type to a member, which does not declare it. -/
theorem accepts_crossed :
    (leaving.collection ⟨0⟩).component.isToMany = true ∧
      (Registry.join { catalog := clubs } (leaving.entity ⟨0⟩).schema
        (leaving.collection ⟨0⟩).component).1 = .ok ⟨.here, "person_fk", "id"⟩ ∧
      leaving.Built clubs ∧ (leaving.collection ⟨0⟩).members = [⟨1⟩] ∧
      (leaving.entity ⟨1⟩).atomics.map (·.1) = ["person_fk"] ∧
      (leaving.entity ⟨1⟩).schema.atomic? "person_fk" = none :=
  ⟨by decide, by rfl, .runAll _ .empty, by decide, by decide,
    by decide⟩

end Registry

end EntityGraph
