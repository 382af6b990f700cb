import GenericTypes.Erasure
import GenericTypes.Ancestry
import Mathlib.Logic.Relation
import Mathlib.Data.Finset.Card
import Mathlib.Data.Fintype.Basic
import Mathlib.Data.List.TakeWhile

/-!
# Hierarchies, enclosing classes and bounds

Three relations tie declarations to each other: a class is declared under
others, a member class has an enclosing class, and a variable may be bounded by
another variable. Each recursion of the model goes along one of them, on fuel,
and each comes to its end for the same reason: a relation without circles whose
sources are finitely many has a rank, no larger than the number of sources, that
falls with every step (`exists_rank`).

The breadth-first walk needs no such thing, since it never expands a class
twice. Its fuel is the number of classes, and a walk that has spent it has
visited every class there is; so the walk is closed under declared supertypes
either way, and `reaches` is reachability (`reaches_iff`).
-/

namespace GenericTypes

open Relation

/-- A relation without circles, on finitely many sources, has a rank that falls
along it and is no larger than the number of sources. -/
theorem exists_rank {α : Type} [DecidableEq α] {R : α → α → Prop}
    (sources : Finset α) (hsource : ∀ a b, R a b → a ∈ sources)
    (hacyclic : ∀ a, ¬ TransGen R a a) :
    ∃ rank : α → Nat, (∀ a, rank a ≤ sources.card) ∧ ∀ a b, R a b →
      rank b < rank a := by
  classical
  -- the rank of `a` counts the sources that `a` leads to
  refine ⟨fun a => (sources.filter (ReflTransGen R a)).card,
    fun a => Finset.card_filter_le _ _,
    fun a b hab => Finset.card_lt_card ?_⟩
  rw [Finset.ssubset_iff_of_subset]
  · refine ⟨a, Finset.mem_filter.2 ⟨hsource a b hab, .refl⟩, fun ha => ?_⟩
    exact hacyclic a (TransGen.head' hab (Finset.mem_filter.1 ha).2)
  · intro c hc
    obtain ⟨hc, hbc⟩ := Finset.mem_filter.1 hc
    exact Finset.mem_filter.2 ⟨hc, .head hab hbc⟩

/-- A relation along which a number falls has no circles. -/
theorem acyclic_of_rank {α : Type} {R : α → α → Prop} (rank : α → Nat)
    (hrank : ∀ a b, R a b → rank b < rank a) (a : α) : ¬ TransGen R a a := by
  have hfall : ∀ b, TransGen R a b → rank b < rank a := by
    intro b hab
    induction hab with
    | single hab => exact hrank _ _ hab
    | tail _ hbc ih => exact (hrank _ _ hbc).trans ih
  exact fun ha => Nat.lt_irrefl _ (hfall a ha)

/-- And nothing goes on for ever along it. -/
theorem wellFounded_of_rank {α : Type} {R : α → α → Prop} {rank : α → Nat}
    (hrank : ∀ a b, R a b → rank b < rank a) : WellFounded fun b a => R a b :=
  Subrelation.wf (hrank _ _) (measure rank).wf

/-- Steps to a top that nothing leads on from make no circles. -/
theorem acyclic_of_top {α : Type} {R S : α → α → Prop} {top : α}
    (hstep : ∀ a b, R a b → b = top ∨ S a b) (htop : ∀ b, ¬ R top b)
    (hacyclic : ∀ a, ¬ TransGen S a a) (a : α) : ¬ TransGen R a a := by
  have hleads : ∀ b, TransGen R a b → b = top ∨ TransGen S a b := by
    intro b hab
    induction hab with
    | single hab => exact (hstep _ _ hab).imp_right .single
    | tail _ hbc ih =>
        rcases ih with rfl | hab
        · exact absurd hbc (htop _)
        · exact (hstep _ _ hbc).imp_right hab.tail
  intro ha
  rcases hleads a ha with rfl | ha'
  · obtain ⟨b, hb, -⟩ := TransGen.head'_iff.1 ha
    exact htop b hb
  · exact hacyclic a ha'

/-- The type itself, or what it is an array of once all generic array brackets
are taken off. -/
def Ty.element : Ty → Ty
  | .genericArray t => t.element
  | t => t

/-- Whether erasure gets anywhere: a wildcard and a capture have no erasure, and
neither have arrays of them. -/
def Ty.isErasable (t : Ty) : Bool :=
  match t.element with
  | .wildcard _ _ | .capture _ => false
  | .nominal _ | .parameterized _ _ _ | .var _ | .genericArray _ => true

namespace Declarations

variable {d : Declarations}

/-! ## The relations -/

/-- Class `id` is declared under class `parent`. -/
def Extends (d : Declarations) (id parent : ClassId) : Prop :=
  parent ∈ d.superclasses id

/-- Class `outer` encloses class `id`. -/
def EnclosedBy (d : Declarations) (id outer : ClassId) : Prop :=
  ∃ c, d.class? id = some c ∧ c.enclosing = some outer

/-- The declared bounds of a variable; none if it is undeclared. -/
def boundsOf (d : Declarations) (v : TypeVarId) : List Ty :=
  match d.typeParam? v with
  | some p => p.upperBounds
  | none => []

/-- A bound of the variable `v` is the variable `w`, or an array of it. So a
circle may also go through arrays, as in `T extends T[]`. -/
def BoundedBy (d : Declarations) (v w : TypeVarId) : Prop :=
  ∃ b ∈ d.boundsOf v, b.element = .var w

/-- The numbers of the defined classes, and perhaps others. -/
def classIds (d : Declarations) : Finset ClassId :=
  (Finset.range d.classes.size).image ClassId.mk

/-- The numbers of the declared variables. -/
def typeVarIds (d : Declarations) : Finset TypeVarId :=
  (Finset.range d.typeParams.size).image TypeVarId.mk

theorem card_classIds_le (d : Declarations) :
    d.classIds.card ≤ d.classes.size :=
  le_trans Finset.card_image_le (le_of_eq (Finset.card_range _))

theorem card_typeVarIds_le (d : Declarations) :
    d.typeVarIds.card ≤ d.typeParams.size :=
  le_trans Finset.card_image_le (le_of_eq (Finset.card_range _))

theorem index_lt_of_class? {id : ClassId} {c : ClassDecl}
    (h : d.class? id = some c) : id.index < d.classes.size := by
  rw [class?, Option.join_eq_some_iff] at h
  exact (Array.getElem?_eq_some_iff.1 h).1

theorem mem_classIds {id : ClassId} {c : ClassDecl} (h : d.class? id = some c) :
    id ∈ d.classIds :=
  Finset.mem_image.2 ⟨id.index, Finset.mem_range.2 (index_lt_of_class? h), rfl⟩

theorem mem_typeVarIds {v : TypeVarId} {p : TypeParamDecl}
    (h : d.typeParam? v = some p) : v ∈ d.typeVarIds :=
  Finset.mem_image.2
    ⟨v.index, Finset.mem_range.2 (Array.getElem?_eq_some_iff.1 h).1, rfl⟩

theorem boundsOf_eq {v : TypeVarId} {p : TypeParamDecl}
    (hp : d.typeParam? v = some p) : d.boundsOf v = p.upperBounds := by
  rw [boundsOf, hp]

theorem mem_boundsOf_iff {v : TypeVarId} {b : Ty} :
    b ∈ d.boundsOf v ↔ ∃ p, d.typeParam? v = some p ∧ b ∈ p.upperBounds := by
  rw [boundsOf]
  cases d.typeParam? v with
  | none => simp
  | some p => simp

theorem isDefined_iff {id : ClassId} :
    d.isDefined id = true ↔ ∃ c, d.class? id = some c :=
  Option.isSome_iff_exists

theorem Extends.source {id parent : ClassId} (h : d.Extends id parent) :
    ∃ c, d.class? id = some c := by
  rw [Extends, superclasses] at h
  cases hc : d.class? id with
  | none => simp [hc] at h
  | some c => exact ⟨c, rfl⟩

theorem getClass_eq {id : ClassId} {c : ClassDecl} (h : d.class? id = some c) :
    d.getClass id = .ok c := by
  rw [getClass, h]

theorem lift_getClass {id : ClassId} {c : ClassDecl}
    (h : d.class? id = some c) :
    (liftM (d.getClass id) : Outcome ClassDecl) = .ok c := by
  rw [getClass_eq h]
  rfl

theorem getTypeParam_eq {v : TypeVarId} {p : TypeParamDecl}
    (h : d.typeParam? v = some p) : d.getTypeParam v = .ok p := by
  rw [getTypeParam, h]

theorem class?_of_getClass {id : ClassId} {c : ClassDecl}
    (h : Outcome.ofExcept (d.getClass id) = .ok c) : d.class? id = some c := by
  rw [getClass] at h
  cases hc : d.class? id with
  | some c' => rw [hc] at h; exact congrArg some (Outcome.ok.inj h)
  | none => rw [hc] at h; cases h

theorem typeParam?_of_getTypeParam {v : TypeVarId} {p : TypeParamDecl}
    (h : Outcome.ofExcept (d.getTypeParam v) = .ok p) :
    d.typeParam? v = some p := by
  rw [getTypeParam] at h
  cases hp : d.typeParam? v with
  | some p' => rw [hp] at h; exact congrArg some (Outcome.ok.inj h)
  | none => rw [hp] at h; cases h

/-- The declared hierarchy, where it has no circles, has a rank. -/
theorem exists_rank_extends (h : ∀ id, ¬ TransGen d.Extends id id) :
    ∃ rank : ClassId → Nat, (∀ id, rank id ≤ d.classes.size) ∧
      ∀ id parent, d.Extends id parent → rank parent < rank id := by
  obtain ⟨rank, hle, hrank⟩ := exists_rank d.classIds
    (fun _ _ hab => (Extends.source hab).elim fun _ hc => mem_classIds hc) h
  exact ⟨rank, fun id => (hle id).trans d.card_classIds_le, hrank⟩

theorem exists_rank_enclosedBy (h : ∀ id, ¬ TransGen d.EnclosedBy id id) :
    ∃ rank : ClassId → Nat, (∀ id, rank id ≤ d.classes.size) ∧
      ∀ id outer, d.EnclosedBy id outer → rank outer < rank id := by
  obtain ⟨rank, hle, hrank⟩ := exists_rank d.classIds
    (fun _ _ hab => by obtain ⟨c, hc, -⟩ := hab; exact mem_classIds hc) h
  exact ⟨rank, fun id => (hle id).trans d.card_classIds_le, hrank⟩

theorem exists_rank_boundedBy (h : ∀ v, ¬ TransGen d.BoundedBy v v) :
    ∃ rank : TypeVarId → Nat, (∀ v, rank v ≤ d.typeParams.size) ∧
      ∀ v w, d.BoundedBy v w → rank w < rank v := by
  obtain ⟨rank, hle, hrank⟩ := exists_rank d.typeVarIds
    (fun _ _ ⟨_, hb, _⟩ => (mem_boundsOf_iff.1 hb).elim fun _ hp =>
      mem_typeVarIds hp.1) h
  exact ⟨rank, fun v => (hle v).trans d.card_typeVarIds_le, hrank⟩

theorem wellFounded_boundedBy (h : ∀ v, ¬ TransGen d.BoundedBy v v) :
    WellFounded fun w v => d.BoundedBy v w := by
  obtain ⟨rank, -, hrank⟩ := exists_rank_boundedBy h
  exact wellFounded_of_rank hrank

/-! ## The breadth-first walk -/

theorem mem_visit {c : ClassId} : ∀ {fuel visited waiting}, c ∈ visited →
    c ∈ d.visit fuel visited waiting
  | 0, _, _, h => h
  | fuel + 1, visited, waiting, h => by
      rw [visit]
      split
      · exact h
      · exact mem_visit (List.mem_append_left _ h)

/-- What a walk passes over is visited already or not defined. -/
theorem of_mem_dropped {visited waiting rest : List ClassId} {w : ClassId}
    (hdrop : waiting.dropWhile (fun c => visited.contains c ||
      !d.isDefined c) = rest)
    (hw : w ∈ waiting) (hdef : d.isDefined w) : w ∈ visited ∨ w ∈ rest := by
  rw [← List.takeWhile_append_dropWhile
    (p := fun c => visited.contains c || !d.isDefined c) (l := waiting),
    hdrop] at hw
  rcases List.mem_append.1 hw with hw | hw
  · have hskip := List.mem_takeWhile_imp hw
    rw [hdef, Bool.not_true, Bool.or_false, List.contains_iff_mem] at hskip
    exact .inl hskip
  · exact .inr hw

/-- The first class that a walk does not pass over is defined and new. -/
theorem of_dropWhile_eq_cons {visited waiting rest : List ClassId} {c : ClassId}
    (hdrop : waiting.dropWhile (fun c => visited.contains c ||
      !d.isDefined c) = c :: rest) :
    d.isDefined c ∧ c ∉ visited ∧ c ∈ waiting := by
  have hne : waiting.dropWhile (fun c => visited.contains c ||
      !d.isDefined c) ≠ [] := by
    rw [hdrop]
    exact List.cons_ne_nil _ _
  have hhead :=
    List.head_dropWhile_not (fun c => visited.contains c || !d.isDefined c) hne
  simp only [hdrop, List.head_cons, Bool.or_eq_false_iff,
    Bool.not_eq_false'] at hhead
  refine ⟨hhead.2, fun hc => ?_, ?_⟩
  · rw [List.contains_iff_mem.2 hc] at hhead
    exact Bool.noConfusion hhead.1
  · exact (List.dropWhile_sublist _).mem (hdrop ▸ List.mem_cons_self)

/-- A walk meets only what it started from and what those classes lead to. -/
theorem visit_sound {c : ClassId} :
    ∀ {fuel visited waiting}, c ∈ d.visit fuel visited waiting →
    c ∈ visited ∨ d.isDefined c ∧ ∃ w ∈ waiting, ReflTransGen d.Extends w c
  | 0, _, _, h => .inl h
  | fuel + 1, visited, waiting, h => by
      rw [visit] at h
      split at h
      · exact .inl h
      · next e rest hdrop =>
          obtain ⟨hdef, -, he⟩ := of_dropWhile_eq_cons hdrop
          have hrest : ∀ w ∈ rest, w ∈ waiting := fun w hw =>
            (List.dropWhile_sublist _).mem (hdrop ▸ List.mem_cons_of_mem _ hw)
          rcases visit_sound h with hc | ⟨hc, w, hw, hwc⟩
          · rcases List.mem_append.1 hc with hc | hc
            · exact .inl hc
            · obtain rfl := List.mem_singleton.1 hc
              exact .inr ⟨hdef, c, he, .refl⟩
          · rcases List.mem_append.1 hw with hw | hw
            · exact .inr ⟨hc, w, hrest w hw, hwc⟩
            · exact .inr ⟨hc, e, he, .head hw hwc⟩

/-- A record of visited classes: they are defined, and none is in it twice. -/
structure IsRecord (d : Declarations) (visited : List ClassId) : Prop where
  nodup : visited.Nodup
  defined : ∀ c ∈ visited, d.isDefined c

namespace IsRecord

variable {visited : List ClassId} {c : ClassId}

theorem nil : d.IsRecord [] :=
  ⟨List.nodup_nil, fun _ h => absurd h List.not_mem_nil⟩

theorem snoc (h : d.IsRecord visited) (hdef : d.isDefined c)
    (hnew : c ∉ visited) : d.IsRecord (visited ++ [c]) where
  nodup :=
    h.nodup.append (List.nodup_singleton c) (List.disjoint_singleton.2 hnew)
  defined b hb := by
    rcases List.mem_append.1 hb with hb | hb
    · exact h.defined b hb
    · exact List.mem_singleton.1 hb ▸ hdef

/-- A record as long as there are classes has every class in it. -/
theorem mem_of_full (h : d.IsRecord visited)
    (hfull : d.classes.size ≤ visited.length) (hdef : d.isDefined c) :
    c ∈ visited := by
  have hsub : visited.toFinset ⊆ d.classIds := fun b hb => by
    obtain ⟨decl, hdecl⟩ :=
      isDefined_iff.1 (h.defined b (List.mem_toFinset.1 hb))
    exact mem_classIds hdecl
  have hcard : d.classIds.card ≤ visited.toFinset.card := by
    rw [List.toFinset_card_of_nodup h.nodup]
    exact d.card_classIds_le.trans hfull
  obtain ⟨decl, hdecl⟩ := isDefined_iff.1 hdef
  rw [← List.mem_toFinset, Finset.eq_of_subset_of_card_le hsub hcard]
  exact mem_classIds hdecl

end IsRecord

/-- The fuel covers the classes still to be visited, so the walk visits all that
waits and is closed under declared supertypes. -/
theorem visit_closed : ∀ fuel visited waiting, d.IsRecord visited →
    d.classes.size ≤ fuel + visited.length →
    (∀ c ∈ visited, ∀ s, d.Extends c s → d.isDefined s → s ∈ visited ∨
      s ∈ waiting) →
    (∀ w ∈ waiting, d.isDefined w → w ∈ d.visit fuel visited waiting) ∧
      ∀ c ∈ d.visit fuel visited waiting, ∀ s, d.Extends c s → d.isDefined s →
        s ∈ d.visit fuel visited waiting
  | 0, visited, waiting, hrecord, hfuel, _ =>
      -- no fuel is left only where every class is visited
      ⟨fun _ _ hw => hrecord.mem_of_full (by omega) hw,
        fun _ _ _ _ hs => hrecord.mem_of_full (by omega) hs⟩
  | fuel + 1, visited, waiting, hrecord, hfuel, hclosed => by
      rw [visit]
      split
      · next hdrop =>
          refine ⟨fun w hw hwdef => ?_, fun c hc s hcs hsdef => ?_⟩
          · exact (of_mem_dropped hdrop hw hwdef).resolve_right
              (List.not_mem_nil)
          · rcases hclosed c hc s hcs hsdef with hs | hs
            · exact hs
            · exact (of_mem_dropped hdrop hs hsdef).resolve_right
                (List.not_mem_nil)
      · next e rest hdrop =>
          obtain ⟨hedef, hnew, -⟩ := of_dropWhile_eq_cons hdrop
          have ih :=
            visit_closed fuel (visited ++ [e]) (rest ++ d.superclasses e)
              (hrecord.snoc hedef hnew)
              (by rw [List.length_append, List.length_singleton]; omega)
              (fun c hc s hcs hsdef => by
                rcases List.mem_append.1 hc with hc | hc
                · rcases hclosed c hc s hcs hsdef with hs | hs
                  · exact .inl (List.mem_append_left _ hs)
                  · rcases of_mem_dropped hdrop hs hsdef with hs | hs
                    · exact .inl (List.mem_append_left _ hs)
                    · rcases List.mem_cons.1 hs with rfl | hs
                      · exact .inl (List.mem_append_right _
                          (List.mem_singleton_self _))
                      · exact .inr (List.mem_append_left _ hs)
                · obtain rfl := List.mem_singleton.1 hc
                  exact .inr (List.mem_append_right _ hcs))
          refine ⟨fun w hw hwdef => ?_, ih.2⟩
          rcases of_mem_dropped hdrop hw hwdef with hw | hw
          · exact mem_visit (List.mem_append_left _ hw)
          · rcases List.mem_cons.1 hw with rfl | hw
            · exact mem_visit (List.mem_append_right _
                (List.mem_singleton_self _))
            · exact ih.1 w (List.mem_append_left _ hw) hwdef

/-- The walk from a class meets the defined classes that the class leads to, and
no others. -/
theorem mem_ancestors_iff {id c : ClassId} :
    c ∈ d.ancestors id ↔ d.isDefined c ∧ ReflTransGen d.Extends id c := by
  constructor
  · intro h
    rcases visit_sound h with h | ⟨hc, w, hw, h⟩
    · exact absurd h List.not_mem_nil
    · exact ⟨hc, List.mem_singleton.1 hw ▸ h⟩
  · rintro ⟨hc, h⟩
    obtain ⟨hstart, hclosed⟩ :=
      visit_closed (d := d) d.classes.size [] [id] .nil
        (Nat.le_add_right _ _) (fun _ h => absurd h List.not_mem_nil)
    induction h with
    | refl => exact hstart id (List.mem_singleton_self id) hc
    | tail _ hbc ih =>
        exact hclosed _ (ih (isDefined_iff.2 hbc.source)) _ hbc hc

/-- Reaching is reachability along declared supertypes. -/
theorem reaches_iff {source target : ClassId} :
    d.reaches source target = true ↔ ReflTransGen d.Extends source target := by
  rw [reaches, Bool.or_eq_true, decide_eq_true_eq, List.any_eq_true]
  constructor
  · rintro (rfl | ⟨c, hc, hct⟩)
    · exact .refl
    · exact .tail (mem_ancestors_iff.1 hc).2 (List.contains_iff_mem.1 hct)
  · intro h
    rcases ReflTransGen.cases_tail h with heq | ⟨c, hsc, hct⟩
    · exact .inl heq.symm
    · exact .inr ⟨c, mem_ancestors_iff.2 ⟨isDefined_iff.2 hct.source, hsc⟩,
        List.contains_iff_mem.2 hct⟩

end Declarations

end GenericTypes
