import GenericTypes.Proofs.OwnerChains
import GenericTypes.Proofs.TopSupertype

/-!
# What arguments lead up to, before and after capture

A wildcard without bounds of its own contains an argument just when the top type
is a supertype of that, and that is so when some way up from the argument meets
a reference type (`MeetsReference`). For an argument that is a wildcard itself
the comparison asks this of the capture that was opened for it.

A capture may lead to less than its wildcard did, for the declared bounds of its
variable may take the place of the wildcard's own. They mention other arguments
of the level, fresh captures among them. But if all arguments along the chain
meet a reference type, the captures do: bounds of variables by each other go in
no circle, so they are taken in the order of those (`meets_levelSubst`), and
then level by level along the chain (`meets_captured`).
-/

namespace GenericTypes

open Relation Substitution

namespace Ty

/-- The arguments that a type is applied to. -/
def arguments : Ty → List Ty
  | .parameterized _ args _ => args
  | .nominal _ | .var _ | .wildcard _ _ | .genericArray _ | .capture _ => []

/-- The owner that a type carries. -/
def owner? : Ty → Option Ty
  | .parameterized _ _ owner => owner
  | .nominal _ | .var _ | .wildcard _ _ | .genericArray _ | .capture _ => none

theorem owner?_mem_parts {t o : Ty} (ho : t.owner? = some o) : o ∈ t.parts := by
  cases t with
  | parameterized _ _ _ =>
      obtain rfl : _ = some o := ho
      exact owner_mem_parts
  | nominal _ | var _ | wildcard _ _ | genericArray _ | capture _ => cases ho

theorem isReference_of_head? {t : Ty} {id : ClassId} (ht : t.head? = some id) :
    t.isReference = true := by
  rcases head?_eq_some_iff.1 ht with rfl | ⟨_, _, rfl⟩ <;> rfl

end Ty

namespace Declarations

/-- Variables are bounded by variables and types of classes only. -/
def ClassBounds (d : Declarations) : Prop :=
  ∀ v, ∀ b ∈ d.boundsOf v, b.isVar = true ∨ b.head?.isSome

theorem ClassBounds.isPrimitive {d : Declarations} (h : d.ClassBounds)
    (v : TypeVarId) : ∀ b ∈ d.boundsOf v, b.isPrimitive = false := by
  intro b hb
  rcases h v b hb with hvar | hhead
  · obtain ⟨w, rfl⟩ := Ty.exists_of_isVar hvar
    rfl
  · obtain ⟨id, hid⟩ := Option.isSome_iff_exists.1 hhead
    rcases Ty.head?_eq_some_iff.1 hid with rfl | ⟨_, _, rfl⟩ <;> rfl

end Declarations

namespace Resolver

open Declarations

variable {r : Resolver} {arena later : Array CaptureDef}
  {t s : Ty} {id : ClassId}

/-! ## Ways up to a reference type -/

theorem meets_of_reference (ht : t.isReference = true) :
    r.MeetsReference arena t :=
  ⟨t, .refl, ht⟩

theorem MeetsReference.head (hs : r.Directly arena t s)
    (h : r.MeetsReference arena s) : r.MeetsReference arena t := by
  obtain ⟨s', hup, href⟩ := h
  exact ⟨s', .head hs hup, href⟩

theorem MeetsReference.grows (hgrows : Grows arena later)
    (h : r.MeetsReference arena t) : r.MeetsReference later t := by
  obtain ⟨s, hup, href⟩ := h
  refine ⟨s, ReflTransGen.mono (fun _ _ => ?_) _ _ hup, href⟩
  rintro ⟨ts, habove, hs⟩
  exact ⟨ts, above_grows hgrows habove, hs⟩

/-- A wildcard has its upper bounds only to show. -/
theorem meets_wildcard_iff {upper lower : List Ty} :
    r.MeetsReference arena (.wildcard upper lower) ↔
      ∃ u ∈ upper, r.MeetsReference arena u := by
  constructor
  · rintro ⟨s, hup, href⟩
    rcases ReflTransGen.cases_head hup with rfl | ⟨u, ⟨ts, habove, hu⟩, hup⟩
    · cases href
    · obtain rfl := Outcome.ok.inj habove
      exact ⟨u, hu, s, hup, href⟩
  · rintro ⟨u, hu, hmeets⟩
    exact hmeets.head ⟨upper, rfl, hu⟩

/-! ## Arguments along a chain -/

/-- The arguments of a type meet a reference type. -/
def ArgsMeet (r : Resolver) (arena : Array CaptureDef) (t : Ty) : Prop :=
  ∀ a ∈ t.arguments, r.MeetsReference arena a

theorem ArgsMeet.grows (hgrows : Grows arena later) (h : r.ArgsMeet arena t) :
    r.ArgsMeet later t := fun a ha => (h a ha).grows hgrows

theorem meets_chainValue {v : TypeVarId} {s : Ty} : ∀ {t : Ty},
    t.Chained (r.ArgsMeet arena) → r.env.chainValue t v = some s →
      r.MeetsReference arena s
  | .parameterized id args (some owner), ht, hs => by
      rw [chainValue, Option.or_eq_some_iff] at hs
      rcases hs with hs | ⟨-, hs⟩
      · exact meets_chainValue (ht.owner rfl) hs
      · exact ht.link s (mem_of_lastValue hs).2
  | .parameterized id args none, ht, hs => ht.link s (mem_of_lastValue hs).2

/-- What holds of the declared bounds, of some bound of the wildcard and of the
top type holds of some bound that they are merged to. -/
theorem exists_mem_mergeBounds {P : Ty → Prop} {declared wildcard : List Ty}
    (hdeclared : ∀ b ∈ declared, P b) (hwildcard : ∃ u ∈ wildcard, P u)
    (htop : P r.env.top) : ∃ u ∈ r.mergeBounds declared wildcard, P u := by
  obtain ⟨u, hu, hP⟩ := hwildcard
  rw [mergeBounds]
  split
  · cases declared with
    | nil => exact ⟨r.env.top, List.mem_cons_self, htop⟩
    | cons b bs => exact ⟨b, List.mem_cons_self, hdeclared b List.mem_cons_self⟩
  · split
    · exact ⟨u, hu, hP⟩
    · exact ⟨u, List.mem_append_right _ hu, hP⟩

section

variable (h : r.env.WellFormed) (hbounds : r.env.ClassBounds) {args : List Ty}
  {owner : Option Ty} (hargs : ∀ a ∈ args, r.MeetsReference arena a)
  (howner : ∀ o, owner = some o → o.Chained (r.ArgsMeet arena))
  (hadded : later.toList =
    arena.toList ++ (wildcardsFor (r.env.paramsOf id) args).map
      (r.settled (r.env.levelSubst id (numberWildcards arena.size args) owner)))

include hbounds hargs hadded

/-- A fresh capture meets a reference type if the variables that bound its own
are given what does. -/
theorem meets_fresh {j : Nat} {v : TypeVarId} {w : Wildcard}
    (hj : (wildcardsFor (r.env.paramsOf id) args)[j]? = some (v, w))
    (hbelow : ∀ x, r.env.BoundedBy v x → r.MeetsReference later
      (r.env.levelSubst id (numberWildcards arena.size args) owner x)) :
    r.MeetsReference later (.capture ⟨arena.size + j⟩) := by
  have hgrows : Grows arena later := grows_of_append hadded
  have hentry := getElem?_added hadded j
  rw [List.getElem?_map, hj] at hentry
  have hwildcard : ∃ u ∈ w.upper, r.MeetsReference later u := by
    have hmeets := hargs _ (mem_wildcardsFor (List.mem_of_getElem? hj)).2
    obtain ⟨u, hu, hmeets⟩ := meets_wildcard_iff.1 hmeets
    exact ⟨u, hu, hmeets.grows hgrows⟩
  have hdeclared : ∀ u ∈ (r.env.boundsOf v).map
      (·.subst (r.env.levelSubst id (numberWildcards arena.size args) owner)),
      r.MeetsReference later u := by
    intro u hu
    obtain ⟨b, hb, rfl⟩ := List.mem_map.1 hu
    rcases hbounds v b hb with hvar | hhead
    · obtain ⟨x, rfl⟩ := Ty.exists_of_isVar hvar
      exact hbelow x ⟨_, hb, rfl⟩
    · obtain ⟨parent, hparent⟩ := Option.isSome_iff_exists.1 hhead
      exact meets_of_reference
        (Ty.isReference_of_head? (Ty.head?_subst hparent _))
  obtain ⟨u, hu, hmeets⟩ :=
    exists_mem_mergeBounds (r := r) hdeclared hwildcard (meets_of_reference rfl)
  exact hmeets.head ⟨_, by rw [above, hentry]; rfl, hu⟩

include h howner

/-- So does what a level gives any variable. -/
theorem meets_levelSubst (v : TypeVarId) : r.MeetsReference later
    (r.env.levelSubst id (numberWildcards arena.size args) owner v) := by
  have hgrows : Grows arena later := grows_of_append hadded
  induction v using (wellFounded_boundedBy h.bounding).induction with
  | h v ih =>
      rcases levelSubst_origin r.env.toDeclarations arena.size id
          args owner v with
        ⟨hmem, -⟩ | ⟨j, w, heq, hj⟩ | ⟨o, ho, hchain⟩ | heq
      · exact (hargs _ hmem).grows hgrows
      · rw [heq]
        exact meets_fresh hbounds hargs hadded hj ih
      · exact (meets_chainValue (howner o ho) hchain).grows hgrows
      · rw [heq]
        exact meets_of_reference rfl

/-- The arguments of a level meet a reference type once they are captured. -/
theorem meets_level (hcounts : r.env.Counts id args) :
    ∀ a ∈ numberWildcards arena.size args, r.MeetsReference later a := by
  intro a ha
  obtain ⟨c, hc, hlen⟩ := hcounts
  have hparams : (r.env.paramsOf id).length = args.length := by
    rw [paramsOf_eq hc, hlen]
  rcases origin_of_mem_numberWildcards hparams ha with ha | ⟨j, hj, rfl⟩
  · exact (hargs a ha).grows (grows_of_append hadded)
  · exact meets_fresh hbounds hargs hadded (List.getElem?_eq_getElem hj)
      fun x _ => meets_levelSubst h hbounds hargs howner hadded x

end

/-- Capturing keeps that the arguments meet a reference type, at every level of
a chain. -/
theorem meets_captured (h : r.env.WellFormed) (hbounds : r.env.ClassBounds) :
    ∀ {t : Ty} {arena later : Array CaptureDef}, r.env.Counted t →
      t.Chained (r.ArgsMeet arena) →
      later.toList = arena.toList ++ (r.captured arena.size t).2 →
      (r.captured arena.size t).1.Chained (r.ArgsMeet later)
  | .parameterized id args (some owner), arena, later, ⟨hcounts, hcounted⟩,
    ht, hlater => by
      -- the arena between: the owner is captured, the arguments are not
      let between : Array CaptureDef :=
        ⟨arena.toList ++ (r.captured arena.size owner).2⟩
      have hbetween : between.toList = arena.toList ++
          (r.captured arena.size owner).2 := rfl
      have howner : (r.captured arena.size owner).1.Chained
          (r.ArgsMeet between) :=
        meets_captured h hbounds hcounted (ht.owner rfl) hbetween
      have hgrows : Grows arena between := grows_of_append hbetween
      obtain ⟨hadded, heq⟩ := captured_member hbetween hlater
      rw [heq]
      refine Ty.chained_owned.2
        ⟨?_, howner.mono fun x hx => hx.grows (grows_of_append hadded)⟩
      refine meets_level h hbounds
        (fun a ha => (ht.link a ha).grows hgrows) ?_ hadded hcounts
      rintro o ⟨⟩
      exact howner
  | .parameterized id args none, arena, later, hcounts, ht, hlater => by
      have howner : ∀ o : Ty, none = some o → o.Chained (r.ArgsMeet arena) := by
        rintro o ⟨⟩
      exact Ty.chained_of_single rfl
        (meets_level h hbounds (fun a ha => ht.link a ha) howner hlater hcounts)
  | .nominal _, _, _, _, _, _ | .var _, _, _, _, _, _
  | .wildcard _ _, _, _, _, _, _ | .capture _, _, _, _, _, _ =>
      Ty.chained_of_single rfl fun _ ha => absurd ha List.not_mem_nil
  | .genericArray t, arena, later, _, ht, hlater => by
      have hgrows : Grows arena later := grows_of_append hlater
      exact ht.mono fun x hx => hx.grows hgrows

end Resolver

end GenericTypes
