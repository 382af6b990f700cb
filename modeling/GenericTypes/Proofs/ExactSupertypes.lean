import GenericTypes.Proofs.Checking
import GenericTypes.Proofs.Completeness
import GenericTypes.Proofs.Members
import GenericTypes.Proofs.Pruning

/-!
# An exact supertype for each class that erasure allows

Assignability is decided on class numbers, breadth first and each class once; an
exact supertype is searched among types, depth first and with their arguments
put in. The two agree on types of classes, primitive types and arrays of them.
What the erasure of a type excludes is not even searched for, and what it allows
is found (`find_of_complete`), provided that every climb ends at the top class.

That every climb does so need not be assumed as such: it is enough that no class
is above itself, where a lone interface counts as below the top class, and that
no ordinary class but the top class stands alone (`Ascending.covered`).
-/

namespace GenericTypes

open Relation

namespace Declarations

variable {d : Declarations} {id parent : ClassId}

/-- The class `parent` is directly above the class `id`: it is declared so, or
it is the top class and `id` an interface declared under nothing. -/
inductive Under (d : Declarations) (id : ClassId) : ClassId → Prop where
  | declared {parent : ClassId} (h : d.Extends id parent) : Under d id parent
  | implicit {c : ClassDecl} (hc : d.class? id = some c)
      (hkind : c.kind = .interface) (hnone : c.supertypes = []) :
      Under d id d.wellKnown.object

theorem Under.source (h : d.Under id parent) : ∃ c, d.class? id = some c := by
  cases h with
  | declared h => exact h.source
  | implicit hc _ _ => exact ⟨_, hc⟩

theorem Under.top_or_extends (h : d.Under id parent) :
    parent = d.wellKnown.object ∨ d.Extends id parent := by
  cases h with
  | declared h => exact .inr h
  | implicit _ _ _ => exact .inl rfl

/-- A declared supertype puts its class above. -/
theorem WellFormed.extends_of_mem (h : d.WellFormed) {c : ClassDecl} {s : Ty}
    (hc : d.class? id = some c) (hs : s ∈ c.supertypes) :
    ∃ parent, d.Extends id parent ∧ d.isDefined parent := by
  obtain ⟨hhead, hproper⟩ := h.supertypes hc s hs
  obtain ⟨parent, hparent⟩ := Option.isSome_iff_exists.1 hhead
  refine ⟨parent, ?_, (hproper.complete.supplies hparent).isDefined⟩
  rw [Extends, superclasses, hc]
  exact List.mem_filterMap.2 ⟨s, hs, hparent⟩

end Declarations

namespace Resolver

open Resolve Declarations

variable {r : Resolver} {ctx : Context} {t s : Ty} {id : ClassId} {n : Nat}

/-- Declarations in which no class is above itself and every class leads up: an
ordinary one but the top class has a supertype, and an interface without is put
below the top class. That this edge is implicit makes no difference. It counts
for circles as a declared one does, so nothing stands above the top class and it
is no interface (`Ascending.not_under_top`, `Ascending.covered`). -/
structure Ascending (r : Resolver) : Prop where
  wellFormed : r.env.WellFormed
  acyclic : ∀ id, ¬ TransGen r.env.Under id id
  superclass : ∀ {id c}, r.env.class? id = some c → c.kind = .ordinary →
    id ≠ r.env.wellKnown.object → c.supertypes ≠ []
  implicitTop : r.config.implicitObjectSupertype = true
  noHostTest : r.env.hostTest = none

theorem Ascending.forgetting (h : r.Ascending) : r.forgetting.Ascending :=
  ⟨h.wellFormed, h.acyclic, h.superclass, h.implicitTop, h.noHostTest⟩

/-- Every class but the top class has one directly above it. -/
theorem Ascending.exists_under (h : r.Ascending) (hdef : r.env.isDefined id)
    (hne : id ≠ r.env.wellKnown.object) :
    ∃ parent, r.env.Under id parent ∧ r.env.isDefined parent := by
  obtain ⟨c, hc⟩ := isDefined_iff.1 hdef
  cases hsup : c.supertypes with
  | nil =>
      cases hkind : c.kind with
      | ordinary => exact absurd hsup (h.superclass hc hkind hne)
      | interface =>
          exact ⟨_, .implicit hc hkind hsup,
            h.wellFormed.known _ List.mem_cons_self⟩
  | cons s ss =>
      have hs : s ∈ c.supertypes := hsup ▸ List.mem_cons_self
      obtain ⟨parent, hparent, hdef⟩ := h.wellFormed.extends_of_mem hc hs
      exact ⟨parent, .declared hparent, hdef⟩

/-- So every class leads up to the top class. -/
theorem Ascending.under_top (h : r.Ascending) (hdef : r.env.isDefined id) :
    ReflTransGen r.env.Under id r.env.wellKnown.object := by
  obtain ⟨rank, -, hrank⟩ := exists_rank r.env.classIds
    (fun _ _ hunder => hunder.source.elim fun _ => mem_classIds) h.acyclic
  induction id using (wellFounded_of_rank hrank).induction with
  | h id ih =>
      by_cases hobject : id = r.env.wellKnown.object
      · rw [hobject]
      · obtain ⟨parent, hparent, hdef⟩ := h.exists_under hdef hobject
        exact .head hparent (ih parent hparent hdef)

/-- Nothing is above the top class, since all that is leads back to it. -/
theorem Ascending.not_under_top (h : r.Ascending) (hdef : r.env.isDefined id) :
    ¬ r.env.Under r.env.wellKnown.object id := fun hunder =>
  h.acyclic _ (.head' hunder (h.under_top hdef))

theorem Ascending.covered (h : r.Ascending) : r.Covered := by
  obtain ⟨c, hc⟩ :=
    isDefined_iff.1 (h.wellFormed.known r.env.wellKnown.object
      List.mem_cons_self)
  have hsup : c.supertypes = [] := by
    refine List.eq_nil_iff_forall_not_mem.2 fun s hs => ?_
    obtain ⟨parent, hparent, hdef⟩ := h.wellFormed.extends_of_mem hc hs
    exact h.not_under_top hdef (.declared hparent)
  have hkind : c.kind = .ordinary := by
    cases hkind : c.kind with
    | ordinary => rfl
    | interface =>
        exact absurd (.implicit hc hkind hsup)
          (h.not_under_top (isDefined_iff.2 ⟨c, hc⟩))
  exact ⟨⟨h.wellFormed, c, hc, hkind, hsup⟩, h.superclass,
    h.implicitTop, h.noHostTest⟩

/-- Where nothing is above the top class, only declared supertypes can be on a
circle. -/
theorem Covered.ascending (h : r.Covered) : r.Ascending := by
  have hlone : ∀ {parent}, ¬ r.env.Under r.env.wellKnown.object parent := by
    obtain ⟨c, hc, hkind, -⟩ := h.topped.top
    rintro parent (hext | ⟨hc', hkind', -⟩)
    · exact h.topped.topmost.not_extends hext
    · obtain rfl := Option.some.inj (hc.symm.trans hc')
      rw [hkind] at hkind'
      cases hkind'
  exact ⟨h.topped.wellFormed, acyclic_of_top (fun _ _ => Under.top_or_extends)
    (fun _ => hlone) h.topped.wellFormed.hierarchy, h.superclass,
    h.implicitTop, h.noHostTest⟩

/-! ## Supertypes in steps -/

/-- Asked for its direct supertypes, the resolver names `s` among those of
`t`. -/
def Steps (r : Resolver) (ctx : Context) (t s : Ty) : Prop :=
  ∃ ts ctx', r.directSupertypes t ctx = (.ok ts, ctx') ∧ s ∈ ts

/-- What a resolver with a sound memo answers about direct supertypes. -/
theorem directSupertypes_eq_above (hsame : r.SameButMemo ctx ctx) (t : Ty) :
    (r.directSupertypes t ctx).1 = r.above ctx.captures t := by
  rw [(directSupertypes_simulates r t ctx ctx hsame).1,
    ← r.forgetting_alike.above]
  exact (directSupertypes_reads rfl t ctx).1

theorem steps_iff (hsame : r.SameButMemo ctx ctx) :
    r.Steps ctx t s ↔ r.Directly ctx.captures t s := by
  have heq := directSupertypes_eq_above hsame t
  constructor
  · rintro ⟨ts, ctx', hts, hs⟩
    rw [hts] at heq
    exact ⟨ts, heq.symm, hs⟩
  · rintro ⟨ts, hts, hs⟩
    exact ⟨ts, _, Prod.ext (heq.trans hts) rfl, hs⟩

theorem steps_eq (hsame : r.SameButMemo ctx ctx) :
    r.Steps ctx = r.Directly ctx.captures :=
  funext₂ fun _ _ => propext (steps_iff hsame)

/-! ## Searches end -/

/-- From a primitive type only the type itself is found. -/
theorem find_primitive (hhost : r.env.hostTest = none)
    (arena : Array CaptureDef) (p : Primitive) (target : Class) :
    r.find arena 1 (.primitive p) target =
      .ok (if .primitive p = target then some (.primitive p) else none) := by
  by_cases hp : .primitive p = target
  · rw [if_pos hp, ← hp]
    exact find_self rfl 0
  · rw [if_neg hp]
    refine find_of_refused hhost rfl ?_ 0
    rw [Bool.eq_false_iff]
    exact fun hassign => hp (eq_of_assignable_primitive hhost hassign).symm

theorem Covered.find_ends (h : r.Covered) (arena : Array CaptureDef)
    (ht : r.env.Complete n t) (hknown : t.element.isUnknown = false)
    (target : Class) :
    ∃ depth found, r.find arena depth t target = .ok found := by
  cases hprim : t.isPrimitive with
  | true =>
      obtain ⟨p, rfl⟩ := Ty.exists_of_isPrimitive hprim
      exact ⟨1, _, find_primitive h.noHostTest arena p target⟩
  | false => exact find_ok (climbs_of_known h.topped ht hprim hknown) target

/-- A type of a class, a primitive type or an array of them has an exact
supertype of just those classes that its erasure may be assigned to. That the
search ends is part of it, at any depth that is large enough, and what it finds
is of the class asked for and some steps above the type. The hierarchy that must
go in no circle is the one searched, with lone interfaces below the top
class. -/
theorem exactSupertype_iff_assignable (h : r.Ascending) (hctx : r.Reachable ctx)
    (ht : r.env.Complete n t) (hknown : t.element.isUnknown = false)
    (target : Class) : ∃ a found least, r.env.erase t = .ok a ∧
      (∀ depth, least ≤ depth →
        (r.exactSupertype depth t target ctx).1 = .ok found) ∧
      (found.isSome ↔ r.env.assignable target a = true) ∧
      ∀ s, found = some s →
        r.env.erase s = .ok target ∧ ReflTransGen (r.Steps ctx) t s := by
  have hsame := hctx.sameButMemo
  have hcov := h.covered
  have hkind : t.isUnknown = false := by
    cases t with
    | genericArray _ | nominal _ | parameterized _ _ _ => rfl
    | var _ | wildcard _ _ | capture _ => cases hknown
  obtain ⟨a, ha⟩ := h.wellFormed.erase_ok ht (Ty.isErasable_of_element hknown)
  obtain ⟨least, found, hfound⟩ := hcov.find_ends ctx.captures ht hknown target
  refine ⟨a, found, least, ha, fun depth hle => ?_, ?_, ?_⟩
  · rw [exactSupertype_eq_find hsame]
    exact find_mono hle hfound
  · cases hassign : r.env.assignable target a with
    | true =>
        have hclimbs : t.isPrimitive = false →
            r.Climbs ctx.captures t := fun hprim =>
          climbs_of_known hcov.topped ht hprim hknown
        obtain ⟨m, g, hg⟩ := find_of_complete hcov
          (I := fun t => t.element.isUnknown = false ∧
            r.env.Complete n t) And.right
          (fun ht hs => ⟨known_directly_of_known h.wellFormed ht.1 ht.2 hs,
            complete_directly h.wellFormed ht.1 ht.2 hs⟩)
            ⟨hknown, ht⟩ hclimbs ha hassign
        rw [find_unique hfound hg]
        exact iff_of_true rfl rfl
    | false =>
        have hrefused : r.find ctx.captures 1 t target = .ok none :=
          find_of_refused h.noHostTest (erasure?_known hkind ha) hassign 0
        rw [find_unique hfound hrefused]
        exact iff_of_false Bool.noConfusion Bool.noConfusion
  · rintro s rfl
    obtain ⟨hup, hs⟩ := find_ancestor hfound
    exact ⟨erase_of_erasure? hs, by rwa [steps_eq hsame]⟩

open TypeStore in
/-- An array of arrays of strings is an array of arrays of what is comparable
with strings, which it is found to be two steps up. -/
theorem stringArrays_comparable :
    ∃ found least,
      (∀ depth, least ≤ depth → (coreResolver.exactSupertype depth
        (.nominal (.array (.array (.named Seed.string))))
        (.array (.array (.named Seed.comparable))) .empty).1 = .ok found) ∧
      found.isSome ∧
      ∀ s, found = some s →
        core.toDeclarations.erase s =
            .ok (.array (.array (.named Seed.comparable))) ∧
          ReflTransGen (coreResolver.Steps .empty)
            (.nominal (.array (.array (.named Seed.string)))) s := by
  have ht : core.toDeclarations.Complete 0
      (.nominal (.array (.array (.named Seed.string)))) := by
    decide
  obtain ⟨a, found, least, ha, hends, hiff, hfound⟩ :=
    exactSupertype_iff_assignable
      coreResolver_standard.covered.ascending .start ht rfl
      (.array (.array (.named Seed.comparable)))
  obtain rfl := Outcome.ok.inj ha
  exact ⟨found, least, hends, hiff.2 (by decide), hfound⟩

end Resolver

end GenericTypes
