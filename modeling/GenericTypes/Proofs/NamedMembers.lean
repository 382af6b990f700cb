import GenericTypes.Proofs.BreadthFirst
import GenericTypes.Proofs.Members

/-!
# What a lookup by name finds is seen through the owner

Two walks take part in the type of a member that is asked for by name. The
lookup goes breadth first over the numbers of the declared classes, from the
class of the owner as it is written. The view of the owner comes of a search
depth first over types, from the captured owner, with arguments put in, raw
classes erased, and branches cut off by the erasure. Where the two disagreed, a
member would be found and yet keep its declared type, since its owner would
count as no subtype of the declaring class.

They agree because both follow the declared hierarchy. What the lookup finds,
the hierarchy leads to from the owner's class (`lookup_nearest`), and capture
keeps that class; and from a type of a class the search finds a type of every
class that the hierarchy leads to (`exists_seenAs`). The top type is left out
since its members keep their declared type in any case.
-/

namespace GenericTypes

open Relation

namespace Resolver

open Resolve Declarations

variable {r : Resolver} {id declaring : ClassId} {owner : Ty} {depth : Nat}
  {name : String}

theorem head?_of_ownerClass? (h : ownerClass? owner = some id) :
    owner.head? = some id := by
  cases owner with
  | nominal c => cases c with
      | named _ => exact h
      | primitive _ | array _ => cases h
  | parameterized _ _ _ => exact h
  | var _ | wildcard _ _ | genericArray _ | capture _ => cases h

/-- The return type `t` is the declared one of the method seen through `view`;
there is none where none is declared. -/
def ReturnsThrough (r : Resolver) (method : MethodDecl) (view : Ty)
    (t : Option Ty) : Prop :=
  t.isSome = method.returnType.isSome ∧ ∀ declared ∈ method.returnType, ∀ s ∈ t,
    r.substituteThrough declared view method.typeParams = .ok s

section Plain

variable (h : r.env.WellFormed) (hhost : r.env.hostTest = none)
  (hplain : r.config.memoizeSupertypes = false) (howner : r.env.Owner id owner)
  (hclass : ownerClass? owner = some id)
  (hne : declaring ≠ r.env.wellKnown.object)
  (hdepth : r.env.classes.size < depth)

include h hhost hplain howner hclass hne hdepth

theorem fieldTypeByName_seen {field : FieldDecl}
    (hfield : r.env.lookupField id name = some (declaring, field))
    (hstatic : field.isStatic = false) (ctx : Context) :
    ∃ view t, r.SeenAs depth ctx owner declaring view ∧
      r.substituteThrough field.type view [] = .ok t ∧
      (r.fieldTypeByName depth owner name ctx).1 = .ok (some t) := by
  obtain ⟨⟨c, front, back, hc, hfields, -⟩, hreached, -⟩ :
      r.env.NearestMember ClassDecl.fields FieldDecl.name name id
      declaring field :=
    lookup_nearest hfield
  have hmem : field ∈ c.fields := by
    rw [hfields]
    exact List.mem_append_right _ List.mem_cons_self
  obtain ⟨view, hview, hsupplies, -⟩ :=
    exists_seenAs h hhost hplain howner hne hreached hdepth ctx
  have hsubst : r.substituteThrough field.type view [] =
      .ok (seen r.env.toDeclarations view field.type) :=
    substituteThrough_eq h hsupplies (h.fields hc field hmem) fun v hv =>
      .inr (.field hc hmem hstatic hv)
  refine ⟨view, _, hview, hsubst, ?_⟩
  have htype : (r.fieldType depth declaring field owner ctx).1 =
      .ok (seen r.env.toDeclarations view field.type) := by
    rw [fieldType, hstatic, if_neg Bool.false_ne_true, memberType, if_neg hne]
    exact (hview.seenThrough field.type []).trans hsubst
  rw [fieldTypeByName, hclass, Option.bind_eq_bind, Option.bind_some, hfield]
  dsimp only
  rw [bind_ok htype]
  rfl

theorem returnTypeByName_seen {method : MethodDecl}
    (hmethod : r.env.lookupMethod id name = some (declaring, method))
    (hstatic : method.isStatic = false) (ctx : Context) :
    ∃ view t, r.SeenAs depth ctx owner declaring view ∧
      r.ReturnsThrough method view t ∧
      (r.returnTypeByName depth owner name ctx).1 = .ok (some t) := by
  obtain ⟨⟨c, front, back, hc, hmethods, -⟩, hreached, -⟩ :
      r.env.NearestMember ClassDecl.methods MethodDecl.name name id
      declaring method :=
    lookup_nearest hmethod
  have hmem : method ∈ c.methods := by
    rw [hmethods]
    exact List.mem_append_right _ List.mem_cons_self
  obtain ⟨view, hview, hsupplies, -⟩ :=
    exists_seenAs h hhost hplain howner hne hreached hdepth ctx
  have hbyName : ∀ t,
        (r.returnType depth declaring method owner ctx).1 = .ok t →
      (r.returnTypeByName depth owner name ctx).1 = .ok (some t) := by
    intro t ht
    rw [returnTypeByName, hclass, Option.bind_eq_bind,
      Option.bind_some, hmethod]
    dsimp only
    rw [bind_ok ht]
    rfl
  cases hreturn : method.returnType with
  | none =>
      refine ⟨view, none, hview, ⟨by rw [hreturn], fun _ _ _ hs => nomatch hs⟩,
        hbyName none ?_⟩
      rw [returnType, hreturn]
      rfl
  | some declared =>
      have htypes : declared ∈ method.types := by
        rw [MethodDecl.types, hreturn]
        exact List.mem_append_right _ (List.mem_singleton_self declared)
      have hsubst : r.substituteThrough declared view method.typeParams =
          .ok (seen r.env.toDeclarations view declared) :=
        substituteThrough_eq h hsupplies
          ((h.methods hc method hmem).2 declared htypes)
          fun v hv => own_or_uses hc hmem hstatic htypes hv
      refine ⟨view, some (seen r.env.toDeclarations view declared), hview,
        ⟨by rw [hreturn]; rfl, ?_⟩, hbyName _ ?_⟩
      · intro s hs t ht
        obtain rfl := Option.some.inj (hreturn.symm.trans hs)
        obtain rfl := Option.some.inj ht
        exact hsubst
      · have hseen :=
          (hview.seenThrough declared method.typeParams).trans hsubst
        rw [returnType, hreturn]
        dsimp only
        rw [hstatic, Bool.false_or,
          if_neg fun htop => hne (of_decide_eq_true htop), bind_ok hseen]
        rfl

end Plain

theorem SeenAs.of_forgetting {ctx : Context} {view : Ty}
    (hsame : r.SameButMemo ctx ctx)
    (h : r.forgetting.SeenAs depth ctx owner declaring view) :
    r.SeenAs depth ctx owner declaring view := by
  obtain ⟨captured, hcapture, hsearch⟩ := h
  obtain ⟨hsame₁, hafter⟩ := capture_simulates r owner ctx ctx hsame
  refine ⟨captured, hsame₁.trans hcapture, ?_⟩
  exact (exactSupertype_simulates r (.named declaring) depth captured _ _
    hafter).1.trans hsearch

/-- Over well-formed declarations, at any point of any history, a member of an
instance that is found by name, in a class other than the top one, is seen
through its owner: the owner is captured, the captured owner has a view as the
declaring class, and the type answered is the declared one with the arguments of
the view put in, or its erasure where the view is raw. -/
theorem members_by_name_seen {ctx : Context} (h : r.env.WellFormed)
    (hhost : r.env.hostTest = none) (hctx : r.Reachable ctx)
    (howner : r.env.Complete ctx.captures.size owner)
    (hclass : ownerClass? owner = some id)
    (hne : declaring ≠ r.env.wellKnown.object)
    (hdepth : r.env.classes.size < depth) :
    (∀ field, r.env.lookupField id name = some (declaring, field) →
      field.isStatic = false →
      ∃ view t, r.SeenAs depth ctx owner declaring view ∧
        r.substituteThrough field.type view [] = .ok t ∧
        (r.fieldTypeByName depth owner name ctx).1 = .ok (some t)) ∧
    ∀ method, r.env.lookupMethod id name = some (declaring, method) →
      method.isStatic = false →
      ∃ view t, r.SeenAs depth ctx owner declaring view ∧
        r.ReturnsThrough method view t ∧
        (r.returnTypeByName depth owner name ctx).1 = .ok (some t) := by
  have hsame := hctx.sameButMemo
  have howner : r.env.Owner id owner :=
    ⟨howner.supplies (head?_of_ownerClass? hclass), howner.bounded⟩
  refine ⟨fun field hfield hstatic => ?_, fun method hmethod hstatic => ?_⟩
  · obtain ⟨view, t, hview, hsubst, htype⟩ :=
      @fieldTypeByName_seen r.forgetting id declaring owner
        depth name h hhost rfl howner hclass hne hdepth field hfield hstatic ctx
    exact ⟨view, t, hview.of_forgetting hsame, hsubst,
      (fieldTypeByName_simulates r depth owner name ctx ctx hsame).1.trans
        htype⟩
  · obtain ⟨view, t, hview, hreturns, htype⟩ :=
      @returnTypeByName_seen r.forgetting id declaring
        owner depth name h hhost rfl howner hclass hne hdepth method
        hmethod hstatic ctx
    exact ⟨view, t, hview.of_forgetting hsame, hreturns,
      (returnTypeByName_simulates r depth owner name ctx ctx hsame).1.trans
        htype⟩

open TypeStore in
/-- Comparing constants of an enumeration of unknown type gives an `int`. -/
theorem compareTo_by_name : ∃ t, (coreResolver.returnTypeByName 12
    (Seed.applied Seed.enum [(Wildcard.unbounded Seed.object).toTy])
        "compareTo" .empty).1 =
      .ok (some (some t)) := by
  have hcomplete : core.toDeclarations.Complete 0
      (Seed.applied Seed.enum [(Wildcard.unbounded Seed.object).toTy]) := by
    decide
  have hfound : core.toDeclarations.lookupMethod Seed.enum "compareTo" =
      some (Seed.comparable,
        Seed.method "compareTo" [Seed.tv 0] (.primitive .int)) := by
    decide
  obtain ⟨-, hmethods⟩ :=
    @members_by_name_seen coreResolver Seed.enum Seed.comparable _ 12
      "compareTo" .empty core_wellFormed rfl .start hcomplete rfl
      (by decide) (by decide)
  obtain ⟨view, t, -, ⟨hsome, -⟩, hanswer⟩ := hmethods _ hfound rfl
  obtain ⟨t, rfl⟩ := Option.isSome_iff_exists.1 hsome
  exact ⟨t, hanswer⟩

end Resolver

end GenericTypes
