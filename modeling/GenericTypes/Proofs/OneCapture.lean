import GenericTypes.Proofs.CapturedSides
import GenericTypes.Proofs.MemberShapes

/-!
# The parameters of a call share one capture

The parameter types of a method are worked out together, those of other members
one by one. Both ways capture the owner, search from there for the declaring
class and put the arguments of the view into the declared type; only the last
step is made again for each parameter, and it does not touch the context. So a
parameter is what the same type would be as that of a member by itself, from the
same context and into the same context (`memberType_of_parameterTypes`).

All captures of such a run are those of the owner, since a search opens none
(`viewAs_captures`). Hence all parameters have the same captures in the places
of the same variables. A member that is worked out later has others, opened for
it, but in the places of these and not in any other way (`memberType_later`).
-/

namespace GenericTypes

namespace Resolver

open Resolve CaptureId

variable {r : Resolver} {depth : Nat} {declaring : ClassId}
  {method : MethodDecl} {owner via view p t : Ty} {ts : List Ty}
  {ctx after later : Context}

/-! ## One type after the other -/

/-- Several types are seen through a type as each of them is. -/
theorem substituteAll_eq_ok_iff {own : List TypeVarId} {ps ts : List Ty} :
    r.substituteAll via own ps = .ok ts ↔
      List.Forall₂ (fun p t => r.substituteThrough p via own = .ok t) ps
        ts := by
  induction ps generalizing ts with
  | nil =>
      constructor
      · intro h
        obtain rfl := Outcome.ok.inj h
        exact .nil
      · intro h
        cases h
        rfl
  | cons p ps ih =>
      constructor
      · intro h
        obtain ⟨t, ht, h⟩ := Outcome.bind_eq_ok h
        obtain ⟨us, hus, h⟩ := Outcome.bind_eq_ok h
        obtain rfl := Outcome.ok.inj h
        exact .cons ht (ih.1 hus)
      · intro h
        cases h with
        | cons ht hts =>
            rw [substituteAll, ht, Outcome.ok_bind, ih.2 hts]
            rfl

/-- The types `ts` are the types `ps` with the same types in the places of the
same variables, those that `via` has there; or `via` is raw and all of them are
erased. -/
def SeenAlike (r : Resolver) (via : Ty) (ps ts : List Ty) : Prop :=
  ts = ps.map (Ty.subst (r.env.chainSubst via)) ∨
    ∃ c, via = .nominal c ∧ r.env.isRaw c = .ok true ∧
      List.Forall₂ (fun p t => ∃ e, r.env.erase p = .ok e ∧
        t = .nominal e) ps ts

theorem seenAlike_of_substituteAll {own : List TypeVarId} {ps : List Ty}
    (h : r.substituteAll via own ps = .ok ts) : r.SeenAlike via ps ts := by
  have hseen := substituteAll_eq_ok_iff.1 h
  by_cases hraw : ∃ c, via = .nominal c ∧ r.env.isRaw c = .ok true
  · obtain ⟨c, rfl, hraw⟩ := hraw
    exact .inr ⟨c, rfl, hraw,
      hseen.imp fun _ _ => erased_of_substituteThrough hraw⟩
  · have hplain : ∀ c, via = .nominal c → r.env.isRaw c ≠ .ok true :=
      fun c hc hrawc => hraw ⟨c, hc, hrawc⟩
    have heach :
        List.Forall₂ (fun p t => p.subst (r.env.chainSubst via) = t) ps ts :=
      hseen.imp fun _ _ ht => (subst_of_substituteThrough hplain ht).2.symm
    rw [← List.forall₂_map_left_iff, List.forall₂_eq_eq_eq] at heach
    exact .inl heach.symm

/-! ## Captures opened on the way -/

/-- A search opens no captures. -/
theorem exactSupertype_captures (hsame : r.SameButMemo ctx ctx)
    (depth : Nat) (t : Ty) (target : Class) :
    (r.exactSupertype depth t target ctx).2.captures = ctx.captures := by
  rw [(exactSupertype_simulates r target depth t ctx ctx hsame).2.captures]
  exact (exactSupertype_reads rfl target depth t ctx).2

/-- An owner seen as the declaring class is captured, and that is all. -/
theorem viewAs_captures (hsame : r.SameButMemo ctx ctx) (depth : Nat)
    (declaring : ClassId) (owner : Ty) :
    (r.viewAs depth declaring owner ctx).2.captures =
      (r.capture owner ctx).2.captures := by
  have hafter := (capture_simulates r owner ctx ctx hsame).2
  rw [viewAs, bind_apply]
  generalize r.capture owner ctx = captures at hafter ⊢
  obtain ⟨captured, opened⟩ := captures
  cases captured with
  | error _ | exhausted => rfl
  | ok captured =>
      have hsearch :=
        exactSupertype_captures ⟨rfl, rfl, hafter.memo⟩ depth captured
          (.named declaring)
      dsimp only at hsearch ⊢
      rw [bind_apply, ← hsearch]
      generalize r.exactSupertype depth captured
        (.named declaring) opened = search
      obtain ⟨found, searched⟩ := search
      cases found with
      | error _ | exhausted => rfl
      | ok found => cases found <;> rfl

/-! ## All parameters, and one member -/

/-- The parameters of a method without type parameters of its own are seen
through the view of the owner, or left as they are where there is none. -/
theorem parameterTypes_inv (hstatic : method.isStatic = false)
    (hown : method.typeParams = []) (hne : declaring ≠ r.env.wellKnown.object)
    (h : r.parameterTypes depth declaring method owner ctx = (.ok ts, after)) :
    (∃ view, r.viewAs depth declaring owner ctx = (.ok (some view), after) ∧
      r.substituteAll view [] method.params = .ok ts) ∨
      r.viewAs depth declaring owner ctx = (.ok none, after) ∧
      ts = method.params := by
  rw [parameterTypes, hstatic, Bool.false_or,
    if_neg fun hdec => hne (of_decide_eq_true hdec),
    hown] at h
  obtain ⟨found, ctx', hview, -⟩ := of_bind_ok (congrArg Prod.fst h)
  rw [bind_apply, hview] at h
  cases found with
  | some view =>
      obtain rfl : ctx' = after := congrArg Prod.snd h
      exact .inl ⟨view, hview, congrArg Prod.fst h⟩
  | none =>
      obtain rfl : ctx' = after := congrArg Prod.snd h
      exact .inr ⟨hview, (Outcome.ok.inj (congrArg Prod.fst h)).symm⟩

/-- The parameters of a method without type parameters of its own are, one by
one, what they would be as types of other members. -/
theorem memberType_of_parameterTypes (hstatic : method.isStatic = false)
    (hown : method.typeParams = [])
    (h : r.parameterTypes depth declaring method owner ctx = (.ok ts, after)) :
    List.Forall₂ (fun p t => r.memberType depth declaring p owner
        ctx = (.ok t, after))
      method.params ts := by
  by_cases htop : declaring = r.env.wellKnown.object
  · rw [parameterTypes, hstatic, Bool.false_or,
      if_pos (decide_eq_true htop)] at h
    obtain rfl : method.params = ts := Outcome.ok.inj (congrArg Prod.fst h)
    obtain rfl : ctx = after := congrArg Prod.snd h
    refine List.forall₂_same.2 fun p _ => ?_
    rw [memberType, if_pos htop]
    rfl
  · rcases parameterTypes_inv hstatic hown htop h with
        ⟨view, hview, hall⟩ | ⟨hview, rfl⟩
    · refine (substituteAll_eq_ok_iff.1 hall).imp fun p t ht => ?_
      rw [memberType, if_neg htop, seenThrough,
        bind_ok (congrArg Prod.fst hview)]
      show (r.substituteThrough p view [],
        (r.viewAs depth declaring owner ctx).2) = _
      rw [ht, hview]
    · refine List.forall₂_same.2 fun p _ => ?_
      rw [memberType, if_neg htop, seenThrough,
        bind_ok (congrArg Prod.fst hview)]
      show (Outcome.ok p, (r.viewAs depth declaring owner ctx).2) = _
      rw [hview]

/-- The type of a member that is worked out when captures have been opened since
differs by the numbers of the captures opened for it. -/
theorem memberType_later (hfree : r.env.CaptureFree) (hctx : r.Reachable ctx)
    (hlater : r.Reachable later) (hstored : Stored Ty.Scoped ctx.captures)
    (hgrows : Grows ctx.captures later.captures)
    (howner : owner.Scoped ctx.captures.size) (hp : p.mentionsCapture = false) :
    let f := past ctx.captures.size (later.captures.size - ctx.captures.size)
    (r.memberType depth declaring p owner later).1 =
      (r.memberType depth declaring p owner ctx).1.rename f (Ty.rename f) := by
  intro f
  have hholds : r.forgetting.Holds Ty.Scoped ctx :=
    ⟨hstored, r.forgetting_alike.memoSound hctx.memoSound⟩
  have hmirrors := memberType_mirrors (r := r.forgetting)
    (apart_mirroring (n := ctx.captures.size)
      (k := later.captures.size - ctx.captures.size))
    hfree rfl depth declaring p owner
  rw [Ty.rename_of_scoped howner, Ty.rename_of_scoped (Ty.scoped_of_plain hp)]
    at hmirrors
  rw [(memberType_simulates r depth declaring p owner ctx ctx
      hctx.sameButMemo).1,
    (memberType_simulates r depth declaring p owner later later
      hlater.sameButMemo).1]
  exact (hmirrors ctx later (apart_of_grows hholds hgrows)).1

/-- At any point of any history, the parameter types of a method of instances
without type parameters of its own are, one by one, what they would be as types
of other members. Unless the declaring class is the top class, the captures that
have been opened are those of the owner, captured once, and all parameters are
seen through the one view of it: they have the same types in the places of the
same variables, unless it is raw and they are erased. Where the owner is not
below the declaring class they are left as they are. Over declarations that
mention no captures, a member that is worked out at any later point, after any
of the other parameters say, differs by the numbers of the captures opened
since. -/
theorem parameterTypes_share_capture (hctx : r.Reachable ctx)
    (hstatic : method.isStatic = false) (hown : method.typeParams = [])
    (h : r.parameterTypes depth declaring method owner ctx = (.ok ts, after)) :
    List.Forall₂ (fun p t => r.memberType depth declaring p owner
        ctx = (.ok t, after))
      method.params ts ∧
    (declaring ≠ r.env.wellKnown.object →
      after.captures = (r.capture owner ctx).2.captures ∧
      ((∃ view, r.SeenAs depth ctx owner declaring view ∧
          r.SeenAlike view method.params ts) ∨
        (r.viewAs depth declaring owner ctx).1 = .ok none ∧
          ts = method.params)) ∧
    (r.env.CaptureFree → Stored Ty.Scoped ctx.captures →
      owner.Scoped ctx.captures.size →
      (∀ p ∈ method.params, p.mentionsCapture = false) →
      ∀ later, r.Reachable later → Grows ctx.captures later.captures →
        List.Forall₂
          (fun p t => (r.memberType depth declaring p owner later).1 =
            .ok (t.rename (past ctx.captures.size
              (later.captures.size - ctx.captures.size))))
          method.params ts) := by
  have hmembers := memberType_of_parameterTypes hstatic hown h
  refine ⟨hmembers, fun hne => ?_,
    fun hfree hstored howner hparams later hlater hgrows => ?_⟩
  · have hcaptures := viewAs_captures hctx.sameButMemo depth declaring owner
    rcases parameterTypes_inv hstatic hown hne h with
        ⟨view, hview, hall⟩ | ⟨hview, hts⟩
    · rw [hview] at hcaptures
      exact ⟨hcaptures, .inl ⟨view, seenAs_of_viewAs (congrArg Prod.fst hview),
        seenAlike_of_substituteAll hall⟩⟩
    · rw [hview] at hcaptures
      exact ⟨hcaptures, .inr ⟨congrArg Prod.fst hview, hts⟩⟩
  · refine List.forall₂_iff_get.2 ⟨hmembers.length_eq, fun i hi hi' => ?_⟩
    have hmember := congrArg Prod.fst (hmembers.get hi hi')
    rw [memberType_later hfree hctx hlater hstored hgrows howner
      (hparams _ (List.get_mem method.params ⟨i, hi⟩)), hmember]
    rfl

open TypeStore Seed in
/-- `Enum<?>` is captured once for two parameters that mention the variable of
`Comparable`, and once more for the first of them by itself. -/
theorem enum_captured_once :
    let owner := applied enum [(Wildcard.unbounded object).toTy]
    let m := Seed.method "isBetween" [tv 0, applied comparable [tv 0]]
      (.primitive .boolean)
    let later :=
      (coreResolver.answer 12 (.parameterTypes comparable m owner) .empty).2
    (coreResolver.parameterTypes 12 comparable m owner .empty).1 =
        .ok [.capture ⟨0⟩, applied comparable [.capture ⟨0⟩]] ∧
      later.captures = (coreResolver.capture owner .empty).2.captures ∧
      (coreResolver.memberType 12 comparable (tv 0) owner later).1 =
        .ok (.capture ⟨1⟩) := by
  intro owner m later
  have hrun : coreResolver.parameterTypes 12 comparable m owner .empty =
      (.ok [.capture ⟨0⟩, applied comparable [.capture ⟨0⟩]], later) :=
    Prod.ext (by decide) rfl
  obtain ⟨-, hshared, hlater⟩ :=
    parameterTypes_share_capture .start rfl rfl hrun
  have hmembers := hlater core_wellFormed.captureFree
    (fun c hc => absurd hc (Array.not_mem_empty c)) (by decide)
    (by decide) later (.step .start 12 _)
    fun i c hc => absurd (Array.mem_of_getElem? hc) (Array.not_mem_empty c)
  refine ⟨congrArg Prod.fst hrun, (hshared (by decide)).1, ?_⟩
  cases hmembers with
  | cons hfirst _ =>
      have hsize : later.captures.size = 1 := by decide
      rw [hfirst, hsize]
      rfl

end Resolver

end GenericTypes
