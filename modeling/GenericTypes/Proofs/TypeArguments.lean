import GenericTypes.Proofs.Transitivity
import GenericTypes.Proofs.TwoPhase

/-!
# Arguments by place and by substitution

What a type supplies for a parameter of a class above it can be asked in two
ways. The type argument is read off the exact supertype by place: the parameter
is looked up among those of its class, and the argument standing there is the
answer. The type of a member declared with the bare parameter comes of a
substitution: the parameters of the class and of all classes around it are bound
to the arguments along the chain of owners, and the parameter is looked up among
these.

Along the chain an owner's bindings hide those of its member class, and a list
with a parameter in it twice binds the last argument where the place is the
first. Both are excluded once every parameter is listed once (`ListedOnce`) and
owners are of the classes around (`Housed`), and then the two are one value
(`argumentFor_eq`). What has no value there is named raw, and there the member
is erased.

A chain with an owner for every member class may still have one of a class that
is not around, and then the two differ (`argument_hidden_by_owner`).
-/

namespace GenericTypes

open Relation Substitution

namespace Declarations

/-- Every type variable that a class lists, it lists once, and the variable
names it as the class that declares it. So no two classes list the same. -/
structure ListedOnce (d : Declarations) : Prop where
  distinct : ∀ {id c}, d.class? id = some c → c.typeParams.Nodup
  declaring : ∀ {id c}, d.class? id = some c → ∀ v ∈ c.typeParams,
    ∃ p, d.typeParam? v = some p ∧ p.declaringClass = some id

/-- The argument at the place that a variable has among the parameters. -/
def argumentFor (vs : List TypeVarId) (v : TypeVarId) : Ty → Option Ty
  | .parameterized _ args _ => do
      let place ← vs.findIdx? (· == v)
      args[place]?
  | .nominal _ | .var _ | .wildcard _ _ | .genericArray _ | .capture _ => none

variable {d : Declarations} {id : ClassId} {c : ClassDecl}
  {v : TypeVarId} {t : Ty}

theorem exists_lister (hv : d.InScope id v) :
    ∃ lister, ReflTransGen d.EnclosedBy id lister ∧ v ∈ d.paramsOf lister := by
  induction hv with
  | own hc hv => exact ⟨_, .refl, mem_paramsOf_iff.2 ⟨_, hc, hv⟩⟩
  | outer henc _ ih =>
      obtain ⟨lister, hup, hv⟩ := ih
      exact ⟨lister, .head henc hup, hv⟩

theorem ListedOnce.lister_eq (h : d.ListedOnce) {id' : ClassId}
    (hv : v ∈ d.paramsOf id) (hv' : v ∈ d.paramsOf id') : id = id' := by
  obtain ⟨c, hc, hv⟩ := mem_paramsOf_iff.1 hv
  obtain ⟨c', hc', hv'⟩ := mem_paramsOf_iff.1 hv'
  obtain ⟨p, hp, hid⟩ := h.declaring hc v hv
  obtain ⟨p', hp', hid'⟩ := h.declaring hc' v hv'
  obtain rfl := Option.some.inj (hp.symm.trans hp')
  exact Option.some.inj (hid.symm.trans hid')

/-- A class that listed a variable of a class around it would be around
itself. -/
theorem ListedOnce.unshadowed (h : d.ListedOnce) (hwf : d.WellFormed) :
    d.Unshadowed := by
  intro id outer v henc hv hscope
  obtain ⟨lister, hup, hv'⟩ := exists_lister hscope
  obtain rfl := h.lister_eq hv hv'
  exact hwf.nesting id (.head' henc hup)

/-- The place of a parameter picks the value that the list of parameters binds
it to. -/
theorem lastValue_eq_place {vs : List TypeVarId} {args : List Ty}
    (hdistinct : vs.Nodup) (hlen : vs.length = args.length) (hv : v ∈ vs) :
    lastValue vs args v = (vs.findIdx? (· == v)) >>= fun place =>
      args[place]? := by
  obtain ⟨place, hplace⟩ : ∃ place, vs.findIdx? (· == v) = some place :=
    Option.isSome_iff_exists.1 (by simpa [List.findIdx?_isSome] using hv)
  obtain ⟨hlt, hfound, -⟩ := List.findIdx?_eq_some_iff_getElem.1 hplace
  have hlt' : place < args.length := hlen ▸ hlt
  rw [hplace, Option.bind_eq_bind, Option.bind_some,
    List.getElem?_eq_getElem hlt',
    lastValue_eq_some_iff hdistinct, List.mem_iff_getElem]
  refine ⟨place, by rw [List.length_zip]; omega, ?_⟩
  rw [List.getElem_zip, eq_of_beq hfound]

/-- By place and along the chain, a type of a class has the same value for a
parameter of it. -/
theorem argumentFor_eq (hwf : d.WellFormed) (h : d.ListedOnce)
    (hc : d.class? id = some c) (hv : v ∈ c.typeParams)
    (hid : t.head? = some id) (hcounted : d.Counted t)
    (hhoused : t.Chained d.Housed) :
    argumentFor c.typeParams v t = d.chainValue t v := by
  cases t with
  | nominal _ => rfl
  | parameterized id' args owner =>
      obtain rfl := Option.some.inj hid
      obtain ⟨c', hc', hlen⟩ := hcounted.counts
      obtain rfl := Option.some.inj (hc.symm.trans hc')
      have hparams := paramsOf_eq hc
      rw [chainValue_parameterized (h.unshadowed hwf) hhoused,
        hparams, if_pos hv, lastValue_eq_place (h.distinct hc) hlen hv]
      rfl
  | var _ | wildcard _ _ | genericArray _ | capture _ => cases hid

end Declarations

namespace Resolver

open Resolve Declarations

variable {r : Resolver} {id declaring : ClassId} {c : ClassDecl}
  {v : TypeVarId} {t g : Ty} {depth : Nat} {ctx : Context}
  {arena : Array CaptureDef}

/-! ## The view -/

/-- What is above a type of a class is of a class, and keeps owners of the
classes around if that and all declared supertypes do. -/
theorem housed_above (h : r.env.WellFormed)
    (hdeclared : ∀ {id c}, r.env.class? id = some c →
      ∀ s ∈ c.supertypes, s.Chained r.env.Housed)
    (ht : r.env.Supplies id t) (hhoused : t.Chained r.env.Housed)
    (hup : ReflTransGen (r.Directly arena) t g) :
    (∃ id', r.env.Supplies id' g) ∧ g.Chained r.env.Housed := by
  induction hup with
  | refl => exact ⟨⟨id, ht⟩, hhoused⟩
  | tail _ hs ih =>
      obtain ⟨⟨id', hsupplies⟩, -⟩ := ih
      constructor
      · rcases directly_of_class h hsupplies hs with rfl | ⟨parent, hparent, -⟩
        · exact ⟨_, .plain (h.known _ List.mem_cons_self)⟩
        · exact ⟨parent, hparent⟩
      · rcases of_directly_class h hsupplies hs with rfl | ⟨c, s₀, hc, hs₀, rfl⟩
        · exact Ty.chained_of_single rfl trivial
        · exact chained_seen h housed_stable
            (fun _ => trivial) hdeclared hc hs₀ _

/-! ## The two questions -/

/-- A type argument is read off what the search for the declaring class
finds. -/
theorem typeArgument_eq {p : TypeParamDecl}
    (hc : r.env.class? declaring = some c) (hp : r.env.typeParam? v = some p)
    (hdeclaring : p.declaringClass = some declaring) :
    r.typeArgument depth t v = do
      let found ← r.exactSupertype depth t (.named declaring)
      return found >>= argumentFor c.typeParams v := by
  have hparam :
      (liftM (r.env.getTypeParam v) : Resolve TypeParamDecl) = pure p := by
    rw [getTypeParam_eq hp]
    rfl
  rw [typeArgument, hparam, pure_bind, hdeclaring]
  dsimp only
  refine congrArg _ (funext fun found => ?_)
  cases found with
  | none => rfl
  | some view =>
      cases view with
      | parameterized id args owner =>
          dsimp only
          rw [getClass_eq hc]
          rfl
      | nominal _ | var _ | wildcard _ _ | genericArray _ | capture _ => rfl

/-- A member accessed through an owner with nothing to capture keeps its
declared type if the search finds nothing. -/
theorem memberType_kept {declared : Ty}
    (hne : declaring ≠ r.env.wellKnown.object) (hcounted : r.env.Counted t)
    (hconverted : t.Converted)
    (habsent : (r.exactSupertype depth t (.named declaring) ctx).1 = .ok none) :
    (r.memberType depth declaring declared t ctx).1 = .ok declared := by
  have hcapture := capture_run hcounted hconverted ctx
  have hview : (r.viewAs depth declaring t ctx).1 = .ok none := by
    rw [viewAs, bind_ok (congrArg Prod.fst hcapture), hcapture, bind_ok habsent]
    rfl
  rw [memberType, if_neg hne, seenThrough, bind_ok hview]
  rfl

/-- By place and along the chain of owners, what the search finds has the same
value for a parameter of its class. -/
theorem argumentFor_view (h : r.env.WellFormed) (hlisted : r.env.ListedOnce)
    (hdeclared : ∀ {id c}, r.env.class? id = some c →
      ∀ s ∈ c.supertypes, s.Chained r.env.Housed)
    (hctx : r.Reachable ctx) (ht : r.env.Supplies id t)
    (hhoused : t.Chained r.env.Housed) (hc : r.env.class? declaring = some c)
    (hv : v ∈ c.typeParams)
    (hfound : (r.exactSupertype depth t (.named declaring) ctx).1 =
      .ok (some g)) :
    r.env.Supplies declaring g ∧
      argumentFor c.typeParams v g = r.env.chainValue g v := by
  have hfind :=
    (exactSupertype_eq_find hctx.sameButMemo depth t _).symm.trans hfound
  obtain ⟨hup, herase⟩ := find_ancestor hfind
  obtain ⟨⟨id', hsupplies⟩, hhoused'⟩ :=
    housed_above h hdeclared ht hhoused hup
  obtain ⟨⟩ := (erasure?_head hsupplies.head?).symm.trans herase
  exact ⟨hsupplies, argumentFor_eq h hlisted hc hv hsupplies.head?
    hsupplies.counted hhoused'⟩

/-- A type of a class that has no value for a parameter of it is the raw
class. -/
theorem raw_of_valueless (h : r.env.WellFormed)
    (ht : r.env.Supplies declaring t) (hv : v ∈ r.env.paramsOf declaring)
    (hnone : r.env.chainValue t v = none) :
    t = .named declaring ∧ r.env.rawly t = true := by
  cases ht with
  | plain _ =>
      obtain ⟨c, hc, hmem⟩ := mem_paramsOf_iff.1 hv
      exact ⟨rfl, Bool.eq_true_of_not_eq_false fun hraw =>
        not_inScope_of_rawly h hraw (.own hc hmem)⟩
  | @applied args owner hcounted _ =>
      -- counted arguments leave no parameter without a value
      have hlisted :
          v ∈ r.env.chainVars (.parameterized declaring args owner) := by
        cases owner with
        | none => exact hv
        | some o => exact List.mem_append_left _ hv
      have hbound := chainValue_isSome hcounted hlisted
      rw [hnone] at hbound
      cases hbound

/-- The argument that a type supplies for a parameter of a class is the type
that a member declared with the bare parameter has in it. Where there is no
argument, either the type is not below the class and the member keeps the
parameter, or it reaches the class raw and the member is erased. And there is an
answer at every depth above the number of classes. Owners must be of the classes
around, in the type and in declared supertypes; that no owner is missing would
not do (`argument_hidden_by_owner`). -/
theorem typeArgument_memberType (h : r.env.WellFormed)
    (hlisted : r.env.ListedOnce)
    (hdeclared : ∀ {id c}, r.env.class? id = some c →
      ∀ s ∈ c.supertypes, s.Chained r.env.Housed)
    (hctx : r.Reachable ctx) (ht : r.env.Complete ctx.captures.size t)
    (hid : t.head? = some id)
    (hhoused : t.Chained r.env.Housed) (hconverted : t.Converted)
    (hne : declaring ≠ r.env.wellKnown.object)
    (hv : v ∈ r.env.paramsOf declaring) :
    (∀ x, (r.typeArgument depth t v ctx).1 = .ok (some x) →
      (r.memberType depth declaring (.var v) t ctx).1 = .ok x) ∧
    ((r.typeArgument depth t v ctx).1 = .ok none →
      (r.exactSupertype depth t (.named declaring) ctx).1 = .ok none ∧
          (r.memberType depth declaring (.var v) t ctx).1 = .ok (.var v) ∨
        (r.exactSupertype depth t (.named declaring) ctx).1 =
            .ok (some (.named declaring)) ∧
          ∃ e, r.env.erase (.var v) = .ok e ∧
            (r.memberType depth declaring (.var v) t ctx).1 =
              .ok (.nominal e)) ∧
    (r.env.hostTest = none → r.env.classes.size < depth →
      ∃ o, (r.typeArgument depth t v ctx).1 = .ok o) := by
  obtain ⟨c, hc, hmem⟩ := mem_paramsOf_iff.1 hv
  obtain ⟨p, hp, hdeclaring⟩ := hlisted.declaring hc v hmem
  have hsupplies := ht.supplies hid
  rw [typeArgument_eq hc hp hdeclaring]
  refine ⟨fun x hx => ?_, fun hnone => ?_, fun hhost hdepth => ?_⟩
  · obtain ⟨found, ctx', hfound, hx⟩ := of_bind_ok hx
    have hfound := congrArg Prod.fst hfound
    cases found with
    | none => cases hx
    | some view =>
        obtain ⟨hview, heq⟩ := argumentFor_view h hlisted hdeclared hctx
          hsupplies hhoused hc hmem hfound
        rw [memberType_of_view ht.counted hconverted hne hfound _]
        exact substituteThrough_var hview.counted
          (heq.symm.trans (Outcome.ok.inj hx))
  · obtain ⟨found, ctx', hfound, hnone⟩ := of_bind_ok hnone
    have hfound := congrArg Prod.fst hfound
    cases found with
    | none =>
        exact .inl ⟨hfound, memberType_kept hne ht.counted hconverted hfound⟩
    | some view =>
        obtain ⟨hview, heq⟩ := argumentFor_view h hlisted hdeclared hctx
          hsupplies hhoused hc hmem hfound
        obtain ⟨rfl, hraw⟩ :=
          raw_of_valueless h hview hv (heq.symm.trans (Outcome.ok.inj hnone))
        have hvar : r.env.Complete 0 (.var v) := fun x hx =>
          List.mem_singleton.1 hx ▸ ⟨p, hp⟩
        obtain ⟨e, he⟩ := h.erase_ok hvar rfl
        exact .inr ⟨hfound, e, he,
          (memberType_of_view ht.counted hconverted hne hfound _).trans
            (substituteThrough_raw hraw he)⟩
  · obtain ⟨rank, hle, hrank⟩ := exists_rank_extends h.hierarchy
    obtain ⟨found, hfound, -⟩ :=
      @find_class r ctx.captures h hhost declaring hne rank hrank depth t
        id hsupplies (Nat.lt_of_le_of_lt (hle id) hdepth)
    rw [← exactSupertype_eq_find hctx.sameButMemo] at hfound
    exact ⟨_, by rw [bind_ok hfound]; rfl⟩

end Resolver

namespace TypeStore

open Declarations

theorem leaves_listedOnce : leaves.toDeclarations.ListedOnce where
  distinct := fun hc => forall_class (d := leaves.toDeclarations)
    (P := fun _ c => c.typeParams.Nodup) (by decide) hc
  declaring := fun hc => forall_class (d := leaves.toDeclarations)
    (P := fun id c => ∀ v ∈ c.typeParams,
      ∃ p ∈ leaves.toDeclarations.typeParam? v, p.declaringClass = some id)
    (by decide) hc

/-- `Leaf` is compared with a `String`, as it gets there from
`Outer<String>.Inner`. -/
theorem leaf_compared_with_string :
    (leaves.resolver.typeArgument 16 (.named (Seed.free 2)) ⟨0⟩ .empty).1 =
      .ok (some (.named Seed.string)) ∧
    (leaves.resolver.memberType 16 Seed.comparable (Seed.tv 0)
        (.named (Seed.free 2)) .empty).1 =
      .ok (.named Seed.string) := by
  obtain ⟨hsome, -, -⟩ :=
    @Resolver.typeArgument_memberType leaves.resolver (Seed.free 2)
      Seed.comparable ⟨0⟩ (.named (Seed.free 2)) 16 .empty
      leaves_disciplined.wellFormed leaves_listedOnce leaves_lawful.housed
      .start (by decide) rfl (by decide) trivial (by decide) (by decide)
  have hrun : (leaves.resolver.typeArgument 16 (.named (Seed.free 2))
        ⟨0⟩ .empty).1 =
      .ok (some (.named Seed.string)) := rfl
  exact ⟨hrun, hsome _ hrun⟩

theorem misowned_listedOnce : misowned.toDeclarations.ListedOnce where
  distinct := fun hc => forall_class (d := misowned.toDeclarations)
    (P := fun _ c => c.typeParams.Nodup) (by decide) hc
  declaring := fun hc => forall_class (d := misowned.toDeclarations)
    (P := fun id c => ∀ v ∈ c.typeParams,
      ∃ p ∈ misowned.toDeclarations.typeParam? v, p.declaringClass = some id)
    (by decide) hc

/-- In `P<Integer>.P<String>` the argument of `P` is `String` by its place, and
`Integer` to a member of `P`. It is the same for `Leaf`, which is declared below
that, and has no owner itself. -/
theorem argument_hidden_by_owner :
    misowned.toDeclarations.WellFormed ∧ misowned.toDeclarations.ListedOnce ∧
      ⟨2⟩ ∈ misowned.toDeclarations.paramsOf (Seed.free 0) ∧
      ∀ t ∈ [Seed.ownedByItself, .named (Seed.free 1)],
        misowned.toDeclarations.Complete 0 t ∧ t.Converted ∧
          ∀ depth, (misowned.resolver.typeArgument (depth + 3) t ⟨2⟩ .empty).1 =
              .ok (some (.named Seed.string)) ∧
            (misowned.resolver.memberType (depth + 3) (Seed.free 0)
              (Seed.tv 2) t .empty).1 = .ok (.named Seed.integer) := by
  have hplace :
      (⟨2⟩ : TypeVarId) ∈ misowned.toDeclarations.paramsOf (Seed.free 0) := by
    decide
  refine ⟨misowned_disciplined.wellFormed, misowned_listedOnce, hplace,
    fun t ht => ?_⟩
  simp only [List.mem_cons, List.not_mem_nil, or_false] at ht
  rcases ht with rfl | rfl
  · exact ⟨by decide, by decide, fun depth => ⟨rfl, rfl⟩⟩
  · exact ⟨by decide, trivial, fun depth => ⟨rfl, rfl⟩⟩

end TypeStore

end GenericTypes
