import GenericTypes.Proofs.NamedMembers
import GenericTypes.Proofs.WaysUp

/-!
# Methods that only the resolver inherits

An interface that is declared under nothing has the top type for its direct
supertype, so long as the knob for that is on, and with it the methods of the
top class above it. The lookup of a method by name knows nothing of this. It
follows the declared hierarchy, which ends at the interface.

So there are two relations between classes. The direct supertypes of a type lead
to types of just those classes that `Parent` leads to (`parents_of_above`,
`exists_above`), whatever arguments are put in and whether the type is raw. The
declared hierarchy is a part of this, and what it leaves out are the ways
through an implicit edge. All of these go on from the top class, so that one
question settles what they are worth: whether the top class has the method, or
one above it (`methodAbove_iff`).
-/

namespace GenericTypes

open Relation

namespace Declarations

variable {d : Declarations} {id : ClassId} {name : String}

/-- A method is found exactly if a class that the hierarchy leads to has one of
the name. -/
theorem lookupMethod_isSome_iff : (d.lookupMethod id name).isSome ↔
    ∃ reached c, ReflTransGen d.Extends id reached ∧ d.class? reached = some c ∧
      ∃ m ∈ c.methods, m.name = name := by
  have hnone : d.lookupMethod id name = none ↔ ∀ c, d.isDefined c →
      ReflTransGen d.Extends id c →
      d.Lacks ClassDecl.methods MethodDecl.name name c := lookup_eq_none_iff
  rw [← not_iff_not, Option.not_isSome_iff_eq_none, hnone]
  constructor
  · rintro hlacks ⟨reached, c, hup, hc, m, hm, hname⟩
    exact hlacks reached (isDefined_iff.2 ⟨c, hc⟩) hup c hc m hm hname
  · intro hno reached _ hup c hc m hm hname
    exact hno ⟨reached, c, hup, hc, m, hm, hname⟩

end Declarations

namespace Resolver

open Resolve Declarations

variable {r : Resolver} {arena : Array CaptureDef}
  {ctx : Context} {id id' parent : ClassId} {t s owner : Ty}
  {name : String} {depth : Nat}

/-! ## Classes above -/

section

variable (h : r.env.WellFormed)

include h

theorem parent_of_directly (ht : r.env.Supplies id t)
    (hs : r.Directly arena t s) :
    ∃ parent, r.Parent id parent ∧ r.env.Supplies parent s := by
  obtain ⟨c, hc, hs⟩ := mem_of_directly h ht hs
  obtain ⟨⟨parent, hext, hparent⟩ | ⟨rfl, hnone, hkind, htop⟩, -⟩ :=
    of_mem_seenSupertypes h ht hc hs
  · exact ⟨parent, .declared hext, hparent⟩
  · exact ⟨_, .implicit htop (.implicit hc hkind hnone),
      .plain (h.known _ List.mem_cons_self)⟩

theorem exists_directly (ht : r.env.Supplies id t)
    (hparent : r.Parent id parent) :
    ∃ s, r.Directly arena t s ∧ r.env.Supplies parent s := by
  obtain ⟨c, hc, habove⟩ := exists_above_eq arena h ht
  rcases hparent.cases with hext | ⟨htop, rfl, c', hc', hkind, hnone⟩
  · obtain ⟨s, hs, hsupplies⟩ := exists_mem_seenSupertypes t h hc hext
    exact ⟨s, ⟨_, habove, hs⟩, hsupplies⟩
  · obtain rfl := Option.some.inj (hc.symm.trans hc')
    refine ⟨r.env.top, ⟨_, habove, ?_⟩, .plain (h.known _ List.mem_cons_self)⟩
    rw [seenSupertypes, hnone, hkind, htop]
    exact List.mem_cons_self

theorem parents_of_above (ht : r.env.Supplies id t)
    (hs : ReflTransGen (r.Directly arena) t s) :
    ∃ id', ReflTransGen r.Parent id id' ∧ r.env.Supplies id' s := by
  induction hs with
  | refl => exact ⟨id, .refl, ht⟩
  | tail _ hs ih =>
      obtain ⟨mid, hup, hmid⟩ := ih
      obtain ⟨parent, hparent, hsupplies⟩ := parent_of_directly h hmid hs
      exact ⟨parent, hup.tail hparent, hsupplies⟩

theorem exists_above (ht : r.env.Supplies id t)
    (hup : ReflTransGen r.Parent id id') :
    ∃ s, ReflTransGen (r.Directly arena) t s ∧ r.env.Supplies id' s := by
  induction hup with
  | refl => exact ⟨t, .refl, ht⟩
  | tail _ hparent ih =>
      obtain ⟨s, hs, hsupplies⟩ := ih
      obtain ⟨g, hg, hsupplies'⟩ := exists_directly h hsupplies hparent
      exact ⟨g, hs.tail hg, hsupplies'⟩

end

/-! ## Methods above -/

/-- Some type that direct supertypes lead to from `t`, or `t` itself, erases to
a class that declares a method of the name. -/
def MethodAbove (r : Resolver) (ctx : Context) (t : Ty)
    (name : String) : Prop :=
  ∃ s id c, ReflTransGen (r.Steps ctx) t s ∧ r.env.erase s = .ok (.named id) ∧
    r.env.class? id = some c ∧ ∃ m ∈ c.methods, m.name = name

theorem methodAbove_iff (h : r.env.WellFormed) (hsame : r.SameButMemo ctx ctx)
    (ht : r.env.Supplies id t) : r.MethodAbove ctx t name ↔
      (r.env.lookupMethod id name).isSome ∨
      r.config.implicitObjectSupertype = true ∧
        r.env.LeadsToLone id ∧
        (r.env.lookupMethod r.env.wellKnown.object name).isSome := by
  have hparents : r.MethodAbove ctx t name ↔
        ∃ id' c, ReflTransGen r.Parent id id' ∧
      r.env.class? id' = some c ∧ ∃ m ∈ c.methods, m.name = name := by
    rw [MethodAbove, steps_eq hsame]
    constructor
    · rintro ⟨s, id', c, hs, herase, hc⟩
      obtain ⟨mid, hup, hmid⟩ := parents_of_above h ht hs
      obtain ⟨⟩ := (erase_head hmid.head?).symm.trans herase
      exact ⟨id', c, hup, hc⟩
    · rintro ⟨id', c, hup, hc⟩
      obtain ⟨s, hs, hsupplies⟩ := exists_above h ht hup
      exact ⟨s, id', c, hs, erase_head hsupplies.head?, hc⟩
  rw [hparents, lookupMethod_isSome_iff, lookupMethod_isSome_iff]
  constructor
  · rintro ⟨id', c, hup, hc⟩
    rcases parents_iff.1 hup with hup | ⟨htop, hlone, hup⟩
    · exact .inl ⟨id', c, hup, hc⟩
    · exact .inr ⟨htop, hlone, id', c, hup, hc⟩
  · rintro (⟨id', c, hup, hc⟩ | ⟨htop, hlone, id', c, hup, hc⟩)
    · exact ⟨id', c, parents_iff.2 (.inl hup), hc⟩
    · exact ⟨id', c, parents_iff.2 (.inr ⟨htop, hlone, hup⟩), hc⟩

/-! ## Return types by name -/

/-- There is an answer for every method that the lookup finds. -/
theorem returnTypeByName_ok (h : r.env.WellFormed)
    (hhost : r.env.hostTest = none)
    (hplain : r.config.memoizeSupertypes = false)
    (howner : r.env.Owner id owner) (hclass : ownerClass? owner = some id)
    (hdepth : r.env.classes.size < depth) (ctx : Context) :
    ∃ found, (r.returnTypeByName depth owner name ctx).1 = .ok found := by
  rw [returnTypeByName, hclass, Option.bind_eq_bind, Option.bind_some]
  cases hmethod : r.env.lookupMethod id name with
  | none => exact ⟨none, rfl⟩
  | some found =>
      obtain ⟨declaring, method⟩ := found
      obtain ⟨⟨c, front, back, hc, hmethods, -⟩, hreached, -⟩ :
          r.env.NearestMember ClassDecl.methods MethodDecl.name name id
          declaring method :=
        lookup_nearest hmethod
      have hmem : method ∈ c.methods := by
        rw [hmethods]
        exact List.mem_append_right _ List.mem_cons_self
      have htype :
          ∃ t, (r.returnType depth declaring method owner ctx).1 = .ok t := by
        cases hstatic : method.isStatic with
        | false =>
            obtain ⟨t, ht, -⟩ :=
              returnType_ok h hhost hplain howner (.inr hreached) hdepth hc hmem
                hstatic ctx
            exact ⟨t, ht⟩
        | true =>
            rw [returnType, hstatic]
            cases method.returnType with
            | none => exact ⟨none, rfl⟩
            | some declared => exact ⟨some declared, rfl⟩
      obtain ⟨t, ht⟩ := htype
      exact ⟨some t, by dsimp only; rw [bind_ok ht]; rfl⟩

/-- An answer is there exactly if the lookup found a method. -/
theorem returnTypeByName_isSome_iff {found : Option (Option Ty)}
    (hclass : ownerClass? owner = some id)
    (hfound : (r.returnTypeByName depth owner name ctx).1 = .ok found) :
    found.isSome ↔ (r.env.lookupMethod id name).isSome := by
  rw [returnTypeByName, hclass, Option.bind_eq_bind, Option.bind_some] at hfound
  cases hmethod : r.env.lookupMethod id name with
  | none =>
      rw [hmethod] at hfound
      obtain rfl := Outcome.ok.inj hfound
      rfl
  | some method =>
      rw [hmethod] at hfound
      obtain ⟨t, ctx', -, ht⟩ := of_bind_ok hfound
      obtain rfl := Outcome.ok.inj ht
      exact iff_of_true rfl rfl

/-- Over well-formed declarations, at any point of any history, a method that is
found by name is above the captured owner. The converse holds unless an
interface that is declared under nothing has the method from the top type: just
where the declared hierarchy leads from the class of the owner to such an
interface, and to no method of the name, while the top class has one. -/
theorem methods_by_name_iff {n : Nat} (h : r.env.WellFormed)
    (hctx : r.Reachable ctx) (howner : r.env.Complete n owner)
    (hclass : ownerClass? owner = some id) (name : String) :
    ∃ captured ctx', r.capture owner ctx = (.ok captured, ctx') ∧
      (r.env.hostTest = none → ∀ depth, r.env.classes.size < depth →
        ∃ found, (r.returnTypeByName depth owner name ctx).1 = .ok found) ∧
      ∀ depth found, (r.returnTypeByName depth owner name ctx).1 = .ok found →
        (found.isSome → r.MethodAbove ctx' captured name) ∧
        ((found.isSome ↔ r.MethodAbove ctx' captured name) ↔
          (r.config.implicitObjectSupertype = true → r.env.LeadsToLone id →
            (r.env.lookupMethod r.env.wellKnown.object name).isSome →
              (r.env.lookupMethod id name).isSome)) := by
  have howner : r.env.Owner id owner :=
    ⟨howner.supplies (head?_of_ownerClass? hclass), howner.bounded⟩
  obtain ⟨ctx', hcapture, -⟩ :=
    capture_eq h ctx howner.supplies.counted howner.bounded
  have hsame' : r.SameButMemo ctx' ctx' := by
    have hstep := hctx.step 0 (.capture owner)
    have hafter : (r.answer 0 (.capture owner) ctx).2 = ctx' := by
      rw [answer, bind_apply, hcapture]
      rfl
    rw [hafter] at hstep
    exact hstep.sameButMemo
  refine ⟨_, ctx', hcapture, fun hhost depth hdepth => ?_,
    fun depth found hfound => ?_⟩
  · rw [(returnTypeByName_simulates r depth owner name ctx ctx
      hctx.sameButMemo).1]
    exact @returnTypeByName_ok r.forgetting id owner name depth h hhost rfl
      howner hclass hdepth ctx
  · rw [methodAbove_iff h hsame' (supplies_captured _ howner.supplies),
      returnTypeByName_isSome_iff hclass hfound]
    refine ⟨.inl, fun hiff htop hlone hobject =>
        hiff.2 (.inr ⟨htop, hlone, hobject⟩),
      fun himp => ⟨.inl, ?_⟩⟩
    rintro (hdeclared | ⟨htop, hlone, hobject⟩)
    · exact hdeclared
    · exact himp htop hlone hobject

open TypeStore

/-- The `length` of a string is that of the character sequence above it. -/
theorem length_by_name : ∃ captured ctx',
    coreResolver.capture (.named Seed.string) .empty = (.ok captured, ctx') ∧
      coreResolver.MethodAbove ctx' captured "length" := by
  have hcomplete : core.toDeclarations.Complete 0 (.named Seed.string) := by
    decide
  obtain ⟨captured, ctx', hcapture, hends, hfound⟩ :=
    methods_by_name_iff core_wellFormed
      (Reachable.start (r := coreResolver)) hcomplete rfl "length"
  obtain ⟨found, hanswer⟩ := hends rfl 16 (by decide)
  have hlookup : (core.toDeclarations.lookupMethod Seed.string
      "length").isSome := by decide
  have hsome :=
    (returnTypeByName_isSome_iff (r := coreResolver) rfl hanswer).2 hlookup
  exact ⟨captured, ctx', hcapture, (hfound 16 found hanswer).1 hsome⟩

/-- A character sequence is an object, and objects have `toString`; but asked
for by name, a character sequence has none. -/
theorem toString_hidden :
    (∀ depth, (coreResolver.returnTypeByName depth
      (.named Seed.charSequence) "toString" .empty).1 = .ok none) ∧
    coreResolver.capture (.named Seed.charSequence) .empty =
      (.ok (.named Seed.charSequence), .empty) ∧
    coreResolver.MethodAbove .empty (.named Seed.charSequence) "toString" := by
  have hmethod : ∃ c, core.toDeclarations.class? Seed.object = some c ∧
      ∃ m ∈ c.methods, m.name = "toString" := by
    decide
  obtain ⟨c, hc, hdeclares⟩ := hmethod
  have hstep : coreResolver.Steps .empty (.named Seed.charSequence)
      (.named Seed.object) :=
    ⟨_, _, rfl, List.mem_cons_self⟩
  exact ⟨fun _ => rfl, rfl, _, _, c, .single hstep, rfl, hc, hdeclares⟩

end Resolver

end GenericTypes
