import GenericTypes.Proofs.Checking
import GenericTypes.Proofs.Conversion
import GenericTypes.Proofs.Memo
import GenericTypes.Proofs.Search

/-!
# Members of every ancestor resolve

The type of a member is worked out in three steps, and each hands the next what
it needs. Capture conversion keeps the chain of the owner, so the captured owner
supplies what its class uses. The search goes up the hierarchy through types
that supply what their classes use, and ends at one of the declaring class. And
through such a type every type that the class declares can be seen, with no
variables in it but those of the owner and of the member itself.

The resolver is taken at any point of any history. What it remembers then is
sound, so it answers as one that remembers nothing, and the three steps are
those of a resolver without a memo.
-/

namespace GenericTypes

open Relation

namespace Resolver

open Resolve Declarations

/-- A context that a resolver can come to, whatever it is asked and however the
requests end. -/
inductive Reachable (r : Resolver) : Context → Prop where
  | start : Reachable r .empty
  | step {ctx : Context} (h : Reachable r ctx) (depth : Nat) (q : Request) :
      Reachable r (r.answer depth q ctx).2

theorem Reachable.memoSound {r : Resolver} {ctx : Context}
    (h : r.Reachable ctx) : r.MemoSound ctx.memo := by
  induction h with
  | start => exact memoSound_nil r
  | @step ctx _ depth q ih =>
      exact (answer_simulates r depth q ctx ctx ⟨rfl, rfl, ih⟩).2.memo

/-- A reachable context is as good as itself to a resolver that remembers
nothing. -/
theorem Reachable.sameButMemo {r : Resolver} {ctx : Context}
    (h : r.Reachable ctx) : r.SameButMemo ctx ctx :=
  ⟨rfl, rfl, h.memoSound⟩

end Resolver

namespace Declarations

/-- A type that members can be accessed through: the class `id`, plain or with
counted arguments along its owners, which supply what the class uses and what
the bounds of their own parameters mention. -/
structure Owner (d : Declarations) (id : ClassId) (t : Ty) : Prop where
  supplies : d.Supplies id t
  bounded : d.Bounded t

/-- What a method of an instance mentions belongs to the method, or its class
uses it. -/
theorem own_or_uses {d : Declarations} {id : ClassId} {c : ClassDecl}
    {m : MethodDecl} {t : Ty} {v : TypeVarId} (hc : d.class? id = some c)
    (hm : m ∈ c.methods) (hstatic : m.isStatic = false) (ht : t ∈ m.types)
    (hv : .var v ∈ t.parts) : v ∈ m.typeParams ∨ d.Uses id v := by
  by_cases hown : v ∈ m.typeParams
  · exact .inl hown
  · exact .inr (.method hc hm hstatic hown ht hv)

theorem Supplies.counted {d : Declarations} {id : ClassId} {t : Ty}
    (h : d.Supplies id t) : d.Counted t := by
  cases h with
  | plain _ => trivial
  | applied hcounted _ => exact hcounted

end Declarations

namespace Resolver

open Resolve Declarations

variable {r : Resolver} {id declaring : ClassId} {owner : Ty} {depth : Nat}
  {c : ClassDecl}

/-- The capture of an owner is still a type of its class that supplies what the
class uses. -/
theorem supplies_captured (n : Nat) {t : Ty} (h : r.env.Supplies id t) :
    r.env.Supplies id (r.captured n t).1 := by
  obtain ⟨hhead, hcounted, hvars⟩ := captured_chain (r := r) n h.counted
  cases h with
  | plain hdef => exact .plain hdef
  | @applied args o _ hused =>
      have hkeep : ∀ v, r.env.Uses id v →
          v ∈ r.env.chainVars (r.captured n (.parameterized id args o)).1 :=
        fun v hv => hvars ▸ hused v hv
      cases o with
      | none => exact .applied hcounted hkeep
      | some o => exact .applied hcounted hkeep

/-- The owner is captured, and the search from there for the class `declaring`
ends with the type `view`. -/
def SeenAs (r : Resolver) (depth : Nat) (ctx : Context) (owner : Ty)
    (declaring : ClassId) (view : Ty) : Prop :=
  ∃ captured, (r.capture owner ctx).1 = .ok captured ∧
    (r.exactSupertype depth captured (.named declaring)
      (r.capture owner ctx).2).1 = .ok (some view)

theorem SeenAs.viewAs {ctx : Context} {view : Ty}
    (h : r.SeenAs depth ctx owner declaring view) :
    (r.viewAs depth declaring owner ctx).1 = .ok (some view) := by
  obtain ⟨captured, hcapture, hsearch⟩ := h
  rw [Resolver.viewAs, bind_ok hcapture, bind_ok hsearch]
  rfl

theorem seenAs_of_viewAs {ctx : Context} {view : Ty}
    (h : (r.viewAs depth declaring owner ctx).1 = .ok (some view)) :
    r.SeenAs depth ctx owner declaring view := by
  obtain ⟨captured, opened, hcapture, h⟩ := of_bind_ok h
  obtain ⟨found, ctx', hsearch, h⟩ := of_bind_ok h
  cases found with
  | none => cases h
  | some v =>
      obtain rfl := Option.some.inj (Outcome.ok.inj h)
      exact ⟨captured, by rw [hcapture], by rw [hcapture, hsearch]⟩

/-- Through an owner that has a view, a declared type is seen with the arguments
of the view put in. -/
theorem SeenAs.seenThrough {ctx : Context} {view : Ty}
    (h : r.SeenAs depth ctx owner declaring view) (declared : Ty)
    (own : List TypeVarId) :
    (r.seenThrough depth declaring declared owner own ctx).1 =
      r.substituteThrough declared view own := by
  rw [Resolver.seenThrough, bind_ok h.viewAs]
  rfl

/-- An owner below the declaring class has a view as that class, which supplies
what the class uses and mentions no variables but those of the owner. -/
theorem exists_seenAs (h : r.env.WellFormed) (hhost : r.env.hostTest = none)
    (hplain : r.config.memoizeSupertypes = false)
    (howner : r.env.Owner id owner) (hne : declaring ≠ r.env.wellKnown.object)
    (habove : ReflTransGen r.env.Extends id declaring)
    (hdepth : r.env.classes.size < depth) (ctx : Context) :
    ∃ view, r.SeenAs depth ctx owner declaring view ∧
      r.env.Supplies declaring view ∧
      ∀ v, .var v ∈ view.parts → .var v ∈ owner.parts := by
  obtain ⟨rank, hle, hrank⟩ := exists_rank_extends h.hierarchy
  obtain ⟨ctx₁, hcapture, -⟩ :=
    capture_eq h ctx howner.supplies.counted howner.bounded
  let captured := (r.captured ctx.captures.size owner).1
  have hcaptured : r.env.Supplies id captured :=
    supplies_captured _ howner.supplies
  obtain ⟨found, hfind, hreach, hview⟩ :=
    @find_class r ctx₁.captures h hhost declaring hne rank hrank depth
      captured id hcaptured (Nat.lt_of_le_of_lt (hle id) hdepth)
  obtain ⟨hout, -⟩ :=
    exactSupertype_reads hplain (.named declaring) depth captured ctx₁
  cases found with
  | none => exact absurd rfl (hreach habove)
  | some view =>
      obtain ⟨hsupplies, hvars⟩ := hview view rfl
      refine ⟨view, ⟨captured, ?_, ?_⟩, hsupplies,
        fun v hv => var_mem_captured _ (hvars v hv)⟩
      · rw [hcapture]
      · rw [hcapture]
        exact hout.trans hfind

/-- A declared type whose variables the declaring class uses, or are the
member's own, is seen through every owner below that class. -/
theorem seenThrough_ok {declared : Ty} {own : List TypeVarId}
    (h : r.env.WellFormed) (hhost : r.env.hostTest = none)
    (hplain : r.config.memoizeSupertypes = false)
    (howner : r.env.Owner id owner) (hne : declaring ≠ r.env.wellKnown.object)
    (habove : ReflTransGen r.env.Extends id declaring)
    (hdepth : r.env.classes.size < depth) (ht : r.env.Proper 0 declared)
    (hvars : ∀ v, .var v ∈ declared.parts → v ∈ own ∨ r.env.Uses declaring v)
    (ctx : Context) :
    ∃ t, (r.seenThrough depth declaring declared owner own ctx).1 = .ok t ∧
      ∀ v, .var v ∈ t.parts → .var v ∈ owner.parts ∨ v ∈ own := by
  obtain ⟨view, hview, hsupplies, hfree⟩ :=
    exists_seenAs h hhost hplain howner hne habove hdepth ctx
  refine ⟨seen r.env.toDeclarations view declared, ?_, fun v hv =>
    (var_mem_seen hsupplies hvars h ht hv).imp_left (hfree v)⟩
  exact (hview.seenThrough declared own).trans
    (substituteThrough_eq h hsupplies ht hvars)

/-- The variables that may be left in the type of a member of `declaring`, seen
through `owner`: those of the owner and the member's own. Members of the top
type keep their declared type. -/
def MayMention (d : Declarations) (declaring : ClassId) (owner : Ty)
    (own : List TypeVarId) (v : TypeVarId) : Prop :=
  .var v ∈ owner.parts ∨ v ∈ own ∨ declaring = d.wellKnown.object ∧
    d.InScope declaring v

section Plain

variable (h : r.env.WellFormed) (hhost : r.env.hostTest = none)
  (hplain : r.config.memoizeSupertypes = false) (howner : r.env.Owner id owner)
  (habove : declaring = r.env.wellKnown.object ∨
    ReflTransGen r.env.Extends id declaring)
  (hdepth : r.env.classes.size < depth) (hc : r.env.class? declaring = some c)

include h hhost hplain howner habove hdepth hc

theorem returnType_ok {m : MethodDecl} (hm : m ∈ c.methods)
    (hstatic : m.isStatic = false) (ctx : Context) :
    ∃ t, (r.returnType depth declaring m owner ctx).1 = .ok t ∧
      t.isSome = m.returnType.isSome ∧ ∀ s ∈ t, ∀ v, .var v ∈ s.parts →
        MayMention r.env.toDeclarations declaring owner m.typeParams v := by
  unfold returnType
  cases hret : m.returnType with
  | none => exact ⟨none, rfl, rfl, fun s hs => nomatch hs⟩
  | some declared =>
      have hmem : declared ∈ m.types := by
        rw [MethodDecl.types, hret]
        exact List.mem_append_right _ (List.mem_singleton_self declared)
      have hvars : ∀ v, .var v ∈ declared.parts →
          v ∈ m.typeParams ∨ r.env.Uses declaring v := fun v hv =>
        own_or_uses hc hm hstatic hmem hv
      dsimp only
      rw [hstatic, Bool.false_or]
      by_cases htop : declaring = r.env.wellKnown.object
      · rw [if_pos (decide_eq_true htop)]
        refine ⟨some declared, rfl, rfl, fun s hs v hv => ?_⟩
        obtain rfl := Option.mem_some_iff.1 hs
        rcases hvars v hv with hown | huses
        · exact .inr (.inl hown)
        · exact .inr (.inr ⟨htop, h.scoping huses⟩)
      · rw [if_neg fun hdec => htop (of_decide_eq_true hdec)]
        obtain ⟨t, ht, hfree⟩ := seenThrough_ok h hhost hplain howner htop
          (habove.resolve_left htop) hdepth
          ((h.methods hc m hm).2 declared hmem) hvars ctx
        refine ⟨some t, ?_, rfl, fun s hs v hv => ?_⟩
        · rw [bind_ok ht]
          rfl
        · obtain rfl := Option.mem_some_iff.1 hs
          exact (hfree v hv).imp_right .inl

end Plain

end Resolver

end GenericTypes
