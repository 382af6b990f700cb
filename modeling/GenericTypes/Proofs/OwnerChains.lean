import GenericTypes.Proofs.Ancestors
import GenericTypes.Proofs.DirectSupertypes

/-!
# Chains of owners in order

A type of a member class may carry an owner, a type of the class around it, and
that an owner of its own. Nothing makes such a chain follow the declarations: an
owner may be of some other class, a class may be named raw in the middle, and
one type of a member class may have an owner where another has none. What is
asked of a chain link by link (`Chained`) survives that values are put in, and
so holds of all that a class inherits once it holds of what is declared.

Comparing a type with a view of its class, without wildcards, is comparing the
arguments along both chains as far as both go (`Matches`). Of a class with no
variable in scope all types match (`matches_of_plain`). Matching is not
transitive by itself, for a type without an owner matches every owner; it is
where types of a class all have one or none has (`Matches.trans`). And types
that match see the same of what their class declares (`chainSubst_of_matches`),
where chains of one shape meet or no class lists a variable of a class around
it.
-/

namespace GenericTypes

open Relation

/-- What is left of a class without its brackets. -/
def Class.base : Class → Class
  | .array c => c.base
  | .named id => .named id
  | .primitive p => .primitive p

namespace Ty

variable {s t g k : Ty} {φ : TypeVarId → Ty} {P : Ty → Prop}

/-- What the brackets of a type enclose, its owner, the owner of that, and so
on. -/
def chain : Ty → List Ty
  | .nominal c => [.nominal c.base]
  | .parameterized id args none => [.parameterized id args none]
  | .parameterized id args (some owner) =>
      .parameterized id args (some owner) :: owner.chain
  | .var v => [.var v]
  | .wildcard upper lower => [.wildcard upper lower]
  | .genericArray t => t.chain
  | .capture i => [.capture i]

/-- A condition holds of each link of the chain. -/
def Chained (P : Ty → Prop) (t : Ty) : Prop := ∀ x ∈ t.chain, P x

instance decidableChained [DecidablePred P] (t : Ty) :
    Decidable (t.Chained P) :=
  inferInstanceAs (Decidable (∀ x ∈ t.chain, P x))

theorem Chained.mono {Q : Ty → Prop} (h : t.Chained P) (hPQ : ∀ x, P x → Q x) :
    t.Chained Q :=
  fun x hx => hPQ x (h x hx)

theorem chained_owned {id : ClassId} {args : List Ty} {o : Ty} :
    (parameterized id args (some o)).Chained P ↔
      P (.parameterized id args (some o)) ∧ o.Chained P :=
  List.forall_mem_cons

/-- A chain of one link. -/
theorem chained_of_single {x : Ty} (ht : t.chain = [x]) (hx : P x) :
    t.Chained P := by
  rw [Chained, ht]
  exact List.forall_mem_singleton.2 hx

theorem Chained.link {id : ClassId} {args : List Ty} {owner : Option Ty}
    (h : (parameterized id args owner).Chained P) :
    P (.parameterized id args owner) := by
  cases owner with
  | none => exact h _ List.mem_cons_self
  | some o => exact (chained_owned.1 h).1

theorem Chained.owner {id : ClassId} {args : List Ty}
    {owner : Option Ty} {o : Ty} (h : (parameterized id args owner).Chained P)
    (ho : owner = some o) : o.Chained P := by
  subst ho
  exact (chained_owned.1 h).2

theorem chain_component? (hk : t.component? = some k) : t.chain = k.chain := by
  rcases component?_eq_some_iff.1 hk with ⟨c, rfl, rfl⟩ | rfl <;> rfl

theorem Chained.component? (h : t.Chained P) (hk : t.component? = some k) :
    k.Chained P := by
  rwa [Chained, chain_component? hk] at h

theorem chained_arrayOf : t.arrayOf.Chained P ↔ t.Chained P := by
  rw [Chained, chain_component? (component?_arrayOf t)]
  rfl

/-- A condition on the links of a chain that values for variables do not
touch. -/
def Stable (P : Ty → Prop) : Prop := ∀ x φ, x.head?.isSome → P x → P (x.subst φ)

/-- Putting values in does not change the links, apart from the arguments. -/
theorem Chained.subst {d : Declarations} {n : Nat} (hP : Stable P) : ∀ {t : Ty},
    d.Complete n t → t.head?.isSome → t.Chained P → (t.subst φ).Chained P
  | .nominal _, _, _, h => h
  | .parameterized id args none, _, _, h =>
      chained_of_single rfl (hP _ φ rfl h.link)
  | .parameterized id args (some o), hcomplete, _, h => by
      have hcomplete' := hcomplete.part owner_mem_parts
      have howner :=
        Chained.subst hP hcomplete' (hcomplete.fits.2.2 o rfl) (h.owner rfl)
      have hlink := hP _ φ rfl h.link
      simp only [Ty.subst, substOwner] at hlink ⊢
      exact chained_owned.2 ⟨hlink, howner⟩

end Ty

namespace Declarations

open Ty (Chained Stable)
open Resolver (seen complete_inherited)

variable {d : Declarations} {n : Nat} {s t g x : Ty} {id outer : ClassId}
  {v : TypeVarId} {carry : ClassId → Bool} {P : Ty → Prop}

/-! ## What is asked of a link -/

/-- An owner is a type of the class around. -/
def Housed (d : Declarations) : Ty → Prop
  | .parameterized id _ owner =>
      ∀ o, owner = some o → ∃ outer, o.head? = some outer ∧
        d.EnclosedBy id outer
  | .nominal _ | .var _ | .wildcard _ _ | .genericArray _ | .capture _ => True

/-- There is an owner exactly for the classes that `carry` says. -/
def Carries (carry : ClassId → Bool) : Ty → Prop
  | .parameterized id _ owner => owner.isSome = carry id
  | .nominal _ | .var _ | .wildcard _ _ | .genericArray _ | .capture _ => True

/-- A link that follows the declarations: not a raw class, and an owner is a
type of the class around. -/
structure Tier (d : Declarations) (x : Ty) : Prop where
  notRaw : d.rawly x = false
  housed : d.Housed x

/-- No class lists a parameter that it has in scope already. -/
def Unshadowed (d : Declarations) : Prop :=
  ∀ {id outer v}, d.EnclosedBy id outer → v ∈ d.paramsOf id →
    ¬ d.InScope outer v

instance decidableEnclosedBy (d : Declarations) (id outer : ClassId) :
    Decidable (d.EnclosedBy id outer) :=
  inferInstanceAs (Decidable (∃ c ∈ d.class? id, c.enclosing = some outer))

instance decidableHoused (d : Declarations) : DecidablePred d.Housed
  | .parameterized id _ owner =>
      inferInstanceAs (Decidable (∀ o ∈ owner, ∃ outer ∈ o.head?,
        d.EnclosedBy id outer))
  | .nominal _ | .var _ | .wildcard _ _ | .genericArray _ | .capture _ =>
      inferInstanceAs (Decidable True)

instance decidableCarries (carry : ClassId → Bool) :
    DecidablePred (Carries carry)
  | .parameterized id _ owner =>
      inferInstanceAs (Decidable (owner.isSome = carry id))
  | .nominal _ | .var _ | .wildcard _ _ | .genericArray _ | .capture _ =>
      inferInstanceAs (Decidable True)

theorem housed_stable : Stable d.Housed := by
  intro x φ hx h
  cases x with
  | nominal _ => trivial
  | parameterized id args owner =>
      simp only [Ty.subst, Ty.substOwner_eq_map]
      intro o ho
      obtain ⟨o', ho', rfl⟩ := Option.map_eq_some_iff.1 ho
      obtain ⟨outer, houter, henc⟩ := h o' ho'
      exact ⟨outer, Ty.head?_subst houter φ, henc⟩
  | var _ | wildcard _ _ | genericArray _ | capture _ => cases hx

theorem carries_stable : Stable (Carries carry) := by
  intro x φ hx h
  cases x with
  | nominal _ => trivial
  | parameterized id args owner =>
      simp only [Ty.subst, Ty.substOwner_eq_map]
      exact Option.isSome_map.trans h
  | var _ | wildcard _ _ | genericArray _ | capture _ => cases hx

theorem tier_stable : Stable d.Tier := by
  intro x φ hx h
  refine ⟨?_, housed_stable x φ hx h.housed⟩
  cases x with
  | nominal _ => exact h.notRaw
  | parameterized _ _ _ => rfl
  | var _ | wildcard _ _ | genericArray _ | capture _ => cases hx

theorem EnclosedBy.unique {outer' : ClassId} (h : d.EnclosedBy id outer)
    (h' : d.EnclosedBy id outer') : outer = outer' := by
  obtain ⟨c, hc, henc⟩ := h
  obtain ⟨c', hc', henc'⟩ := h'
  obtain rfl := Option.some.inj (hc.symm.trans hc')
  exact Option.some.inj (henc.symm.trans henc')

theorem mem_paramsOf_iff :
    v ∈ d.paramsOf id ↔ ∃ c, d.class? id = some c ∧ v ∈ c.typeParams := by
  unfold paramsOf
  cases d.class? id with
  | none => simp
  | some c => simp

theorem inScope_of_mem_paramsOf (hv : v ∈ d.paramsOf id) : d.InScope id v := by
  obtain ⟨c, hc, hv⟩ := mem_paramsOf_iff.1 hv
  exact .own hc hv

/-- What a chain in order binds is in scope. -/
theorem inScope_of_chainValue :
    ∀ {t : Ty} {id : ClassId} {x : Ty}, t.head? = some id →
    t.Chained d.Housed → d.chainValue t v = some x → d.InScope id v
  | .parameterized id args none, _, x, hid, _, hvalue => by
      obtain rfl := Option.some.inj hid
      exact inScope_of_mem_paramsOf (Substitution.mem_of_lastValue hvalue).1
  | .parameterized id args (some o), _, x, hid, hhoused, hvalue => by
      obtain rfl := Option.some.inj hid
      rw [chainValue, Option.or_eq_some_iff] at hvalue
      rcases hvalue with hvalue | ⟨-, hvalue⟩
      · obtain ⟨outer, houter, henc⟩ := hhoused.link o rfl
        exact .outer henc (inScope_of_chainValue houter
          (hhoused.owner rfl) hvalue)
      · exact inScope_of_mem_paramsOf (Substitution.mem_of_lastValue hvalue).1

/-- A class that is not raw where it is named without arguments has no variable
in scope. -/
theorem not_inScope_of_rawly (h : d.WellFormed)
    (hraw : d.rawly (.named id) = false) : ¬ d.InScope id v := by
  intro hv
  obtain ⟨b, hb, hiff⟩ := h.isRaw_ok hv.isDefined
  rw [hiff.2 ⟨v, hv⟩] at hb
  exact Bool.noConfusion ((decide_eq_true hb).symm.trans hraw)

/-- The outermost link is the type itself, where that is of a class. -/
theorem rawly_of_chained (hid : t.head? = some id)
    (h : t.Chained fun x => d.rawly x = false) : d.rawly t = false := by
  rcases Ty.head?_eq_some_iff.1 hid with rfl | ⟨_, _, rfl⟩
  · exact h _ List.mem_cons_self
  · rfl

/-- Links are written in the type, where owners are types of classes. -/
theorem rawly_of_mem_chain : ∀ {t : Ty}, t.head?.isSome → t.Chained d.Housed →
    (∀ x ∈ t.parts, d.rawly x = false) → t.Chained fun x => d.rawly x = false
  | .nominal (.named _), _, _, hparts => hparts
  | .parameterized _ _ none, _, _, _ =>
      fun x hx => List.mem_singleton.1 hx ▸ rfl
  | .parameterized _ _ (some o), _, hhoused, hparts => by
      obtain ⟨outer, houter, -⟩ := hhoused.link o rfl
      have hhead : o.head?.isSome := Option.isSome_iff_exists.2 ⟨outer, houter⟩
      refine Ty.chained_owned.2
        ⟨rfl, rawly_of_mem_chain hhead (hhoused.owner rfl) ?_⟩
      exact fun x hx =>
        hparts x (Ty.mem_parts_parameterized.2 (.inr (.inl ⟨o, rfl, hx⟩)))

/-! ## What is inherited -/

/-- What holds of every plain class and of the chains of declared supertypes
holds of these seen through any type. -/
theorem chained_seen (h : d.WellFormed) (hP : Stable P)
    (hplain : ∀ id, P (.named id))
    (hdeclared : ∀ {id c}, d.class? id = some c →
      ∀ s ∈ c.supertypes, s.Chained P)
      {c : ClassDecl} (hc : d.class? id = some c) (hs : s ∈ c.supertypes)
      (via : Ty) :
    (seen d via s).Chained P := by
  obtain ⟨hhead, hproper⟩ := h.supertypes hc s hs
  obtain ⟨parent, hparent⟩ := Option.isSome_iff_exists.1 hhead
  unfold seen
  split
  · rw [Resolver.erase_head hparent]
    exact Ty.chained_of_single rfl (hplain parent)
  · exact (hdeclared hc s hs).subst hP hproper.complete hhead

/-- What holds of the chains of declared supertypes, none of them raw, holds of
those of all that is inherited. -/
theorem chained_inherited (h : d.WellFormed) (hP : Stable P)
    (hraw : ∀ x, P x → d.rawly x = false)
    (hdeclared : ∀ {id c}, d.class? id = some c →
      ∀ s ∈ c.supertypes, s.Chained P)
      (hg : d.Inherits id g) : g.Chained P := by
  induction hg with
  | declared hc hs => exact hdeclared hc _ hs
  | @through g s parent c hg hparent hc hs ih =>
      have hnot := rawly_of_chained hparent (ih.mono hraw)
      obtain ⟨hhead, hproper⟩ := h.supertypes hc s hs
      rw [seen, hnot, if_neg Bool.false_ne_true]
      exact (hdeclared hc s hs).subst hP hproper.complete hhead

end Declarations

/-! ## Types that match -/

namespace Ty

/-- A type accepts another of its class where neither has wildcards: one of them
has no arguments, or the arguments are the same along both chains, as far as
both go. -/
inductive Matches : Ty → Ty → Prop where
  | left (c : Class) (t : Ty) : Matches (.nominal c) t
  | right (s : Ty) (c : Class) : Matches s (.nominal c)
  | applied {id id' : ClassId} {args : List Ty} {owner owner' : Option Ty}
      (howner : ∀ o o', owner = some o → owner' = some o' → Matches o o') :
      Matches (.parameterized id args owner) (.parameterized id' args owner')
  | array {s t : Ty} (h : Matches s t) : Matches (.genericArray s)
    (.genericArray t)

/-- Arrays match where their components do, in either spelling. -/
theorem matches_component {s t k j : Ty} (hk : s.component? = some k)
    (hj : t.component? = some j) : Matches s t ↔ Matches k j := by
  rcases component?_eq_some_iff.1 hk with ⟨c, rfl, rfl⟩ | rfl
  · exact iff_of_true (.left _ _) (.left _ _)
  rcases component?_eq_some_iff.1 hj with ⟨c, rfl, rfl⟩ | rfl
  · exact iff_of_true (.right _ _) (.right _ _)
  · refine ⟨fun h => ?_, .array⟩
    cases h with
    | array h => exact h

end Ty

namespace Declarations

open Ty (Chained Matches)

variable {d : Declarations} {s t g : Ty} {id outer : ClassId} {v : TypeVarId}
  {carry : ClassId → Bool}

theorem args_eq_nil_of_plain {args : List Ty} (hplain : ∀ v, ¬ d.InScope id v)
    (hcounts : d.Counts id args) : args = [] := by
  obtain ⟨c, hc, hlen⟩ := hcounts
  have hparams : c.typeParams = [] :=
    List.eq_nil_iff_forall_not_mem.2 fun v hv => hplain v (.own hc hv)
  rw [hparams] at hlen
  exact List.length_eq_zero_iff.1 hlen.symm

theorem Counted.counts {args : List Ty} {owner : Option Ty}
    (h : d.Counted (.parameterized id args owner)) : d.Counts id args := by
  cases owner with
  | none => exact h
  | some _ => exact h.1

theorem Counted.owner {args : List Ty} {owner : Option Ty} {o : Ty}
    (h : d.Counted (.parameterized id args owner)) (ho : owner = some o) :
    d.Counted o := by
  subst ho
  exact h.2

/-- Of a class with no variable in scope all types match: there are no arguments
along their chains. -/
theorem matches_of_plain (hplain : ∀ v, ¬ d.InScope id v)
    (hs : s.head? = some id) (ht : t.head? = some id) (hscounted : d.Counted s)
    (htcounted : d.Counted t) (hshoused : s.Chained d.Housed)
    (hthoused : t.Chained d.Housed) : Matches s t := by
  induction s using Ty.induct generalizing t id with
  | nominal c => exact .left c t
  | parameterized id' args owner _ ihowner =>
      obtain rfl := Option.some.inj hs
      cases t with
      | nominal c => exact .right _ c
      | parameterized id'' args' owner' =>
          obtain rfl := Option.some.inj ht
          obtain rfl := args_eq_nil_of_plain hplain hscounted.counts
          obtain rfl := args_eq_nil_of_plain hplain htcounted.counts
          refine .applied fun o o' ho ho' => ?_
          obtain ⟨outer, houter, henc⟩ := hshoused.link o ho
          obtain ⟨outer', houter', henc'⟩ := hthoused.link o' ho'
          obtain rfl := henc.unique henc'
          exact ihowner o ho (fun v hv => hplain v (.outer henc hv))
            houter houter' (hscounted.owner ho) (htcounted.owner ho')
            (hshoused.owner ho) (hthoused.owner ho')
      | var _ | wildcard _ _ | genericArray _ | capture _ => cases ht
  | var _ | wildcard _ _ _ _ | genericArray _ _ | capture _ => cases hs

section

variable (h : d.WellFormed)

include h

/-- Matching is transitive over a type in the middle that is nowhere raw, where
it and the one on the left have owners for the same classes. -/
theorem matches_trans (hs : s.head? = some id) (ht : t.head? = some id)
    (hg : g.head? = some id) (hscounted : d.Counted s) (hgcounted : d.Counted g)
    (hshoused : s.Chained d.Housed) (httier : t.Chained d.Tier)
    (hghoused : g.Chained d.Housed) (hscarries : s.Chained (Carries carry))
    (htcarries : t.Chained (Carries carry)) (hst : Matches s t)
    (htg : Matches t g) : Matches s g := by
  induction s using Ty.induct generalizing t g id with
  | nominal c => exact .left c g
  | parameterized id' args owner ihargs ihowner =>
      obtain rfl := Option.some.inj hs
      rcases Ty.head?_eq_some_iff.1 ht with rfl | ⟨args', owner', rfl⟩
      · have hplain : ∀ v, ¬ d.InScope _ v := fun v =>
          not_inScope_of_rawly h (httier _ List.mem_cons_self).notRaw
        exact matches_of_plain hplain rfl hg hscounted hgcounted
          hshoused hghoused
      rcases Ty.head?_eq_some_iff.1 hg with rfl | ⟨args'', owner'', rfl⟩
      · exact .right _ (.named _)
      cases hst with
      | applied howner =>
          cases htg with
          | applied howner' =>
              refine .applied fun o o'' ho ho'' => ?_
              have howned : owner'.isSome := by
                rw [htcarries.link, ← hscarries.link, ho]
                rfl
              obtain ⟨o', ho'⟩ := Option.isSome_iff_exists.1 howned
              obtain ⟨outer, houter, henc⟩ := hshoused.link o ho
              obtain ⟨mid, hmid, henc'⟩ := httier.link.housed o' ho'
              obtain ⟨last, hlast, henc''⟩ := hghoused.link o'' ho''
              obtain rfl := henc.unique henc'
              obtain rfl := henc.unique henc''
              exact ihowner o ho houter hmid hlast (hscounted.owner ho)
                (hgcounted.owner ho'') (hshoused.owner ho) (httier.owner ho')
                (hghoused.owner ho'') (hscarries.owner ho) (htcarries.owner ho')
                (howner o o' ho ho') (howner' o' o'' ho' ho'')
  | var _ | wildcard _ _ _ _ | genericArray _ _ | capture _ => cases hs

/-! ## What types that match see -/

omit h in
/-- A class with no variable in scope binds none. -/
theorem chainValue_of_plain (hplain : ∀ v, ¬ d.InScope id v)
    (ht : t.head? = some id) (hhoused : t.Chained d.Housed) :
    d.chainValue t v = none := by
  cases hvalue : d.chainValue t v with
  | none => rfl
  | some x => exact absurd (inScope_of_chainValue ht hhoused hvalue) (hplain v)

/-- Along chains of one shape a variable has the same value in types that
match. -/
theorem chainValue_of_carries (hs : s.head? = some id) (ht : t.head? = some id)
    (hstier : s.Chained d.Tier) (httier : t.Chained d.Tier)
    (hscarries : s.Chained (Carries carry))
    (htcarries : t.Chained (Carries carry)) (hst : Matches s t) :
    d.chainValue s v = d.chainValue t v := by
  induction s using Ty.induct generalizing t id with
  | nominal c =>
      cases c with
      | named _ =>
          obtain rfl := Option.some.inj hs
          have hplain := fun v =>
            not_inScope_of_rawly h (v := v) (hstier _ List.mem_cons_self).notRaw
          exact (chainValue_of_plain hplain ht
            (httier.mono fun _ => Tier.housed)).symm
      | primitive _ | array _ => cases hs
  | parameterized id' args owner _ ihowner =>
      obtain rfl := Option.some.inj hs
      rcases Ty.head?_eq_some_iff.1 ht with rfl | ⟨args', owner', rfl⟩
      · have hplain := fun v =>
          not_inScope_of_rawly h (v := v) (httier _ List.mem_cons_self).notRaw
        exact chainValue_of_plain hplain rfl (hstier.mono fun _ => Tier.housed)
      have hshape : owner.isSome = owner'.isSome :=
        hscarries.link.trans htcarries.link.symm
      cases hst with
      | applied howner =>
          cases owner with
          | none =>
              cases owner' with
              | none => rfl
              | some o' => cases hshape
          | some o =>
              cases owner' with
              | none => cases hshape
              | some o' =>
                  obtain ⟨outer, houter, henc⟩ := hstier.link.housed o rfl
                  obtain ⟨outer', houter', henc'⟩ := httier.link.housed o' rfl
                  obtain rfl := henc.unique henc'
                  rw [chainValue, chainValue,
                    ihowner o rfl houter houter' (hstier.owner rfl)
                      (httier.owner rfl) (hscarries.owner rfl)
                      (htcarries.owner rfl)
                    (howner o o' rfl rfl)]
  | var _ | wildcard _ _ _ _ | genericArray _ _ | capture _ => cases hs

omit h

/-- Where no class lists a variable of a class around it, a chain binds each at
one place. -/
theorem chainValue_parameterized (hunshadowed : d.Unshadowed) {args : List Ty}
    {owner : Option Ty}
    (hhoused : (Ty.parameterized id args owner).Chained d.Housed) :
    d.chainValue (.parameterized id args owner) v =
      if v ∈ d.paramsOf id then Substitution.lastValue (d.paramsOf id) args v
      else owner.bind (d.chainValue · v) := by
  split
  · next hv =>
      cases owner with
      | none => rfl
      | some o =>
          obtain ⟨outer, houter, henc⟩ := hhoused.link o rfl
          have hnone : d.chainValue o v = none := by
            cases hvalue : d.chainValue o v with
            | none => rfl
            | some x =>
                have houtside :=
                  inScope_of_chainValue houter (hhoused.owner rfl) hvalue
                exact absurd houtside (hunshadowed henc hv)
          rw [chainValue, hnone, Option.none_or]
  · next hv =>
      have hnone : Substitution.lastValue (d.paramsOf id) args v = none := by
        cases hvalue : Substitution.lastValue (d.paramsOf id) args v with
        | none => rfl
        | some x => exact absurd (Substitution.mem_of_lastValue hvalue).1 hv
      cases owner with
      | none => exact hnone
      | some o =>
          rw [chainValue, hnone, Option.or_none]
          rfl

/-- In types that match a variable then has one value. -/
theorem chainValue_of_unshadowed (hunshadowed : d.Unshadowed) {x y : Ty}
    (hs : s.head? = some id) (ht : t.head? = some id)
    (hshoused : s.Chained d.Housed) (hthoused : t.Chained d.Housed)
    (hst : Matches s t) (hx : d.chainValue s v = some x)
    (hy : d.chainValue t v = some y) : x = y := by
  induction s using Ty.induct generalizing t id with
  | parameterized id' args owner _ ihowner =>
      obtain rfl := Option.some.inj hs
      cases t with
      | parameterized id'' args' owner' =>
          obtain rfl := Option.some.inj ht
          rw [chainValue_parameterized hunshadowed hshoused] at hx
          rw [chainValue_parameterized hunshadowed hthoused] at hy
          cases hst with
          | applied howner =>
              split at hx
              · next hv =>
                  rw [if_pos hv] at hy
                  exact Option.some.inj (hx.symm.trans hy)
              · next hv =>
                  rw [if_neg hv] at hy
                  obtain ⟨o, ho, hx⟩ := Option.bind_eq_some_iff.1 hx
                  obtain ⟨o', ho', hy⟩ := Option.bind_eq_some_iff.1 hy
                  obtain ⟨outer, houter, henc⟩ := hshoused.link o ho
                  obtain ⟨outer', houter', henc'⟩ := hthoused.link o' ho'
                  obtain rfl := henc.unique henc'
                  exact ihowner o ho houter houter' (hshoused.owner ho)
                    (hthoused.owner ho') (howner o o' ho ho') hx hy
      | nominal _ | var _ | wildcard _ _ | genericArray _ | capture _ =>
          cases hy
  | nominal _ | var _ | wildcard _ _ _ _ | genericArray _ _ | capture _ =>
      cases hx

end

/-- What a class uses has one value in two types of it that match, if their
chains are of one shape or no class lists a variable of a class around it. -/
theorem chainSubst_of_matches (h : d.WellFormed) (hs : d.Supplies id s)
    (ht : d.Supplies id t) (hstier : s.Chained d.Tier)
    (httier : t.Chained d.Tier)
    (hshape : s.Chained (Carries carry) ∧ t.Chained (Carries carry) ∨
      d.Unshadowed)
      (hst : Matches s t) (huses : d.Uses id v) :
    d.chainSubst s v = d.chainSubst t v := by
  rw [chainSubst, chainSubst]
  rcases hshape with ⟨hscarries, htcarries⟩ | hunshadowed
  · rw [chainValue_of_carries h hs.head? ht.head? hstier httier hscarries
      htcarries hst]
  · have hsome : ∀ {t}, d.Supplies id t → t.Chained d.Tier →
        ∃ x, d.chainValue t v = some x := by
      intro t ht htier
      have hraw := rawly_of_chained ht.head? (htier.mono fun _ => Tier.notRaw)
      exact Option.isSome_iff_exists.1 (ht.chainValue_isSome h hraw huses)
    obtain ⟨x, hx⟩ := hsome hs hstier
    obtain ⟨y, hy⟩ := hsome ht httier
    rw [hx, hy, chainValue_of_unshadowed hunshadowed hs.head? ht.head?
      (hstier.mono fun _ => Tier.housed)
      (httier.mono fun _ => Tier.housed) hst hx hy]

end Declarations

end GenericTypes
