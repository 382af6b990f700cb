import GenericTypes.Proofs.Completeness
import GenericTypes.Proofs.OwnerChains
import GenericTypes.Proofs.Upcasting

/-!
# Ground types compared

A ground type is made of classes and arguments that are ground again: it has no
wildcards, variables, captures or raw classes, and has owners for the same
classes wherever it has types of them. What is above it has less to it, since
the top type may be raw and declared supertypes may have owners where ground
types have none, but is still a type of a class without wildcards, whose owners
are of the classes around (`Firm`).

Between firm types a comparison reads the arguments off. One is above another
exactly if the erasures allow it and the view found, the type of the class of
the one that is above the other, matches it (`of_verdict`,
`verdict_of_matches`).
-/

namespace GenericTypes

open Relation

theorem Ty.component?_of_head? {t : Ty} {id : ClassId} (h : t.head? = some id) :
    t.component? = none := by
  rcases head?_eq_some_iff.1 h with rfl | ⟨_, _, rfl⟩ <;> rfl

namespace Declarations

open Ty (Chained)

/-- What is asked of each part of a ground type: no raw class, and owners that
are of the class around and are there for the classes that `carry` says. -/
def Concrete (d : Declarations) (carry : ClassId → Bool) : Ty → Prop
  | .nominal c => d.rawly (.nominal c.base) = false
  | .parameterized id args owner =>
      d.Housed (.parameterized id args owner) ∧
        Carries carry (.parameterized id args owner)
  | .genericArray _ => True
  | .var _ | .wildcard _ _ | .capture _ => False

/-- Declared supertypes have owners for the classes that `carry` says, or else
no class lists a variable of a class around it. -/
def Uniform (d : Declarations) (carry : ClassId → Bool) : Prop :=
  (∀ {id c}, d.class? id = some c →
    ∀ s ∈ c.supertypes, s.Chained (Carries carry)) ∨ d.Unshadowed

/-- A complete type made of nothing but classes, none of them raw. -/
structure Ground (d : Declarations) (carry : ClassId → Bool)
    (t : Ty) : Prop where
  complete : d.Complete 0 t
  concrete : ∀ x ∈ t.parts, d.Concrete carry x

/-- A complete type of a class, or an array of one, whose owners are of the
classes around and whose arguments are no wildcards. -/
structure Firm (d : Declarations) (n : Nat) (t : Ty) : Prop where
  complete : d.Complete n t
  rigid : t.Rigid
  housed : t.Chained d.Housed

variable {d : Declarations} {carry : ClassId → Bool} {n : Nat} {t k : Ty}
  {id : ClassId}

theorem Firm.component? (h : d.Firm n t)
    (hk : t.component? = some k) : d.Firm n k :=
  ⟨h.complete.component? hk, h.rigid.component? hk, h.housed.component? hk⟩

theorem Firm.owner {args : List Ty} {owner : Option Ty} {o : Ty}
    (h : d.Firm n (.parameterized id args owner)) (ho : owner = some o) :
    d.Firm n o := by
  subst ho
  have hcomplete := h.complete.part Ty.owner_mem_parts
  obtain ⟨outer, houter, -⟩ := h.housed.link o rfl
  exact ⟨hcomplete, Ty.rigid_of_head? houter h.rigid.2.2, h.housed.owner rfl⟩

theorem Firm.args {args : List Ty} {owner : Option Ty}
    (h : d.Firm n (.parameterized id args owner)) :
    ∀ a ∈ args, a.isWildcard = false := by
  cases owner with
  | none => exact h.rigid.2
  | some _ => exact h.rigid.2.1

/-- The erasure of a firm type tells types of a class from primitives and
arrays. -/
theorem Firm.head? (h : d.Firm n t) (hc : d.erase t = .ok (.named id)) :
    t.head? = some id := by
  cases t with
  | nominal c =>
      obtain rfl := Outcome.ok.inj hc
      rfl
  | parameterized _ _ _ =>
      obtain rfl := Class.named.inj (Outcome.ok.inj hc)
      rfl
  | genericArray k =>
      obtain ⟨a, -, heq⟩ := Resolver.erase_array (k := k) rfl hc
      cases heq
  | var _ | wildcard _ _ | capture _ =>
      exact absurd h.rigid.isUnknown Bool.noConfusion

theorem Firm.erases (ht : d.Firm n t) (h : d.WellFormed) :
    ∃ a, d.erase t = .ok a :=
  h.erase_ok ht.complete (Ty.isErasable_of_element ht.rigid.1)

/-- A firm type is primitive, of a class, or an array. -/
theorem Firm.cases (h : d.Firm n t) :
    (∃ p, t = .primitive p) ∨ (∃ id, t.head? = some id) ∨
    ∃ k, t.component? = some k := by
  obtain ⟨ht, -⟩ := h.rigid
  induction t, ht using Ty.known_induct with
  | primitive p _ => exact .inl ⟨p, rfl⟩
  | ofClass t id _ hid => exact .inr (.inl ⟨id, hid⟩)
  | array t k _ _ hk _ => exact .inr (.inr ⟨k, hk⟩)

instance decidableConcrete (d : Declarations) (carry : ClassId → Bool) :
    DecidablePred (d.Concrete carry)
  | .nominal c =>
      inferInstanceAs (Decidable (d.rawly (.nominal c.base) = false))
  | .parameterized id args owner =>
      inferInstanceAs (Decidable (d.Housed (.parameterized id args owner) ∧
        Carries carry (.parameterized id args owner)))
  | .genericArray _ => inferInstanceAs (Decidable True)
  | .var _ | .wildcard _ _ | .capture _ => inferInstanceAs (Decidable False)

instance decidableGround (d : Declarations) (carry : ClassId → Bool) (t : Ty) :
    Decidable (d.Ground carry t) :=
  decidable_of_iff (d.Complete 0 t ∧ ∀ x ∈ t.parts, d.Concrete carry x)
    ⟨fun h => ⟨h.1, h.2⟩, fun h => ⟨h.complete, h.concrete⟩⟩

theorem Ground.part {x : Ty} (h : d.Ground carry t) (hx : x ∈ t.parts) :
    d.Ground carry x :=
  ⟨h.complete.part hx, fun _ hy => h.concrete _ (Ty.mem_parts_trans hy hx)⟩

theorem Ground.component? (h : d.Ground carry t) (hk : t.component? = some k) :
    d.Ground carry k := by
  rcases Ty.component?_eq_some_iff.1 hk with ⟨c, rfl, rfl⟩ | rfl
  · refine ⟨h.complete.component? rfl, fun x hx => ?_⟩
    obtain rfl := List.mem_singleton.1 hx
    exact h.concrete (.nominal (.array c)) (Ty.mem_parts_self _)
  · exact h.part (Ty.component_mem_parts k)

theorem Ground.notWildcard (h : d.Ground carry t) : t.isWildcard = false := by
  cases t with
  | wildcard _ _ => exact absurd (h.concrete _ (Ty.mem_parts_self _)) id
  | nominal _ | parameterized _ _ _ | var _ | genericArray _ | capture _ => rfl

/-- Chains of ground types follow the declarations. -/
theorem Ground.chained (h : d.Ground carry t) :
    t.Chained fun x => d.Tier x ∧ Carries carry x := by
  induction t using Ty.induct with
  | nominal c =>
      exact Ty.chained_of_single rfl
        ⟨⟨h.concrete _ (Ty.mem_parts_self _), trivial⟩, trivial⟩
  | parameterized id args owner _ ihowner =>
      obtain ⟨hhoused, hcarries⟩ := h.concrete _ (Ty.mem_parts_self _)
      cases owner with
      | none => exact Ty.chained_of_single rfl ⟨⟨rfl, hhoused⟩, hcarries⟩
      | some o =>
          have ho := h.part Ty.owner_mem_parts
          exact Ty.chained_owned.2 ⟨⟨⟨rfl, hhoused⟩, hcarries⟩,
            ihowner o rfl ho⟩
  | genericArray t ih =>
      exact ih (h.part (Ty.component_mem_parts t))
  | var _ | wildcard _ _ _ _ | capture _ =>
      exact absurd (h.concrete _ (Ty.mem_parts_self _)) id

theorem Ground.rigid (h : d.Ground carry t) : t.Rigid := by
  induction t using Ty.induct with
  | nominal c => exact ⟨rfl, trivial⟩
  | parameterized id args owner _ ihowner =>
      have hargs : ∀ a ∈ args, a.isWildcard = false := fun a ha =>
        have hpart := Ty.arg_mem_parts ha
        (h.part hpart).notWildcard
      cases owner with
      | none => exact ⟨rfl, hargs⟩
      | some o =>
          have ho := h.part Ty.owner_mem_parts
          exact ⟨rfl, hargs, (ihowner o rfl ho).converted⟩
  | genericArray t ih =>
      exact ih (h.part (Ty.component_mem_parts t))
  | var _ | wildcard _ _ _ _ | capture _ =>
      exact absurd (h.concrete _ (Ty.mem_parts_self _)) id

theorem Ground.firm (h : d.Ground carry t) : d.Firm 0 t :=
  ⟨h.complete, h.rigid, h.chained.mono fun _ hx => hx.1.housed⟩

end Declarations

namespace Resolver

open Resolve Declarations
open Ty (Chained Matches)

/-- Declarations under which each class is below the top type, generic classes
are never raw and inherited in one form, nothing but the top class is above the
classes above all arrays, and owners are of the classes around. -/
structure Lawful (r : Resolver) : Prop where
  covered : r.Covered
  disciplined : r.env.Disciplined
  tops : ∀ id ∈ r.env.wellKnown.aboveArrays, ∀ parent ∈ r.env.superclasses id,
    parent = r.env.wellKnown.object
  housed : ∀ {id c}, r.env.class? id = some c →
    ∀ s ∈ c.supertypes, s.Chained r.env.Housed

theorem Lawful.forgetting {r : Resolver} (h : r.Lawful) : r.forgetting.Lawful :=
  ⟨⟨h.covered.topped, h.covered.superclass, h.covered.implicitTop,
      h.covered.noHostTest⟩,
    h.disciplined, h.tops, h.housed⟩

variable {r : Resolver} {arena : Array CaptureDef} {s t g : Ty} {a c : Class}
  {id : ClassId} {n : Nat}

section

variable (h : r.Lawful)

include h

/-! ## What is above a firm type -/

theorem housed_directly (ht : t.element.isUnknown = false) :
    r.env.Complete n t →
    t.Chained r.env.Housed → ∀ {s}, r.Directly arena t s →
      s.Chained r.env.Housed := by
  have hnamed : ∀ top, (Ty.named top).Chained r.env.Housed := fun top x hx =>
    List.mem_singleton.1 hx ▸ trivial
  induction t, ht using Ty.known_induct with
  | primitive p _ =>
      intro _ _ s hs
      exact absurd (isPrimitive_of_directly hs) Bool.noConfusion
  | ofClass t id _ hid =>
      intro ht _ s hs
      have hwf := h.disciplined.wellFormed
      rcases of_directly_class hwf (ht.supplies hid) hs with
          rfl | ⟨c, s₀, hc, hs₀, rfl⟩
      · exact hnamed _
      exact chained_seen hwf housed_stable (fun _ => trivial) h.housed hc hs₀ t
  | array t k _ _ hk ih =>
      intro ht hhoused s hs
      rcases of_directly_array hk hs with ⟨y, hy, rfl⟩ | ⟨top, -, rfl⟩
      · exact Ty.chained_arrayOf.2
          (ih (ht.component? hk) (hhoused.component? hk) hy)
      · exact hnamed top

theorem firm_directly (ht : r.env.Firm n t) (hs : r.Directly arena t s) :
    r.env.Firm n s where
  complete :=
    complete_directly h.disciplined.wellFormed ht.rigid.1 ht.complete hs
  rigid := rigid_directly h.disciplined.wellFormed h.disciplined.converted
    ht.rigid.1 ht.rigid ht.complete hs
  housed := housed_directly h ht.rigid.1 ht.complete ht.housed hs

theorem firm_above (ht : r.env.Firm n t)
    (hg : ReflTransGen (r.Directly arena) t g) : r.env.Firm n g := by
  induction hg with
  | refl => exact ht
  | tail _ hs ih => exact firm_directly h ih hs

/-! ## Comparisons of firm types -/

omit h in
/-- Views without wildcards are compared argument by argument, and then by their
owners. -/
theorem viewVerdict_applied {id' : ClassId} {args args' : List Ty}
    {owner owner' : Option Ty} (hlen : args.length = args'.length)
    (hargs : ∀ a ∈ args, a.isWildcard = false) :
    r.ViewVerdict arena (.parameterized id args owner)
        (.parameterized id' args' owner') true ↔
      args = args' ∧ ∀ o o', owner = some o → owner' = some o' →
      r.Verdict arena o o' true := by
  have hrun : ∀ n, matchesView (r.isSupertype n) (.parameterized id args owner)
      (.parameterized id' args' owner') =
        if decide (args = args') = true then
          ownersMatch (r.isSupertype n) owner owner'
        else pure false := by
    intro n
    rw [matchesView, argumentsMatch_eq _ id hlen,
      allHold_contains_plain _ hlen hargs, pure_bind]
  simp only [ViewVerdict, ViewSays, hrun, decide_eq_true_eq]
  by_cases hsame : args = args'
  · subst hsame
    simp only [reduceIte, true_and]
    cases owner with
    | none =>
        refine iff_of_true ⟨0, rfl⟩ ?_
        rintro _ _ ⟨⟩
    | some o =>
        cases owner' with
        | none =>
            refine iff_of_true ⟨0, rfl⟩ ?_
            rintro _ _ _ ⟨⟩
        | some o' =>
            constructor
            · intro hverdict _ _ ho ho'
              obtain rfl := Option.some.inj ho
              obtain rfl := Option.some.inj ho'
              exact hverdict
            · exact fun hverdict => hverdict o o' rfl rfl
  · simp only [hsame, reduceIte, false_and, iff_false]
    rintro ⟨n, hn⟩
    cases hn

variable (hplain : r.config.memoizeSupertypes = false)

include hplain

/-- Of two firm types of one class the comparison is that of views. -/
theorem verdict_of_same_class (hg : r.env.Firm n g)
    (hkind : s.isUnknown = false) (hsc : r.env.erase s = .ok c)
    (hgc : r.env.erase g = .ok c) :
    r.Verdict arena s g true ↔ r.ViewVerdict arena s g true := by
  have herasure := erasure?_known (r := r) hg.rigid.isUnknown hgc
  exact verdict_of_allowed h.disciplined.wellFormed hplain hg.complete.counted
    hg.rigid.converted hkind hsc herasure
    (assignable_refl h.covered.noHostTest c) (find_self herasure 0)

/-- A firm type accepts the views that match it. -/
theorem viewVerdict_iff_matches (hs : r.env.Firm n s) (hg : r.env.Firm n g)
    (hsc : r.env.erase s = .ok c) (hgc : r.env.erase g = .ok c) :
    r.ViewVerdict arena s g true ↔ Matches s g := by
  induction s using Ty.induct generalizing g c with
  | nominal e =>
      exact (viewVerdict_nominal (.inl rfl)).trans (iff_of_true rfl (.left e g))
  | parameterized id args owner _ ihowner =>
      obtain rfl := Outcome.ok.inj hsc
      have hid := hg.head? hgc
      cases g with
      | nominal e =>
          exact (viewVerdict_nominal (.inr rfl)).trans
            (iff_of_true rfl (.right _ e))
      | parameterized id' args' owner' =>
          obtain rfl := Option.some.inj hid
          have hlen : args.length = args'.length := by
            obtain ⟨c, hc, hlen⟩ := hs.complete.counted.counts
            obtain ⟨c', hc', hlen'⟩ := hg.complete.counted.counts
            obtain rfl := Option.some.inj (hc.symm.trans hc')
            exact hlen.symm.trans hlen'
          have howners : ∀ o o', owner = some o → owner' = some o' →
              (r.Verdict arena o o' true ↔ Matches o o') := by
            intro o o' ho ho'
            obtain ⟨outer, houter, henc⟩ := hs.housed.link o ho
            obtain ⟨outer', houter', henc'⟩ := hg.housed.link o' ho'
            obtain rfl := henc.unique henc'
            have hfirm := hs.owner ho
            have hfirm' := hg.owner ho'
            exact (verdict_of_same_class h hplain hfirm' hfirm.rigid.isUnknown
              (erase_head houter) (erase_head houter')).trans
                (ihowner o ho hfirm hfirm' (erase_head houter)
                  (erase_head houter'))
          rw [viewVerdict_applied hlen hs.args]
          constructor
          · rintro ⟨rfl, hverdicts⟩
            exact .applied fun o o' ho ho' => (howners o o' ho ho').1
              (hverdicts o o' ho ho')
          · intro hmatches
            cases hmatches with
            | applied howner =>
                exact ⟨rfl, fun o o' ho ho' => (howners o o' ho ho').2
                  (howner o o' ho ho')⟩
      | var _ | wildcard _ _ | genericArray _ | capture _ => cases hid
  | genericArray k ih =>
      obtain ⟨a, hka, rfl⟩ := erase_array (k := k) rfl hsc
      cases g with
      | nominal e =>
          exact (viewVerdict_nominal (.inr rfl)).trans
            (iff_of_true rfl (.right _ e))
      | genericArray k' =>
          obtain ⟨a', hka', heq⟩ := erase_array (k := k') rfl hgc
          obtain rfl := Class.array.inj heq
          have hk := hs.component? (k := k) rfl
          have hk' := hg.component? (k := k') rfl
          have hview :
              r.ViewVerdict arena (.genericArray k) (.genericArray k') true ↔
                r.Verdict arena k k' true := Iff.rfl
          rw [hview,
            verdict_of_same_class h hplain hk' hk.rigid.isUnknown hka hka',
            ih hk hk' hka hka',
            Ty.matches_component (s := .genericArray k) rfl rfl]
      | parameterized _ _ _ => cases hgc
      | var _ | wildcard _ _ | capture _ =>
          exact absurd hg.rigid.isUnknown Bool.noConfusion
  | var _ | wildcard _ _ _ _ | capture _ =>
      exact absurd hs.rigid.isUnknown Bool.noConfusion

omit hplain in
/-- What the erasures allow is found, and what is found is above the type. -/
theorem exists_view (arena : Array CaptureDef) (ht : r.env.Firm n t)
    (ha : r.env.erase t = .ok a) (hassign : r.env.assignable c a = true) :
    ∃ m g, r.find arena m t c = .ok (some g) ∧
      ReflTransGen (r.Directly arena) t g ∧ r.env.erase g = .ok c := by
  have hclimbs : t.isPrimitive = false → r.Climbs arena t := fun hprim =>
    climbs_of_known h.covered.topped ht.complete hprim ht.rigid.1
  obtain ⟨m, g, hg⟩ :=
    find_of_complete h.covered (I := r.env.Firm n) Firm.complete
      (firm_directly h) ht hclimbs ha hassign
  obtain ⟨hup, hgc⟩ := find_ancestor hg
  exact ⟨m, g, hg, hup, erase_of_erasure? hgc⟩

/-- A firm type is above another only if the erasures allow it and a type of its
class, above the other, matches it. -/
theorem of_verdict (hs : r.env.Firm n s) (ht : r.env.Firm n t)
    (hst : r.Verdict arena s t true) :
    ∃ c a, r.env.erase s = .ok c ∧ r.env.erase t = .ok a ∧
      r.env.assignable c a = true ∧
      ∃ g, ReflTransGen (r.Directly arena) t g ∧ r.env.erase g = .ok c ∧
        Matches s g := by
  obtain ⟨c, hc⟩ := hs.erases h.disciplined.wellFormed
  obtain ⟨a, ha⟩ := ht.erases h.disciplined.wellFormed
  have herasure := erasure?_known (r := r) ht.rigid.isUnknown ha
  refine ⟨c, a, hc, ha, ?_⟩
  cases hassign : r.env.assignable c a with
  | false =>
      have hno := (verdict_of_settled hs.rigid.isUnknown hc
        (settledByErasure_refused herasure hassign)).1 hst
      cases hno
  | true =>
      obtain ⟨m, g, hfind, hup, hgc⟩ := exists_view h arena ht ha hassign
      refine ⟨rfl, g, hup, hgc, ?_⟩
      exact (viewVerdict_iff_matches h hplain hs (firm_above h ht hup) hc hgc).1
        ((verdict_of_allowed h.disciplined.wellFormed hplain ht.complete.counted
          ht.rigid.converted hs.rigid.isUnknown hc herasure hassign hfind).1
        hst)

/-- It is above the other if the erasures allow it and all types of its class
above the other match it. -/
theorem verdict_of_matches (hs : r.env.Firm n s) (ht : r.env.Firm n t)
    (hc : r.env.erase s = .ok c) (ha : r.env.erase t = .ok a)
    (hassign : r.env.assignable c a = true)
    (hmatches : ∀ g, ReflTransGen (r.Directly arena) t g →
      r.env.erase g = .ok c → Matches s g) :
    r.Verdict arena s t true := by
  have herasure := erasure?_known (r := r) ht.rigid.isUnknown ha
  obtain ⟨m, g, hfind, hup, hgc⟩ := exists_view h arena ht ha hassign
  exact (verdict_of_allowed h.disciplined.wellFormed hplain ht.complete.counted
    ht.rigid.converted hs.rigid.isUnknown hc herasure hassign hfind).2
      ((viewVerdict_iff_matches h hplain hs (firm_above h ht hup) hc hgc).2
        (hmatches g hup hgc))

end

end Resolver

end GenericTypes
