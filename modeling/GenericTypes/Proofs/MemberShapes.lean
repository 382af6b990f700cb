import GenericTypes.Proofs.Ancestors
import GenericTypes.Proofs.History
import GenericTypes.Proofs.Members

/-!
# Where wildcards stand in member types

A wildcard belongs among the arguments of a type and nowhere else. Declared
types keep to that, and so does what comes of them when values are put in that
do so themselves (`Tidy.subst`). The values are the arguments of the view of the
owner as the declaring class, so a member type is in order as long as none of
these is a wildcard (`membersTidy_iff`).

For an owner that is a class, a parameterized type or an array that is always
so: the owner is captured before the search, and no declared supertype has a
wildcard among its own arguments (`viewAs_tidy`). A bound of a variable or
of a capture may have one. It is found as it was written, and its wildcards are
put in where the declared type has a variable.
-/

namespace GenericTypes

open Relation Substitution

namespace Ty

/-- No wildcard is a direct part of the type, except as an argument. -/
def Seats : Ty → Prop
  | .parameterized _ _ owner => ∀ o ∈ owner, o.isWildcard = false
  | .wildcard upper lower => ∀ b ∈ upper ++ lower, b.isWildcard = false
  | .genericArray t => t.isWildcard = false
  | .nominal _ | .var _ | .capture _ => True

instance decidableSeats : (t : Ty) → Decidable t.Seats
  | .parameterized _ _ owner =>
      inferInstanceAs (Decidable (∀ o ∈ owner, o.isWildcard = false))
  | .wildcard upper lower =>
      inferInstanceAs (Decidable (∀ b ∈ upper ++ lower, b.isWildcard = false))
  | .genericArray t => inferInstanceAs (Decidable (t.isWildcard = false))
  | .nominal _ | .var _ | .capture _ => inferInstanceAs (Decidable True)

/-- Every wildcard in the type stands among the arguments of another type. -/
structure Tidy (t : Ty) : Prop where
  notWildcard : t.isWildcard = false
  seats : ∀ x ∈ t.parts, x.Seats

instance decidableTidy (t : Ty) : Decidable t.Tidy :=
  decidable_of_iff (t.isWildcard = false ∧ ∀ x ∈ t.parts, x.Seats)
    ⟨fun h => ⟨h.1, h.2⟩, fun h => ⟨h.notWildcard, h.seats⟩⟩

variable {t x : Ty} {φ : TypeVarId → Ty}

theorem isUnknown_of_head? {id : ClassId} (h : t.head? = some id) :
    t.isUnknown = false := by
  cases t with
  | nominal _ | parameterized _ _ _ => rfl
  | var _ | wildcard _ _ | genericArray _ | capture _ => cases h

theorem tidy_nominal (c : Class) : (Ty.nominal c).Tidy :=
  ⟨rfl, fun _ hx => List.mem_singleton.1 hx ▸ trivial⟩

theorem tidy_var (v : TypeVarId) : (Ty.var v).Tidy :=
  ⟨rfl, fun _ hx => List.mem_singleton.1 hx ▸ trivial⟩

theorem tidy_capture (i : CaptureId) : (Ty.capture i).Tidy :=
  ⟨rfl, fun _ hx => List.mem_singleton.1 hx ▸ trivial⟩

theorem Tidy.part (h : t.Tidy) (hx : x ∈ t.parts)
    (hwild : x.isWildcard = false) : x.Tidy :=
  ⟨hwild, fun _ hy => h.seats _ (mem_parts_trans hy hx)⟩

theorem seats_arrayOf (h : t.isWildcard = false) : t.arrayOf.Seats := by
  cases t with
  | nominal _ => trivial
  | parameterized _ _ _ | var _ | wildcard _ _ | genericArray _ | capture _ =>
      exact h

theorem Seats.subst (h : t.Seats) (hvar : t.isVar = false)
    (hφ : ∀ v, .var v ∈ t.parts → (φ v).isWildcard = false) :
    (t.subst φ).Seats := by
  cases t with
  | nominal _ | capture _ => trivial
  | var _ => cases hvar
  | parameterized id args owner =>
      simp only [Ty.subst, substOwner_eq_map]
      intro s hs
      obtain ⟨o, ho, rfl⟩ := Option.map_eq_some_iff.1 hs
      exact isWildcard_subst (h o ho) fun v hv =>
        hφ v (mem_parts_parameterized.2
          (.inr (.inl ⟨o, ho, hv ▸ mem_parts_self _⟩)))
  | wildcard upper lower =>
      simp only [Ty.subst, substList_eq_map]
      intro s hs
      rw [← List.map_append] at hs
      obtain ⟨b, hb, rfl⟩ := List.mem_map.1 hs
      refine isWildcard_subst (h b hb) fun v hv =>
        hφ v (mem_parts_wildcard.2 (.inr ?_))
      exact (List.mem_append.1 hb).imp
        (fun hb => ⟨b, hb, hv ▸ mem_parts_self _⟩)
        fun hb => ⟨b, hb, hv ▸ mem_parts_self _⟩
  | genericArray t =>
      have ht : (t.subst φ).isWildcard = false := isWildcard_subst h fun v hv =>
        hφ v (mem_parts_genericArray.2 (.inr (hv ▸ mem_parts_self _)))
      exact seats_arrayOf ht

/-- A type stays in order when values that are in order are put in. -/
theorem Tidy.subst (h : t.Tidy) (hφ : ∀ v, .var v ∈ t.parts → (φ v).Tidy) :
    (t.subst φ).Tidy := by
  refine ⟨isWildcard_subst h.notWildcard fun v hv => ?_, fun x hx => ?_⟩
  · exact (hφ v (hv ▸ mem_parts_self _)).notWildcard
  · rcases mem_parts_subst hx with ⟨y, hy, hvar, rfl⟩ | ⟨v, hv, hx⟩
    · exact (h.seats y hy).subst hvar fun v hv =>
        (hφ v (mem_parts_trans hv hy)).notWildcard
    · exact (hφ v hv).seats x hx

end Ty

namespace Declarations

variable {d : Declarations} {n : Nat} {t s : Ty} {id : ClassId}

theorem Proper.tidy (h : d.Proper n t) : t.Tidy := by
  refine ⟨h.notWildcard, fun x hx => ?_⟩
  have hfits := h.complete x hx
  have hplaced := h.placed x hx
  cases x with
  | nominal _ | var _ | capture _ => trivial
  | wildcard _ _ | genericArray _ => exact hplaced
  | parameterized id args owner =>
      intro o ho
      have hhead := hfits.2.2 o ho
      cases o with
      | nominal _ | parameterized _ _ _ => rfl
      | var _ | wildcard _ _ | genericArray _ | capture _ => cases hhead

/-- What the type gives the variables along its chain of owners is in order. -/
def TidyValues (d : Declarations) (t : Ty) : Prop :=
  ∀ v a, d.chainValue t v = some a → a.Tidy

theorem TidyValues.chainSubst (h : d.TidyValues t) (v : TypeVarId) :
    (d.chainSubst t v).Tidy := by
  rw [Declarations.chainSubst]
  cases hv : d.chainValue t v with
  | some a => exact h v a hv
  | none => exact Ty.tidy_var v

/-- Arguments that are no wildcards are in order where the type is. -/
theorem tidyValues_of_converted (ht : t.Tidy) (hconverted : t.Converted) :
    d.TidyValues t :=
  fun _ a ha => ht.part (parts_chainValue ha (Ty.mem_parts_self a))
    (isWildcard_chainValue hconverted ha)

theorem TidyValues.seen {via : Ty} (hvia : d.TidyValues via) (ht : d.Proper 0 t)
    (hconverted : t.Converted) (hhead : t.head?.isSome) :
    d.TidyValues (Resolver.seen d via t) := by
  unfold Resolver.seen
  split
  · split
    · exact fun _ _ ha => nomatch ha
    · exact tidyValues_of_converted ht.tidy hconverted
    · exact tidyValues_of_converted ht.tidy hconverted
  · intro v a ha
    obtain ⟨-, -, hvalue⟩ := chain_subst (d.chainSubst via) ht.complete hhead
    rw [hvalue] at ha
    obtain ⟨a₀, ha₀, rfl⟩ := Option.map_eq_some_iff.1 ha
    exact (tidyValues_of_converted ht.tidy hconverted v a₀ ha₀).subst
      fun w _ => hvia.chainSubst w

/-- A type that is neither a variable nor a wildcard nor a capture, and supplies
what its class uses, if it has one, with values that are in order. -/
structure TidyView (d : Declarations) (t : Ty) : Prop where
  known : t.isUnknown = false
  supplies : ∀ id, t.head? = some id → d.Supplies id t
  values : d.TidyValues t

theorem tidyView_named (hdef : d.isDefined id) : d.TidyView (.named id) := by
  refine ⟨rfl, fun id' hid' => ?_, fun _ _ ha => nomatch ha⟩
  obtain rfl := Option.some.inj hid'
  exact .plain hdef

theorem tidyView_arrayOf (t : Ty) : d.TidyView t.arrayOf := by
  cases t <;> exact ⟨rfl, (fun _ hid => nomatch hid), fun _ _ ha => nomatch ha⟩

end Declarations

namespace Resolver

open Resolve Declarations

variable {r : Resolver} {d : Declarations} {arena : Array CaptureDef}
  {t s g via owner : Ty} {declaring : ClassId} {ctx : Context}

/-! ## The capture of an owner -/

theorem tidy_numbered {n : Nat} {id : ClassId} {args : List Ty}
    {owner : Option Ty} {a : Ty}
    (h : ∀ x ∈ (Ty.parameterized id args owner).parts, x.Seats)
    (ha : a ∈ numberWildcards n args) : a.Tidy := by
  rcases mem_numberWildcards ha with ⟨i, rfl⟩ | ⟨ha, hwild⟩
  · exact Ty.tidy_capture _
  · exact ⟨hwild, fun x hx => h x
      (Ty.mem_parts_parameterized.2 (.inr (.inr ⟨a, ha, hx⟩)))⟩

/-- The capture of a type has no wildcards left among its own arguments. -/
theorem tidyValues_captured (n : Nat) : ∀ {t : Ty}, (∀ x ∈ t.parts, x.Seats) →
    d.TidyValues (r.captured n t).1
  | .parameterized id args (some owner), h => by
      have howner := tidyValues_captured n (t := owner) fun x hx =>
        h x (Ty.mem_parts_parameterized.2 (.inr (.inl ⟨owner, rfl, hx⟩)))
      intro v a ha
      rw [captured, chainValue, Option.or_eq_some_iff] at ha
      rcases ha with ha | ⟨-, ha⟩
      · exact howner v a ha
      · exact tidy_numbered h (mem_of_lastValue ha).2
  | .parameterized id args none, h => by
      intro v a ha
      rw [captured, chainValue] at ha
      exact tidy_numbered h (mem_of_lastValue ha).2
  | .nominal _, _ | .var _, _ | .wildcard _ _, _ | .genericArray _, _
  | .capture _, _ =>
      fun _ _ ha => nomatch ha

/-! ## Above the capture -/

/-- Where a search comes down from variables and captures to a bound of another
kind, that bound has values that are in order. -/
def BoundsTidy (r : Resolver) (arena : Array CaptureDef) (t : Ty) : Prop :=
  ∀ s b, ReflTransGen (r.Directly arena) t s → s.isUnknown = true →
    r.Directly arena s b →
    b.isUnknown = false → r.env.TidyView b

section

variable (h : r.env.WellFormed) (hdeclared : r.env.DeclaresConverted)

include h hdeclared

theorem tidyView_directly (ht : r.env.TidyView t) (hs : r.Directly arena t s) :
    r.env.TidyView s := by
  have hclass : ∀ id, t.head? = some id → r.env.TidyView s := by
    intro id hid
    have hsupplies := ht.supplies id hid
    rcases of_directly_class h hsupplies hs with rfl | ⟨c, s₀, hc, hs₀, rfl⟩
    · exact tidyView_named (h.known _ List.mem_cons_self)
    · obtain ⟨hhead, hproper⟩ := h.supertypes hc s₀ hs₀
      obtain ⟨parent, hparent⟩ := Option.isSome_iff_exists.1 hhead
      have hseen : r.env.Supplies parent (seen r.env.toDeclarations t s₀) :=
        supplies_seen hproper.complete hparent
      refine ⟨?_, fun id' hid' => ?_,
        ht.values.seen hproper (hdeclared id c hc s₀ hs₀) hhead⟩
      · exact Ty.isUnknown_of_head? hseen.head?
      · obtain rfl := Option.some.inj (hseen.head?.symm.trans hid')
        exact hseen
  have harray : ∀ k, t.component? = some k → r.env.TidyView s := by
    intro k hk
    rcases of_directly_array hk hs with ⟨y, -, rfl⟩ | ⟨top, htop, rfl⟩
    · exact tidyView_arrayOf y
    · exact tidyView_named (h.known top htop)
  cases t with
  | nominal c =>
      cases c with
      | named id => exact hclass id rfl
      | primitive p =>
          exact absurd (isPrimitive_of_directly hs) Bool.noConfusion
      | array c => exact harray _ rfl
  | parameterized id _ _ => exact hclass id rfl
  | genericArray k => exact harray k rfl
  | var _ | wildcard _ _ | capture _ => exact absurd ht.known Bool.noConfusion

/-- An owner that is a class, a parameterized type or an array is seen as the
declaring class through values that are in order. -/
theorem viewAs_tidy {n depth : Nat} {view : Ty}
    (hplain : r.config.memoizeSupertypes = false)
    (howner : r.env.Complete n owner) (hseats : ∀ x ∈ owner.parts, x.Seats)
    (hknown : owner.isUnknown = false)
    (hview : (r.viewAs depth declaring owner ctx).1 = .ok (some view)) :
    r.env.TidyValues view := by
  obtain ⟨ctx', hcapture, -⟩ := capture_eq h ctx howner.counted howner.bounded
  let captured := (r.captured ctx.captures.size owner).1
  have hcaptured : r.env.TidyView captured := by
    refine ⟨?_, fun id hid => ?_, tidyValues_captured _ hseats⟩
    · cases owner with
      | parameterized _ _ o => cases o <;> rfl
      | nominal _ | genericArray _ => rfl
      | var _ | wildcard _ _ | capture _ => cases hknown
    · obtain ⟨hhead, -, -⟩ :=
        captured_chain (r := r) ctx.captures.size howner.counted
      exact supplies_captured _ (howner.supplies (hhead.symm.trans hid))
  obtain ⟨found, hfound, hsearch⟩ := seenAs_of_viewAs hview
  rw [hcapture] at hfound hsearch
  obtain rfl := Outcome.ok.inj hfound
  obtain ⟨hout, -⟩ :=
    exactSupertype_reads hplain (.named declaring) depth captured ctx'
  have hup := (find_ancestor (hout.symm.trans hsearch)).1
  suffices r.env.TidyView view from this.values
  clear hout hsearch hview
  induction hup with
  | refl => exact hcaptured
  | tail _ hs ih => exact tidyView_directly h hdeclared ih hs

/-- A variable or a capture is seen as the declaring class through values that
are in order, if its bounds have such values. -/
theorem viewAs_tidy_of_bounds {depth : Nat} {view : Ty}
    (hplain : r.config.memoizeSupertypes = false)
    (hunknown : owner.isUnknown = true)
    (hbounds : r.BoundsTidy ctx.captures owner)
    (hview : (r.viewAs depth declaring owner ctx).1 = .ok (some view)) :
    r.env.TidyValues view := by
  have hcapture : r.capture owner ctx = (.ok owner, ctx) := by
    cases owner with
    | var _ | wildcard _ _ | capture _ => rfl
    | nominal _ | parameterized _ _ _ | genericArray _ => cases hunknown
  obtain ⟨found, hfound, hsearch⟩ := seenAs_of_viewAs hview
  rw [hcapture] at hfound hsearch
  obtain rfl := Outcome.ok.inj hfound
  obtain ⟨hout, -⟩ :=
    exactSupertype_reads hplain (.named declaring) depth owner ctx
  obtain ⟨hup, herase⟩ := find_ancestor (hout.symm.trans hsearch)
  suffices hg : view.isUnknown = true ∨ r.env.TidyView view by
    refine (hg.resolve_left fun hg => ?_).values
    rw [erasure?_unknown hg] at herase
    cases herase
  clear hout hsearch hview herase
  induction hup with
  | refl => exact .inl hunknown
  | @tail s b hup hs ih =>
      rcases ih with hknown | ih
      · by_cases hb : b.isUnknown = true
        · exact .inl hb
        · exact .inr (hbounds s b hup hknown hs (Bool.eq_false_iff.2 hb))
      · exact .inr (tidyView_directly h hdeclared ih hs)

end

/-! ## Putting the values in -/

theorem counted_of_bindChain :
    ∀ {t : Ty} {σ τ : Substitution}, bindChain d t σ = .ok τ →
    d.Counted t
  | .parameterized id args owner, σ, τ, hτ => by
      rw [bindChain] at hτ
      cases hc : d.class? id with
      | none => rw [Declarations.getClass, hc] at hτ; cases hτ
      | some c =>
          rw [getClass_eq hc] at hτ
          change (if c.typeParams.length = args.length then _ else _ :
            Except Error _) = _ at hτ
          split at hτ
          · next hlen =>
              cases owner with
              | none => exact ⟨c, hc, hlen⟩
              | some o => exact ⟨⟨c, hc, hlen⟩, counted_of_bindChain hτ⟩
          · cases hτ
  | .nominal _, _, _, _ | .var _, _, _, _ | .wildcard _ _, _, _, _
  | .genericArray _, _, _, _ | .capture _, _, _, _ => trivial

/-- A raw class erases what is seen through it. -/
theorem erased_of_substituteThrough {own : List TypeVarId} {c : Class}
    (hraw : r.env.isRaw c = .ok true)
    (hs : r.substituteThrough t (.nominal c) own = .ok s) :
    ∃ e, r.env.erase t = .ok e ∧ s = .nominal e := by
  obtain ⟨raw, hraw', hs⟩ := Outcome.bind_eq_ok hs
  obtain rfl : raw = true := Outcome.ok.inj (hraw'.symm.trans hraw)
  obtain ⟨e, he, hs⟩ := Outcome.bind_eq_ok hs
  exact ⟨e, he, (Outcome.ok.inj hs).symm⟩

/-- What is seen through any other type has the values of the type in the places
of the variables. -/
theorem subst_of_substituteThrough {own : List TypeVarId}
    (hraw : ∀ c, via = .nominal c → r.env.isRaw c ≠ .ok true)
    (hs : r.substituteThrough t via own = .ok s) :
    r.env.Counted via ∧ s = t.subst (r.env.chainSubst via) := by
  have hresolve : ∀ τ : Substitution,
        (liftM (τ.resolve t) : Outcome Ty) = .ok s →
      (∀ v, τ.get? v = (r.env.chainValue via v).or
        ((Substitution.empty.bindSelf own).get? v)) →
      s = t.subst (r.env.chainSubst via) := by
    intro τ hτ hget
    cases hres : τ.resolve t with
    | error e => rw [hres] at hτ; cases hτ
    | ok s' =>
        rw [hres] at hτ
        obtain rfl := Outcome.ok.inj hτ
        rw [eq_subst_of_resolve hres]
        refine Ty.subst_congr fun v _ => ?_
        rw [Substitution.apply, Declarations.chainSubst, hget, get?_bindSelf]
        cases r.env.chainValue via v with
        | some _ => rfl
        | none =>
            rw [Option.none_or]
            split <;> rfl
  cases via with
  | nominal c =>
      obtain ⟨raw, hraw', hs⟩ := Outcome.bind_eq_ok hs
      cases raw with
      | true => exact absurd hraw' (hraw c rfl)
      | false => exact ⟨trivial, hresolve _ hs fun _ => rfl⟩
  | parameterized id args owner =>
      obtain ⟨τ, hτ, hs⟩ := Outcome.bind_eq_ok hs
      cases hbind : bindChain r.env.toDeclarations
        (.parameterized id args owner) (Substitution.empty.bindSelf own) with
      | error e => rw [hbind] at hτ; cases hτ
      | ok τ' =>
          rw [hbind] at hτ
          obtain rfl := Outcome.ok.inj hτ
          have hcounted := counted_of_bindChain hbind
          obtain ⟨τ', hτ', hget⟩ :=
            bindChain_spec (Substitution.empty.bindSelf own) hcounted
          obtain rfl := Except.ok.inj (hbind.symm.trans hτ')
          exact ⟨hcounted, hresolve _ hs hget⟩
  | var _ | wildcard _ _ | genericArray _ | capture _ => cases hs

/-- What is seen through a type is an erasure, or has the values of the type in
the places of the variables. -/
theorem of_substituteThrough {own : List TypeVarId}
    (hs : r.substituteThrough t via own = .ok s) :
    (∃ c, s = .nominal c) ∨ r.env.Counted via ∧
      s = t.subst (r.env.chainSubst via) := by
  by_cases hraw : ∃ c, via = .nominal c ∧ r.env.isRaw c = .ok true
  · obtain ⟨c, rfl, hraw⟩ := hraw
    obtain ⟨e, -, hs⟩ := erased_of_substituteThrough hraw hs
    exact .inl ⟨e, hs⟩
  · exact .inr (subst_of_substituteThrough (fun c hc h => hraw ⟨c, hc, h⟩) hs)

theorem substituteThrough_var {v : TypeVarId} (hcounted : r.env.Counted via)
    (hs : r.env.chainValue via v = some s) :
    r.substituteThrough (.var v) via [] = .ok s := by
  cases via with
  | parameterized id args owner =>
      obtain ⟨τ, hτ, hget⟩ :=
        bindChain_spec (Substitution.empty.bindSelf []) hcounted
      have hv : τ.get? v = some s := by
        rw [hget, hs]
        rfl
      unfold substituteThrough
      simp only [hτ]
      show (liftM (τ.resolve (.var v)) : Outcome Ty) = _
      rw [Substitution.resolve, hv]
      rfl
  | nominal _ | var _ | wildcard _ _ | genericArray _ | capture _ => cases hs

theorem mem_of_substituteAll {own : List TypeVarId} : ∀ {ts ss : List Ty},
    r.substituteAll via own ts = .ok ss → s ∈ ss →
      ∃ t ∈ ts, r.substituteThrough t via own = .ok s
  | [], ss, hss, hs => by
      obtain rfl := Outcome.ok.inj hss
      cases hs
  | t :: ts, ss, hss, hs => by
      obtain ⟨s', hs', hrest⟩ := Outcome.bind_eq_ok hss
      obtain ⟨ss', hss', heq⟩ := Outcome.bind_eq_ok hrest
      obtain rfl := Outcome.ok.inj heq
      rcases List.mem_cons.1 hs with rfl | hs
      · exact ⟨t, List.mem_cons_self, hs'⟩
      · obtain ⟨t', ht', hseen⟩ := mem_of_substituteAll hss' hs
        exact ⟨t', List.mem_cons_of_mem t ht', hseen⟩

theorem tidy_of_substituteThrough {own : List TypeVarId} (ht : t.Tidy)
    (hvia : r.env.Counted via → r.env.TidyValues via)
    (hs : r.substituteThrough t via own = .ok s) : s.Tidy := by
  rcases of_substituteThrough hs with ⟨c, rfl⟩ | ⟨hcounted, rfl⟩
  · exact Ty.tidy_nominal c
  · exact ht.subst fun v _ => (hvia hcounted).chainSubst v

/-! ## Member types -/

/-- Whatever type of a member of the class is worked out for the owner, it is in
order if it was declared so. -/
structure MembersTidy (r : Resolver) (ctx : Context) (declaring : ClassId)
    (owner : Ty) : Prop where
  memberType : ∀ depth declared t, declared.Tidy →
    (r.memberType depth declaring declared owner ctx).1 = .ok t → t.Tidy
  fieldType : ∀ depth field t, field.type.Tidy →
    (r.fieldType depth declaring field owner ctx).1 = .ok t → t.Tidy
  parameterTypes : ∀ depth method ts, (∀ t ∈ method.types, t.Tidy) →
    (r.parameterTypes depth declaring method owner ctx).1 = .ok ts →
    ∀ t ∈ ts, t.Tidy
  returnType : ∀ depth method t, (∀ t ∈ method.types, t.Tidy) →
    (r.returnType depth declaring method owner ctx).1 = .ok (some t) → t.Tidy

/-- The views of the owner as the declaring class have no wildcards among their
own arguments, nor anything out of order in them. -/
def ViewsTidy (r : Resolver) (ctx : Context) (declaring : ClassId)
    (owner : Ty) : Prop :=
  ∀ depth view, (r.viewAs depth declaring owner ctx).1 = .ok (some view) →
    r.env.Counted view → r.env.TidyValues view

theorem tidy_of_seenThrough {depth : Nat} {own : List TypeVarId}
    (hviews : r.ViewsTidy ctx declaring owner) (ht : t.Tidy)
    (hs : (r.seenThrough depth declaring t owner own ctx).1 = .ok s) :
    s.Tidy := by
  obtain ⟨found, ctx', hfound, hs⟩ := of_bind_ok hs
  cases found with
  | none =>
      obtain rfl := Outcome.ok.inj hs
      exact ht
  | some view =>
      refine tidy_of_substituteThrough ht (hviews depth view ?_) hs
      rw [hfound]

section

variable {depth : Nat}
  (hviews : declaring = r.env.wellKnown.object ∨
    r.ViewsTidy ctx declaring owner)

include hviews

theorem tidy_memberType {declared : Ty} (hdeclared : declared.Tidy)
    (hs : (r.memberType depth declaring declared owner ctx).1 = .ok t) :
    t.Tidy := by
  unfold memberType at hs
  split at hs
  · obtain rfl := Outcome.ok.inj hs
    exact hdeclared
  · next htop =>
      exact tidy_of_seenThrough (hviews.resolve_left htop) hdeclared hs

theorem tidy_fieldType {field : FieldDecl} (hdeclared : field.type.Tidy)
    (hs : (r.fieldType depth declaring field owner ctx).1 = .ok t) :
    t.Tidy := by
  unfold fieldType at hs
  split at hs
  · obtain rfl := Outcome.ok.inj hs
    exact hdeclared
  · exact tidy_memberType hviews hdeclared hs

theorem tidy_parameterTypes {method : MethodDecl} {ts : List Ty}
    (hparams : ∀ t ∈ method.params, t.Tidy)
    (hs : (r.parameterTypes depth declaring method owner ctx).1 = .ok ts)
    (ht : t ∈ ts) : t.Tidy := by
  unfold parameterTypes at hs
  split at hs
  · obtain rfl := Outcome.ok.inj hs
    exact hparams t ht
  next htop =>
    have hne : declaring ≠ r.env.wellKnown.object :=
      fun heq => htop (by simp [heq])
    obtain ⟨found, ctx', hfound, hs⟩ := of_bind_ok hs
    cases found with
    | none =>
        obtain rfl := Outcome.ok.inj hs
        exact hparams t ht
    | some view =>
        obtain ⟨p, hp, ht⟩ := mem_of_substituteAll hs ht
        refine tidy_of_substituteThrough (hparams p hp)
          (hviews.resolve_left hne depth view ?_) ht
        rw [hfound]

theorem tidy_returnType {method : MethodDecl}
    (hdeclared : ∀ t, method.returnType = some t → t.Tidy)
    (hs : (r.returnType depth declaring method owner ctx).1 = .ok (some t)) :
    t.Tidy := by
  unfold returnType at hs
  cases hret : method.returnType with
  | none =>
      rw [hret] at hs
      cases hs
  | some declared =>
      simp only [hret] at hs
      by_cases htop : (method.isStatic ||
        declaring = r.env.wellKnown.object) = true
      · rw [if_pos htop] at hs
        obtain rfl := Option.some.inj (Outcome.ok.inj hs)
        exact hdeclared declared hret
      · rw [if_neg htop] at hs
        have hne : declaring ≠ r.env.wellKnown.object :=
          fun heq => htop (by simp [heq])
        obtain ⟨s, ctx', hs', hs⟩ := of_bind_ok hs
        obtain rfl := Option.some.inj (Outcome.ok.inj hs)
        exact tidy_of_seenThrough (hviews.resolve_left hne)
          (hdeclared declared hret) (by rw [hs'])

end

/-- The types of members are in order exactly where the views of the owner are,
or the member is one of the top type. -/
theorem membersTidy_iff (r : Resolver) (ctx : Context) (declaring : ClassId)
    (owner : Ty) : r.MembersTidy ctx declaring owner ↔
      declaring = r.env.wellKnown.object ∨ r.ViewsTidy ctx declaring owner := by
  constructor
  · intro hmembers
    by_cases htop : declaring = r.env.wellKnown.object
    · exact .inl htop
    refine .inr fun depth view hview hcounted v a ha => ?_
    -- ask for a member whose declared type is the variable itself
    refine hmembers.memberType depth (.var v) a (Ty.tidy_var v) ?_
    rw [memberType, if_neg htop, seenThrough, bind_ok hview]
    show r.substituteThrough (.var v) view [] = .ok a
    exact substituteThrough_var hcounted ha
  · intro hviews
    constructor
    case memberType =>
      exact fun _ _ _ hdeclared hs => tidy_memberType hviews hdeclared hs
    case fieldType =>
      exact fun _ _ _ hdeclared hs => tidy_fieldType hviews hdeclared hs
    case parameterTypes =>
      intro depth method ts ht hs t hmem
      have hparams : ∀ t ∈ method.params, t.Tidy :=
        fun t hmem => ht t (List.mem_append_left _ hmem)
      exact tidy_parameterTypes hviews hparams hs hmem
    case returnType =>
      intro depth method t ht hs
      refine tidy_returnType hviews (fun declared hret => ?_) hs
      refine ht declared (List.mem_append_right _ ?_)
      rw [hret]
      exact List.mem_singleton_self declared

/-- At any point of any history the types of members are in order exactly where
the views of the owner are. They are for every class, parameterized type and
array, and for variables and captures whose bounds are. -/
theorem member_types_tidy_iff {n : Nat} (h : r.env.WellFormed)
    (hdeclared : r.env.DeclaresConverted) (hctx : r.Reachable ctx)
    (howner : r.env.Complete n owner) (hseats : ∀ x ∈ owner.parts, x.Seats)
    (declaring : ClassId) : (r.MembersTidy ctx declaring owner ↔
      declaring = r.env.wellKnown.object ∨ r.ViewsTidy ctx declaring owner) ∧
      (owner.isUnknown = false ∨ r.BoundsTidy ctx.captures owner →
        r.MembersTidy ctx declaring owner) := by
  have hiff := membersTidy_iff r ctx declaring owner
  refine ⟨hiff, fun hcase => hiff.2 (.inr fun depth view hview _ => ?_)⟩
  -- what is remembered is sound, so the view is the one of a resolver without a
  -- memo
  rw [(viewAs_simulates r depth declaring owner ctx ctx hctx.sameButMemo).1]
    at hview
  by_cases hknown : owner.isUnknown = false
  · exact viewAs_tidy (r := r.forgetting) h hdeclared rfl howner
      hseats hknown hview
  · have hbounds : r.forgetting.BoundsTidy ctx.captures owner := by
      unfold BoundsTidy
      rw [r.forgetting_alike.directly]
      exact hcase.resolve_left hknown
    exact viewAs_tidy_of_bounds (r := r.forgetting) h hdeclared rfl
      (Bool.not_eq_false _ ▸ hknown) hbounds hview

open TypeStore in
/-- `compareTo` of an enumeration constant of unknown type takes an argument
whose type is in order. -/
theorem compareTo_tidy :
    ∃ ts, (coreResolver.parameterTypes 12 Seed.comparable
      (Seed.method "compareTo" [Seed.tv 0] (.primitive .int))
      (Seed.applied Seed.enum [(Wildcard.unbounded Seed.object).toTy])
        .empty).1 = .ok ts ∧
      ∀ t ∈ ts, t.Tidy := by
  have hseats : ∀ x ∈ (Seed.applied Seed.enum
        [(Wildcard.unbounded Seed.object).toTy]).parts,
      x.Seats := by
    decide
  have hmembers :=
    (member_types_tidy_iff (r := coreResolver) (n := 0) core_wellFormed
      core_declaresConverted .start (by decide) hseats Seed.comparable).2
      (.inl rfl)
  exact ⟨_, rfl, hmembers.parameterTypes 12
    (Seed.method "compareTo" [Seed.tv 0] (.primitive .int)) _ (by decide) rfl⟩

open TypeStore in
/-- The argument of `Comparable` seen from `T extends Comparable<? super T>` is
a wildcard. -/
theorem comparableArgument_wildcard :
    knotted.toDeclarations.WellFormed ∧
      knotted.toDeclarations.DeclaresConverted ∧
      knotted.toDeclarations.Regular 0 (Seed.tv 3) ∧
      (knottedResolver.memberType 4 Seed.comparable (Seed.tv 0)
          (Seed.tv 3) .empty).1 =
        .ok (Wildcard.above Seed.object (Seed.tv 3)).toTy :=
  ⟨knotted_wellFormed, knotted_declaresConverted, by decide, rfl⟩

end Resolver

end GenericTypes
