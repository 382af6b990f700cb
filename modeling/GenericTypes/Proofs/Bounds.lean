import GenericTypes.Proofs.Completeness
import GenericTypes.Proofs.Pruning
import GenericTypes.Proofs.Questions
import GenericTypes.Proofs.Reflexivity

/-!
# Subtyping through bounds

A variable and a capture are below what their bounds are below, as far as the
comparison goes about both in the same way. It does not: it takes the first view
that any bound leads to, as it was written, and it captures a bound that it is
asked about itself.

A left side without arguments does not see the difference. For any other the
bounds must lead to its class by one view, and capturing them must make no
difference to the left side (`Indifferent`): they have nothing to capture, or
one of their wildcards stands where the left side has an argument that fits only
itself, so that neither comparison says yes (`args_of_accepted`).
-/

namespace GenericTypes

open Relation

namespace Resolver

open Resolve Declarations

variable {r : Resolver} {arena : Array CaptureDef}
  {s t u v g : Ty} {a c : Class} {b : Bool} {n : Nat}

/-! ## What is accepted -/

theorem of_allHold {α : Type} {test : α → Resolve Bool} :
    ∀ {as : List α} {ctx : Context}, (allHold test as ctx).1 = .ok true →
      ∀ a ∈ as, ∃ ctx', (test a ctx').1 = .ok true
  | [], _, _, a, ha => absurd ha List.not_mem_nil
  | a :: as, ctx, hall, a', ha' => by
      obtain ⟨b, ctx', htest, hrest⟩ := of_bind_ok hall
      cases b with
      | false => cases hrest
      | true =>
          rcases List.mem_cons.1 ha' with rfl | ha'
          · exact ⟨ctx, by rw [htest]⟩
          · exact of_allHold hrest a' ha'

/-- In an accepted view the arguments are those of the left side, wherever that
has no wildcard. -/
theorem args_of_accepted {isSup : Ty → Ty → Resolve Bool} {id id' : ClassId}
    {args args' : List Ty} {owner owner' : Option Ty} {ctx : Context}
    (hview : (matchesView isSup (.parameterized id args owner)
      (.parameterized id' args' owner') ctx).1 = .ok true) {x x' : Ty}
    (hpair : (x, x') ∈ args.zip args')
    (hx : x.isWildcard = false) : x = x' := by
  have hview : (argumentsMatch isSup id args owner args' owner' ctx).1 =
      .ok true := hview
  unfold argumentsMatch at hview
  split at hview
  · obtain ⟨b, ctx', hall, hrest⟩ := of_bind_ok hview
    cases b with
    | false => cases hrest
    | true =>
        obtain ⟨ctx₂, hcontains⟩ := of_allHold (by rw [hall]) _ hpair
        cases x with
        | wildcard _ _ => cases hx
        | nominal _ | parameterized _ _ _ | var _ | genericArray _
        | capture _ =>
            exact of_decide_eq_true (Outcome.ok.inj hcontains)
  · cases hview

/-- Capturing gives a parameterized type new captures for its wildcards. -/
theorem captured_args (n : Nat) (id : ClassId) (args : List Ty)
    (owner : Option Ty) :
    ∃ m owner', n ≤ m ∧ (r.captured n (.parameterized id args owner)).1 =
      .parameterized id (numberWildcards m args) owner' := by
  cases owner with
  | none => exact ⟨n, none, Nat.le_refl n, rfl⟩
  | some o => exact ⟨_, _, Nat.le_add_right n _, rfl⟩

theorem zip_numberWildcards {x x' : Ty}
    (hx' : x'.isWildcard = true) :
    ∀ {n : Nat} {args args' : List Ty}, (x, x') ∈ args.zip args' →
    ∃ i, (x, .capture ⟨n + i⟩) ∈ args.zip (numberWildcards n args')
  | n, y :: args, y' :: args', hpair => by
      rcases List.mem_cons.1 hpair with heq | hrest
      · obtain ⟨rfl, rfl⟩ := Prod.mk.inj heq
        cases x' with
        | wildcard _ _ => exact ⟨0, List.mem_cons_self⟩
        | nominal _ | parameterized _ _ _ | var _ | genericArray _
        | capture _ => cases hx'
      · cases y' with
        | wildcard _ _ =>
            obtain ⟨i, hi⟩ := zip_numberWildcards hx' (n := n + 1) hrest
            exact ⟨1 + i, List.mem_cons_of_mem _ (Nat.add_assoc n 1 i ▸ hi)⟩
        | nominal _ | parameterized _ _ _ | var _ | genericArray _
        | capture _ =>
            obtain ⟨i, hi⟩ := zip_numberWildcards hx' (n := n) hrest
            exact ⟨i, List.mem_cons_of_mem _ hi⟩

/-! ## Bounds asked about and bounds passed through -/

/-- A search that goes on has found what it found through a direct supertype. -/
theorem find_directly (hsettled : r.settledBy t c = .ok none)
    (hfound : r.find arena n t c = .ok (some g)) :
    ∃ s m, r.Directly arena t s ∧ r.find arena m s c = .ok (some g) := by
  cases n with
  | zero => cases hfound
  | succ n =>
      rw [find, hsettled, Outcome.ok_bind] at hfound
      obtain ⟨ts, habove, hrest⟩ := Outcome.bind_eq_ok hfound
      obtain ⟨s, hs, hg⟩ := mem_of_firstFound hrest
      exact ⟨s, n, ⟨ts, habove, hs⟩, hg⟩

/-- Capturing `u` makes no difference to `s`: there is nothing to capture, or
`s` has an argument that fits only itself where `u` has a wildcard. -/
inductive Indifferent (s : Ty) : Ty → Prop where
  | converted {u : Ty} (hu : u.Converted) : Indifferent s u
  | misfit {id : ClassId} {args args' : List Ty} {owner owner' : Option Ty}
      (hs : s = .parameterized id args owner)
      {x x' : Ty} (hpair : (x, x') ∈ args.zip args') (hx : x.isWildcard = false)
      (hx' : x'.isWildcard = true) :
      Indifferent s (.parameterized id args' owner')

/-- The direct supertypes of `v` that lead to the class `c` lead to the view
that `v` itself does, and capturing them makes no difference to `s`. -/
def OneView (r : Resolver) (arena : Array CaptureDef) (s v : Ty)
    (c : Class) : Prop :=
  ∀ u, r.Directly arena v u → ∀ n g, r.find arena n u c = .ok (some g) →
    Indifferent s u ∧ ∃ m, r.find arena m v c = .ok (some g)

theorem OneView.forgetting (hone : r.OneView arena s v c) :
    r.forgetting.OneView arena s v c := by
  intro u hu n g hg
  rw [r.forgetting_alike.directly] at hu
  rw [find_forgetting] at hg
  obtain ⟨hindifferent, m, hm⟩ := hone u hu n g hg
  exact ⟨hindifferent, m, (find_forgetting r arena c m v).trans hm⟩

section

variable (h : r.Standard) (hplain : r.config.memoizeSupertypes = false)
  (harena : r.Sound arena)

include h harena

omit h harena in
theorem erasure_of_unconverted (hconverted : ¬ u.Converted) :
    ∃ a, r.env.erasure? u = .ok (some a) := by
  cases u with
  | parameterized id _ _ => exact ⟨_, erasure?_head rfl⟩
  | nominal _ | var _ | wildcard _ _ | genericArray _ | capture _ =>
      exact absurd trivial hconverted

include hplain

/-- What leads nowhere is refused, captured or not. -/
theorem verdict_of_nowhere (hu : r.env.Regular arena.size u)
    (hkind : s.isUnknown = false) (herase : r.env.erase s = .ok c)
    (hfind : r.find arena n u c = .ok none) :
    r.Verdict arena s u b ↔ b = false := by
  by_cases hconverted : u.Converted
  · exact verdict_found h harena hplain hu hconverted hkind herase hfind
  obtain ⟨a, ha⟩ := erasure_of_unconverted (r := r) hconverted
  cases hassign : r.env.assignable c a with
  | false =>
      exact verdict_of_settled hkind herase
        (settledByErasure_refused ha hassign)
  | true =>
      obtain ⟨m, g, hg⟩ :=
        find_of_assignable h harena hu (erase_of_erasure? ha) hassign
      exact absurd (find_unique hfind hg) nofun

/-- A class without arguments is above all that leads to it. -/
theorem verdict_of_nominal {e : Class} (hu : r.env.Regular arena.size u)
    (hfind : r.find arena n u e = .ok (some g)) :
    r.Verdict arena (.nominal e) u b ↔ b = true := by
  by_cases hconverted : u.Converted
  · exact (verdict_found h harena hplain hu hconverted rfl rfl hfind).trans
      (viewVerdict_nominal (.inl rfl))
  obtain ⟨a, ha⟩ := erasure_of_unconverted (r := r) hconverted
  cases hassign : r.env.assignable e a with
  | true =>
      exact verdict_of_settled rfl rfl (settledByErasure_nominal ha hassign)
  | false =>
      exact absurd (find_unique hfind
        (find_of_refused h.noHostTest ha hassign 0)) nofun

theorem not_verdict_of_misfit {id : ClassId} {args args' : List Ty}
    {owner owner' : Option Ty}
    (hs : r.env.Regular arena.size (.parameterized id args owner))
    (hu : r.env.Regular arena.size (.parameterized id args' owner')) {x x' : Ty}
    (hpair : (x, x') ∈ args.zip args') (hx : x.isWildcard = false)
    (hx' : x'.isWildcard = true) :
    ¬ r.Verdict arena (.parameterized id args owner)
      (.parameterized id args' owner') true := by
  intro hyes
  have hsettled : r.settledByErasure (.parameterized id args owner)
      (.parameterized id args' owner') (.named id) = .ok none :=
    settledByErasure_applied nofun (erasure?_head rfl)
      (assignable_refl h.noHostTest _)
  let ctx : Context := ⟨arena, [], #[]⟩
  have hctx : r.Sound ctx.captures := harena
  obtain ⟨ctx', hcapture, -⟩ := capture_ok h.founded hctx hu
  obtain ⟨m, owner₂, hle, hcaptured⟩ :=
    captured_args (r := r) arena.size id args' owner'
  rw [hcaptured] at hcapture
  obtain ⟨ctx₂, -, hiff⟩ := isSupertype_view hplain rfl rfl hsettled hcapture
    (find_self (erasure?_head rfl) 0)
  obtain ⟨depth, haccepted⟩ := (hiff true).1 hyes
  -- the argument of the left side would be a capture that the arena does not
  -- have
  obtain ⟨i, hi⟩ := zip_numberWildcards hx' (n := m) hpair
  obtain rfl := args_of_accepted haccepted hi hx
  have hold : m + i < arena.size :=
    (hs.arg (List.of_mem_zip hi).1).1.complete.fits
  omega

/-- Where capturing makes no difference, a bound that leads to the class is
asked about as it is passed through. -/
theorem verdict_of_indifferent (hs : r.env.Regular arena.size s)
    (hu : r.env.Regular arena.size u) (hkind : s.isUnknown = false)
    (herase : r.env.erase s = .ok c) (hfind : r.find arena n u c = .ok (some g))
    (hindifferent : Indifferent s u) :
    r.Verdict arena s u true ↔ r.ViewVerdict arena s g true := by
  cases hindifferent with
  | converted hconverted =>
      exact verdict_found h harena hplain hu hconverted hkind herase hfind
  | misfit hsEq hpair hx hx' =>
      subst hsEq
      obtain rfl := Outcome.ok.inj herase
      obtain rfl :=
        Option.some.inj (find_unique hfind (find_self (erasure?_head rfl) 0))
      refine iff_of_false
        (not_verdict_of_misfit h hplain harena hs hu hpair hx hx') ?_
      rintro ⟨depth, haccepted⟩
      obtain rfl := args_of_accepted haccepted hpair hx
      rw [hx] at hx'
      cases hx'

/-- A type is above a variable or a capture exactly if it is above one of its
bounds. -/
theorem verdict_bounds_iff (hs : r.env.Regular arena.size s)
    (hkind : s.isUnknown = false) (hv : r.env.Regular arena.size v)
    (hvKind : v.isUnknown = true)
    (hviews : (∃ e, s = .nominal e) ∨ ∀ c, r.env.erase s = .ok c →
      r.OneView arena s v c) :
    r.Verdict arena s v true ↔ ∃ u, r.Directly arena v u ∧
      r.Verdict arena s u true := by
  cases hready : s.isErasable with
  | false =>
      obtain ⟨k, hk⟩ := erase_refused (d := r.env.toDeclarations) hready
      refine iff_of_false (not_verdict_of_unerasable hkind hk) ?_
      rintro ⟨u, -, hyes⟩
      exact not_verdict_of_unerasable hkind hk hyes
  | true =>
      obtain ⟨c, hc⟩ := h.wellFormed.erase_ok hs.complete hready
      have hclimbs := harena.climbs h.founded hv (isPrimitive_unknown hvKind)
      have hregular : ∀ {u}, r.Directly arena v u →
          r.env.Regular arena.size u :=
        fun hu => harena.directly h.founded hv hu
      constructor
      · intro hyes
        obtain ⟨n, found, hfound⟩ := find_ok hclimbs c
        rw [verdict_found h harena hplain hv (converted_unknown hvKind) hkind hc
          hfound] at hyes
        cases found with
        | none => cases hyes
        | some g =>
            -- the bound that the view was found through
            obtain ⟨u, m, hdirectly, hg⟩ :=
              find_directly (settledBy_unknown hvKind c) hfound
            refine ⟨u, hdirectly, ?_⟩
            rcases hviews with ⟨e, rfl⟩ | hone
            · obtain rfl := Outcome.ok.inj hc
              exact (verdict_of_nominal h hplain harena
                (hregular hdirectly) hg).2 rfl
            · obtain ⟨hindifferent, -⟩ := hone c hc u hdirectly m g hg
              exact (verdict_of_indifferent h hplain harena hs
                (hregular hdirectly) hkind hc hg hindifferent).2 hyes
      · rintro ⟨u, hdirectly, hyes⟩
        obtain ⟨n, found, hfound⟩ :=
          find_regular h.founded harena (hregular hdirectly) c
        cases found with
        | none =>
            have hno := verdict_of_nowhere h hplain harena
              (b := true) (hregular hdirectly) hkind hc hfound
            cases hno.1 hyes
        | some g =>
            rcases hviews with ⟨e, rfl⟩ | hone
            · obtain rfl := Outcome.ok.inj hc
              obtain ⟨ts, habove, hu⟩ := hdirectly
              obtain ⟨m, g', hg'⟩ :=
                find_through hclimbs
                  (settledBy_unknown hvKind e) habove hu hfound
              exact (verdict_of_nominal h hplain harena hv hg').2 rfl
            · obtain ⟨hindifferent, m, hg⟩ := hone c hc u hdirectly n g hfound
              rw [verdict_found h harena hplain hv
                (converted_unknown hvKind) hkind hc hg]
              exact (verdict_of_indifferent h hplain harena hs
                (hregular hdirectly) hkind hc hfound hindifferent).1 hyes

end

/-! ## The answers of a resolver -/

/-- Wherever requests on regular types lead, a class, parameterized type or
array is above a variable or a capture exactly if it is above one of the bounds,
where these lead to its class by one view and capturing them makes no difference
to it; for a left side without arguments always. In any case the answer is that
of the exact supertype. -/
theorem isSupertype_bounds_iff (h : r.Standard) {ctx : Context}
    (hctx : r.RegularlyReachable ctx) (hs : r.env.Regular ctx.captures.size s)
    (hkind : s.isUnknown = false) (hv : r.env.Regular ctx.captures.size v)
    (hvKind : v.isUnknown = true) :
    ∃ bounds ctx', r.directSupertypes v ctx = (.ok bounds, ctx') ∧
      (((∃ e, s = .nominal e) ∨ ∀ c, r.env.erase s = .ok c →
          r.OneView ctx.captures s v c) →
        (r.Says ctx s v true ↔ ∃ u ∈ bounds, r.Says ctx s u true)) ∧
      ∀ c, r.env.erase s = .ok c → ∃ depth found,
        (r.exactSupertype depth v c ctx).1 = .ok found ∧
          ∀ b, r.Says ctx s v b ↔
            match found with
            | some g => r.ViewSays ctx s g b
            | none => b = false := by
  obtain ⟨hsound, hsame⟩ := hctx.sound h.founded
  have hsound' := sound_forgetting.2 hsound
  have hfree := h.wellFormed.captureFree
  have hclimbs := hsound.climbs h.founded hv (isPrimitive_unknown hvKind)
  obtain ⟨houtcome, -⟩ := directSupertypes_simulates r v ctx ctx hsame
  obtain ⟨hreads, -⟩ := directSupertypes_reads (r := r.forgetting) rfl v ctx
  cases hclimbs with
  | @intro _ bounds habove herase hprim hts =>
      have hplain := (r.forgetting_alike.above ctx.captures v).trans habove
      refine ⟨bounds, _, Prod.ext (houtcome.trans (hreads.trans hplain)) rfl,
        fun hviews => ?_, fun c hc => ?_⟩
      · have hviews' := hviews.imp_right fun hone c hc => (hone c hc).forgetting
        rw [verdict_iff hfree hsame,
          verdict_bounds_iff h.forgetting rfl hsound' hs hkind hv
            hvKind hviews']
        refine exists_congr fun u => and_congr ?_ (verdict_iff hfree hsame).symm
        constructor
        · rintro ⟨ts, hts, hu⟩
          obtain rfl := Outcome.ok.inj (hplain.symm.trans hts)
          exact hu
        · exact fun hu => ⟨bounds, hplain, hu⟩
      · obtain ⟨n, found, hfound⟩ := find_ok (.intro habove herase hprim hts) c
        refine ⟨n, found, (exactSupertype_eq_find hsame n v c).trans hfound,
          fun b => ?_⟩
        rw [← find_forgetting] at hfound
        rw [verdict_iff hfree hsame, verdict_found h.forgetting hsound' rfl hv
          (converted_unknown hvKind) hkind hc hfound]
        cases found with
        | none => exact Iff.rfl
        | some g => exact (viewVerdict_iff hfree hsame).symm

section

open TypeStore

/-- `E` is comparable to itself because its bound `Enum<E>` is comparable to
`E`. -/
theorem comparable_above_enumVariable :
    ∃ depth,
      (coreResolver.isSupertype depth (Seed.applied Seed.comparable [Seed.tv 1])
        (Seed.tv 1) .empty).1 = .ok true := by
  have hview : coreResolver.find #[] 8 (Seed.tv 1) (.named Seed.comparable) =
      .ok (some (Seed.applied Seed.comparable [Seed.tv 1])) := rfl
  have hone : coreResolver.OneView #[]
      (Seed.applied Seed.comparable [Seed.tv 1]) (Seed.tv 1)
      (.named Seed.comparable) := by
    rintro u ⟨ts, hts, hu⟩ n g hg
    obtain rfl := Outcome.ok.inj hts
    obtain rfl := List.mem_singleton.1 hu
    have hbound : coreResolver.find #[] 8 (Seed.applied Seed.enum [Seed.tv 1])
        (.named Seed.comparable) =
        .ok (some (Seed.applied Seed.comparable [Seed.tv 1])) := rfl
    obtain rfl := Option.some.inj (find_unique hbound hg)
    exact ⟨.converted (by decide), 8, hview⟩
  obtain ⟨bounds, ctx', hbounds, hiff, -⟩ :=
    isSupertype_bounds_iff coreResolver_standard .start
      (s := Seed.applied Seed.comparable [Seed.tv 1]) (v := Seed.tv 1)
      (by decide) rfl (by decide) rfl
  have hrun : coreResolver.directSupertypes (Seed.tv 1) .empty =
      (.ok [Seed.applied Seed.enum [Seed.tv 1]], .empty) := rfl
  obtain ⟨hlist, -⟩ := Prod.mk.inj (hbounds.symm.trans hrun)
  obtain rfl := Outcome.ok.inj hlist
  refine (hiff (.inr fun c hc => ?_)).2 ⟨_, List.mem_cons_self, 8, rfl⟩
  obtain rfl := Outcome.ok.inj hc
  exact hone

/-- `T extends Comparable<? super T>` is not below its only bound, which is
below itself: the bound is captured where it is asked about, and not where it is
passed through. -/
theorem comparableVariable_not_below_bound :
    knotted.toDeclarations.WellFormed ∧
      knotted.toDeclarations.DeclaresConverted ∧
      knotted.toDeclarations.Proper 0 (Seed.tv 3) ∧
      (∃ bound, knottedResolver.directSupertypes (Seed.tv 3) .empty =
          (.ok [bound], .empty) ∧
        bound = Seed.applied Seed.comparable
          [(Wildcard.above Seed.object (Seed.tv 3)).toTy] ∧
        knotted.toDeclarations.Proper 0 bound ∧
        (∃ depth,
          (knottedResolver.isSupertype depth bound bound .empty).1 = .ok true) ∧
        (∃ depth,
          (knottedResolver.isSupertype depth bound (Seed.tv 3) .empty).1 =
            .error .unexpectedWildcard) ∧
        ¬ knottedResolver.Says .empty bound (Seed.tv 3) true) := by
  refine ⟨knotted_wellFormed, knotted_declaresConverted, by decide, _, rfl,
    rfl, by decide, ⟨8, rfl⟩, ⟨8, rfl⟩, ?_⟩
  have hend : (knottedResolver.isSupertype 8
      (Seed.applied Seed.comparable
        [(Wildcard.above Seed.object (Seed.tv 3)).toTy])
      (Seed.tv 3) .empty).1 = .error .unexpectedWildcard := rfl
  rintro ⟨depth, hyes⟩
  exact isSupertype_ne_true hend nofun nofun hyes

end

end Resolver

end GenericTypes
