import GenericTypes.Proofs.Checking
import GenericTypes.Proofs.Turns

/-!
# When comparisons end, and when they fail

A comparison ends exactly if no walk of questions from it is infinite, and it
fails exactly if some walk leads to a left side that is refused. That the
declarations are in order does not settle either. `Comparable<? super Chain>`
against a class `Chain` that is comparable with `Comparable<? super Chain>`
comes back to itself, and a bound such as that of
`T extends Comparable<? super T>` is compared as written, so that its wildcard
argument comes to stand on the left side.

Two conditions can be read off. If nothing declared has a lower bound in it,
every comparison ends, since turning round uses up the lower bounds of the two
types. And if the left side has none, comparisons never turn round; they ask
about smaller and smaller parts of it, and fail only if one of these is refused.
-/

namespace GenericTypes

open Relation

namespace Ty

variable {t x : Ty} {arena later : Array CaptureDef}

instance (arena : Array CaptureDef) (t : Ty) : Decidable (t.Upward arena) :=
  inferInstanceAs (Decidable (∀ x ∈ t.parts, x.lowerBounds arena = []))

/-- What a type has in the way of lower bounds does not change later on. -/
theorem Upward.grows {d : Declarations} (h : t.Upward arena)
    (ht : d.Complete arena.size t) (hgrows : Resolver.Grows arena later) :
    t.Upward later := by
  intro x hx
  have hnone := h x hx
  cases x with
  | capture i =>
      have hi : i.index < arena.size := ht _ hx
      have hc := Array.getElem?_eq_getElem hi
      rw [lowerBounds, hc] at hnone
      rw [lowerBounds, hgrows _ _ hc]
      exact hnone
  | nominal _ | parameterized _ _ _ | var _ | wildcard _ _ | genericArray _ =>
      exact hnone

/-- The upper bounds of a wildcard. -/
def upperBounds : Ty → List Ty
  | .wildcard upper _ => upper
  | .nominal _ | .parameterized _ _ _ | .var _ | .genericArray _ | .capture _ =>
      []

/-- Every upper bound of a wildcard in the type may stand on the left side of a
comparison. -/
def BoundsAccepted (t : Ty) : Prop :=
  ∀ x ∈ t.parts, ∀ u ∈ x.upperBounds, u.refusal? = none

instance (t : Ty) : Decidable t.BoundsAccepted :=
  inferInstanceAs (Decidable (∀ x ∈ t.parts, ∀ u ∈ x.upperBounds,
    u.refusal? = none))

end Ty

namespace Resolver

open Declarations Resolve

variable {r : Resolver} {arena later : Array CaptureDef}
  {level : CaptureId → Nat} {sup sub s t : Ty} {q : Query} {ctx : Context}

section

variable (h : r.env.Founded) (hplain : r.config.memoizeSupertypes = false)

include h hplain

/-- A question on a variable climbs from the right side and never turns
round. -/
theorem acc_var {v : TypeVarId} (hq : r.Valid q) (hsup : q.sup = .var v) :
    Acc (fun q' q => r.Needs q q') q := by
  have hclimb : ∀ {arena : Array CaptureDef} {x : Ty}, r.Climbs arena x →
        ∀ {q : Query},
      r.Valid q → q.sup = .var v → q.sub = x → Grows arena q.ctx.captures →
      Acc (fun q' q => r.Needs q q') q := by
    intro arena x hx
    induction hx with
    | @intro x ts habove _ _ _ ih =>
        intro q hq hsup hsub hgrows
        refine .intro q fun q' hneeds => ?_
        obtain ⟨hq', later, hfollows, hbuilds⟩ := hneeds.follows h hplain hq
        obtain ⟨sup', sub', ctx'⟩ := q'
        rw [hsup, hsub] at hfollows
        cases hfollows with
        | bound _ hs =>
            obtain ⟨ts', hts', hmem⟩ := hs
            obtain rfl :=
              Outcome.ok.inj ((above_grows hgrows habove).symm.trans hts')
            exact ih _ hmem hq' rfl rfl (hgrows.trans hbuilds.grows)
        | view _ _ hcompares => cases hcompares
  cases hprim : q.sub.isPrimitive with
  | false => exact hclimb (hq.sound.climbs h hq.sub hprim) hq hsup rfl (.refl _)
  | true =>
      refine .intro q fun q' hneeds => ?_
      obtain ⟨-, later, hfollows, -⟩ := hneeds.follows h hplain hq
      obtain ⟨sup', sub', ctx'⟩ := q'
      rw [hsup] at hfollows
      cases hfollows with
      | bound _ hs =>
          rw [isPrimitive_of_directly hs] at hprim
          cases hprim
      | view _ _ hcompares => cases hcompares

/-- Where the declarations have no lower bounds, no walk is infinite: the turns
get fewer, or else the left side gets smaller. -/
theorem acc_of_leveled (hup : r.env.DeclaresUpward) (count size : Nat)
    (hq : r.Valid q) (hlev : Leveled level q.ctx.captures)
    (hcount : q.sup.turns level + q.sub.turns level ≤ count)
    (hsize : sizeOf q.sup ≤ size) : Acc (fun q' q => r.Needs q q') q := by
  -- first on the count, and for as long as it stays the same on the left side
  induction count using Nat.strongRecOn generalizing size q level with
  | ind count ihcount =>
      induction size using Nat.strongRecOn generalizing q level with
      | ind size ihsize =>
          by_cases hvar : ∃ v, q.sup = .var v
          · obtain ⟨v, hv⟩ := hvar
            exact acc_var h hplain hq hv
          refine .intro q fun q' hneeds => ?_
          obtain ⟨hq', later, hfollows, hbuilds⟩ := hneeds.follows h hplain hq
          obtain ⟨hsup', hsub'⟩ := hfollows.regular h hq.sound hq.sup hq.sub
          obtain ⟨hlater, -⟩ := hfollows.sound h hq.sound hq.sub
          obtain ⟨level', hlev', hless⟩ :=
            turns_follows h hup hq.sound hlev hq.sup hq.sub
              (fun v hv => hvar ⟨v, hv⟩) hfollows
          -- what was captured by earlier questions does not change the count
          obtain ⟨level'', hlev'', hagree⟩ := hbuilds.leveled h hup hlater hlev'
          rw [← turns_agree hsup'.complete hagree,
            ← turns_agree hsub'.complete hagree] at hless
          rcases hless with hless | ⟨hle, hless⟩
          · exact ihcount _ (Nat.lt_of_lt_of_le hless hcount)
              (sizeOf q'.sup) hq' hlev'' (Nat.le_refl _) (Nat.le_refl _)
          · exact ihsize _ (Nat.lt_of_lt_of_le hless hsize) hq' hlev''
              (Nat.le_trans hle hcount) (Nat.le_refl _)

omit h hplain in
/-- What follows from a question whose left side has no lower bounds is about a
part of it, which is refused only if a bound of it is. -/
theorem upward_follows (hsup : r.env.Regular arena.size sup)
    (hup : sup.Upward arena) (hvar : ∀ v, sup ≠ .var v)
    (hfollows : r.Follows arena sup sub later s t) :
    s ∈ sup.parts ∧ sizeOf s < sizeOf sup ∧
      (sup.refusal? = none → sup.BoundsAccepted → s.refusal? = none) := by
  cases hfollows with
  | bound v _ => exact absurd rfl (hvar v)
  | @lower i c _ _ hc hl =>
      have hnone := hup _ (Ty.mem_parts_self _)
      rw [Ty.lowerBounds, hc] at hnone
      rw [show c.lower = [] from hnone] at hl
      cases hl
  | view _ _ hcompares =>
      cases hcompares with
      | component k k' =>
          refine ⟨Ty.component_mem_parts s, Ty.sizeOf_component s,
            fun hrefusal _ => Ty.refusal_of_unerasable hrefusal⟩
      | owner o o' =>
          refine ⟨Ty.owner_mem_parts,
            Ty.sizeOf_owner s, fun _ _ => Ty.refusal_of_head ?_⟩
          exact hsup.complete.fits.2.2 s rfl
      | @upper id _ args _ owner _ upper lower _ _ hpair hu =>
          have hleft := (List.of_mem_zip hpair).1
          have hwildcard :
              .wildcard upper lower ∈ (Ty.parameterized id args owner).parts :=
            Ty.arg_mem_parts hleft
          refine ⟨Ty.mem_parts_trans ?_ hwildcard, Ty.sizeOf_bound hleft hu,
            fun _ hbounds => hbounds _ hwildcard s hu⟩
          exact Ty.upper_mem_parts hu
      | @lower id _ args _ owner _ upper lower _ _ hpair hl =>
          have hleft := (List.of_mem_zip hpair).1
          obtain rfl := hup.wildcard (Ty.arg_mem_parts hleft)
          cases hl

/-- Where the left side has no lower bounds, no walk is infinite: the left side
gets smaller. -/
theorem acc_of_upward (hq : r.Valid q) (hup : q.sup.Upward q.ctx.captures) :
    Acc (fun q' q => r.Needs q q') q := by
  induction hsize : sizeOf q.sup using Nat.strongRecOn generalizing q with
  | ind size ih =>
      subst hsize
      by_cases hvar : ∃ v, q.sup = .var v
      · obtain ⟨v, hv⟩ := hvar
        exact acc_var h hplain hq hv
      refine .intro q fun q' hneeds => ?_
      obtain ⟨hq', later, hfollows, hbuilds⟩ := hneeds.follows h hplain hq
      obtain ⟨-, hlater⟩ := hfollows.sound h hq.sound hq.sub
      obtain ⟨hpart, hless, -⟩ :=
        upward_follows hq.sup hup (fun v hv => hvar ⟨v, hv⟩) hfollows
      refine ih _ hless hq' ?_ rfl
      exact (hup.part hpart).grows (hq.sup.part hpart).complete
        (hlater.grows.trans hbuilds.grows)

/-- Where the left side has no lower bounds and would not be refused, nor any of
its bounds, no question on a walk is. -/
theorem accepted_of_upward {q' : Query} (hq : r.Valid q)
    (hup : q.sup.Upward q.ctx.captures) (hrefusal : q.sup.refusal? = none)
    (hbounds : q.sup.BoundsAccepted) (hwalk : ReflTransGen r.Needs q q') :
    q'.sup.refusal? = none := by
  induction hwalk using ReflTransGen.head_induction_on with
  | refl => exact hrefusal
  | @head q q₁ hneeds _ ih =>
      obtain ⟨hq₁, later, hfollows, hbuilds⟩ := hneeds.follows h hplain hq
      obtain ⟨-, hlater⟩ := hfollows.sound h hq.sound hq.sub
      have hgrows := hlater.grows.trans hbuilds.grows
      by_cases hvar : ∃ v, q.sup = .var v
      · obtain ⟨v, hv⟩ := hvar
        have hsame : q₁.sup = q.sup := by
          obtain ⟨sup', sub', ctx'⟩ := q₁
          rw [hv] at hfollows
          cases hfollows with
          | bound _ _ => exact hv.symm
          | view _ _ hcompares => cases hcompares
        rw [hsame] at ih
        exact ih hq₁ (hup.grows hq.sup.complete hgrows) hrefusal hbounds
      · obtain ⟨hpart, -, haccepted⟩ :=
          upward_follows hq.sup hup (fun v hv => hvar ⟨v, hv⟩) hfollows
        exact ih hq₁ ((hup.part hpart).grows
            (hq.sup.part hpart).complete hgrows)
          (haccepted hrefusal hbounds) fun x hx =>
            hbounds x (Ty.mem_parts_trans hx hpart)

end

/-! ## Any resolver -/

/-- Wherever requests on regular types lead, a question on regular types is one
to the resolver that remembers nothing, and is answered as by that. -/
theorem RegularlyReachable.valid (h : r.env.Founded)
    (hctx : r.RegularlyReachable ctx)
    (hsup : r.env.Regular ctx.captures.size sup)
    (hsub : r.env.Regular ctx.captures.size sub) :
    r.forgetting.Valid ⟨sup, sub, ctx⟩ ∧ ∀ depth,
      (r.isSupertype depth sup sub ctx).1 =
          (r.forgetting.isSupertype depth sup sub ctx).1 ∧
        (r.contains depth sup sub ctx).1 =
          (r.forgetting.contains depth sup sub ctx).1 := by
  obtain ⟨harena, hsame⟩ := hctx.sound h
  refine ⟨⟨sound_forgetting.2 harena, hsup, hsub⟩, fun depth => ⟨?_, ?_⟩⟩
  · exact (isSupertype_simulates r depth sup sub ctx ctx hsame).1
  · exact (contains_simulates r depth sup sub ctx ctx hsame).1

theorem RegularlyReachable.leveled (h : r.env.Founded)
    (hup : r.env.DeclaresUpward) (hctx : r.RegularlyReachable ctx) :
    ∃ level, Leveled level ctx.captures := by
  have hempty : Leveled (fun _ => 0) #[] := by
    constructor
    · intro i c hc
      simp at hc
    · intro i c hc
      simp at hc
  obtain ⟨level, hlev, -⟩ :=
    (hctx.builds h).leveled (r := r.forgetting) h hup (sound_empty _) hempty
  exact ⟨level, hlev⟩

theorem contains_eq_plan (n : Nat) (outer inner : Ty) :
    r.contains n outer inner =
    (Plan.contains outer inner (.answer true)).run (r.isSupertype n) := by
  have hid : (fun b : Bool => if b = true then (Plan.answer true).run
      (r.isSupertype n)
      else pure false) = (pure : Bool → Resolve Bool) := by
    funext b
    cases b <;> rfl
  rw [Plan.contains_run, hid, bind_pure]
  rfl

/-- What containment asks is about regular types again, and about parts of the
left side where this has no lower bounds. -/
theorem valid_of_contains (h : r.env.Founded)
    (hplain : r.config.memoizeSupertypes = false) (hq : r.Valid ⟨sup, sub, ctx⟩)
    (hreach : r.Reaches (.contains sup sub (.answer true)) ctx q) :
    r.Valid q ∧ r.Builds ctx.captures q.ctx.captures ∧
      (sup.Upward ctx.captures → q.sup.Upward q.ctx.captures) := by
  have hmentions : ∀ s t, (Plan.contains sup sub (.answer true)).Mentions s t →
      ∃ upper lower, sup = .wildcard upper lower ∧
        (s ∈ upper ∧ t = sub ∨ s = sub ∧ t ∈ lower) :=
    fun s t hmention => (Plan.mentions_contains hmention).resolve_right id
  have hregular : ∀ s t, (Plan.contains sup sub (.answer true)).Mentions s t →
      r.env.Regular ctx.captures.size s ∧
      r.env.Regular ctx.captures.size t := by
    intro s t hmention
    obtain ⟨upper, lower, rfl, ⟨hs, rfl⟩ | ⟨rfl, ht⟩⟩ := hmentions s t hmention
    · exact ⟨(hq.sup.bound (List.mem_append_left _ hs)).1, hq.sub⟩
    · exact ⟨hq.sub, (hq.sup.bound (List.mem_append_right _ ht)).1⟩
  obtain ⟨hmention, hsound, hbuilds⟩ :=
    of_reaches h hplain hreach hq.sound hregular
  obtain ⟨hs, ht⟩ := hregular _ _ hmention
  have hle := hbuilds.grows.size_le
  refine ⟨⟨hsound, hs.mono hle, ht.mono hle⟩, hbuilds, fun hup => ?_⟩
  obtain ⟨upper, lower, rfl, ⟨hmem, -⟩ | ⟨-, hmem⟩⟩ := hmentions _ _ hmention
  · have hpart : q.sup ∈ (Ty.wildcard upper lower).parts :=
      Ty.upper_mem_parts hmem
    exact (hup.part hpart).grows hs.complete hbuilds.grows
  · obtain rfl := hup.wildcard (Ty.mem_parts_self _)
    cases hmem

/-- Wherever requests on regular types lead, a comparison of regular types ends
exactly if no walk of questions from it is infinite, and containment exactly if
none is from what it asks. Both always end where no declared supertype or bound
has a lower bound in it, and where the left side has none. -/
theorem comparison_ends_iff (h : r.env.Founded)
    (hctx : r.RegularlyReachable ctx)
    (hsup : r.env.Regular ctx.captures.size sup)
    (hsub : r.env.Regular ctx.captures.size sub) :
    ((∃ depth, (r.isSupertype depth sup sub ctx).1 ≠ .exhausted) ↔
      Acc (fun q' q => r.forgetting.Needs q q') ⟨sup, sub, ctx⟩) ∧
    ((∃ depth, (r.contains depth sup sub ctx).1 ≠ .exhausted) ↔
      ∀ q, r.forgetting.Reaches (.contains sup sub (.answer true)) ctx q →
        Acc (fun q' q => r.forgetting.Needs q q') q) ∧
    (r.env.DeclaresUpward ∨ sup.Upward ctx.captures →
      (∃ depth, (r.isSupertype depth sup sub ctx).1 ≠ .exhausted) ∧
        ∃ depth, (r.contains depth sup sub ctx).1 ≠ .exhausted) := by
  obtain ⟨hq, hsame⟩ := hctx.valid h hsup hsub
  have hiff : (∃ depth, (r.isSupertype depth sup sub ctx).1 ≠ .exhausted) ↔
      Acc (fun q' q => r.forgetting.Needs q q') ⟨sup, sub, ctx⟩ := by
    rw [← ends_iff_acc (r := r.forgetting) h rfl hq]
    exact exists_congr fun depth => by rw [(hsame depth).1]
  have hiffContains : (∃ depth, (r.contains depth sup sub ctx).1 ≠ .exhausted) ↔
      ∀ q, r.forgetting.Reaches (.contains sup sub (.answer true)) ctx q →
        Acc (fun q' q => r.forgetting.Needs q q') q := by
    constructor
    · rintro ⟨depth, hdepth⟩ q hreach
      rw [(hsame depth).2, contains_eq_plan] at hdepth
      exact acc_of_ends ⟨depth, ends_of_run hreach hdepth⟩
    · intro hacc
      obtain ⟨depth, hdepth⟩ := run_ends (r := r.forgetting) fun q hreach =>
        (ends_iff_acc (r := r.forgetting) h rfl
          (valid_of_contains (r := r.forgetting) h rfl hq hreach).1).2
          (hacc q hreach)
      exact ⟨depth, by rwa [(hsame depth).2, contains_eq_plan]⟩
  refine ⟨hiff, hiffContains, fun hcase => ?_⟩
  have hacc : ∀ q : Query, r.forgetting.Valid q →
      r.forgetting.Builds ctx.captures q.ctx.captures →
      (sup.Upward ctx.captures → q.sup.Upward q.ctx.captures) →
      Acc (fun q' q => r.forgetting.Needs q q') q := by
    intro q hq' hbuilds hkeeps
    rcases hcase with hup | hup
    · obtain ⟨level, hlev⟩ := hctx.leveled h hup
      obtain ⟨level', hlev', -⟩ :=
        hbuilds.leveled (r := r.forgetting) h hup hq.sound hlev
      exact acc_of_leveled (r := r.forgetting) h rfl hup _ _ hq' hlev'
        (Nat.le_refl _) (Nat.le_refl _)
    · exact acc_of_upward (r := r.forgetting) h rfl hq' (hkeeps hup)
  refine ⟨hiff.2 (hacc _ hq .refl id), hiffContains.2 fun q hreach => ?_⟩
  obtain ⟨hq', hbuilds, hkeeps⟩ :=
    valid_of_contains (r := r.forgetting) h rfl hq hreach
  exact hacc q hq' hbuilds hkeeps

section

open TypeStore

theorem core_declaresUpward : core.toDeclarations.DeclaresUpward where
  supertypes _ _ hc :=
    forall_class (P := fun _ c => ∀ s ∈ c.supertypes, s.Upward #[])
      (by decide) hc
  bounds _ _ hb := forall_bound (P := fun b => b.Upward #[]) (by decide) hb

/-- Nothing in the core package has a lower bound, so that the one in
`Comparable<? super Integer>` is used up. -/
theorem comparableToInteger_ends :
    ∃ depth, (coreResolver.isSupertype depth
      (Seed.applied Seed.comparable
        [(Wildcard.above Seed.object (.named Seed.integer)).toTy])
      (.named Seed.integer) .empty).1 ≠ .exhausted :=
  have hends := comparison_ends_iff coreResolver_standard.founded .start
    (by decide) (by decide)
  (hends.2.2 (.inl core_declaresUpward)).1

/-- `Comparable<? super Chain>`. -/
def comparableToChain : Ty :=
  Seed.applied Seed.comparable
    [(Wildcard.above Seed.object (.named Seed.chain)).toTy]

/-- `Chain` is comparable with `Comparable<? super Chain>`, so to see that the
lower bound of this is within it, the question is asked again. -/
theorem chain_needs_itself (ctx : Context) : ∃ ctx',
    knottedResolver.forgetting.Needs ⟨comparableToChain, .named Seed.chain, ctx⟩
      ⟨comparableToChain, .named Seed.chain, ctx'⟩ := by
  have htop : ∀ ctx, knottedResolver.forgetting.isSupertype 1
      (.named Seed.object) comparableToChain ctx = (.ok true, ctx) :=
      fun _ => rfl
  exact ⟨_, 2, _, _, rfl, .next (htop _) (.here _ _ _ _ _)⟩

/-- No depth is enough for the comparison, with declarations in order. -/
theorem chain_never_ends :
    knotted.toDeclarations.WellFormed ∧
      knotted.toDeclarations.DeclaresConverted ∧
      knotted.toDeclarations.Regular 0 comparableToChain ∧
      knotted.toDeclarations.Regular 0 (.named Seed.chain) ∧
      ∀ depth, (knottedResolver.isSupertype depth comparableToChain
        (.named Seed.chain) .empty).1 = .exhausted := by
  have hsup : knotted.toDeclarations.Regular 0 comparableToChain := by decide
  have hsub : knotted.toDeclarations.Regular 0 (.named Seed.chain) := by decide
  refine ⟨knotted_wellFormed, knotted_declaresConverted, hsup, hsub,
    fun depth => ?_⟩
  obtain ⟨-, hsame⟩ :=
    RegularlyReachable.start.valid knottedResolver_standard.founded hsup hsub
  rw [(hsame depth).1]
  by_contra hends
  generalize hq : Query.mk comparableToChain (.named Seed.chain) .empty = q
  have hacc : Acc (fun q' q => knottedResolver.forgetting.Needs q q') q :=
    acc_of_ends ⟨depth, hq ▸ hends⟩
  -- the walk goes on for ever, with another context each time
  generalize Context.empty = ctx at hq
  clear hends hsame
  induction hacc generalizing ctx with
  | intro q _ ih =>
      subst hq
      obtain ⟨ctx', hneeds⟩ := chain_needs_itself ctx
      exact ih _ hneeds ctx' rfl

end

/-- Wherever requests on regular types lead, a comparison of regular types fails
exactly if a walk of questions from it leads to a left side that is refused, and
with that cause, which is never a wrong number of arguments or a variable that
is not bound. It has an answer where the left side has no lower bounds and
neither it nor an upper bound in it is refused. -/
theorem comparison_fails_iff (h : r.env.Founded)
    (hctx : r.RegularlyReachable ctx)
    (hsup : r.env.Regular ctx.captures.size sup)
    (hsub : r.env.Regular ctx.captures.size sub) :
    (∀ e, (∃ depth, (r.isSupertype depth sup sub ctx).1 = .error e) ↔
      ∃ q, ReflTransGen r.forgetting.Needs ⟨sup, sub, ctx⟩ q ∧
        q.sup.refusal? = some e) ∧
    (∀ depth e, (r.isSupertype depth sup sub ctx).1 = .error e →
      e = .unexpectedWildcard ∨ ∃ kind, e = .notErasable kind) ∧
    (sup.Upward ctx.captures → sup.refusal? = none → sup.BoundsAccepted →
      ∃ depth b, (r.isSupertype depth sup sub ctx).1 = .ok b) := by
  obtain ⟨hq, hsame⟩ := hctx.valid h hsup hsub
  have hiff : ∀ e, (∃ depth, (r.isSupertype depth sup sub ctx).1 = .error e) ↔
      ∃ q, ReflTransGen r.forgetting.Needs ⟨sup, sub, ctx⟩ q ∧
        q.sup.refusal? = some e := by
    intro e
    rw [← fails_iff_refused (r := r.forgetting) h rfl hq e]
    exact exists_congr fun depth => by rw [(hsame depth).1]
  refine ⟨hiff, fun depth e he => ?_, fun hup hrefusal hbounds => ?_⟩
  · obtain ⟨q, -, hrefusal⟩ := (hiff e).1 ⟨depth, he⟩
    exact Ty.refusal_kind hrefusal
  · obtain ⟨depth, hdepth⟩ := (ends_iff_acc (r := r.forgetting) h rfl hq).2
      (acc_of_upward (r := r.forgetting) h rfl hq hup)
    refine ⟨depth, ?_⟩
    rw [(hsame depth).1]
    match hx : (r.forgetting.isSupertype depth sup sub ctx).1 with
    | .ok b => exact ⟨b, rfl⟩
    | .exhausted => exact absurd hx hdepth
    | .error e =>
        obtain ⟨q', hwalk, hq'⟩ := (hiff e).1 ⟨depth, (hsame depth).1.trans hx⟩
        rw [accepted_of_upward (r := r.forgetting) h rfl hq hup hrefusal
          hbounds hwalk] at hq'
        cases hq'

section

open TypeStore

theorem comparableBelowNumber_answered :
    ∃ depth b, (coreResolver.isSupertype depth (Seed.applied Seed.comparable
      [(Wildcard.below (.named Seed.number)).toTy])
        (.named Seed.integer) .empty).1 = .ok b :=
  have hfails := comparison_fails_iff coreResolver_standard.founded .start
    (by decide) (by decide)
  hfails.2.2 (by decide) rfl (by decide)

/-- `Comparable<? super String>` against `T extends Comparable<? super T>`: the
bound is found for `T` and compared as written, and whether `? super T` is above
`String` is refused. -/
theorem boundedVariable_fails :
    knotted.toDeclarations.WellFormed ∧
      knotted.toDeclarations.DeclaresConverted ∧
      knotted.toDeclarations.Regular 0 (Seed.applied Seed.comparable
        [(Wildcard.above Seed.object (.named Seed.string)).toTy]) ∧
      knotted.toDeclarations.Regular 0 (Seed.tv 3) ∧
      ∃ depth, (knottedResolver.isSupertype depth (Seed.applied Seed.comparable
        [(Wildcard.above Seed.object (.named Seed.string)).toTy])
            (Seed.tv 3) .empty).1 =
          .error .unexpectedWildcard :=
  ⟨knotted_wellFormed, knotted_declaresConverted, by decide, by decide, 4, rfl⟩

end

end Resolver

end GenericTypes
