import GenericTypes.Proofs.Memo
import GenericTypes.Proofs.Upkeep

/-!
# What requests leave behind

The arena is sound at the start, and a request on regular types keeps it so and
only adds to it (`answer_keeps`). By induction the arena is sound wherever a
history of such requests leads (`RegularlyReachable.sound`). Nothing is asked of
the outcomes: a request may fail, or give up at its depth, and the captures it
opened by then are sound all the same.
-/

namespace GenericTypes

namespace Resolver

open Resolve Declarations

variable {α : Type} {r : Resolver} {n : Nat} {t : Ty}

/-- Kept up is that the arena is sound, and later arenas are built on earlier
ones by capturing regular types. -/
abbrev soundness (r : Resolver) : Upkeep where
  Good := r.Sound
  Leads := r.Builds
  refl := fun _ => .refl
  trans := .trans
  size_le := fun h => h.grows.size_le

/-- A step that keeps the arena sound and only adds to it. -/
abbrev KeepsSound (r : Resolver) (n : Nat) (x : Resolve α) : Prop :=
  r.soundness.KeepsUp n x

theorem soundness_allows (h : r.env.Founded) :
    r.soundness.Allows r fun n t => r.env.Regular n t where
  mono := fun hle ht => ht.mono hle
  part := .part
  component := .component?
  above := fun harena => harena.above h
  lower := fun harena => harena.lower _ _
  capture := by
    intro t ctx harena ht
    obtain ⟨ctx', hcapture, hlater, hsound, hregular⟩ := capture_ok h harena ht
    rw [hcapture]
    exact ⟨hsound, .capture .refl ht hlater,
      fun a ha => Outcome.ok.inj ha ▸ hregular⟩

/-- One request on regular types keeps the arena sound. -/
theorem answer_sound (h : r.env.Founded)
    (hplain : r.config.memoizeSupertypes = false) (depth : Nat) {q : Request}
    {ctx : Context} (harena : r.Sound ctx.captures)
    (hq : ∀ t ∈ q.operands, r.env.Regular ctx.captures.size t) :
    r.Sound (r.answer depth q ctx).2.captures := by
  by_cases hreset : q = .reset
  · subst hreset
    exact sound_empty r
  · have hkeeps :=
      Upkeep.answer_keeps (soundness_allows h) hplain depth hreset hq
    exact (hkeeps ctx (Nat.le_refl _) harena).1

/-- A context that a resolver comes to by requests on types that are regular
when they are handed in. Whether the requests succeed does not matter. -/
inductive RegularlyReachable (r : Resolver) : Context → Prop where
  | start : RegularlyReachable r .empty
  | step {ctx : Context} (h : RegularlyReachable r ctx)
      (depth : Nat) {q : Request}
      (hq : ∀ t ∈ q.operands, r.env.Regular ctx.captures.size t) :
      RegularlyReachable r (r.answer depth q ctx).2

theorem Standard.forgetting (h : r.Standard) : r.forgetting.Standard :=
  ⟨h.wellFormed, h.rooted, h.implicitTop, h.noHostTest⟩

/-! What types are below depends on the declarations and the knob for lone
interfaces only, and so does what an arena is said to be. -/

section

variable {r' : Resolver} {arena : Array CaptureDef} (halike : r.Alike r')

include halike

theorem Alike.above (arena : Array CaptureDef) (t : Ty) :
    r'.above arena t = r.above arena t := by
  induction t using Ty.induct with
  | nominal c =>
      rw [Resolver.above, Resolver.above]
      induction c with
      | named id => exact halike.freshSupertypes id _
      | primitive _ => rfl
      | array c ih =>
          rw [classAbove, classAbove, ih]
          unfold arraySupertypes
          rw [halike.declarations]
  | parameterized id args owner _ _ => exact halike.freshSupertypes id _
  | var v =>
      rw [Resolver.above, Resolver.above, halike.declarations]
  | wildcard _ _ _ _ | capture _ => rfl
  | genericArray t ih =>
      rw [Resolver.above, Resolver.above, ih]
      unfold arraySupertypes
      rw [halike.declarations]

theorem Alike.directly (arena : Array CaptureDef) :
    r'.Directly arena = r.Directly arena := by
  funext t s
  unfold Directly
  rw [halike.above]

theorem Alike.climbs (h : r.Climbs arena t) : r'.Climbs arena t := by
  induction h with
  | intro habove herase hprim _ ih =>
      exact .intro ((halike.above arena _).trans habove)
        (halike.declarations ▸ herase) hprim ih

theorem Alike.sound (h : r.Sound arena) : r'.Sound arena := by
  constructor
  · intro i c hc
    obtain ⟨hne, hupper⟩ := h.upper i c hc
    refine ⟨hne, fun u hu => ?_⟩
    rw [halike.declarations]
    exact ⟨(hupper u hu).1, halike.climbs (hupper u hu).2⟩
  · rw [halike.declarations]
    exact h.lower

end

theorem find_forgetting (r : Resolver) (arena : Array CaptureDef)
    (target : Class) :
    ∀ n t, r.forgetting.find arena n t target = r.find arena n t target
  | 0, _ => rfl
  | n + 1, t => by
      have ih : (fun s => r.forgetting.find arena n s target) =
          fun s => r.find arena n s target :=
          funext (find_forgetting r arena target n)
      rw [find, find, ih, r.forgetting_alike.above]
      rfl

theorem captured_forgetting (r : Resolver) (n : Nat) : ∀ t,
    r.forgetting.captured n t = r.captured n t
  | .parameterized id args (some owner) => by
      rw [captured, captured, captured_forgetting r n owner]
      rfl
  | .parameterized _ _ none | .nominal _ | .var _ | .wildcard _ _
  | .genericArray _ | .capture _ => rfl

theorem sound_forgetting {arena : Array CaptureDef} :
    r.forgetting.Sound arena ↔ r.Sound arena :=
  ⟨r.forgetting_alike.symm.sound, r.forgetting_alike.sound⟩

/-- Wherever requests on regular types lead, the arena is sound, and so is what
is remembered. -/
theorem RegularlyReachable.sound (h : r.env.Founded) {ctx : Context}
    (hctx : r.RegularlyReachable ctx) :
    r.Sound ctx.captures ∧ r.SameButMemo ctx ctx := by
  induction hctx with
  | start => exact ⟨sound_empty r, rfl, rfl, memoSound_nil r⟩
  | @step ctx _ depth q hq ih =>
      obtain ⟨harena, hmemo⟩ := ih
      obtain ⟨-, hafter⟩ := answer_simulates r depth q ctx ctx hmemo
      refine ⟨?_, rfl, rfl, hafter.memo⟩
      rw [hafter.captures]
      exact sound_forgetting.1
        (answer_sound (r := r.forgetting) h rfl depth
          (sound_forgetting.2 harena) hq)

/-- The arena there comes of capturing regular types, starting from nothing. -/
theorem RegularlyReachable.builds (h : r.env.Founded) {ctx : Context}
    (hctx : r.RegularlyReachable ctx) :
    r.forgetting.Builds #[] ctx.captures := by
  induction hctx with
  | start => exact .refl
  | @step ctx hctx depth q hq ih =>
      obtain ⟨harena, hmemo⟩ := hctx.sound h
      obtain ⟨-, hafter⟩ := answer_simulates r depth q ctx ctx hmemo
      rw [hafter.captures]
      by_cases hreset : q = .reset
      · subst hreset
        exact .refl
      · have hkeeps :=
          Upkeep.answer_keeps (soundness_allows (r := r.forgetting) h) rfl depth
            hreset hq ctx (Nat.le_refl _) (sound_forgetting.2 harena)
        exact ih.trans hkeeps.2.1

end Resolver

end GenericTypes
