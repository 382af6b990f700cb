import GenericTypes.Proofs.Answers

/-!
# Captures never dangle

A capture is a number, and a number means something only in an arena that is
long enough. Nothing in the data keeps a type from mentioning one that is not
there: captures are opened as placeholders and overwritten later, they travel
through substitutions, searches and failures, and a reset takes all of them
away.

They stay in range all the same. Of the ways of making types only one brings in
a capture, and that is to open it; so to mention none but those in the arena is
a property that is handed on (`scoped_hereditary`). The other half is that the
arena only grows: what a request other than a reset leaves begins with what it
found.
-/

namespace GenericTypes

namespace Ty

/-- Among the first `n` captures, if it is a capture at all. -/
def InArena (n : Nat) : Ty → Prop
  | .capture i => i.index < n
  | .nominal _ | .parameterized _ _ _ | .var _ | .wildcard _ _
  | .genericArray _ => True

instance decidableInArena (n : Nat) : (t : Ty) → Decidable (t.InArena n)
  | .capture i => inferInstanceAs (Decidable (i.index < n))
  | .nominal _ | .parameterized _ _ _ | .var _ | .wildcard _ _
  | .genericArray _ => isTrue trivial

/-- Every capture in the type is among the first `n`. -/
def Scoped (n : Nat) (t : Ty) : Prop := ∀ x ∈ t.parts, x.InArena n

instance decidableScoped (n : Nat) (t : Ty) : Decidable (t.Scoped n) :=
  inferInstanceAs (Decidable (∀ x ∈ t.parts, x.InArena n))

variable {n : Nat} {t : Ty}

/-- No capture at all is in range of every arena. -/
theorem scoped_of_plain (h : t.mentionsCapture = false) : t.Scoped n := by
  intro x hx
  cases x with
  | capture i => exact absurd hx (capture_notMem_parts h)
  | nominal _ | parameterized _ _ _ | var _ | wildcard _ _ | genericArray _ =>
      trivial

theorem scoped_hereditary : Hereditary Scoped := by
  refine .of_parts ?_ (fun _ _ => trivial) (fun _ _ => trivial) id
    (fun _ _ _ _ => trivial) (fun _ _ _ => trivial) ?_
  · intro n m x hle hx
    cases x with
    | capture i => exact Nat.lt_of_lt_of_le hx hle
    | nominal _ | parameterized _ _ _ | var _ | wildcard _ _ | genericArray _ =>
        trivial
  · intro n t
    cases t <;> trivial

end Ty

theorem Declarations.CaptureFree.throughout {d : Declarations}
    (h : d.CaptureFree) : d.Throughout (Ty.Scoped 0) where
  classes := fun hc t ht => Ty.scoped_of_plain (h.classes hc t ht)
  bounds := fun hp b hb => Ty.scoped_of_plain (h.bounds hp b hb)

namespace Resolver

variable {r : Resolver} {ctx : Context} {q : Request}

/-- In every history where each request mentions only captures that are in the
arena when it is made, whatever the outcomes: a request other than a reset
leaves all captures as and where they were, and adds its own behind them. The
types that it answers with, or that its failure carries, mention only captures
that are in the arena then, and so do the wildcard and the bounds of every
capture. -/
theorem captures_scoped (h : r.env.CaptureFree)
    (hctx : r.ReachedWith Ty.Scoped ctx)
    (hq : ∀ t ∈ q.types, t.Scoped ctx.captures.size) (depth : Nat) :
    (q ≠ .reset →
      ctx.captures.toList <+: (r.answer depth q ctx).2.captures.toList) ∧
    (∀ a, (r.answer depth q ctx).1 = .ok a →
      ∀ t ∈ a.allTypes, t.Scoped (r.answer depth q ctx).2.captures.size) ∧
    (∀ e, (r.answer depth q ctx).1 = .error e →
      ∀ t ∈ e.types, t.Scoped (r.answer depth q ctx).2.captures.size) ∧
    ∀ c ∈ (r.answer depth q ctx).2.captures,
      ∀ t ∈ c.types, t.Scoped (r.answer depth q ctx).2.captures.size := by
  obtain ⟨hafter, houtcome⟩ := answer_holds Ty.scoped_hereditary h.throughout
    (hctx.holds Ty.scoped_hereditary h.throughout) depth hq
  refine ⟨fun hreset => ?_, fun a ha => ?_, fun e he => ?_, hafter.stored⟩
  · obtain ⟨_, _, added, hrun, harena, -⟩ :=
      (answer_composed depth hreset).settles ctx
    rw [hrun]
    exact ⟨added, harena.symm⟩
  · rw [ha] at houtcome
    exact houtcome
  · rw [he] at houtcome
    exact houtcome

open TypeStore in
/-- After `Comparable<?>` has been captured, `Comparable<? extends CAP#0>` is:
its capture is the second, with the first among its bounds. -/
theorem captures_scoped_comparable :
    (coreResolver.answer 5 (.capture (Seed.applied Seed.comparable
        [(Wildcard.below (.capture ⟨0⟩)).toTy]))
      (coreResolver.answer 5 (.capture (Seed.applied Seed.comparable
        [(Wildcard.unbounded Seed.object).toTy])) .empty).2).1 =
      .ok (.type (Seed.applied Seed.comparable [.capture ⟨1⟩])) ∧
    ∀ c ∈ (coreResolver.answer 5 (.capture (Seed.applied Seed.comparable
          [(Wildcard.below (.capture ⟨0⟩)).toTy]))
        (coreResolver.answer 5 (.capture (Seed.applied Seed.comparable
          [(Wildcard.unbounded Seed.object).toTy])) .empty).2).2.captures,
      ∀ t ∈ c.types, t.Scoped 2 := by
  refine ⟨by decide, ?_⟩
  have hctx : coreResolver.ReachedWith Ty.Scoped
      (coreResolver.answer 5 (.capture (Seed.applied Seed.comparable
        [(Wildcard.unbounded Seed.object).toTy])) .empty).2 :=
    .step .start 5 (by decide)
  have hrun := captures_scoped core_wellFormed.captureFree hctx
    (q := .capture (Seed.applied Seed.comparable
      [(Wildcard.below (.capture ⟨0⟩)).toTy]))
    (by decide) 5
  have hsize : (coreResolver.answer 5 (.capture (Seed.applied Seed.comparable
      [(Wildcard.below (.capture ⟨0⟩)).toTy]))
    (coreResolver.answer 5 (.capture (Seed.applied Seed.comparable
      [(Wildcard.unbounded Seed.object).toTy])) .empty).2).2.captures.size =
      2 := by decide
  rw [hsize] at hrun
  exact hrun.2.2.2

end Resolver

end GenericTypes
