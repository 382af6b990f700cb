import GenericTypes.Proofs.Checking
import GenericTypes.Proofs.Failures
import GenericTypes.Proofs.Lockstep
import GenericTypes.Proofs.Pruning
import GenericTypes.Proofs.TwoPhase
import GenericTypes.Proofs.Verdict

/-!
# A comparison sees only the capture of its right side

A comparison captures its right side before it looks at it, but not once and for
all: where the left side is a capture it asks about each of its lower bounds in
turn, each of these questions captures the right side anew, and where the
erasures settle it nothing is captured. Captured beforehand the right side stays
what it is. The two runs are over arenas that go apart more and more.

What makes them agree is that captures nobody can reach do not matter. A
comparison of types over an arena in which all captures are in range comes out
the same over every larger arena (`isSupertype_steady`), for it can be played
there with its own captures opened further on (`Context.Apart`). So each lower
bound may be taken back to where the two runs started, and there the depth is
the induction.

All of it needs the captures to be in range, those of the right side and of the
arena. One that dangles is a failure in the one run, and in the other it may
stand for something that was opened in between (`comparison_tells_captured`).
-/

namespace GenericTypes

namespace CaptureId

variable {n k size : Nat} {i j : CaptureId}

/-- The same capture among the first `n`, and from there on the one `k` places
later. -/
def past (n k : Nat) (i : CaptureId) : CaptureId :=
  if i.index < n then i else ⟨i.index + k⟩

theorem past_of_lt (h : i.index < n) : past n k i = i := if_pos h

theorem past_of_le (h : n ≤ i.index) : past n k i = ⟨i.index + k⟩ :=
  if_neg (Nat.not_lt.2 h)

theorem past_undone (n k : Nat) : Function.HasLeftInverse (past n k) := by
  refine ⟨fun i => if i.index < n then i else ⟨i.index - k⟩, fun i => ?_⟩
  rcases Nat.lt_or_ge i.index n with h | h
  · rw [past_of_lt h]
    exact if_pos h
  · rw [past_of_le h]
    refine (if_neg (Nat.not_lt.2 (Nat.le_add_right_of_le h))).trans ?_
    rw [Nat.add_sub_cancel]

theorem past_index :
    (past n k i).index = if i.index < n then i.index else i.index + k := by
  unfold past
  split <;> rfl

theorem past_index_inj :
    (past n k i).index = (past n k j).index ↔ i.index = j.index := by
  rw [past_index, past_index]
  split <;> split <;> omega

/-- The place where the one arena goes on is that where the other does. -/
theorem past_index_eq_iff (h : n ≤ size) :
    (past n k i).index = size + k ↔ i.index = size := by
  rw [past_index]
  split <;> omega

end CaptureId

open CaptureId

theorem Ty.rename_of_scoped {n k : Nat} {t : Ty} (h : t.Scoped n) :
    t.rename (past n k) = t :=
  (Ty.rename_congr fun i hi => (past_of_lt (h _ hi)).trans (id_eq i).symm).trans
    (Ty.rename_id t)

theorem CaptureDef.rename_of_scoped {n k : Nat} {c : CaptureDef}
    (h : ∀ t ∈ c.types, t.Scoped n) : c.rename (past n k) = c := by
  have hmap : ∀ ts : List Ty, (∀ t ∈ ts, t.Scoped n) →
      ts.map (Ty.rename (past n k)) = ts :=
    fun ts hts =>
      (List.map_congr_left fun t ht => Ty.rename_of_scoped (hts t ht)).trans
        (List.map_id ts)
  obtain ⟨hupper, hlower, hupper', hlower'⟩ := forall_types.1 h
  rw [rename, Wildcard.rename, hmap _ hupper, hmap _ hlower, hmap _ hupper',
    hmap _ hlower']

/-- The one context has `k` captures that the other has not, behind the first
`n`. -/
structure Context.Apart (n k : Nat) (c c' : Context) : Prop where
  found : ∀ i, c'.capture? (past n k i) = (c.capture? i).map
    (·.rename (past n k))
  size : c'.captures.size = c.captures.size + k
  within : n ≤ c.captures.size

namespace Resolve

variable {α β : Type} {n k : Nat} {ctx ctx' : Context}

theorem apart_mirroring : Mirroring (past n k) (Context.Apart n k) where
  undone := past_undone n k
  found := fun h => h.found
  next := by
    intro c c' h
    rw [h.size]
    exact (past_of_le h.within).symm
  push := by
    intro c c' h d
    refine ⟨fun i => ?_, ?_, ?_⟩
    · have hplace := past_index_eq_iff (k := k) (i := i) h.within
      rw [← h.size] at hplace
      simp only [Context.capture?, Array.getElem?_push, hplace]
      split
      · rfl
      · exact h.found i
    · simp only [Array.size_push, h.size]
      omega
    · simp only [Array.size_push]
      exact Nat.le_succ_of_le h.within
  change := by
    intro c c' h i change change' hchange
    refine ⟨fun j => ?_, ?_, ?_⟩
    · have hj := h.found j
      simp only [Context.capture?, Array.getElem?_modify,
        past_index_inj] at hj ⊢
      rw [hj]
      split
      · cases c.captures[j.index]? with
        | none => rfl
        | some d => exact congrArg some (hchange d)
      · rfl
    · simp only [Array.size_modify, h.size]
    · simp only [Array.size_modify, h.within]
  emit := fun h _ => ⟨h.found, h.size, h.within⟩

/-- In every context with the same captures and maybe more, the step ends as it
does in this one, and it takes none of them away. -/
def Steady (ctx : Context) (x : Resolve α) : Prop :=
  ∀ later : Context, Resolver.Grows ctx.captures later.captures →
    (x later).1 = (x ctx).1 ∧ Resolver.Grows ctx.captures (x later).2.captures

/-- Two rounds of tests that nothing done in between has a part in come to the
same if each two tests do. -/
theorem anyHolds_alike {test test' : α → Resolve Bool} : ∀ {as : List α},
    (∀ a ∈ as, Steady ctx (test a) ∧ Steady ctx' (test' a) ∧
      (test a ctx).1 = (test' a ctx').1) →
    ∀ {later later' : Context}, Resolver.Grows ctx.captures later.captures →
      Resolver.Grows ctx'.captures later'.captures →
      (Resolver.anyHolds test as later).1 =
        (Resolver.anyHolds test' as later').1
  | [], _, _, _, _, _ => rfl
  | a :: as, h, later, later', hlater, hlater' => by
      obtain ⟨hsteady, hsteady', hsame⟩ := h a List.mem_cons_self
      obtain ⟨hend, hafter⟩ := hsteady later hlater
      obtain ⟨hend', hafter'⟩ := hsteady' later' hlater'
      have hrest := anyHolds_alike (fun b hb => h b (List.mem_cons_of_mem a hb))
        hafter hafter'
      have hboth : (test a later).1 = (test' a later').1 :=
        (hend.trans hsame).trans hend'.symm
      unfold Resolver.anyHolds
      rw [bind_apply, bind_apply]
      generalize test a later = step at hboth hrest ⊢
      generalize test' a later' = step' at hboth hrest ⊢
      obtain ⟨o, c⟩ := step
      obtain ⟨o', c'⟩ := step'
      obtain rfl : o = o' := hboth
      cases o with
      | ok holds =>
          cases holds with
          | true => rfl
          | false => exact hrest
      | error _ | exhausted => rfl

end Resolve

namespace Resolver

open Resolve

variable {r : Resolver} {ctx ctx' : Context} {sup sub t : Ty}

section

variable (hfree : r.env.CaptureFree)
  (hplain : r.config.memoizeSupertypes = false) (hctx : r.Holds Ty.Scoped ctx)

include hctx

/-- An arena where all captures are in range, and a larger one. -/
theorem apart_of_grows {later : Context}
    (hlater : Grows ctx.captures later.captures) :
    Context.Apart ctx.captures.size
      (later.captures.size - ctx.captures.size) ctx later where
  found := by
    intro i
    have hle := hlater.size_le
    rcases Nat.lt_or_ge i.index ctx.captures.size with hi | hi
    · have hentry := Array.getElem?_eq_getElem hi
      have hthere : later.capture? i = some ctx.captures[i.index] :=
        hlater _ _ hentry
      rw [past_of_lt hi, hthere, Context.capture?, hentry]
      exact congrArg some (CaptureDef.rename_of_scoped
        (hctx.stored _ (Array.getElem_mem hi))).symm
    · rw [past_of_le hi, Context.capture?, Context.capture?,
        Array.getElem?_eq_none (by dsimp only; omega),
        Array.getElem?_eq_none hi]
      rfl
  size := (Nat.add_sub_cancel' hlater.size_le).symm
  within := Nat.le_refl _

include hfree hplain

/-- Captures that cannot be reached do not matter to a comparison. -/
theorem isSupertype_steady (hsup : sup.Scoped ctx.captures.size)
    (hsub : sub.Scoped ctx.captures.size) (depth : Nat) :
    Steady ctx (r.isSupertype depth sup sub) := by
  intro later hlater
  refine ⟨?_, hlater.trans ((isSupertype_composed depth sup sub).grows later)⟩
  have hmirrors := isSupertype_mirrors (apart_mirroring (n := ctx.captures.size)
    (k := later.captures.size - ctx.captures.size)) hfree hplain depth sup sub
  rw [Ty.rename_of_scoped hsup, Ty.rename_of_scoped hsub] at hmirrors
  rw [(hmirrors ctx later (apart_of_grows hctx hlater)).1]
  cases hend : (r.isSupertype depth sup sub ctx).1 with
  | ok _ | exhausted => rfl
  | error e =>
      -- The failure must not name a capture, as that one would have another
      -- number.
      exact congrArg Outcome.error
        (Error.rename_of_bare (bare_of_scoped hfree hctx hsup hsub hend))

end

/-- A left side that is neither a variable nor a capture captures the right
side, once and for all. -/
theorem isSupertype_captured_known {id : ClassId} {args args' : List Ty}
    {owner owner' : Option Ty}
    (hcapture : r.capture (.parameterized id args owner) ctx =
      (.ok (.parameterized id args' owner'), ctx'))
      (hkind : sup.isUnknown = false) (depth : Nat) :
    (r.isSupertype (depth + 1) sup (.parameterized id args owner) ctx).1 =
      (r.isSupertype (depth + 1) sup
        (.parameterized id args' owner') ctx').1 := by
  cases herase : r.env.erase sup with
  | error _ | exhausted =>
      rw [isSupertype_eq hkind, isSupertype_eq hkind, herase]
      rfl
  | ok c =>
      -- The erasures do not see the arguments.
      have hsettled : r.settledByErasure sup
          (.parameterized id args' owner') c =
        r.settledByErasure sup (.parameterized id args owner) c := rfl
      by_cases hgo : r.settledByErasure sup
        (.parameterized id args owner) c = .ok none
      · have hagain : r.capture (.parameterized id args' owner') ctx' =
            (.ok (.parameterized id args' owner'), ctx') := by
          rw [capture_captured hcapture]
          rfl
        rw [isSupertype_succ hkind herase hgo hcapture,
          isSupertype_succ hkind herase (hsettled.trans hgo) hagain]
      · rw [isSupertype_eq hkind, isSupertype_eq hkind, herase,
          bind_apply, bind_apply]
        simp only [ofOutcome]
        rw [hsettled]
        cases hend : r.settledByErasure sup
            (.parameterized id args owner) c with
        | ok settled =>
            cases settled with
            | none => exact absurd hend hgo
            | some _ => rfl
        | error _ | exhausted => rfl

/-- A right side that has been captured is a class with arguments, or nothing in
it was to be captured. -/
theorem capture_shape (hcapture : r.capture sub ctx = (.ok t, ctx')) :
    t = sub ∧ ctx' = ctx ∨
        ∃ id args owner args' owner', sub = .parameterized id args owner ∧
      t = .parameterized id args' owner' := by
  cases sub with
  | parameterized id args owner =>
      refine .inr ⟨id, args, owner, ?_⟩
      cases owner with
      | none =>
          obtain ⟨rfl, -, -⟩ := captureLevel_counted hcapture
          exact ⟨_, _, rfl, rfl⟩
      | some o =>
          obtain ⟨o', between, -, hlevel⟩ := of_capture_member hcapture
          obtain ⟨rfl, -, -⟩ := captureLevel_counted hlevel
          exact ⟨_, _, rfl, rfl⟩
  | nominal _ | var _ | wildcard _ _ | genericArray _ | capture _ =>
      exact .inl ⟨(Outcome.ok.inj (congrArg Prod.fst hcapture)).symm,
        (congrArg Prod.snd hcapture).symm⟩

section

variable (hfree : r.env.CaptureFree)
  (hplain : r.config.memoizeSupertypes = false) (hctx : r.Holds Ty.Scoped ctx)
  (hsub : sub.Scoped ctx.captures.size)
  (hcapture : r.capture sub ctx = (.ok t, ctx'))

include hfree hctx hsub hcapture

/-- What a capture answers with, and what it leaves, is in range as well. -/
theorem capture_scoped : r.Holds Ty.Scoped ctx' ∧ t.Scoped ctx'.captures.size ∧
    Grows ctx.captures ctx'.captures := by
  obtain ⟨-, hafter, ht⟩ :=
    capture_yields Ty.scoped_hereditary hfree.throughout hsub ctx
      (Nat.le_refl _) hctx
  have hgrows := (capture_composed sub).grows (r := r) ctx
  rw [hcapture] at hafter ht hgrows
  exact ⟨hafter, ht, hgrows⟩

include hplain

theorem isSupertype_captured_plain :
    ∀ (depth : Nat) {sup : Ty}, sup.Scoped ctx.captures.size →
    (r.isSupertype depth sup sub ctx).1 = (r.isSupertype depth sup t ctx').1
  | 0, _, _ => rfl
  | depth + 1, sup, hsup => by
      obtain ⟨hctx', ht, hgrows⟩ := capture_scoped hfree hctx hsub hcapture
      have ih : ∀ l : Ty, l.Scoped ctx.captures.size →
          (r.isSupertype depth l sub ctx).1 =
          (r.isSupertype depth l t ctx').1 :=
        fun _ => isSupertype_captured_plain depth
      rcases capture_shape hcapture with
          ⟨rfl, rfl⟩ | ⟨id, args, owner, args', owner', rfl, rfl⟩
      · rfl
      cases sup with
      | nominal _ | parameterized _ _ _ | genericArray _ =>
          exact isSupertype_captured_known hcapture rfl depth
      | var _ | wildcard _ _ => rfl
      | capture i =>
          have hi : i.index < ctx.captures.size := hsup _ (Ty.mem_parts_self _)
          have hentry := Array.getElem?_eq_getElem hi
          have hlower : ∀ l ∈ ctx.captures[i.index].lower,
              l.Scoped ctx.captures.size :=
            (CaptureDef.forall_types.1
              (hctx.stored _ (Array.getElem_mem hi))).2.2.2
          have hne : Ty.capture i ≠ .parameterized id args owner := nofun
          have hne' : Ty.capture i ≠ .parameterized id args' owner' := nofun
          rw [isSupertype_capture_eq hne hentry,
            isSupertype_capture_eq hne' (hgrows _ _ hentry)]
          refine anyHolds_alike (fun l hl => ⟨?_, ?_, ih l (hlower l hl)⟩)
            (.refl _) (.refl _)
          · exact isSupertype_steady hfree hplain hctx (hlower l hl) hsub depth
          · exact isSupertype_steady hfree hplain hctx'
              (Ty.scoped_hereditary.mono hgrows.size_le (hlower l hl)) ht depth

end

/-- In every history, over declarations that mention no captures, with all
captures of the arena and of the two types in range: to compare with a type that
can be captured, and to capture it first and compare with what that gives, is
the same, at every depth and whether it answers, fails or does not end. -/
theorem isSupertype_captured (hfree : r.env.CaptureFree)
    (hctx : r.Reachable ctx) (hstored : Stored Ty.Scoped ctx.captures)
    (hsup : sup.Scoped ctx.captures.size) (hsub : sub.Scoped ctx.captures.size)
    (hcapture : r.capture sub ctx = (.ok t, ctx')) (depth : Nat) :
    (r.isSupertype depth sup sub ctx).1 =
      (r.isSupertype depth sup t ctx').1 := by
  have hsame := hctx.sameButMemo
  have hholds : r.forgetting.Holds Ty.Scoped ctx :=
    ⟨hstored, r.forgetting_alike.memoSound hctx.memoSound⟩
  -- What is remembered shows neither in the capture nor in what follows it.
  obtain ⟨hanswer, hafter⟩ := capture_simulates r sub ctx ctx hsame
  rw [hcapture] at hanswer hafter
  have hforgetful : r.forgetting.capture sub ctx =
      (.ok t, (r.forgetting.capture sub ctx).2) :=
    Prod.ext hanswer.symm rfl
  rw [(isSupertype_simulates r depth sup sub ctx ctx hsame).1,
    (isSupertype_simulates r depth sup t _ _ hafter).1]
  exact isSupertype_captured_plain (r := r.forgetting) hfree rfl hholds hsub
    hforgetful depth hsup

end Resolver

namespace TypeStore

open Resolver Seed

/-- What an arena holds after the wildcard with lower bounds has been
captured. -/
def boundedBelow (lower : List Ty) : Context :=
  (coreResolver.answer 5
    (.capture (applied comparable [.wildcard [.named object] lower])) .empty).2

/-- `Comparable<?>` and `Comparable<CAP#1>` below the capture of
`? super Comparable<? extends CAP#0>`. -/
theorem comparable_below_capture :
    let ctx :=
      boundedBelow [applied comparable [(Wildcard.unbounded object).toTy]]
    let sub := applied comparable [(Wildcard.below (.capture ⟨0⟩)).toTy]
    (coreResolver.isSupertype 8 (.capture ⟨0⟩) sub ctx).1 =
        (coreResolver.isSupertype 8 (.capture ⟨0⟩)
          (applied comparable [.capture ⟨1⟩])
          (coreResolver.capture sub ctx).2).1 ∧
      (coreResolver.isSupertype 8 (.capture ⟨0⟩) sub ctx).1 = .ok true := by
  exact ⟨isSupertype_captured core_wellFormed.captureFree (.step .start 5 _)
    (by decide) (by decide) (by decide) (by decide) 8, by decide⟩

/-- What dangles makes the difference. In the first history `CAP#0` is above a
capture that is not there until the right side has been captured. In the second
the right side mentions one, which is there once it has been captured twice, for
the first bound of `CAP#0` and for the second. -/
theorem comparison_tells_captured :
    coreResolver.env.CaptureFree ∧
    (let ctx := boundedBelow [.capture ⟨1⟩]
     let sub := applied comparable [(Wildcard.unbounded object).toTy]
     let t := applied comparable [.capture ⟨1⟩]
     coreResolver.Reachable ctx ∧ (Ty.capture ⟨0⟩).Scoped ctx.captures.size ∧
       (coreResolver.capture sub ctx).1 = .ok t ∧
       (coreResolver.isSupertype 5 (.capture ⟨0⟩) sub ctx).1 =
         .error (.foreignCapture ⟨1⟩) ∧
       (coreResolver.isSupertype 5 (.capture ⟨0⟩) t
         (coreResolver.capture sub ctx).2).1 = .ok false) ∧
    (let ctx := boundedBelow [applied comparable [.named string],
       .parameterized comparable [(Wildcard.unbounded object).toTy]
         (some (applied comparable [(Wildcard.below (.named number)).toTy]))]
     let owner := some (applied comparable [.capture ⟨2⟩])
     let sub :=
       .parameterized comparable [(Wildcard.unbounded object).toTy] owner
     let t := .parameterized comparable [.capture ⟨1⟩] owner
     coreResolver.Reachable ctx ∧ (Ty.capture ⟨0⟩).Scoped ctx.captures.size ∧
       (coreResolver.capture sub ctx).1 = .ok t ∧
       (coreResolver.isSupertype 9 (.capture ⟨0⟩) sub ctx).1 = .ok false ∧
       (coreResolver.isSupertype 9 (.capture ⟨0⟩) t
         (coreResolver.capture sub ctx).2).1 = .error (.foreignCapture ⟨2⟩)) :=
  ⟨core_wellFormed.captureFree, ⟨.step .start 5 _, by decide⟩,
    ⟨.step .start 5 _, by decide⟩⟩

end TypeStore

end GenericTypes
