import GenericTypes.Proofs.Comparison
import GenericTypes.Proofs.Independence

/-!
# The verdict of a comparison

What a comparison comes to depends on the two types and on the arena: not on the
depth, as long as it suffices, nor on what has been reported or remembered. So
it can be said over an arena alone (`Verdict`), for either truth value, and a
comparison that fails or does not end has none (`verdict_iff`).

Three rules give the verdict of a left side that erases. The erasures may settle
it. If not, and the right side has nothing to capture, it is false where the
search finds no view of the right side, and that of the view where it finds one.
-/

namespace GenericTypes

namespace Resolve

variable {α : Type} {ctx ctx' : Context}

/-- The contexts have the same captures. -/
def SameCaptures (c c' : Context) : Prop := c'.captures = c.captures

/-- What was reported or remembered does not show. -/
theorem sameCaptures_mirroring : Mirroring id SameCaptures where
  undone := ⟨id, fun _ => rfl⟩
  found := by
    intro c c' hc i
    rw [Context.capture?, hc, Context.capture?]
    simp
  next := fun hc =>
    congrArg (fun a : Array CaptureDef => (⟨a.size⟩ : CaptureId)) hc
  push := by
    intro c c' hc d
    rw [SameCaptures, CaptureDef.rename_id, hc]
  change := by
    intro c c' hc i change change' h
    have hsame : change' = change := funext fun d => by simpa using h d
    rw [SameCaptures, hsame, hc]
    rfl
  emit := fun hc _ => hc

/-- A step that mirrors itself where only the captures are the same depends on
the captures only. -/
theorem outcome_of_captures {x : Resolve α}
    (hx : Mirrors SameCaptures id id x x) (hc : ctx.captures = ctx'.captures) :
    (x ctx).1 = (x ctx').1 := by
  rw [(hx ctx' ctx hc).1]
  cases (x ctx').1 <;> simp [Outcome.rename]

end Resolve

namespace Resolver

open Resolve Declarations

variable {r : Resolver} {arena : Array CaptureDef}
  {ctx ctx' : Context} {s t g : Ty} {c : Class} {b b' : Bool} {n : Nat}

/-- At a point of a history, and at some depth, the comparison answers `b`. -/
def Says (r : Resolver) (ctx : Context) (s t : Ty) (b : Bool) : Prop :=
  ∃ n, (r.isSupertype n s t ctx).1 = .ok b

/-- At a point of a history, and at some depth, the comparison with a view
answers `b`. -/
def ViewSays (r : Resolver) (ctx : Context) (s g : Ty) (b : Bool) : Prop :=
  ∃ n, (matchesView (r.isSupertype n) s g ctx).1 = .ok b

/-- Over an arena, with nothing reported or remembered, it answers `b`. -/
def Verdict (r : Resolver) (arena : Array CaptureDef) (s t : Ty)
    (b : Bool) : Prop :=
  r.Says ⟨arena, [], #[]⟩ s t b

/-- Over an arena, the comparison with a view answers `b`. -/
def ViewVerdict (r : Resolver) (arena : Array CaptureDef) (s g : Ty)
    (b : Bool) : Prop :=
  r.ViewSays ⟨arena, [], #[]⟩ s g b

/-- A depth at which the comparison answers is one from which on it does. -/
theorem Says.lasts (h : r.Says ctx s t b) :
    ∃ least, ∀ depth, least ≤ depth →
      (r.isSupertype depth s t ctx).1 = .ok b := by
  obtain ⟨n, hn⟩ := h
  refine ⟨n, fun depth hle => ?_⟩
  rw [isSupertype_mono s t hle ctx (by rw [hn]; exact nofun), hn]

theorem Verdict.unique (h : r.Verdict arena s t b)
    (h' : r.Verdict arena s t b') : b = b' := by
  obtain ⟨n, hn⟩ := h
  obtain ⟨m, hm⟩ := h'
  have hsame := isSupertype_unique (n := n) (m := m) (by rw [hn]; exact nofun)
    (by rw [hm]; exact nofun)
  rw [hsame, hm] at hn
  exact (Outcome.ok.inj hn).symm

section

variable (hfree : r.env.CaptureFree)
  (hplain : r.config.memoizeSupertypes = false)

include hfree hplain

theorem isSupertype_captures (n : Nat) (s t : Ty)
    (hc : ctx.captures = ctx'.captures) :
    (r.isSupertype n s t ctx).1 = (r.isSupertype n s t ctx').1 := by
  have hmirrors := isSupertype_mirrors sameCaptures_mirroring hfree hplain n s t
  rw [Ty.rename_id, Ty.rename_id] at hmirrors
  exact outcome_of_captures hmirrors hc

theorem matchesView_captures (n : Nat) (s g : Ty)
    (hc : ctx.captures = ctx'.captures) :
    (matchesView (r.isSupertype n) s g ctx).1 =
      (matchesView (r.isSupertype n) s g ctx').1 := by
  have hmirrors := matchesView_mirrors sameCaptures_mirroring
    (isSupertype_mirrors sameCaptures_mirroring hfree hplain n) s g
  rw [Ty.rename_id, Ty.rename_id] at hmirrors
  exact outcome_of_captures hmirrors hc

end

/-- Types without captures compare the same behind any arena. -/
theorem Verdict.of_captureFree (hfree : r.env.CaptureFree)
    (hplain : r.config.memoizeSupertypes = false)
    (hs : s.mentionsCapture = false) (ht : t.mentionsCapture = false)
    (h : r.Verdict #[] s t b) : r.Verdict arena s t b := by
  obtain ⟨n, hn⟩ := h
  have hR : Mirroring (CaptureId.shift arena.toList.length)
      (Context.Behind arena.toList []) := behind_mirroring
  have hmirrors := isSupertype_mirrors hR hfree hplain n s t
  rw [Ty.rename_of_plain hs, Ty.rename_of_plain ht] at hmirrors
  have hbehind : Context.empty.Behind arena.toList [] ⟨arena, [], #[]⟩ :=
    ⟨(List.append_nil _).symm, rfl⟩
  refine ⟨n, (hmirrors _ _ hbehind).1.trans ?_⟩
  rw [show (r.isSupertype n s t .empty).1 = .ok b from hn]
  rfl

/-- What a comparison answers at a point of a history is its verdict over the
arena there. -/
theorem verdict_iff (hfree : r.env.CaptureFree)
    (hsame : r.SameButMemo ctx ctx) :
    r.Says ctx s t b ↔ r.forgetting.Verdict ctx.captures s t b := by
  refine exists_congr fun n => ?_
  have hbare : (r.forgetting.isSupertype n s t ctx).1 =
      (r.forgetting.isSupertype n s t ⟨ctx.captures, [], #[]⟩).1 :=
    isSupertype_captures (r := r.forgetting) hfree rfl n s t rfl
  rw [(isSupertype_simulates r n s t ctx ctx hsame).1, hbare]

theorem viewVerdict_iff (hfree : r.env.CaptureFree)
    (hsame : r.SameButMemo ctx ctx) :
    r.ViewSays ctx s g b ↔ r.forgetting.ViewVerdict ctx.captures s g b := by
  refine exists_congr fun n => ?_
  have hbare : (matchesView (r.forgetting.isSupertype n) s g ctx).1 =
      (matchesView (r.forgetting.isSupertype n) s g
        ⟨ctx.captures, [], #[]⟩).1 :=
    matchesView_captures (r := r.forgetting) hfree rfl n s g rfl
  have hforget :=
    matchesView_simulates (isSupertype_simulates r n) s g ctx ctx hsame
  rw [hforget.1, hbare]

/-! ## Left sides that erase -/

/-- Erasures that settle a comparison give the verdict. -/
theorem verdict_of_settled (hkind : s.isUnknown = false)
    (herase : r.env.erase s = .ok c)
    (hsettled : r.settledByErasure s t c = .ok (some b')) :
    r.Verdict arena s t b ↔ b = b' := by
  have hrun : ∀ n,
      (r.isSupertype (n + 1) s t ⟨arena, [], #[]⟩).1 = .ok b' := fun n => by
    rw [isSupertype_settled hkind herase hsettled]
  constructor
  · exact fun hverdict => hverdict.unique ⟨1, hrun 0⟩
  · rintro rfl
    exact ⟨1, hrun 0⟩

/-- What cannot be erased is not even refused. -/
theorem not_verdict_of_unerasable {e : Error} (hkind : s.isUnknown = false)
    (herase : r.env.erase s = .error e) : ¬ r.Verdict arena s t b := by
  rintro ⟨n, hn⟩
  cases n with
  | zero => cases hn
  | succ n =>
      rw [isSupertype_eq hkind, herase] at hn
      cases hn

/-- Where there is nothing to capture, capturing changes nothing. -/
theorem openArguments_converted :
    ∀ (vs : List TypeVarId) (args : List Ty) (σ : Substitution), vs.length =
      args.length → (∀ a ∈ args, a.isWildcard = false) →
    r.openArguments vs args σ = pure (args, σ.bindZip vs args, [])
  | [], [], _, _, _ => rfl
  | v :: vs, arg :: args, σ, hlen, hargs => by
      have hrest := openArguments_converted vs args (σ.bind v arg)
        (Nat.succ.inj hlen) fun a ha => hargs a (List.mem_cons_of_mem arg ha)
      have harg := hargs arg List.mem_cons_self
      cases arg with
      | wildcard _ _ => cases harg
      | nominal _ | parameterized _ _ _ | var _ | genericArray _ | capture _ =>
          rw [openArguments, hrest]
          · rfl
          · intro _ _ hwild
            cases hwild

theorem captureLevel_converted {id : ClassId} {args : List Ty}
    {owner : Option Ty} (hcounts : r.env.Counts id args)
    (howner : ∀ o, owner = some o → r.env.Counted o)
    (hargs : ∀ a ∈ args, a.isWildcard = false) :
    r.captureLevel id args owner = pure (.parameterized id args owner) := by
  obtain ⟨c, hc, hlen⟩ := hcounts
  obtain ⟨σ, hσ, -⟩ := bindOwner_spec howner
  have hclass : r.env.getClass id = .ok c := getClass_eq hc
  unfold captureLevel
  rw [hclass]
  show (if c.typeParams.length = args.length then _ else _ : Resolve Ty) = _
  rw [if_pos hlen, hσ]
  show (r.openArguments c.typeParams args σ >>= fun opened => _ :
    Resolve Ty) = _
  rw [openArguments_converted _ _ σ hlen hargs]
  rfl

theorem capture_converted :
    ∀ {t : Ty}, r.env.Counted t → t.Converted → r.capture t = pure t
  | .parameterized id args (some owner), ⟨hcounts, hcounted⟩,
    ⟨hargs, hconverted⟩ => by
      rw [capture, capture_converted hcounted hconverted, pure_bind]
      exact captureLevel_converted hcounts
        (fun o ho => Option.some.inj ho ▸ hcounted) hargs
  | .parameterized id args none, hcounts, hargs =>
      captureLevel_converted hcounts (fun _ ho => nomatch ho) hargs
  | .nominal _, _, _ | .var _, _, _ | .wildcard _ _, _, _
  | .genericArray _, _, _ | .capture _, _, _ => rfl

theorem capture_run (hcounted : r.env.Counted t) (hconverted : t.Converted)
    (ctx : Context) : r.capture t ctx = (.ok t, ctx) := by
  rw [capture_converted hcounted hconverted]
  rfl

section

variable (h : r.env.WellFormed) (hplain : r.config.memoizeSupertypes = false)
  (hcounted : r.env.Counted t) (hconverted : t.Converted)
  (hkind : s.isUnknown = false) (herase : r.env.erase s = .ok c)
  (hsettled : r.settledByErasure s t c = .ok none)

include h hplain hcounted hconverted hkind herase hsettled

/-- Where a view is found, the verdict is that of the view. -/
theorem verdict_of_view (hfind : r.find arena n t c = .ok (some g)) :
    r.Verdict arena s t b ↔ r.ViewVerdict arena s g b := by
  obtain ⟨ctx₂, hcaptures, hiff⟩ :=
    isSupertype_view hplain hkind herase hsettled
      (capture_run hcounted hconverted ⟨arena, [], #[]⟩) hfind
  refine (hiff b).trans (exists_congr fun m => ?_)
  have hbare : (matchesView (r.isSupertype m) s g ctx₂).1 =
      (matchesView (r.isSupertype m) s g ⟨arena, [], #[]⟩).1 :=
    matchesView_captures h.captureFree hplain m s g hcaptures
  rw [hbare]

omit h in
/-- Where none is found, the verdict is no. -/
theorem verdict_of_absent (hfind : r.find arena n t c = .ok none) :
    r.Verdict arena s t b ↔ b = false := by
  have hno : (r.isSupertype (n + 1) s t ⟨arena, [], #[]⟩).1 = .ok false := by
    rw [isSupertype_succ hkind herase hsettled
        (capture_run hcounted hconverted _),
      bind_ok ((exactSupertype_reads hplain c n t _).1.trans hfind)]
    rfl
  constructor
  · exact fun hverdict => hverdict.unique ⟨n + 1, hno⟩
  · rintro rfl
    exact ⟨n + 1, hno⟩

end

/-- A view without arguments is accepted as it is. -/
theorem viewVerdict_nominal {e : Class}
    (hview : s = .nominal e ∨ g = .nominal e) :
    r.ViewVerdict arena s g b ↔ b = true := by
  have hrun : ∀ isSup, matchesView isSup s g = pure true := by
    intro isSup
    rcases hview with rfl | rfl
    · rfl
    · cases s <;> rfl
  simp only [ViewVerdict, ViewSays, hrun]
  constructor
  · rintro ⟨-, hb⟩
    exact (Outcome.ok.inj hb).symm
  · rintro rfl
    exact ⟨0, rfl⟩

/-- Where the erasures allow it, the verdict is that of the view found. They
settle only what has no arguments to compare. -/
theorem verdict_of_allowed (h : r.env.WellFormed)
    (hplain : r.config.memoizeSupertypes = false) (hcounted : r.env.Counted t)
    (hconverted : t.Converted) (hkind : s.isUnknown = false)
    (herase : r.env.erase s = .ok c) {a : Class}
    (ha : r.env.erasure? t = .ok (some a))
    (hassign : r.env.assignable c a = true)
    (hfind : r.find arena n t c = .ok (some g)) :
    r.Verdict arena s t b ↔ r.ViewVerdict arena s g b := by
  cases s with
  | nominal e =>
      exact (verdict_of_settled rfl herase
          (settledByErasure_nominal ha hassign)).trans
        (viewVerdict_nominal (.inl rfl)).symm
  | parameterized _ _ _ | genericArray _ =>
      exact verdict_of_view h hplain hcounted hconverted hkind herase
        (settledByErasure_applied nofun ha hassign) hfind
  | var _ | wildcard _ _ | capture _ => cases hkind

end Resolver

end GenericTypes
