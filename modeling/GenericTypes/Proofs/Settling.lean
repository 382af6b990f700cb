import GenericTypes.Proofs.Composition
import GenericTypes.Proofs.History
import GenericTypes.Proofs.Members

/-!
# Captures left unsettled

A level of a type is captured in two passes, and only the first cannot fail.
When the second meets a bound it cannot put the arguments into, it gives up, and
the captures it has not come to keep the placeholder bounds they were opened
with. So a capture in the arena is settled or as opened, and what a request adds
is all settled unless the request itself failed for want of a variable
(`Composed.settles`).

Whether it can come to that at all is decided by the declarations: it never does
if the bounds of the parameters of each class mention those parameters only, and
otherwise there is a type whose capture fails half-way, one whose owner is left
out (`captures_finished_iff`). Types that have their owners are never left
unsettled.
-/

namespace GenericTypes

/-- A variable is missing: it has no value where it needs one, or is not
declared at all. -/
def Error.LacksVariable : Error → Prop
  | .unboundVariable _ | .undeclaredVariable _ => True
  | .notErasable _ | .arityMismatch _ _ _ | .unexpectedWildcard
  | .undeclaredClass _ | .foreignCapture _ | .notSubstitutable _ => False

namespace Substitution

variable {σ : Substitution}

/-- Only a variable without a value keeps a type from being resolved. -/
theorem lacksVariable_of_resolve {t : Ty} {e : Error}
    (h : σ.resolve t = .error e) : e.LacksVariable := by
  obtain ⟨v, -, rfl⟩ := resolve_eq_error_iff.1 h
  trivial

theorem lacksVariable_of_resolveAll {ts : List Ty} {e : Error}
    (h : σ.resolveAll ts = .error e) : e.LacksVariable := by
  rw [resolveAll_eq_answer, answerUnless_eq_error_iff] at h
  obtain ⟨v, -, rfl⟩ := h
  trivial

end Substitution

namespace Declarations

/-- The parameters of a class are declared, and their bounds mention no
variables but them. -/
def SelfContained (d : Declarations) (id : ClassId) : Prop :=
  (∀ v ∈ d.paramsOf id, ∃ p, d.typeParam? v = some p) ∧
    d.BoundsWithin id (d.paramsOf id)

end Declarations

namespace Resolver

open Resolve Declarations

variable {r : Resolver} {σ : Substitution} {α β : Type}

/-- A capture with the bounds it is to have: there are upper ones, the lower
ones are those of the wildcard, and the upper ones of the wildcard are among
them unless they say no more than the top type does. -/
structure Finished (r : Resolver) (c : CaptureDef) : Prop where
  upper_ne_nil : c.upper ≠ []
  lower_eq : c.lower = c.wildcard.lower
  upper_mem : c.wildcard.upper ≠ [] → c.wildcard.upper ≠ [r.env.top] →
    ∀ u ∈ c.wildcard.upper, u ∈ c.upper

/-- A capture still as it was opened. -/
def Unsettled (r : Resolver) (c : CaptureDef) : Prop :=
  c.upper = [r.env.top] ∧ c.lower = []

theorem settled_finished (φ : TypeVarId → Ty) (w : TypeVarId × Wildcard) :
    r.Finished (r.settled φ w) where
  upper_ne_nil := mergeBounds_ne_nil _ _
  lower_eq := rfl
  upper_mem := by
    intro hne htop u hu
    have hbare : r.env.isTop w.2.upper = false := by
      simp only [isTop, Bool.or_eq_false_iff, List.isEmpty_eq_false_iff,
        decide_eq_false_iff_not]
      exact ⟨hne, htop⟩
    show u ∈ r.mergeBounds _ _
    rw [mergeBounds, hbare]
    split
    · contradiction
    · split
      · exact hu
      · exact List.mem_append_right _ hu

/-! ## The second pass -/

/-- The variable is declared, and its bounds can be put the arguments into. -/
def CanSettle (r : Resolver) (σ : Substitution) (v : TypeVarId) : Prop :=
  ∃ p bounds, r.env.typeParam? v = some p ∧
    σ.resolveAll p.upperBounds = .ok bounds

/-- One capture is settled, or nothing is changed. -/
theorem settleCapture_cases {w : TypeVarId × Wildcard}
    {done rest : List CaptureDef} {ctx : Context}
    (harena : ctx.captures.toList = done ++ r.opened w :: rest) :
    (r.CanSettle σ w.1 ∧
      ∃ ctx', r.settleCapture σ ⟨done.length⟩ ctx = (.ok (), ctx') ∧
      ctx'.captures.toList = done ++ r.settled σ.apply w :: rest) ∨
    (¬ r.CanSettle σ w.1 ∧
      ∃ e, r.settleCapture σ ⟨done.length⟩ ctx = (.error e, ctx) ∧
        e.LacksVariable) := by
  have hfound : ctx.captures[done.length]? = some (r.opened w) := by
    rw [← Array.getElem?_toList, harena,
      List.getElem?_append_right (Nat.le_refl _), Nat.sub_self]
    rfl
  have hdef : captureDef ⟨done.length⟩ ctx = (.ok (r.opened w), ctx) :=
    captureDef_eq hfound
  have hstep : r.settleCapture σ ⟨done.length⟩ ctx = _ :=
    congrFun (by unfold settleCapture; rfl) ctx
  rw [bind_apply, hdef] at hstep
  dsimp only at hstep
  cases hp : r.env.typeParam? w.1 with
  | none =>
      refine .inr ⟨?_, .undeclaredVariable w.1, ?_, trivial⟩
      · rintro ⟨p, _, hp', -⟩
        rw [hp] at hp'
        cases hp'
      · have hget : r.env.getTypeParam (r.opened w).typeVar =
            .error (.undeclaredVariable w.1) := by
          rw [getTypeParam, opened, hp]
        rw [hstep, hget]
        rfl
  | some p =>
      have hget : r.env.getTypeParam (r.opened w).typeVar = .ok p :=
        getTypeParam_eq hp
      cases hbounds : σ.resolveAll p.upperBounds with
      | ok bounds =>
          refine .inl ⟨⟨p, bounds, hp, hbounds⟩,
            settleCapture_eq ⟨p, hp, fun b hb v hv => ?_⟩ harena⟩
          obtain ⟨s, hs⟩ := Substitution.resolve_of_resolveAll hbounds hb
          obtain ⟨t, ht⟩ :=
            Option.isSome_iff_exists.1 (Substitution.isSome_of_resolve hs v hv)
          rw [Substitution.apply, ht, Option.getD_some]
      | error e =>
          refine .inr ⟨?_, e, ?_,
            Substitution.lacksVariable_of_resolveAll hbounds⟩
          · rintro ⟨p', _, hp', hok⟩
            obtain rfl := Option.some.inj (hp.symm.trans hp')
            rw [hbounds] at hok
            cases hok
          · rw [hstep, hget]
            show (liftM (σ.resolveAll p.upperBounds) >>= fun declared => _ :
              Resolve Unit) ctx = _
            rw [hbounds]
            rfl

/-- Captures are settled front to back. Either all of them are, or the pass
fails at one that cannot be, and that one and those after it stay as opened. -/
theorem settleCaptures_cases :
    ∀ (ws : List (TypeVarId × Wildcard)) (done : List CaptureDef)
    (ctx : Context), ctx.captures.toList = done ++ ws.map r.opened →
    ∃ o ctx' front rest,
      r.settleCaptures σ ((List.range' done.length ws.length).map CaptureId.mk)
        ctx = (o, ctx') ∧
      ws = front ++ rest ∧
      ctx'.captures.toList = done ++
        (front.map (r.settled σ.apply) ++ rest.map r.opened) ∧
      (o = .ok () ∧ rest = [] ∧ (∀ w ∈ ws, r.CanSettle σ w.1) ∨
        (∃ e, o = .error e ∧ e.LacksVariable) ∧ ∃ w ∈ rest, ¬ r.CanSettle σ w.1)
  | [], done, ctx, harena =>
      ⟨.ok (), ctx, [], [], rfl, rfl, harena, .inl ⟨rfl, rfl, by simp⟩⟩
  | w :: ws, done, ctx, harena => by
      show ∃ o ctx' front rest,
        (r.settleCapture σ ⟨done.length⟩ >>= fun _ => r.settleCaptures σ
          ((List.range' (done.length + 1) ws.length).map CaptureId.mk))
        ctx = (o, ctx') ∧ _
      rw [bind_apply]
      rcases settleCapture_cases harena with
        ⟨hcan, ctx₁, hstep, harena₁⟩ | ⟨hcannot, e, hstep, he⟩
      · obtain ⟨o, ctx₂, front, rest, hrest, rfl, harena₂, hend⟩ :=
          settleCaptures_cases ws (done ++ [r.settled σ.apply w]) ctx₁ (by
            rw [harena₁, List.append_assoc]
            rfl)
        rw [List.length_append, List.length_singleton] at hrest
        rw [hstep]
        refine ⟨o, ctx₂, w :: front, rest, hrest, rfl,
          harena₂.trans (List.append_assoc _ _ _), ?_⟩
        exact hend.imp_left fun ⟨hok, hnil, hall⟩ =>
          ⟨hok, hnil, List.forall_mem_cons.2 ⟨hcan, hall⟩⟩
      · rw [hstep]
        exact ⟨.error e, ctx, [], w :: ws, rfl, rfl, harena,
          .inr ⟨⟨e, rfl, he⟩, w, List.mem_cons_self, hcannot⟩⟩

/-! ## A level, and every request -/

/-- Where the bounds of the parameters of a class mention only these, all that a
level of it asks to be settled can be. -/
theorem canSettle_of_selfContained {id : ClassId} {args : List Ty}
    {v : TypeVarId} (h : r.env.SelfContained id)
    (hlen : (r.env.paramsOf id).length = args.length)
    (hv : v ∈ r.env.paramsOf id) :
    r.CanSettle (σ.bindZip (r.env.paramsOf id) args) v := by
  obtain ⟨p, hp⟩ := h.1 v hv
  refine ⟨p, _, hp, Substitution.resolveAll_eq_map fun b hb =>
    Substitution.resolve_ok fun w hw => ?_⟩
  have hbound : b ∈ r.env.boundsOf v := mem_boundsOf_iff.2 ⟨p, hp, hb⟩
  rw [Substitution.get?_bindZip, Option.isSome_or,
    Substitution.lastValue_isSome hlen (h.2 v hv b hbound w hw)]
  rfl

/-- What a level of a type adds to the arena: settled captures, and behind them
captures as opened, in case it fails to settle one. -/
theorem captureLevel_cases {id : ClassId} {c : ClassDecl} {args : List Ty}
    {owner : Option Ty} (ctx : Context) (hc : r.env.class? id = some c)
    (hlen : c.typeParams.length = args.length)
    (howner : bindOwner r.env.toDeclarations owner = .ok σ) :
    let numbered := numberWildcards ctx.captures.size args
    let τ := σ.bindZip c.typeParams numbered
    ∃ o ctx' front rest, r.captureLevel id args owner ctx = (o, ctx') ∧
      wildcardsFor c.typeParams args = front ++ rest ∧
      ctx'.captures.toList =
        ctx.captures.toList ++
          (front.map (r.settled τ.apply) ++ rest.map r.opened) ∧
      (o = .ok (.parameterized id numbered owner) ∧ rest = [] ∧
          (∀ w ∈ wildcardsFor c.typeParams args, r.CanSettle τ w.1) ∨
        (∃ e, o = .error e ∧ e.LacksVariable) ∧
          ∃ w ∈ rest, ¬ r.CanSettle τ w.1) := by
  intro numbered τ
  obtain ⟨ctx₁, hopen, harena₁⟩ :=
    openArguments_eq (r := r) c.typeParams args σ ctx hlen
  obtain ⟨o, ctx₂, front, rest, hsettle, hparts, harena₂, hend⟩ :=
    settleCaptures_cases (σ := τ)
      (wildcardsFor c.typeParams args) ctx.captures.toList ctx₁ harena₁
  rw [Array.length_toList] at hsettle
  have hget : r.env.getClass id = .ok c := getClass_eq hc
  unfold captureLevel
  rw [hget]
  show ∃ o' ctx' front rest, (if c.typeParams.length = args.length then
    liftM (bindOwner r.env.toDeclarations owner) >>= fun σ => _ else _ :
        Resolve Ty) ctx =
      (o', ctx') ∧ _
  rw [if_pos hlen, howner]
  show ∃ o' ctx' front rest,
    (r.openArguments c.typeParams args σ >>= fun opened => _ :
      Resolve Ty) ctx = (o', ctx') ∧ _
  rw [bind_apply, hopen]
  dsimp only
  rw [bind_apply, hsettle]
  rcases hend with ⟨rfl, hrest⟩ | ⟨⟨e, rfl, he⟩, hcannot⟩
  · exact ⟨_, ctx₂, front, rest, rfl, hparts, harena₂, .inl ⟨rfl, hrest⟩⟩
  · exact ⟨_, ctx₂, front, rest, rfl, hparts, harena₂,
      .inr ⟨⟨e, rfl, he⟩, hcannot⟩⟩

/-- A step that only adds captures. They are settled, or as opened and of a
class whose parameters are not self-contained; and all are settled unless the
step fails for want of a variable. -/
def Settles (r : Resolver) (x : Resolve α) : Prop :=
  ∀ ctx, ∃ o ctx' added, x ctx = (o, ctx') ∧
    ctx'.captures.toList = ctx.captures.toList ++ added ∧
    (∀ c ∈ added, r.Finished c ∨
      r.Unsettled c ∧ ∃ id, ¬ r.env.SelfContained id ∧
      c.typeVar ∈ r.env.paramsOf id) ∧
    ((∀ c ∈ added, r.Finished c) ∨ ∃ e, o = .error e ∧ e.LacksVariable)

theorem Settles.of_same {x : Resolve α}
    (h : ∀ ctx, (x ctx).2.captures = ctx.captures) : r.Settles x := fun ctx =>
  ⟨(x ctx).1, (x ctx).2, [], rfl, by rw [h, List.append_nil], by simp,
    .inl (by simp)⟩

theorem Settles.bind {x : Resolve α} {f : α → Resolve β} (hx : r.Settles x)
    (hf : ∀ a, r.Settles (f a)) : r.Settles (x >>= f) := by
  intro ctx
  obtain ⟨o, ctx₁, added₁, hrun₁, harena₁, heach₁, hend₁⟩ := hx ctx
  cases o with
  | ok a =>
      obtain ⟨o, ctx₂, added₂, hrun₂, harena₂, heach₂, hend₂⟩ := hf a ctx₁
      have hfinished₁ : ∀ c ∈ added₁, r.Finished c :=
        hend₁.resolve_right fun ⟨_, h, _⟩ => nomatch h
      refine ⟨o, ctx₂, added₁ ++ added₂, ?_, ?_,
        List.forall_mem_append.2 ⟨heach₁, heach₂⟩,
        hend₂.imp_left fun h => List.forall_mem_append.2 ⟨hfinished₁, h⟩⟩
      · rw [bind_apply, hrun₁]
        exact hrun₂
      · rw [harena₂, harena₁, List.append_assoc]
  | error e =>
      refine ⟨.error e, ctx₁, added₁, ?_, harena₁, heach₁, hend₁.imp_right ?_⟩
      · rw [bind_apply, hrun₁]
      · rintro ⟨e', h, he⟩
        exact ⟨e, rfl, Outcome.error.inj h ▸ he⟩
  | exhausted =>
      refine ⟨.exhausted, ctx₁, added₁, ?_, harena₁, heach₁, hend₁.imp_right ?_⟩
      · rw [bind_apply, hrun₁]
      · rintro ⟨_, h, _⟩
        cases h

theorem captureLevel_settles (id : ClassId) (args : List Ty)
    (owner : Option Ty) : r.Settles (r.captureLevel id args owner) := by
  rcases captureLevel_begins (r := r) id args owner with
      ⟨e, hfail, -⟩ | ⟨c, σ, hc, hlen, howner⟩
  · rw [hfail]
    exact .of_same fun _ => rfl
  have hparams := paramsOf_eq hc
  intro ctx
  obtain ⟨o, ctx', front, rest, hrun, hparts, harena, hend⟩ :=
    captureLevel_cases ctx hc hlen howner
  have hsub : ∀ w ∈ rest, w ∈ wildcardsFor c.typeParams args := fun w hw =>
    hparts ▸ List.mem_append_right _ hw
  have hfinished : ∀ d ∈ front.map (r.settled (σ.bindZip c.typeParams
      (numberWildcards ctx.captures.size args)).apply), r.Finished d := by
    intro d hd
    obtain ⟨w, -, rfl⟩ := List.mem_map.1 hd
    exact settled_finished _ w
  have hunsettled : ∀ d ∈ rest.map r.opened, r.Unsettled d ∧
      ∃ id, ¬ r.env.SelfContained id ∧ d.typeVar ∈ r.env.paramsOf id := by
    intro d hd
    obtain ⟨w, hw, rfl⟩ := List.mem_map.1 hd
    refine ⟨⟨rfl, rfl⟩, id, fun hself => ?_, ?_⟩
    · rcases hend with ⟨-, rfl, -⟩ | ⟨-, w', hw', hcannot⟩
      · cases hw
      · obtain ⟨hmem, -⟩ := mem_wildcardsFor (hsub w' hw')
        refine hcannot (hparams ▸ canSettle_of_selfContained hself ?_
          (hparams ▸ hmem))
        rw [hparams, hlen, length_numberWildcards]
    · obtain ⟨hmem, -⟩ := mem_wildcardsFor (hsub w hw)
      exact hparams ▸ hmem
  refine ⟨o, ctx', _, hrun, harena, List.forall_mem_append.2
    ⟨fun d hd => .inl (hfinished d hd), fun d hd => .inr (hunsettled d hd)⟩,
    hend.imp ?_ fun h => h.1⟩
  rintro ⟨-, rfl, -⟩
  rwa [List.map_nil, List.append_nil]

theorem Composed.settles {x : Resolve α} (h : r.Composed x) : r.Settles x := by
  induction h with
  | outcome _ | read _ | remember _ | emit _ => exact .of_same fun _ => rfl
  | level id args owner => exact captureLevel_settles id args owner
  | bind _ _ ihx ihf => exact ihx.bind ihf

/-- All captures stay as and where they were. -/
theorem Composed.grows {x : Resolve α} (h : r.Composed x) (ctx : Context) :
    Grows ctx.captures (x ctx).2.captures := by
  obtain ⟨_, _, _, hrun, harena, -⟩ := h.settles ctx
  rw [hrun]
  exact grows_of_append harena

/-- Along every history a capture is settled, or it is as opened and of a class
whose parameters are not self-contained. -/
theorem Reachable.finished_or_unsettled {ctx : Context} (h : r.Reachable ctx) :
    ∀ c ∈ ctx.captures, r.Finished c ∨
      r.Unsettled c ∧ ∃ id, ¬ r.env.SelfContained id ∧
      c.typeVar ∈ r.env.paramsOf id := by
  induction h with
  | start => exact fun c hc => absurd hc (Array.not_mem_empty c)
  | @step ctx _ depth q ih =>
      by_cases hreset : q = .reset
      · subst hreset
        exact fun c hc => absurd hc (Array.not_mem_empty c)
      · obtain ⟨o, ctx', added, hrun, harena, heach, -⟩ :=
          (answer_composed depth hreset).settles ctx
        rw [hrun]
        intro c hc
        rw [← Array.mem_toList_iff, harena, List.mem_append,
          Array.mem_toList_iff] at hc
        exact hc.elim (ih c) (heach c)

/-! ## A type left half-way -/

theorem mem_wildcardsFor_map {v : TypeVarId} {w : Wildcard} :
    ∀ {vs : List TypeVarId}, v ∈ vs →
    (v, w) ∈ wildcardsFor vs (vs.map fun _ => w.toTy)
  | _ :: _, hv => by
      rcases List.mem_cons.1 hv with rfl | hv
      · exact List.mem_cons_self
      · exact List.mem_cons_of_mem _ (mem_wildcardsFor_map hv)

/-- Where the bounds of a class mention more than its own parameters, capturing
it with a wildcard for each and no owner leaves one unsettled. -/
theorem exists_unfinished {id : ClassId} (h : ¬ r.env.SelfContained id) :
    ∃ ctx, r.Reachable ctx ∧ ∃ c ∈ ctx.captures, ¬ r.Finished c := by
  cases hc : r.env.class? id with
  | none =>
      refine absurd ⟨?_, ?_⟩ h
      · simp [paramsOf, hc]
      · simp [BoundsWithin, paramsOf, hc]
  | some c =>
      have hparams := paramsOf_eq hc
      let w : Wildcard := ⟨[r.env.top], [r.env.top]⟩
      let args := c.typeParams.map fun _ => w.toTy
      have howner : bindOwner r.env.toDeclarations none = .ok .empty := rfl
      have hlen : c.typeParams.length = args.length := by simp [args]
      obtain ⟨o, ctx', front, rest, hrun, hparts, harena, hend⟩ :=
        captureLevel_cases .empty hc hlen howner
      have hreach : r.Reachable ctx' := by
        have hstep := Reachable.step (r := r) .start 0
          (.capture (.parameterized id args none))
        have hanswer :
            (r.answer 0 (.capture (.parameterized id args none)) .empty).2 =
              ctx' := by
          show ((r.captureLevel id args none >>= fun t => pure (Answer.type t))
            .empty).2 = ctx'
          rw [bind_apply, hrun]
          cases o <;> rfl
        exact hanswer ▸ hstep
      refine ⟨ctx', hreach, ?_⟩
      rcases hend with ⟨-, -, hall⟩ | ⟨-, v, hv, -⟩
      · -- all could be settled, so the bounds mention parameters only
        refine absurd ⟨fun v hv => ?_, fun v hv b hb u hu => ?_⟩ h
        · obtain ⟨p, _, hp, -⟩ :=
            hall (v, w) (mem_wildcardsFor_map (hparams ▸ hv))
          exact ⟨p, hp⟩
        · obtain ⟨p, bounds, hp, hbounds⟩ :=
            hall (v, w) (mem_wildcardsFor_map (hparams ▸ hv))
          rw [boundsOf_eq hp] at hb
          obtain ⟨s, hs⟩ := Substitution.resolve_of_resolveAll hbounds hb
          have hbound := Substitution.isSome_of_resolve hs u hu
          rw [Substitution.get?_bindZip, Substitution.get?_empty,
            Option.or_none] at hbound
          obtain ⟨t, ht⟩ := Option.isSome_iff_exists.1 hbound
          exact hparams ▸ (Substitution.mem_of_lastValue ht).1
      · refine ⟨r.opened v, ?_, fun hfinished => ?_⟩
        · rw [← Array.mem_toList_iff, harena]
          exact List.mem_append_right _
            (List.mem_append_right _ (List.mem_map_of_mem hv))
        · obtain ⟨-, hmem⟩ :=
            mem_wildcardsFor (hparts ▸ List.mem_append_right _ hv :
              v ∈ wildcardsFor c.typeParams args)
          obtain ⟨-, -, heq⟩ := List.mem_map.1 hmem
          have hlower : [] = v.2.lower := hfinished.lower_eq
          have hwild : v.2.lower = [r.env.top] := (Ty.wildcard.inj heq).2.symm
          rw [hwild] at hlower
          cases hlower

/-! ## Types with their owners -/

theorem captured_finished (n : Nat) :
    ∀ t, ∀ c ∈ (r.captured n t).2, r.Finished c
  | .parameterized id args (some owner), c, hc => by
      rcases List.mem_append.1 hc with hc | hc
      · exact captured_finished n owner c hc
      · obtain ⟨w, -, rfl⟩ := List.mem_map.1 hc
        exact settled_finished _ w
  | .parameterized id args none, c, hc => by
      obtain ⟨w, -, rfl⟩ := List.mem_map.1 hc
      exact settled_finished _ w
  | .nominal _, _, hc | .var _, _, hc | .wildcard _ _, _, hc
  | .genericArray _, _, hc | .capture _, _, hc => absurd hc List.not_mem_nil

theorem Builds.finished {arena later : Array CaptureDef}
    (h : r.Builds arena later) (harena : ∀ c ∈ arena, r.Finished c) :
    ∀ c ∈ later, r.Finished c := by
  induction h with
  | refl => exact harena
  | @capture between later t _ _ hlater ih =>
      intro c hc
      rw [← Array.mem_toList_iff, hlater, List.mem_append,
        Array.mem_toList_iff] at hc
      exact hc.elim (ih c) (captured_finished _ t c)

/-- Requests on regular types, whether they succeed or not, leave nothing
unsettled. -/
theorem RegularlyReachable.finished (h : r.env.Founded) {ctx : Context}
    (hctx : r.RegularlyReachable ctx) : ∀ c ∈ ctx.captures, r.Finished c := by
  induction hctx with
  | start => exact fun c hc => absurd hc (Array.not_mem_empty c)
  | @step ctx hctx depth q hq ih =>
      by_cases hreset : q = .reset
      · subst hreset
        exact fun c hc => absurd hc (Array.not_mem_empty c)
      · obtain ⟨harena, hsame⟩ := hctx.sound h
        obtain ⟨-, hafter⟩ := answer_simulates r depth q ctx ctx hsame
        obtain ⟨-, hbuilds, -⟩ := Upkeep.answer_keeps
          (soundness_allows (r := r.forgetting) h) rfl depth hreset hq ctx
          (Nat.le_refl _) (sound_forgetting.2 harena)
        have hkept : ∀ c ∈ ctx.captures, r.forgetting.Finished c := fun c hc =>
          ⟨(ih c hc).upper_ne_nil, (ih c hc).lower_eq, (ih c hc).upper_mem⟩
        intro c hc
        rw [hafter.captures] at hc
        have hfinished := hbuilds.finished hkept c hc
        exact ⟨hfinished.upper_ne_nil, hfinished.lower_eq, hfinished.upper_mem⟩

/-! ## When captures are finished -/

/-- Every capture of every history is finished exactly if the parameters of each
class are self-contained. Whatever the declarations, what is not finished is as
it was opened, a request that leaves such a capture fails for want of a
variable, and requests on regular types leave none. -/
theorem captures_finished_iff (r : Resolver) :
    ((∀ ctx, r.Reachable ctx → ∀ c ∈ ctx.captures, r.Finished c) ↔
      ∀ id, r.env.SelfContained id) ∧
    (∀ ctx, r.Reachable ctx → ∀ c ∈ ctx.captures, r.Finished c ∨
      r.Unsettled c ∧ ∃ id, ¬ r.env.SelfContained id ∧
        c.typeVar ∈ r.env.paramsOf id) ∧
    (∀ depth q ctx, q ≠ .reset → ∃ added,
      (r.answer depth q ctx).2.captures.toList = ctx.captures.toList ++ added ∧
        ((∀ c ∈ added, r.Finished c) ∨
          ∃ e, (r.answer depth q ctx).1 = .error e ∧ e.LacksVariable)) ∧
    (r.env.Founded → ∀ ctx, r.RegularlyReachable ctx →
      ∀ c ∈ ctx.captures, r.Finished c) := by
  refine ⟨⟨fun hall id => ?_, fun hself ctx hctx c hc => ?_⟩,
    fun _ => Reachable.finished_or_unsettled, fun depth q ctx hreset => ?_,
    fun h _ => RegularlyReachable.finished h⟩
  · by_contra hopen
    obtain ⟨ctx, hctx, c, hc, hunfinished⟩ := exists_unfinished hopen
    exact hunfinished (hall ctx hctx c hc)
  · exact (hctx.finished_or_unsettled c hc).resolve_right
      fun ⟨_, id, hopen, _⟩ => hopen (hself id)
  · obtain ⟨o, ctx', added, hrun, harena, -, hend⟩ :=
      (answer_composed depth hreset).settles ctx
    rw [hrun]
    exact ⟨added, harena, hend⟩

end Resolver

/-! ## An inner class without its owner -/

namespace TypeStore

namespace Seed

def outer : ClassId := ⟨11⟩
def inner : ClassId := ⟨12⟩

/-- `class Outer<T>` with the member class `Inner<U extends T>`. -/
def nestedEdits : List Edit :=
  [ .addTypeParam "T" [],
    .addTypeParam "U" [tv 2],
    .intern "p.Outer",
    .intern "p.Outer$Inner",
    .defineClass outer (classDecl "p.Outer" [2] (.named object) [] [] []),
    .defineClass inner
      { classDecl "p.Outer$Inner" [3] (.named object) [] [] [] with
        enclosing := some outer } ]

/-- `Inner<? super String>`, its owner left out. -/
def ownerless : Ty :=
  applied inner [(Wildcard.above object (.named string)).toTy]

end Seed

/-- A resolver over the core package with a member class. -/
def nestedResolver : Resolver :=
  ⟨⟨(core.applyAll Seed.nestedEdits).toDeclarations, none⟩, {}⟩

end TypeStore

namespace Resolver

open TypeStore in
/-- Capturing `Inner<? super String>` fails on the bound `T` of its parameter,
and the capture it has opened by then lacks the lower bound `String`. -/
theorem ownerless_unfinished :
    nestedResolver.Reachable
      (nestedResolver.answer 5 (.capture Seed.ownerless) .empty).2 ∧
    (nestedResolver.answer 5 (.capture Seed.ownerless) .empty).1 =
      .error (.unboundVariable ⟨2⟩) ∧
    ∃ c ∈ (nestedResolver.answer 5 (.capture Seed.ownerless) .empty).2.captures,
      c.lower = [] ∧ c.wildcard.lower = [.named Seed.string] ∧
      ¬ nestedResolver.Finished c := by
  refine ⟨.step .start 5 _, by decide,
    ⟨Wildcard.above Seed.object (.named Seed.string), ⟨3⟩,
      [.named Seed.object], []⟩,
    Array.mem_toList_iff.1 (by decide), rfl, rfl, fun h => ?_⟩
  cases h.lower_eq

end Resolver

end GenericTypes
