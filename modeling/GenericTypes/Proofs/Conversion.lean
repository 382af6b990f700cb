import GenericTypes.Proofs.Chain

/-!
# Capture conversion in closed form

Opening and settling are two passes over the arena, and what they come to can be
said in one: the wildcards among the arguments are numbered from the end of the
arena on, and each gets the bounds its variable declares, with the arguments so
numbered put in, merged with its own. `captured` says just that, without an
arena to write to, and `capture_eq` is that the resolver does it.

The second pass rewrites the arena in place. Its invariant is that the arena is
what was there, followed by captures that are settled, followed by captures as
they were opened, so that the next number to settle is the length of the first
two (`settleCaptures_eq`).

Nothing can fail on the way where the arguments are counted all along the chain
and each level binds what the bounds of its own parameters mention
(`Counted`, `Bounded`).
-/

namespace GenericTypes

open Substitution

namespace Declarations

/-- The value of a variable at one level of a chain whose owner has been seen
to: the arguments first, then the owner. -/
def levelSubst (d : Declarations) (id : ClassId) (args : List Ty)
    (owner : Option Ty) (v : TypeVarId) : Ty :=
  ((lastValue (d.paramsOf id) args v).or
    (owner.bind fun o => d.chainValue o v)).getD (.var v)

/-- The bounds of the parameters of a class mention none but the given
variables. -/
def BoundsWithin (d : Declarations) (id : ClassId)
    (vs : List TypeVarId) : Prop :=
  ∀ w ∈ d.paramsOf id, ∀ b ∈ d.boundsOf w, ∀ v, .var v ∈ b.parts → v ∈ vs

/-- At every level of a chain, the bounds of the parameters mention only what is
bound from there on. -/
def Bounded (d : Declarations) : Ty → Prop
  | .parameterized id args (some owner) =>
      d.BoundsWithin id (d.chainVars (.parameterized id args (some owner))) ∧
        d.Bounded owner
  | .parameterized id args none =>
      d.BoundsWithin id (d.chainVars (.parameterized id args none))
  | .nominal _ | .var _ | .wildcard _ _ | .genericArray _ | .capture _ => True

variable {d : Declarations} {n : Nat} {t : Ty}

theorem Fits.bounds_within {id : ClassId} {args : List Ty} {owner : Option Ty}
    (h : d.Fits n (.parameterized id args owner)) :
    d.BoundsWithin id (d.chainVars (.parameterized id args owner)) := by
  obtain ⟨⟨c, hc, -⟩, hused, -⟩ := h
  intro w hw b hb v hv
  rw [paramsOf_eq hc] at hw
  exact hused v (.bound hc hw hb hv)

theorem Complete.bounded : ∀ {t : Ty}, d.Complete n t → d.Bounded t
  | .parameterized _ _ (some _), h =>
      ⟨h.fits.bounds_within, Complete.bounded (h.part Ty.owner_mem_parts)⟩
  | .parameterized _ _ none, h => h.fits.bounds_within
  | .nominal _, _ | .var _, _ | .wildcard _ _, _ | .genericArray _, _
  | .capture _, _ => trivial

end Declarations

namespace Ty

/-- No wildcard is an argument along the chain of owners. -/
def Converted : Ty → Prop
  | .parameterized _ args (some owner) =>
      (∀ a ∈ args, a.isWildcard = false) ∧ owner.Converted
  | .parameterized _ args none => ∀ a ∈ args, a.isWildcard = false
  | .nominal _ | .var _ | .wildcard _ _ | .genericArray _ | .capture _ => True

end Ty

/-- No declared supertype has a wildcard among its own arguments or those of its
owners. Deeper down there may be some. -/
def Declarations.DeclaresConverted (d : Declarations) : Prop :=
  ∀ id c, d.class? id = some c → ∀ s ∈ c.supertypes, s.Converted

namespace Declarations

variable {d : Declarations} {t : Ty}

theorem isWildcard_chainValue {v : TypeVarId} {s : Ty} :
    ∀ {t : Ty}, t.Converted →
    d.chainValue t v = some s → s.isWildcard = false
  | .parameterized id args (some owner), ⟨hargs, howner⟩, hs => by
      rw [chainValue, Option.or_eq_some_iff] at hs
      rcases hs with hs | ⟨-, hs⟩
      · exact isWildcard_chainValue howner hs
      · exact hargs s (Substitution.mem_of_lastValue hs).2
  | .parameterized id args none, hargs, hs => by
      rw [chainValue] at hs
      exact hargs s (Substitution.mem_of_lastValue hs).2

theorem isWildcard_chainSubst (ht : t.Converted) (v : TypeVarId) :
    (d.chainSubst t v).isWildcard = false := by
  rw [chainSubst]
  cases hs : d.chainValue t v with
  | some s => exact isWildcard_chainValue ht hs
  | none => rfl

end Declarations

namespace Resolver

open Declarations

/-- The arguments with their wildcards replaced by captures, numbered from `n`
on. -/
def numberWildcards : Nat → List Ty → List Ty
  | _, [] => []
  | n, .wildcard _ _ :: args => .capture ⟨n⟩ :: numberWildcards (n + 1) args
  | n, arg :: args => arg :: numberWildcards n args

/-- The wildcards among the arguments, each with the parameter it is given
for. -/
def wildcardsFor : List TypeVarId → List Ty → List (TypeVarId × Wildcard)
  | v :: vs, .wildcard upper lower :: args =>
      (v, ⟨upper, lower⟩) :: wildcardsFor vs args
  | _ :: vs, _ :: args => wildcardsFor vs args
  | _, _ => []

/-- A capture as it is opened. -/
def opened (r : Resolver) (w : TypeVarId × Wildcard) : CaptureDef :=
  ⟨w.2, w.1, [r.env.top], []⟩

/-- A capture as it is settled, where `φ` gives the arguments of its level. -/
def settled (r : Resolver) (φ : TypeVarId → Ty)
    (w : TypeVarId × Wildcard) : CaptureDef :=
  ⟨w.2, w.1, r.mergeBounds ((r.env.boundsOf w.1).map (·.subst φ)) w.2.upper,
    w.2.lower⟩

/-- The capture of a type in an arena of `n` captures, and the captures it
adds. -/
def captured (r : Resolver) (n : Nat) : Ty → Ty × List CaptureDef
  | .parameterized id args (some owner) =>
      let (owner, below) := r.captured n owner
      let numbered := numberWildcards (n + below.length) args
      let φ := r.env.levelSubst id numbered (some owner)
      (.parameterized id numbered (some owner),
        below ++ (wildcardsFor (r.env.paramsOf id) args).map (r.settled φ))
  | .parameterized id args none =>
      let numbered := numberWildcards n args
      let φ := r.env.levelSubst id numbered none
      (.parameterized id numbered none,
        (wildcardsFor (r.env.paramsOf id) args).map (r.settled φ))
  | t => (t, [])

variable {r : Resolver} {d : Declarations} {id : ClassId} {n : Nat} {t : Ty}

/-! ## The first pass -/

theorem length_numberWildcards :
    ∀ n args, (numberWildcards n args).length = args.length
  | _, [] => rfl
  | n, arg :: args => by
      cases arg with
      | wildcard _ _ =>
          exact congrArg (· + 1) (length_numberWildcards (n + 1) args)
      | nominal _ | parameterized _ _ _ | var _ | genericArray _ | capture _ =>
          exact congrArg (· + 1) (length_numberWildcards n args)

theorem openArguments_eq :
    ∀ (vs : List TypeVarId) (args : List Ty) (σ : Substitution)
    (ctx : Context), vs.length = args.length →
    ∃ ctx', r.openArguments vs args σ ctx =
        (.ok (numberWildcards ctx.captures.size args,
          σ.bindZip vs (numberWildcards ctx.captures.size args),
          (List.range' ctx.captures.size (wildcardsFor vs args).length).map
            CaptureId.mk), ctx') ∧
      ctx'.captures.toList = ctx.captures.toList ++
        (wildcardsFor vs args).map r.opened
  | [], [], σ, ctx, _ => ⟨ctx, rfl, (List.append_nil _).symm⟩
  | v :: vs, arg :: args, σ, ctx, hlen => by
      have hrest := Nat.succ.inj hlen
      cases arg with
      | wildcard upper lower =>
          let ctx₁ : Context :=
            { ctx with
              captures := ctx.captures.push (r.opened (v, ⟨upper, lower⟩)) }
          have hsize : ctx₁.captures.size = ctx.captures.size + 1 :=
            Array.size_push _
          obtain ⟨ctx', hopen, harena⟩ := openArguments_eq vs args
            (σ.bind v (.capture ⟨ctx.captures.size⟩)) ctx₁ hrest
          refine ⟨ctx', ?_, ?_⟩
          · have hstep : r.openArguments (v :: vs)
                  (.wildcard upper lower :: args) σ ctx =
                (r.openArguments vs args
                    (σ.bind v (.capture ⟨ctx.captures.size⟩)) >>=
                  fun opened => pure (.capture ⟨ctx.captures.size⟩ :: opened.1,
                    opened.2.1, ⟨ctx.captures.size⟩ :: opened.2.2)) ctx₁ := rfl
            rw [hstep, Resolve.bind_apply, hopen, hsize]
            rfl
          · rw [harena, Array.toList_push, List.append_assoc]
            rfl
      | nominal _ | parameterized _ _ _ | var _ | genericArray _ | capture _ =>
          obtain ⟨ctx', hopen, harena⟩ :=
            openArguments_eq vs args (σ.bind v _) ctx hrest
          refine ⟨ctx', ?_, harena⟩
          rw [openArguments, Resolve.bind_apply, hopen]
          · rfl
          · intro _ _ hwild
            cases hwild

/-! ## The second pass -/

theorem captureDef_eq {i : CaptureId} {c : CaptureDef} {ctx : Context}
    (hc : ctx.captures[i.index]? = some c) :
    Resolve.captureDef i ctx = (.ok c, ctx) := by
  have hread : Resolve.read (·.capture? i) ctx = (.ok (some c), ctx) :=
    congrArg (fun found => (Outcome.ok found, ctx)) hc
  rw [Resolve.captureDef, Resolve.bind_apply, hread]
  rfl

theorem modify_append_length {α : Type} (f : α → α) (x : α) (rest : List α) :
    ∀ done : List α, (done ++ x :: rest).modify done.length f = done ++
      f x :: rest
  | [] => rfl
  | _ :: done => congrArg _ (modify_append_length f x rest done)

/-- The bounds of a capture can be settled where its variable is declared and
the level binds what they mention. -/
theorem settleCapture_eq {σ : Substitution} {φ : TypeVarId → Ty}
    {w : TypeVarId × Wildcard} {done rest : List CaptureDef} {ctx : Context}
    (hbounds : ∃ p, r.env.typeParam? w.1 = some p ∧ ∀ b ∈ p.upperBounds, ∀ v,
      .var v ∈ b.parts → σ.get? v = some (φ v))
    (harena : ctx.captures.toList = done ++ r.opened w :: rest) :
    ∃ ctx', r.settleCapture σ ⟨done.length⟩ ctx = (.ok (), ctx') ∧
      ctx'.captures.toList = done ++ r.settled φ w :: rest := by
  obtain ⟨p, hp, hvars⟩ := hbounds
  have hfound : ctx.captures[done.length]? = some (r.opened w) := by
    rw [← Array.getElem?_toList, harena,
      List.getElem?_append_right (Nat.le_refl _),
      Nat.sub_self]
    rfl
  have hdef : Resolve.captureDef ⟨done.length⟩ ctx = (.ok (r.opened w), ctx) :=
    captureDef_eq hfound
  have hresolve : σ.resolveAll p.upperBounds =
      .ok (p.upperBounds.map (·.subst φ)) :=
    resolveAll_eq_map fun b hb => resolve_eq_subst (hvars b hb)
  have hget : r.env.getTypeParam (r.opened w).typeVar = .ok p :=
    getTypeParam_eq hp
  refine ⟨{ ctx with
    events :=
      ctx.events.push (.captured ⟨done.length⟩ (r.settled φ w).upper.length
        (r.settled φ w).lower.length)
    captures := ctx.captures.modify done.length fun c =>
      { c with
        upper := (r.settled φ w).upper,
        lower := (r.settled φ w).lower } }, ?_, ?_⟩
  · rw [settleCapture, Resolve.bind_apply, hdef]
    dsimp only
    rw [hget]
    show (liftM (σ.resolveAll p.upperBounds) >>= fun declared => _ :
      Resolve Unit) ctx = _
    rw [hresolve, settled, boundsOf_eq hp]
    rfl
  · dsimp only
    rw [Array.toList_modify, harena, modify_append_length]
    rfl

/-- Settling rewrites the part of the arena that is not settled yet, front to
back. -/
theorem settleCaptures_eq {σ : Substitution} {φ : TypeVarId → Ty} :
    ∀ (ws : List (TypeVarId × Wildcard)) (done : List CaptureDef)
      (ctx : Context),
    (∀ w ∈ ws, ∃ p, r.env.typeParam? w.1 = some p ∧ ∀ b ∈ p.upperBounds, ∀ v,
      .var v ∈ b.parts → σ.get? v = some (φ v)) →
    ctx.captures.toList = done ++ ws.map r.opened →
    ∃ ctx', r.settleCaptures σ
      ((List.range' done.length ws.length).map CaptureId.mk) ctx =
        (.ok (), ctx') ∧ ctx'.captures.toList = done ++ ws.map (r.settled φ)
  | [], done, ctx, _, harena => ⟨ctx, rfl, harena⟩
  | w :: ws, done, ctx, hbounds, harena => by
      obtain ⟨ctx₁, hstep, harena₁⟩ :=
        settleCapture_eq (hbounds w List.mem_cons_self) harena
      obtain ⟨ctx₂, hrest, harena₂⟩ :=
        settleCaptures_eq ws (done ++ [r.settled φ w]) ctx₁
          (fun w hw => hbounds w (List.mem_cons_of_mem _ hw)) (by
            rw [harena₁, List.append_assoc]
            rfl)
      rw [List.length_append, List.length_singleton] at hrest
      refine ⟨ctx₂, ?_, ?_⟩
      · show (r.settleCapture σ ⟨done.length⟩ >>=
          fun _ => r.settleCaptures σ _) ctx = _
        rw [Resolve.bind_apply, hstep]
        exact hrest
      · rw [harena₂, List.append_assoc]
        rfl

/-! ## A level, and the whole chain -/

theorem mem_wildcardsFor {v : TypeVarId} {w : Wildcard} :
    ∀ {vs : List TypeVarId} {args : List Ty}, (v, w) ∈ wildcardsFor vs args →
      v ∈ vs ∧ w.toTy ∈ args
  | _ :: vs, arg :: args, h => by
      cases arg with
      | wildcard upper lower =>
          rcases List.mem_cons.1 h with heq | h
          · obtain ⟨rfl, rfl⟩ := Prod.mk.inj heq
            exact ⟨List.mem_cons_self, List.mem_cons_self⟩
          · obtain ⟨hv, hw⟩ := mem_wildcardsFor h
            exact ⟨List.mem_cons_of_mem _ hv, List.mem_cons_of_mem _ hw⟩
      | nominal _ | parameterized _ _ _ | var _ | genericArray _ | capture _ =>
          have htail : (v, w) ∈ wildcardsFor vs args := h
          obtain ⟨hv, hw⟩ := mem_wildcardsFor htail
          exact ⟨List.mem_cons_of_mem _ hv, List.mem_cons_of_mem _ hw⟩

/-- The values that an owner contributes to its level. -/
theorem bindOwner_spec {owner : Option Ty}
    (h : ∀ o, owner = some o → d.Counted o) : ∃ σ, bindOwner d owner = .ok σ ∧
      ∀ v, σ.get? v = owner.bind fun o => d.chainValue o v := by
  cases owner with
  | none => exact ⟨.empty, rfl, fun _ => rfl⟩
  | some o =>
      obtain ⟨σ, hσ, hget⟩ := bindChain_spec .empty (h o rfl)
      refine ⟨σ, hσ, fun v => ?_⟩
      rw [hget, get?_empty, Option.or_none]
      rfl

/-- A level of a class that is not defined, or that is given another number of
arguments than it takes or an owner that is, fails before it opens a capture. -/
theorem captureLevel_begins (id : ClassId) (args : List Ty)
    (owner : Option Ty) : (∃ e, r.captureLevel id args owner = Resolve.fail e ∧
      (e = .undeclaredClass id ∨ (∃ n m, e = .arityMismatch (some id) n m) ∨
        bindOwner r.env.toDeclarations owner = .error e)) ∨
      ∃ c σ, r.env.class? id = some c ∧ c.typeParams.length = args.length ∧
        bindOwner r.env.toDeclarations owner = .ok σ := by
  unfold captureLevel
  cases hc : r.env.class? id with
  | none =>
      have hget : r.env.getClass id = .error (.undeclaredClass id) := by
        rw [getClass, hc]
      rw [hget]
      exact .inl ⟨_, rfl, .inl rfl⟩
  | some c =>
      rw [getClass_eq hc]
      show (∃ e, (if c.typeParams.length = args.length then _ else _ :
        Resolve Ty) = _ ∧ _) ∨ _
      by_cases hlen : c.typeParams.length = args.length
      · rw [if_pos hlen]
        cases howner : bindOwner r.env.toDeclarations owner with
        | error e => exact .inl ⟨e, rfl, .inr (.inr rfl)⟩
        | ok σ => exact .inr ⟨c, σ, rfl, hlen, rfl⟩
      · rw [if_neg hlen]
        exact .inl ⟨_, rfl, .inr (.inl ⟨_, _, rfl⟩)⟩

/-- One level is captured in full where the arguments are counted and `φ` gives
the values that the level has for what the bounds of its parameters mention. -/
theorem captureLevel_settled {c : ClassDecl} {args : List Ty}
    {owner : Option Ty} {σ : Substitution} (φ : TypeVarId → Ty) (ctx : Context)
    (hc : r.env.class? id = some c) (hlen : c.typeParams.length = args.length)
    (howner : bindOwner r.env.toDeclarations owner = .ok σ)
    (hbounds : ∀ w ∈ wildcardsFor c.typeParams args, ∃ p,
      r.env.typeParam? w.1 = some p ∧
      ∀ b ∈ p.upperBounds, ∀ v, .var v ∈ b.parts →
        (σ.bindZip c.typeParams (numberWildcards ctx.captures.size args)).get?
          v = some (φ v)) :
    ∃ ctx', r.captureLevel id args owner ctx =
        (.ok (.parameterized id (numberWildcards ctx.captures.size args) owner),
          ctx') ∧
      ctx'.captures.toList =
        ctx.captures.toList ++ (wildcardsFor (r.env.paramsOf id) args).map
          (r.settled φ) := by
  obtain ⟨ctx₁, hopen, harena₁⟩ := openArguments_eq c.typeParams args σ ctx hlen
  obtain ⟨ctx₂, hsettle, harena₂⟩ :=
    settleCaptures_eq (r := r) (wildcardsFor c.typeParams args)
      ctx.captures.toList ctx₁ hbounds harena₁
  refine ⟨ctx₂, ?_, ?_⟩
  · have hclass : r.env.getClass id = .ok c := getClass_eq hc
    unfold captureLevel
    rw [hclass]
    show (if c.typeParams.length = args.length then _ else _ :
      Resolve Ty) ctx = _
    rw [if_pos hlen, howner]
    show (r.openArguments c.typeParams args σ >>= fun opened => _ :
      Resolve Ty) ctx = _
    rw [Resolve.bind_apply, hopen]
    dsimp only
    rw [Array.length_toList] at hsettle
    rw [Resolve.bind_apply, hsettle]
    rfl
  · rw [harena₂, paramsOf_eq hc]

/-- So it is in well-formed declarations, where the level binds what the bounds
of its parameters mention. -/
theorem captureLevel_eq {args : List Ty} {owner : Option Ty} (ctx : Context)
    (h : r.env.WellFormed) (hcounts : r.env.Counts id args)
    (howner : ∀ o, owner = some o → r.env.Counted o)
    (hbounds : r.env.BoundsWithin id
      (r.env.chainVars (.parameterized id args owner))) :
    ∃ ctx', r.captureLevel id args owner ctx =
        (.ok (.parameterized id (numberWildcards ctx.captures.size args) owner),
          ctx') ∧
      ctx'.captures.toList = ctx.captures.toList ++
        (wildcardsFor (r.env.paramsOf id) args).map (r.settled
          (r.env.levelSubst id
            (numberWildcards ctx.captures.size args) owner)) := by
  obtain ⟨c, hc, hlen⟩ := hcounts
  obtain ⟨σ, hσ, hget⟩ := bindOwner_spec howner
  have hparams := paramsOf_eq hc
  have hnumbered :
      c.typeParams.length = (numberWildcards ctx.captures.size args).length :=
    hlen.trans (length_numberWildcards _ _).symm
  have hvalue : ∀ v ∈ r.env.chainVars (.parameterized id args owner),
      (σ.bindZip c.typeParams (numberWildcards ctx.captures.size args)).get? v =
        some (r.env.levelSubst id (numberWildcards ctx.captures.size args)
          owner v) := by
    intro v hv
    have hsome :
        ((lastValue c.typeParams (numberWildcards ctx.captures.size args) v).or
          (owner.bind fun o => r.env.chainValue o v)).isSome := by
      rw [Option.isSome_or, Bool.or_eq_true]
      cases owner with
      | none =>
          rw [chainVars, hparams] at hv
          exact .inl (lastValue_isSome hnumbered hv)
      | some o =>
          rw [chainVars, hparams] at hv
          rcases List.mem_append.1 hv with hv | hv
          · exact .inl (lastValue_isSome hnumbered hv)
          · exact .inr (chainValue_isSome (howner o rfl) hv)
    rw [get?_bindZip, hget, levelSubst, hparams]
    obtain ⟨s, hs⟩ := Option.isSome_iff_exists.1 hsome
    rw [hs]
    rfl
  refine captureLevel_settled _ ctx hc hlen hσ fun w hw => ?_
  obtain ⟨hw, -⟩ := mem_wildcardsFor (w := w.2) hw
  obtain ⟨p, hp⟩ := h.params hc w.1 hw
  have hbound : ∀ b ∈ p.upperBounds, b ∈ r.env.boundsOf w.1 := fun b hb =>
    mem_boundsOf_iff.2 ⟨p, hp, hb⟩
  exact ⟨p, hp, fun b hb v hv => hvalue v
    (hbounds w.1 (hparams ▸ hw) b (hbound b hb) v hv)⟩

theorem size_of_append {arena later : Array CaptureDef}
    {added : List CaptureDef} (h : later.toList = arena.toList ++ added) :
    later.size = arena.size + added.length := by
  rw [← Array.length_toList, h, List.length_append, Array.length_toList]

/-- A captured chain has the classes of the chain and as many arguments. -/
theorem captured_chain (n : Nat) : ∀ {t : Ty}, r.env.Counted t →
    (r.captured n t).1.head? = t.head? ∧ r.env.Counted (r.captured n t).1 ∧
      r.env.chainVars (r.captured n t).1 = r.env.chainVars t
  | .parameterized id args (some owner), ⟨⟨c, hc, hlen⟩, howner⟩ => by
      obtain ⟨-, hcounted, hvars⟩ := captured_chain n howner
      refine ⟨rfl, ⟨⟨c, hc, ?_⟩, hcounted⟩, ?_⟩
      · rw [hlen, length_numberWildcards]
      · rw [captured, chainVars, chainVars, hvars]
  | .parameterized id args none, ⟨c, hc, hlen⟩ =>
      ⟨rfl, ⟨c, hc, hlen.trans (length_numberWildcards n args).symm⟩, rfl⟩
  | .nominal _, _ | .var _, _ | .wildcard _ _, _ | .genericArray _, _
  | .capture _, _ =>
      ⟨rfl, trivial, rfl⟩

/-- Capture conversion adds to the arena what `captured` says, and answers with
what it says. -/
theorem capture_eq (h : r.env.WellFormed) :
    ∀ {t : Ty} (ctx : Context), r.env.Counted t →
    r.env.Bounded t →
    ∃ ctx', r.capture t ctx = (.ok (r.captured ctx.captures.size t).1, ctx') ∧
      ctx'.captures.toList = ctx.captures.toList ++
        (r.captured ctx.captures.size t).2
  | .parameterized id args (some owner), ctx, hcounted, hbounded => by
      obtain ⟨hcounts, hcountedOwner⟩ := hcounted
      obtain ⟨hbounds, hboundedOwner⟩ := hbounded
      obtain ⟨ctx₁, hcapture, harena₁⟩ :=
        capture_eq h ctx hcountedOwner hboundedOwner
      obtain ⟨-, hcounted', hvars⟩ :=
        captured_chain (r := r) ctx.captures.size hcountedOwner
      have hsize : ctx₁.captures.size =
          ctx.captures.size + (r.captured ctx.captures.size owner).2.length :=
        size_of_append harena₁
      obtain ⟨ctx₂, hlevel, harena₂⟩ := captureLevel_eq ctx₁ h hcounts
        (fun o ho => Option.some.inj ho ▸ hcounted') (by
          rw [chainVars, hvars]
          exact hbounds)
      refine ⟨ctx₂, ?_, ?_⟩
      · rw [capture, Resolve.bind_apply, hcapture]
        dsimp only
        rw [hlevel, hsize]
        rfl
      · rw [harena₂, harena₁, hsize, List.append_assoc]
        rfl
  | .parameterized id args none, ctx, hcounted, hbounded => by
      have howner : ∀ o, none = some o → r.env.Counted o := by
        rintro o ⟨⟩
      exact captureLevel_eq ctx h hcounted howner hbounded
  | .nominal _, ctx, _, _ | .var _, ctx, _, _ | .wildcard _ _, ctx, _, _
  | .genericArray _, ctx, _, _ | .capture _, ctx, _, _ =>
      ⟨ctx, rfl, (List.append_nil _).symm⟩

/-! ## What has been captured before -/

theorem numberWildcards_of_none {args : List Ty}
    (h : ∀ a ∈ args, a.isWildcard = false) (n : Nat) :
    numberWildcards n args = args := by
  induction args with
  | nil => rfl
  | cons a args ih =>
      have ha := h a List.mem_cons_self
      have htail := ih fun b hb => h b (List.mem_cons_of_mem a hb)
      cases a with
      | wildcard _ _ => cases ha
      | nominal _ | parameterized _ _ _ | var _ | genericArray _ | capture _ =>
          exact congrArg (_ :: ·) htail

theorem wildcardsFor_of_none : ∀ (vs : List TypeVarId) {args : List Ty},
    (∀ a ∈ args, a.isWildcard = false) → wildcardsFor vs args = []
  | [], [], _ | [], _ :: _, _ | _ :: _, [], _ => rfl
  | v :: vs, a :: args, h => by
      have ha := h a List.mem_cons_self
      have htail := wildcardsFor_of_none vs fun b hb =>
        h b (List.mem_cons_of_mem a hb)
      cases a with
      | wildcard _ _ => cases ha
      | nominal _ | parameterized _ _ _ | var _ | genericArray _ | capture _ =>
          exact htail

/-- A type without wildcards along its chain is its own capture. -/
theorem captured_of_converted (n : Nat) :
    ∀ {t : Ty}, t.Converted → r.captured n t = (t, [])
  | .parameterized id args (some owner), ⟨hargs, howner⟩ => by
      rw [captured, captured_of_converted n howner]
      dsimp only
      rw [numberWildcards_of_none hargs, wildcardsFor_of_none _ hargs]
      rfl
  | .parameterized id args none, hargs => by
      rw [captured, numberWildcards_of_none hargs, wildcardsFor_of_none _ hargs]
      rfl
  | .nominal _, _ | .var _, _ | .wildcard _ _, _ | .genericArray _, _
  | .capture _, _ => rfl

/-! ## What a captured type mentions -/

theorem mem_numberWildcards {a : Ty} : ∀ {n : Nat} {args : List Ty},
    a ∈ numberWildcards n args → (∃ i, a = .capture ⟨n + i⟩) ∨ a ∈ args ∧
      a.isWildcard = false
  | n, arg :: args, ha => by
      cases arg with
      | wildcard _ _ =>
          rcases List.mem_cons.1 ha with rfl | ha
          · exact .inl ⟨0, rfl⟩
          · rcases mem_numberWildcards ha with ⟨i, rfl⟩ | ⟨ha, hwild⟩
            · exact .inl ⟨1 + i, by rw [Nat.add_assoc]⟩
            · exact .inr ⟨List.mem_cons_of_mem _ ha, hwild⟩
      | nominal _ | parameterized _ _ _ | var _ | genericArray _ | capture _ =>
          rcases List.mem_cons.1 ha with rfl | ha
          · exact .inr ⟨List.mem_cons_self, rfl⟩
          · exact (mem_numberWildcards (n := n) ha).imp_right fun h =>
              ⟨List.mem_cons_of_mem _ h.1, h.2⟩

/-- Capturing a type brings in no variable. -/
theorem var_mem_captured {v : TypeVarId} (n : Nat) : ∀ {t : Ty},
    .var v ∈ (r.captured n t).1.parts → .var v ∈ t.parts
  | .parameterized id args (some owner), hv => by
      rw [Ty.mem_parts_parameterized]
      rcases Ty.mem_parts_parameterized.1 hv with
          heq | ⟨o, ho, hv⟩ | ⟨a, ha, hv⟩
      · cases heq
      · obtain rfl := Option.some.inj ho
        exact .inr (.inl ⟨owner, rfl, var_mem_captured n hv⟩)
      · rcases mem_numberWildcards ha with ⟨i, rfl⟩ | ⟨ha, -⟩
        · cases List.mem_singleton.1 hv
        · exact .inr (.inr ⟨a, ha, hv⟩)
  | .parameterized id args none, hv => by
      rw [Ty.mem_parts_parameterized]
      rcases Ty.mem_parts_parameterized.1 hv with heq | ⟨o, ho, -⟩ | ⟨a, ha, hv⟩
      · cases heq
      · cases ho
      · rcases mem_numberWildcards ha with ⟨i, rfl⟩ | ⟨ha, -⟩
        · cases List.mem_singleton.1 hv
        · exact .inr (.inr ⟨a, ha, hv⟩)
  | .nominal _, hv | .var _, hv | .wildcard _ _, hv | .genericArray _, hv
  | .capture _, hv => hv

end Resolver

end GenericTypes
