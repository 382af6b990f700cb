import GenericTypes.Proofs.Answers
import GenericTypes.Proofs.Questions

/-!
# One spelling for each array

An array of a plain class can be written in two ways, and types are compared by
structure. A type is normal where only the one spelling occurs, the one that
`arrayOf` has (`Ty.Normal`), and its normal form is what it becomes when nothing
is put in for its variables, since substitution spells every array anew.

Every array that a resolver makes is made by `arrayOf`, so to be normal is
handed on (`normal_hereditary`): declarations and requests without the other
spelling lead to none anywhere, in answers, in failures or in the arena. What a
comparison goes through is normal then as well, at every level of nesting
(`ComesUp.posed`), and comparing two arguments by structure is as good as
comparing their normal forms.
-/

namespace GenericTypes

open Relation

namespace Ty

/-- The spelling of an array of a plain class that `arrayOf` does not have. -/
def isRespelled : Ty → Bool
  | .genericArray (.nominal _) => true
  | _ => false

/-- Nowhere in the type is an array of a plain class written as an array of a
type. -/
def Normal (t : Ty) : Prop := ∀ x ∈ t.parts, x.isRespelled = false

instance decidableNormal (t : Ty) : Decidable t.Normal :=
  inferInstanceAs (Decidable (∀ x ∈ t.parts, x.isRespelled = false))

/-- The same type with every array of a plain class in the spelling of
`arrayOf`. -/
def normalForm (t : Ty) : Ty := t.subst .var

variable {t : Ty}

theorem isRespelled_arrayOf (t : Ty) : t.arrayOf.isRespelled = false := by
  cases t <;> rfl

theorem normal_hereditary : Hereditary fun _ t => t.Normal :=
  .of_parts (fun _ hx => hx) (fun _ _ => rfl) (fun _ _ => rfl) (fun _ => rfl)
    (fun _ _ _ _ => rfl) (fun _ _ _ => rfl) fun _ t => isRespelled_arrayOf t

/-- The component of an array in normal spelling is put back by `arrayOf`. -/
theorem arrayOf_of_normal (h : (Ty.genericArray t).Normal) :
    t.arrayOf = .genericArray t := by
  have hself := h _ (mem_parts_self _)
  cases t with
  | nominal c => cases hself
  | parameterized _ _ _ | var _ | wildcard _ _ | genericArray _ | capture _ =>
      rfl

theorem normalForm_of_normal (h : t.Normal) : t.normalForm = t := by
  have hlist : ∀ ts : List Ty, (∀ s ∈ ts, s.subst .var = s) →
      ts.map (·.subst .var) = ts :=
    fun ts hts => (List.map_congr_left hts).trans (List.map_id' ts)
  unfold normalForm
  induction t using induct with
  | nominal _ | capture _ | var _ => rfl
  | parameterized id args owner ihargs ihowner =>
      obtain ⟨howner, hargs⟩ := normal_hereditary.parameterized (n := 0).1 h
      have howner' : owner.map (·.subst .var) = owner :=
        (Option.map_congr fun o ho => ihowner o ho (howner o ho)).trans
          Option.map_id'
      rw [subst, substList_eq_map, substOwner_eq_map, howner',
        hlist args fun a ha => ihargs a ha (hargs a ha)]
  | wildcard upper lower ihupper ihlower =>
      obtain ⟨hupper, hlower⟩ := normal_hereditary.wildcard (n := 0).1 h
      rw [subst, substList_eq_map, substList_eq_map,
        hlist upper fun b hb => ihupper b hb (hupper b hb),
        hlist lower fun b hb => ihlower b hb (hlower b hb)]
  | genericArray t ih =>
      rw [subst, ih (normal_hereditary.component (n := 0) h),
        arrayOf_of_normal h]

theorem normal_normalForm (t : Ty) : t.normalForm.Normal := by
  intro x hx
  rcases mem_parts_subst hx with ⟨y, -, hvar, rfl⟩ | ⟨v, -, hx⟩
  · cases y with
    | var _ => cases hvar
    | genericArray s => exact isRespelled_arrayOf _
    | nominal _ | parameterized _ _ _ | wildcard _ _ | capture _ => rfl
  · rw [List.mem_singleton.1 hx]
    rfl

/-- A type is normal exactly if it is its own normal form. -/
theorem normalForm_eq_self_iff : t.normalForm = t ↔ t.Normal :=
  ⟨fun h => h ▸ normal_normalForm t, normalForm_of_normal⟩

end Ty

/-! ## What a comparison goes through -/

namespace Resolver

open Resolve Declarations

variable {r : Resolver} {P : Nat → Ty → Prop} {n : Nat} {sup sub found s t : Ty}
  {ctx ctx' : Context} {p : Plan} {q q' : Query}

/-- A question whose two types have the property, in a context where all types
have it. -/
structure Posed (r : Resolver) (P : Nat → Ty → Prop) (q : Query) : Prop where
  sup : P q.ctx.captures.size q.sup
  sub : P q.ctx.captures.size q.sub
  holds : r.Holds P q.ctx

/-- On the way to the answer of a request, the question comes up. -/
inductive ComesUp (r : Resolver) (ctx : Context) : Request → Query → Prop where
  | isSupertype {sup sub : Ty} {q : Query}
    (h : ReflTransGen r.Needs ⟨sup, sub, ctx⟩ q) :
      ComesUp r ctx (.isSupertype sup sub) q
  | contains {outer inner : Ty} {q q' : Query}
      (h : r.Reaches (.contains outer inner (.answer true)) ctx q)
      (hq : ReflTransGen r.Needs q q') : ComesUp r ctx
      (.contains outer inner) q'

/-- In the answer to a question the type argument `outer` faces `inner`, which
the right side, captured, supplies for the same class. -/
def Faces (r : Resolver) (q : Query) (outer inner : Ty) : Prop :=
  ∃ n captured ctx₁ id args owner id' args' owner' ctx₂,
    q.sup = .parameterized id args owner ∧
      r.capture q.sub q.ctx = (.ok captured, ctx₁) ∧
      r.exactSupertype n captured (.named id) ctx₁ =
        (.ok (some (.parameterized id' args' owner')), ctx₂) ∧
      (outer, inner) ∈ args.zip args'

section

variable (h : Hereditary P) (hdecl : r.env.toDeclarations.Throughout (P 0))

include h

/-- What is asked of two types with the property is asked of such types. -/
theorem compares_hereditary (hcompares : Plan.Compares sup found s t)
    (hsup : P n sup) (hfound : P n found) : P n s ∧ P n t := by
  cases hcompares with
  | component k k' => exact ⟨h.component hsup, h.component hfound⟩
  | upper hpair hu =>
      obtain ⟨hleft, hright⟩ := List.of_mem_zip hpair
      have houter := (h.parameterized.1 hsup).2 _ hleft
      exact ⟨(h.wildcard.1 houter).1 _ hu,
        (h.parameterized.1 hfound).2 _ hright⟩
  | lower hpair hl =>
      obtain ⟨hleft, hright⟩ := List.of_mem_zip hpair
      have houter := (h.parameterized.1 hsup).2 _ hleft
      exact ⟨(h.parameterized.1 hfound).2 _ hright,
        (h.wildcard.1 houter).2 _ hl⟩
  | owner o o' =>
      exact ⟨(h.parameterized.1 hsup).1 _ rfl,
        (h.parameterized.1 hfound).1 _ rfl⟩

include hdecl

theorem plan_yields (depth : Nat) (hsup : P n sup) (hsub : P n sub) :
    r.Yields P n (fun m p => ∀ s t, p.Mentions s t → P m s ∧ P m t)
      (r.plan depth sup sub) := by
  cases sup with
  | nominal _ | parameterized _ _ _ | genericArray _ =>
      refine (Yields.outcome fun _ _ =>
        Hereditary.erase_satisfies r.env.toDeclarations _).bind
          fun m superClass hle _ => ?_
      refine (Yields.outcome fun _ _ =>
        Hereditary.settledByErasure _ sub superClass).bind
          fun m' settled hle' _ => ?_
      cases settled with
      | some _ => exact .pure fun _ _ _ _ => nofun
      | none =>
          have hle := Nat.le_trans hle hle'
          refine (capture_yields h hdecl (h.mono hle hsub)).bind
            fun m₁ captured hle₁ hcaptured => ?_
          refine (exactSupertype_yields h hdecl superClass depth hcaptured).bind
            fun m₂ found hle₂ hfound => ?_
          cases found with
          | some view =>
              have hlater := Nat.le_trans hle (Nat.le_trans hle₁ hle₂)
              exact .pure fun _ hle₃ s t hmentions => compares_hereditary h
                (Plan.compares_of_view hmentions)
                (h.mono (Nat.le_trans hlater hle₃) hsup)
                (h.mono hle₃ (hfound view rfl))
          | none => exact .pure fun _ _ _ _ => nofun
  | capture i =>
      unfold plan
      dsimp only
      split
      · exact .pure fun _ _ _ _ => nofun
      · refine (captureDef_yields fun _ hle => h.mono hle hsup).bind
          fun m c hle hc => ?_
        refine .pure fun _ hle' s t hmentions => ?_
        obtain ⟨l, hl, heq⟩ := Plan.mentions_askAny hmentions
        obtain ⟨rfl, rfl⟩ := Prod.mk.inj heq
        exact ⟨h.mono hle' ((CaptureDef.forall_types.1 hc).2.2.2 s hl),
          h.mono (Nat.le_trans hle hle') hsub⟩
  | var v =>
      have hbounds : r.Yields P n (fun m (p : Plan) => ∀ s t, p.Mentions s t →
            P m s ∧ P m t)
          (r.directSupertypes sub >>= fun bounds =>
            pure (.askAny (fun bound => (.var v, bound)) bounds) :
              Resolve Plan) := by
        refine (directSupertypes_yields h hdecl hsub).bind
          fun m ts hle hts => ?_
        refine .pure fun _ hle' s t hmentions => ?_
        obtain ⟨b, hb, heq⟩ := Plan.mentions_askAny hmentions
        obtain ⟨rfl, rfl⟩ := Prod.mk.inj heq
        exact ⟨h.var _ v, h.mono hle' (hts t hb)⟩
      unfold plan
      dsimp only
      split
      · exact .pure fun _ _ _ _ => nofun
      · split
        · exact hbounds
        · exact hbounds
        · exact .pure fun _ _ _ _ => nofun
  | wildcard _ _ => exact .fail rfl

/-- A plan that asks of types with the property only is carried out in contexts
where all types have it. -/
theorem posed_of_reaches (hreach : r.Reaches p ctx q) (hctx : r.Holds P ctx)
    (hp : ∀ s t, p.Mentions s t → P ctx.captures.size s ∧
      P ctx.captures.size t) :
    r.Posed P q := by
  induction hreach with
  | here sup sub yes no ctx =>
      obtain ⟨hsup, hsub⟩ := hp sup sub (.inl ⟨rfl, rfl⟩)
      exact ⟨hsup, hsub, hctx⟩
  | @next n sup sub yes no b ctx ctx' q hrun _ ih =>
      obtain ⟨hsup, hsub⟩ := hp sup sub (.inl ⟨rfl, rfl⟩)
      obtain ⟨hlayered, hctx', -⟩ :=
        isSupertype_yields h hdecl n hsup hsub ctx (Nat.le_refl _) hctx
      rw [hrun] at hlayered hctx'
      have hle := hlayered.size_le
      refine ih hctx' fun s t hmentions => ?_
      have hboth : P ctx.captures.size s ∧ P ctx.captures.size t := by
        cases b with
        | true => exact hp s t (.inr (.inl hmentions))
        | false => exact hp s t (.inr (.inr hmentions))
      exact ⟨h.mono hle hboth.1, h.mono hle hboth.2⟩

/-- What a question needs to be answered is posed of types with the property, if
it is itself. -/
theorem Posed.needs (hq : r.Posed P q) (hneeds : r.Needs q q') :
    r.Posed P q' := by
  obtain ⟨n, p, ctx', hmade, hreach⟩ := hneeds
  obtain ⟨-, hctx', hp⟩ := plan_yields h hdecl n hq.sup hq.sub q.ctx
    (Nat.le_refl _) hq.holds
  rw [hmade] at hctx' hp
  exact posed_of_reaches h hdecl hreach hctx' hp

theorem Posed.walk (hq : r.Posed P q) (hwalk : ReflTransGen r.Needs q q') :
    r.Posed P q' := by
  induction hwalk with
  | refl => exact hq
  | tail _ hneeds ih => exact ih.needs h hdecl hneeds

/-- Every question that comes up on the way is. -/
theorem ComesUp.posed {req : Request} (hcomes : r.ComesUp ctx req q)
    (hctx : r.Holds P ctx) (hreq : ∀ t ∈ req.types, P ctx.captures.size t) :
    r.Posed P q := by
  cases hcomes with
  | isSupertype hwalk =>
      obtain ⟨hsup, hsub⟩ := forall_mem_pair hreq
      exact Posed.walk h hdecl ⟨hsup, hsub, hctx⟩ hwalk
  | @contains outer inner q _ hreach hwalk =>
      obtain ⟨houter, hinner⟩ := forall_mem_pair hreq
      refine Posed.walk h hdecl
        (posed_of_reaches h hdecl hreach hctx fun s t hmentions => ?_) hwalk
      rcases Plan.mentions_contains hmentions with
          ⟨upper, lower, rfl, hbound⟩ | hmentions
      · obtain ⟨hupper, hlower⟩ := h.wildcard.1 houter
        rcases hbound with ⟨hs, rfl⟩ | ⟨rfl, ht⟩
        · exact ⟨hupper s hs, hinner⟩
        · exact ⟨hinner, hlower t ht⟩
      · exact hmentions.elim

/-- Arguments that face each other have the property. -/
theorem Posed.faces (hq : r.Posed P q) {outer inner : Ty}
    (hfaces : r.Faces q outer inner) : ∃ m, P m outer ∧ P m inner := by
  obtain ⟨n, captured, ctx₁, id, args, owner, id', args', owner', ctx₂, hsup,
    hcapture, hfind, hpair⟩ := hfaces
  obtain ⟨hlayered₁, hctx₁, hcaptured⟩ :=
    capture_yields h hdecl hq.sub q.ctx (Nat.le_refl _) hq.holds
  rw [hcapture] at hlayered₁ hctx₁ hcaptured
  obtain ⟨hlayered₂, -, hfound⟩ :=
    exactSupertype_yields h hdecl (.named id) n hcaptured ctx₁
      (Nat.le_refl _) hctx₁
  rw [hfind] at hlayered₂ hfound
  have houter := h.mono (hlayered₁.trans hlayered₂).size_le hq.sup
  rw [hsup] at houter
  obtain ⟨hleft, hright⟩ := List.of_mem_zip hpair
  exact ⟨_, (h.parameterized.1 houter).2 outer hleft,
    (h.parameterized.1 (hfound _ rfl)).2 inner hright⟩

end

/-! ## Normal declarations and requests -/

theorem normalForm_eq_iff (hs : s.Normal) (ht : t.Normal) :
    s.normalForm = t.normalForm ↔ s = t := by
  rw [Ty.normalForm_of_normal hs, Ty.normalForm_of_normal ht]

/-- Declarations and requests that know one spelling of each array lead to no
other, along every history and whatever the outcomes: every type answered,
carried by a failure or stored in the arena is normal. So containment, which
compares types by structure, tells two types apart only if their normal forms
differ, in a request for it and between any two arguments that face each other
in a comparison, however deeply nested. -/
theorem answers_normal (h : r.env.toDeclarations.Throughout Ty.Normal)
    (hctx : r.ReachedWith (fun _ t => t.Normal) ctx) :
    (∀ c ∈ ctx.captures, ∀ t ∈ c.types, t.Normal) ∧
    (∀ depth q, (∀ t ∈ q.types, t.Normal) →
      (∀ a, (r.answer depth q ctx).1 = .ok a → ∀ t ∈ a.allTypes, t.Normal) ∧
      (∀ e, (r.answer depth q ctx).1 = .error e → ∀ t ∈ e.types, t.Normal) ∧
      ∀ c ∈ (r.answer depth q ctx).2.captures, ∀ t ∈ c.types, t.Normal) ∧
    (∀ depth outer inner, outer.Normal → inner.Normal →
      outer.isWildcard = false →
      r.contains depth outer inner ctx =
        (.ok (decide (outer.normalForm = inner.normalForm)), ctx)) ∧
    ∀ req q, (∀ t ∈ req.types, t.Normal) → r.ComesUp ctx req q → ∀ outer inner,
      r.Faces q outer inner →
      (outer.normalForm = inner.normalForm ↔ outer = inner) := by
  have hholds := hctx.holds Ty.normal_hereditary h
  refine ⟨hholds.stored, fun depth q hq => ?_,
    fun depth outer inner houter hinner hplain => ?_,
    fun req q hreq hcomes outer inner hfaces => ?_⟩
  · obtain ⟨hafter, houtcome⟩ :=
      answer_holds Ty.normal_hereditary h hholds depth hq
    refine ⟨fun a ha => ?_, fun e he => ?_, hafter.stored⟩
    · rw [ha] at houtcome
      exact houtcome
    · rw [he] at houtcome
      exact houtcome
  · rw [decide_eq_decide.2 (normalForm_eq_iff houter hinner)]
    cases outer with
    | wildcard _ _ => cases hplain
    | nominal _ | parameterized _ _ _ | var _ | genericArray _ | capture _ =>
        rfl
  · obtain ⟨_, houter, hinner⟩ :=
      (hcomes.posed Ty.normal_hereditary h hholds hreq).faces
        Ty.normal_hereditary h hfaces
    exact normalForm_eq_iff houter hinner

open TypeStore in
theorem core_normal : core.toDeclarations.Throughout Ty.Normal where
  classes := fun hc =>
    forall_class (P := fun _ c => ∀ t ∈ c.types, t.Normal) (by decide) hc
  bounds := fun {v p} hp b hb =>
    forall_bound (d := core.toDeclarations) (v := v) (P := Ty.Normal)
      (by decide) (boundsOf_eq hp ▸ hb)

open TypeStore in
/-- A member of type `T[]` seen through `Comparable<String>` is of type
`String[]`, spelled as an array of a plain class, and compares equal to that. -/
theorem answers_normal_comparable :
    (coreResolver.answer 5
      (.memberType Seed.comparable (.genericArray (Seed.tv 0))
        (Seed.applied Seed.comparable [.named Seed.string])) .empty).1 =
        .ok (.type (.nominal (.array (.named Seed.string)))) ∧
    (Ty.nominal (.array (.named Seed.string))).Normal ∧
    coreResolver.contains 1 (.nominal (.array (.named Seed.string)))
      (.nominal (.array (.named Seed.string))) .empty = (.ok true, .empty) := by
  have hstart : coreResolver.ReachedWith (fun _ t => t.Normal) .empty := .start
  obtain ⟨-, hanswers, hcontains, -⟩ := answers_normal core_normal hstart
  have hanswer : (coreResolver.answer 5
      (.memberType Seed.comparable (.genericArray (Seed.tv 0))
        (Seed.applied Seed.comparable [.named Seed.string])) .empty).1 =
        .ok (.type (.nominal (.array (.named Seed.string)))) := by decide
  have hnormal : (Ty.nominal (.array (.named Seed.string))).Normal :=
    (hanswers 5 _ (by decide)).1 _ hanswer _ List.mem_cons_self
  exact ⟨hanswer, hnormal, hcontains 1 _ _ hnormal hnormal rfl⟩

end Resolver

end GenericTypes
