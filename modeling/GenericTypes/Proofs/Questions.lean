import GenericTypes.Proofs.Plan

/-!
# The questions a comparison asks

One question needs another if the other is asked on the way to its answer, given
what was answered before; what is asked after a no is not needed. So the
recursion of a comparison is a walk along `Needs`. A comparison ends exactly if
no walk from it is infinite (`ends_iff_acc`), and it fails exactly if some walk
leads to a question whose left side is refused (`fails_iff_refused`).

For the second the work of one level must fail for no other reason. On regular
types it does not (`plan_cases`): what is captured has the right number of
arguments, the search ends, and a view that it finds has as many arguments as
the left side. What is asked next is regular again, in an arena that is built on
the one before (`Needs.follows`), so this is so all along a walk.
-/

namespace GenericTypes

open Relation

namespace Ty

/-- Why a type has no erasure, as far as the type itself shows it: it stands for
something that is not known. -/
def unerasable? : Ty → Option Error
  | .wildcard _ _ => some (.notErasable .wildcard)
  | .capture _ => some (.notErasable .capture)
  | .genericArray t => unerasable? t
  | .nominal _ | .parameterized _ _ _ | .var _ => none

/-- Why a type is refused as the left side of a comparison. -/
def refusal? : Ty → Option Error
  | .wildcard _ _ => some .unexpectedWildcard
  | .genericArray t => t.unerasable?
  | .nominal _ | .parameterized _ _ _ | .var _ | .capture _ => none

variable {t : Ty} {e : Error}

theorem eraseWith_unerasable {onVar : TypeVarId → Outcome Class} :
    ∀ {t : Ty}, t.unerasable? = some e → t.eraseWith onVar = .error e
  | .wildcard _ _, h | .capture _, h => by
      obtain rfl := Option.some.inj h
      rfl
  | .genericArray t, h => by
      rw [eraseWith, eraseWith_unerasable (t := t) h]
      rfl

theorem refusal_of_unerasable (h : t.unerasable? = none) :
    t.refusal? = none := by
  cases t with
  | genericArray _ => exact h
  | nominal _ | parameterized _ _ _ | var _ => rfl
  | wildcard _ _ | capture _ => cases h

theorem refusal_of_head (h : t.head?.isSome) : t.refusal? = none := by
  cases t with
  | nominal _ | parameterized _ _ _ => rfl
  | var _ | wildcard _ _ | genericArray _ | capture _ => cases h

theorem unerasable_kind :
    ∀ {t : Ty}, t.unerasable? = some e → ∃ kind, e = .notErasable kind
  | .wildcard _ _, h | .capture _, h => ⟨_, (Option.some.inj h).symm⟩
  | .genericArray t, h => unerasable_kind (t := t) h

theorem refusal_kind (h : t.refusal? = some e) :
    e = .unexpectedWildcard ∨ ∃ kind, e = .notErasable kind := by
  cases t with
  | wildcard _ _ => exact .inl (Option.some.inj h).symm
  | genericArray t => exact .inr (unerasable_kind h)
  | nominal _ | parameterized _ _ _ | var _ | capture _ => cases h

theorem isErasable_of_unerasable :
    ∀ {t : Ty}, t.unerasable? = none → t.isErasable = true
  | .genericArray t, h => isErasable_of_unerasable (t := t) h
  | .nominal _, _ | .parameterized _ _ _, _ | .var _, _ => rfl

end Ty

namespace Resolver

open Resolve Declarations

variable {r : Resolver} {sup sub s t : Ty} {e : Error} {n m : Nat}
  {ctx ctx' : Context}

/-! ## Walks -/

/-- A comparison, asked in a context. -/
structure Query where
  sup : Ty
  sub : Ty
  ctx : Context

/-- The question is asked when the plan is carried out in the context. -/
inductive Reaches (r : Resolver) : Plan → Context → Query → Prop where
  | here (sup sub : Ty) (yes no : Plan) (ctx : Context) :
      Reaches r (.ask sup sub yes no) ctx ⟨sup, sub, ctx⟩
  | next {n : Nat} {sup sub : Ty} {yes no : Plan} {b : Bool}
      {ctx ctx' : Context} {q : Query}
      (h : r.isSupertype n sup sub ctx = (.ok b, ctx'))
      (hq : Reaches r (if b = true then yes else no) ctx' q) :
      Reaches r (.ask sup sub yes no) ctx q

/-- On the way to the answer to `q` the question `q'` is asked. -/
def Needs (r : Resolver) (q q' : Query) : Prop :=
  ∃ n p ctx', r.plan n q.sup q.sub q.ctx = (.ok p, ctx') ∧ r.Reaches p ctx' q'

/-- At some depth the comparison comes to an end. -/
def Ends (r : Resolver) (q : Query) : Prop :=
  ∃ n, (r.isSupertype n q.sup q.sub q.ctx).1 ≠ .exhausted

/-- At some depth the comparison fails with the given cause. -/
def Fails (r : Resolver) (q : Query) (e : Error) : Prop :=
  ∃ n, (r.isSupertype n q.sup q.sub q.ctx).1 = .error e

variable {p : Plan} {q q' : Query}

theorem ask_ok {isSup : Ty → Ty → Resolve Bool} {yes no : Plan} {b : Bool}
    (h : isSup sup sub ctx = (.ok b, ctx')) :
    (Plan.ask sup sub yes no).run isSup ctx =
      (if b = true then yes else no).run isSup ctx' := by
  rw [Plan.run, bind_ok (by rw [h]), h]
  cases b <;> rfl

/-- A plan comes to an end where all that it asks does. -/
theorem run_ends (h : ∀ q, r.Reaches p ctx q → r.Ends q) :
    ∃ n, (p.run (r.isSupertype n) ctx).1 ≠ .exhausted := by
  induction p generalizing ctx with
  | answer b => exact ⟨0, nofun⟩
  | refuse e => exact ⟨0, nofun⟩
  | ask sup sub yes no ihyes ihno =>
      obtain ⟨n, hn⟩ := h _ (.here sup sub yes no ctx)
      match hx : r.isSupertype n sup sub ctx with
      | (.exhausted, _) => exact absurd (congrArg Prod.fst hx) hn
      | (.error e, _) =>
          refine ⟨n, ?_⟩
          rw [Plan.run, bind_error (congrArg Prod.fst hx)]
          rintro ⟨⟩
      | (.ok b, ctx') =>
          have hrest : ∃ m, ((if b = true then yes else no).run
                (r.isSupertype m) ctx').1 ≠
              .exhausted := by
            have hnext := fun q hq => h q (.next hx hq)
            cases b with
            | true => exact ihyes hnext
            | false => exact ihno hnext
          obtain ⟨m, hm⟩ := hrest
          -- both come to an end at the greater of the two depths
          have hfirst := isSupertype_mono sup sub (Nat.le_max_left n m) ctx hn
          have hsecond := run_mono (Nat.le_max_right n m) _ ctx' hm
          refine ⟨max n m, ?_⟩
          rw [ask_ok (hfirst.trans hx), hsecond]
          exact hm

/-- A plan that comes to an end leaves no question open that it asks. -/
theorem ends_of_run (hq : r.Reaches p ctx q)
    (h : (p.run (r.isSupertype n) ctx).1 ≠ .exhausted) :
    (r.isSupertype n q.sup q.sub q.ctx).1 ≠ .exhausted := by
  induction hq with
  | here sup sub yes no ctx => exact ends_of_bind h
  | @next m sup sub yes no b ctx ctx' q hx _ ih =>
      have hfirst : (r.isSupertype n sup sub ctx).1 ≠ .exhausted :=
        ends_of_bind h
      have hsame := isSupertype_unique (m := m) hfirst (by rw [hx]; exact nofun)
      rw [ask_ok (hsame.trans hx)] at h
      exact ih h

/-- A plan with no failure of its own fails where a question on its way does. -/
theorem reaches_of_fails (hp : p.Unrefused)
    (h : (p.run (r.isSupertype n) ctx).1 = .error e) :
    ∃ q, r.Reaches p ctx q ∧
      (r.isSupertype n q.sup q.sub q.ctx).1 = .error e := by
  induction p generalizing ctx with
  | answer b => cases h
  | refuse e' => exact hp.elim
  | ask sup sub yes no ihyes ihno =>
      match hx : r.isSupertype n sup sub ctx with
      | (.exhausted, _) =>
          rw [Plan.run, bind_exhausted (congrArg Prod.fst hx)] at h
          cases h
      | (.error e', _) =>
          rw [Plan.run, bind_error (congrArg Prod.fst hx)] at h
          exact ⟨_, .here sup sub yes no ctx, (congrArg Prod.fst hx).trans h⟩
      | (.ok b, ctx') =>
          rw [ask_ok hx] at h
          have hrest : ∃ q, r.Reaches (if b = true then yes else no) ctx' q ∧
              (r.isSupertype n q.sup q.sub q.ctx).1 = .error e := by
            cases b with
            | true => exact ihyes hp.1 h
            | false => exact ihno hp.2 h
          obtain ⟨q, hq, hfails⟩ := hrest
          exact ⟨q, .next hx hq, hfails⟩

theorem fails_of_reaches (hq : r.Reaches p ctx q) (h : r.Fails q e) :
    ∃ n, (p.run (r.isSupertype n) ctx).1 = .error e := by
  induction hq with
  | here sup sub yes no ctx =>
      obtain ⟨n, hn⟩ := h
      exact ⟨n, bind_error hn⟩
  | @next n sup sub yes no b ctx ctx' q hx _ ih =>
      obtain ⟨m, hm⟩ := ih h
      have hfirst := isSupertype_mono sup sub (Nat.le_max_left n m) ctx
        (by rw [hx]; exact nofun)
      have hsecond :=
        run_mono (Nat.le_max_right n m) _ ctx' (by rw [hm]; exact nofun)
      exact ⟨max n m, by rw [ask_ok (hfirst.trans hx), hsecond, hm]⟩

theorem ends_of_needs
    (h : (r.isSupertype (n + 1) q.sup q.sub q.ctx).1 ≠ .exhausted)
    (hneeds : r.Needs q q') :
    (r.isSupertype n q'.sup q'.sub q'.ctx).1 ≠ .exhausted := by
  obtain ⟨m, p, ctx', hmade, hq⟩ := hneeds
  rw [isSupertype_eq_plan] at h
  have hplan := plan_unique hmade (ends_of_bind h)
  rw [bind_ok (by rw [hplan]), hplan] at h
  exact ends_of_run hq h

/-- No walk from a comparison that comes to an end is infinite. -/
theorem acc_of_ends (h : r.Ends q) : Acc (fun q' q => r.Needs q q') q := by
  obtain ⟨n, hn⟩ := h
  induction n generalizing q with
  | zero => exact absurd rfl hn
  | succ n ih => exact .intro q fun q' hneeds => ih (ends_of_needs hn hneeds)

/-! ## Questions on regular types -/

/-- What a comparison may ask, going by the types and the arena alone, and the
arena by then. A capture asks its lower bounds, a variable what the right side
is directly below, and any other type compares a view of the captured right
side. -/
inductive Follows (r : Resolver) (arena : Array CaptureDef) :
    Ty → Ty → Array CaptureDef → Ty → Ty → Prop where
  | lower {i : CaptureId} {c : CaptureDef} {l : Ty} (sub : Ty)
      (hc : arena[i.index]? = some c) (hl : l ∈ c.lower) : Follows r arena
      (.capture i) sub arena l sub
  | bound {sub s : Ty} (v : TypeVarId) (hs : r.Directly arena sub s) :
      Follows r arena (.var v) sub arena (.var v) s
  | view {sup sub g s t : Ty} {later : Array CaptureDef}
      (hlater : later.toList = arena.toList ++ (r.captured arena.size sub).2)
      (hup : ReflTransGen (r.Directly later) (r.captured arena.size sub).1 g)
      (hq : Plan.Compares sup g s t) : Follows r arena sup sub later s t

/-- A question on regular types, in a sound arena. -/
structure Valid (r : Resolver) (q : Query) : Prop where
  sound : r.Sound q.ctx.captures
  sup : r.env.Regular q.ctx.captures.size q.sup
  sub : r.env.Regular q.ctx.captures.size q.sub

variable {arena later : Array CaptureDef}

theorem regular_of_compares {d : Declarations} {found : Ty}
    (h : Plan.Compares sup found s t) (hsup : d.Regular n sup)
    (hfound : d.Regular n found) : d.Regular n s ∧ d.Regular n t := by
  cases h with
  | component k k' => exact ⟨hsup.component, hfound.component⟩
  | owner o o' => exact ⟨hsup.owner, hfound.owner⟩
  | upper hpair hu =>
      obtain ⟨hleft, hright⟩ := List.of_mem_zip hpair
      exact ⟨((hsup.arg hleft).1.bound (List.mem_append_left _ hu)).1,
        (hfound.arg hright).1⟩
  | lower hpair hl =>
      obtain ⟨hleft, hright⟩ := List.of_mem_zip hpair
      exact ⟨(hfound.arg hright).1,
        ((hsup.arg hleft).1.bound (List.mem_append_right _ hl)).1⟩

theorem Sound.above_all (harena : r.Sound arena) (h : r.env.Founded)
    (ht : r.env.Regular arena.size t)
    (hs : ReflTransGen (r.Directly arena) t s) :
    r.env.Regular arena.size s := by
  induction hs with
  | refl => exact ht
  | tail _ hs ih => exact harena.directly h ih hs

section

variable (h : r.env.Founded)

include h

theorem Follows.sound (harena : r.Sound arena)
    (hsub : r.env.Regular arena.size sub)
    (hf : r.Follows arena sup sub later s t) :
    r.Sound later ∧ r.Builds arena later := by
  cases hf with
  | lower _ _ _ | bound _ _ => exact ⟨harena, .refl⟩
  | view hlater _ _ =>
      exact ⟨(captured_sound h harena hsub hlater).1,
        .capture .refl hsub hlater⟩

theorem Follows.regular (harena : r.Sound arena)
    (hsup : r.env.Regular arena.size sup) (hsub : r.env.Regular arena.size sub)
    (hf : r.Follows arena sup sub later s t) :
    r.env.Regular later.size s ∧ r.env.Regular later.size t := by
  cases hf with
  | lower _ hc hl => exact ⟨harena.lower _ _ hc s hl, hsub⟩
  | bound _ hs => exact ⟨hsup, harena.directly h hsub hs⟩
  | view hlater hup hq =>
      obtain ⟨hsound, hcaptured⟩ := captured_sound h harena hsub hlater
      have hle := (grows_of_append hlater).size_le
      exact regular_of_compares hq (hsup.mono hle)
        (hsound.above_all h hcaptured hup)

theorem find_regular (harena : r.Sound arena) (ht : r.env.Regular arena.size t)
    (target : Class) : ∃ n found, r.find arena n t target = .ok found := by
  cases hprim : t.isPrimitive with
  | false => exact find_ok (harena.climbs h ht hprim) target
  | true =>
      match t with
      | .nominal (.primitive p) =>
          have hsettled :
              r.settledBy (.nominal (.primitive p)) target = .ok _ :=
            settledBy_eq rfl target
          cases hsettle : r.settle (.nominal (.primitive p)) target
              (some (.primitive p)) with
          | some found => exact ⟨1, found, by rw [find, hsettled, hsettle]; rfl⟩
          | none => exact ⟨1, none, by rw [find, hsettled, hsettle]; rfl⟩

theorem settledByErasure_ok (harena : r.Sound arena)
    (hsub : r.env.Regular arena.size sub) (sup : Ty) (c : Class) :
    ∃ settled, r.settledByErasure sup sub c = .ok settled := by
  obtain ⟨o, ho⟩ := harena.erasure? h hsub
  cases o with
  | none => exact ⟨none, settledByErasure_unknown c ho⟩
  | some a =>
      cases hassign : r.env.assignable c a with
      | false => exact ⟨some false, settledByErasure_refused ho hassign⟩
      | true =>
          cases sup with
          | nominal _ => exact ⟨some true, settledByErasure_nominal ho hassign⟩
          | parameterized _ _ _ | var _ | wildcard _ _ | genericArray _
          | capture _ =>
              exact ⟨none, settledByErasure_applied nofun ho hassign⟩

omit h in
theorem unrefused_of_find {c : Class} {g : Ty} (hsup : r.env.Regular n sup)
    (hg : r.env.Regular m g) (herase : r.env.erase sup = .ok c)
    (hview : r.env.erasure? g = .ok (some c)) :
    (Plan.view sup g).Unrefused := by
  refine Plan.unrefused_view ?_
  rintro id args owner id' args' owner' rfl rfl
  obtain rfl := Outcome.ok.inj herase
  have hid : id' = id :=
    Class.named.inj (Outcome.ok.inj (erase_of_erasure? hview))
  obtain ⟨⟨c, hc, hlen⟩, -, -⟩ := hsup.complete.fits
  obtain ⟨⟨c', hc', hlen'⟩, -, -⟩ := hg.complete.fits
  rw [hid, hc] at hc'
  obtain rfl := Option.some.inj hc'
  exact hlen.symm.trans hlen'

end

/-- What the work of a comparison comes to: a plan without failures, all of
whose questions follow. -/
structure Planned (r : Resolver) (sup sub : Ty) (ctx : Context) (p : Plan)
    (ctx' : Context) : Prop where
  made : ∃ n, r.plan n sup sub ctx = (.ok p, ctx')
  unrefused : p.Unrefused
  sound : r.Sound ctx'.captures
  builds : r.Builds ctx.captures ctx'.captures
  follows : ∀ s t, p.Mentions s t →
    r.Follows ctx.captures sup sub ctx'.captures s t

section

variable (h : r.env.Founded) (hplain : r.config.memoizeSupertypes = false)
  (harena : r.Sound ctx.captures)

include harena

theorem planned_answer {b : Bool}
    (hrun : ∀ n, r.plan n sup sub ctx = (.ok (.answer b), ctx)) :
    r.Planned sup sub ctx (.answer b) ctx :=
  ⟨⟨0, hrun 0⟩, trivial, harena, .refl, fun _ _ hmention => hmention.elim⟩

theorem planned_capture {i : CaptureId}
    (hsup : r.env.Regular ctx.captures.size (.capture i)) (sub : Ty) :
    ∃ p ctx', r.Planned (.capture i) sub ctx p ctx' := by
  by_cases hself : Ty.capture i = sub
  · refine ⟨.answer true, ctx, planned_answer harena fun n => ?_⟩
    rw [plan, if_pos hself]
    rfl
  · have hi : i.index < ctx.captures.size := hsup.complete.fits
    have hc := Array.getElem?_eq_getElem hi
    refine ⟨.askAny (fun bound => (bound, sub)) ctx.captures[i.index].lower,
      ctx, ⟨0, ?_⟩,
      Plan.unrefused_askAny _, harena, .refl, fun s t hmention => ?_⟩
    · rw [plan, if_neg hself, bind_ok (by rw [captureDef_eq hc]),
        captureDef_eq hc]
      rfl
    · obtain ⟨l, hl, heq⟩ := Plan.mentions_askAny hmention
      obtain ⟨rfl, rfl⟩ := Prod.mk.inj heq
      exact .lower t hc hl

include h hplain

theorem planned_var (v : TypeVarId)
    (hsub : r.env.Regular ctx.captures.size sub) :
    ∃ p ctx', r.Planned (.var v) sub ctx p ctx' := by
  by_cases hself : Ty.var v = sub
  · subst hself
    refine ⟨.answer true, ctx, planned_answer harena fun n => ?_⟩
    have hrun : r.plan n (.var v) (.var v) = pure (.answer true) := if_pos rfl
    rw [hrun]
    rfl
  have hbounds : sub.isPrimitive = false → r.plan 0 (.var v) sub =
      (r.directSupertypes sub >>= fun bounds =>
        pure (Plan.askAny (fun bound => (.var v, bound)) bounds)) →
      ∃ p ctx', r.Planned (.var v) sub ctx p ctx' := by
    intro hprim hrun
    obtain ⟨houtcome, hcaptures⟩ := directSupertypes_reads hplain sub ctx
    cases harena.climbs h hsub hprim with
    | @intro _ ts habove _ _ _ =>
        refine ⟨.askAny (fun bound => (.var v, bound)) ts,
          (r.directSupertypes sub ctx).2,
          ⟨0, ?_⟩, Plan.unrefused_askAny _, hcaptures ▸ harena,
          hcaptures ▸ .refl,
          fun s t hmention => ?_⟩
        · rw [hrun, bind_ok (houtcome.trans habove)]
          rfl
        · obtain ⟨b, hb, heq⟩ := Plan.mentions_askAny hmention
          obtain ⟨rfl, rfl⟩ := Prod.mk.inj heq
          rw [hcaptures]
          exact .bound v ⟨ts, habove, hb⟩
  cases sub with
  | var _ | capture _ => exact hbounds rfl (by rw [plan, if_neg hself])
  | nominal _ | parameterized _ _ _ | wildcard _ _ | genericArray _ =>
      exact ⟨.answer false, ctx, planned_answer harena fun n => rfl⟩

theorem planned_known (hsup : r.env.Regular ctx.captures.size sup)
    (hsub : r.env.Regular ctx.captures.size sub) (hkind : sup.isUnknown = false)
    (hready : sup.isErasable = true) :
    ∃ p ctx', r.Planned sup sub ctx p ctx' := by
  obtain ⟨c, hc⟩ := h.wellFormed.erase_ok hsup.complete hready
  obtain ⟨settled, hsettled⟩ := settledByErasure_ok h harena hsub sup c
  cases settled with
  | some b =>
      refine ⟨.answer b, ctx, planned_answer harena fun n => ?_⟩
      rw [plan_eq hkind, hc]
      show (ofOutcome (r.settledByErasure sup sub c) >>= fun settled => _ :
        Resolve Plan) ctx = _
      rw [hsettled]
      rfl
  | none =>
      obtain ⟨ctx₁, hcapture, hlater, hsound, hcaptured⟩ :=
        capture_ok h harena hsub
      obtain ⟨n, found, hfind⟩ := find_regular h hsound hcaptured c
      obtain ⟨houtcome, hcaptures⟩ :=
        exactSupertype_reads hplain c n
          (r.captured ctx.captures.size sub).1 ctx₁
      have hbuilds : r.Builds ctx.captures ctx₁.captures :=
        .capture .refl hsub hlater
      have hrun : r.plan n sup sub ctx =
          (.ok (found.elim (.answer false) (Plan.view sup)),
            (r.exactSupertype n (r.captured ctx.captures.size sub).1 c
              ctx₁).2) := by
        rw [plan_eq hkind, hc]
        show (ofOutcome (r.settledByErasure sup sub c) >>= fun settled => _ :
          Resolve Plan) ctx = _
        rw [hsettled]
        show (r.capture sub >>= fun captured => _ : Resolve Plan) ctx = _
        rw [bind_ok (by rw [hcapture]), hcapture,
          bind_ok (houtcome.trans hfind)]
        cases found <;> rfl
      cases found with
      | none =>
          exact ⟨.answer false, _, ⟨n, hrun⟩, trivial, hcaptures ▸ hsound,
            hcaptures ▸ hbuilds, fun _ _ hmention => hmention.elim⟩
      | some g =>
          obtain ⟨hup, hview⟩ := find_ancestor hfind
          have hg := hsound.above_all h hcaptured hup
          refine ⟨.view sup g, _, ⟨n, hrun⟩, unrefused_of_find hsup hg hc hview,
            hcaptures ▸ hsound, hcaptures ▸ hbuilds, fun s t hmention => ?_⟩
          rw [hcaptures]
          exact .view hlater hup (Plan.compares_of_view hmention)

/-- The work comes to a plan, unless the left side is refused. -/
theorem plan_cases (hsup : r.env.Regular ctx.captures.size sup)
    (hsub : r.env.Regular ctx.captures.size sub) :
    (∃ e, sup.refusal? = some e ∧ ∀ n, (r.plan n sup sub ctx).1 = .error e) ∨
      sup.refusal? = none ∧ ∃ p ctx', r.Planned sup sub ctx p ctx' := by
  cases sup with
  | nominal _ | parameterized _ _ _ =>
      exact .inr ⟨rfl, planned_known h hplain harena hsup hsub rfl rfl⟩
  | capture i => exact .inr ⟨rfl, planned_capture harena hsup sub⟩
  | var v => exact .inr ⟨rfl, planned_var h hplain harena v hsub⟩
  | wildcard _ _ => exact .inl ⟨_, rfl, fun _ => rfl⟩
  | genericArray k =>
      cases hrefusal : (Ty.genericArray k).refusal? with
      | none =>
          have hready :=
            Ty.isErasable_of_unerasable (t := .genericArray k) hrefusal
          exact .inr ⟨rfl, planned_known h hplain harena hsup hsub rfl hready⟩
      | some e =>
          refine .inl ⟨e, rfl, fun n => ?_⟩
          have herase : r.env.erase (.genericArray k) = .error e :=
            Ty.eraseWith_unerasable (t := .genericArray k) hrefusal
          rw [plan_eq rfl, herase]
          rfl

theorem planned_of_made (hsup : r.env.Regular ctx.captures.size sup)
    (hsub : r.env.Regular ctx.captures.size sub)
    (hmade : r.plan n sup sub ctx = (.ok p, ctx')) :
    sup.refusal? = none ∧ r.Planned sup sub ctx p ctx' := by
  rcases plan_cases h hplain harena hsup hsub with
      ⟨e, -, hrefused⟩ | ⟨hrefusal, p', ctx₂, hplanned⟩
  · have herror := hrefused n
    rw [hmade] at herror
    cases herror
  · obtain ⟨m, hm⟩ := hplanned.made
    have hsame := plan_unique hm (n := n) (by rw [hmade]; exact nofun)
    rw [hmade] at hsame
    obtain ⟨hp, rfl⟩ := Prod.mk.inj hsame
    obtain rfl := Outcome.ok.inj hp
    exact ⟨hrefusal, hplanned⟩

omit harena in
/-- The questions that are asked are among those of the plan, and each finds an
arena that is built by those before it. -/
theorem of_reaches (hreach : r.Reaches p ctx q) (harena : r.Sound ctx.captures)
    (hp : ∀ s t, p.Mentions s t →
      r.env.Regular ctx.captures.size s ∧ r.env.Regular ctx.captures.size t) :
    p.Mentions q.sup q.sub ∧ r.Sound q.ctx.captures ∧
      r.Builds ctx.captures q.ctx.captures := by
  induction hreach with
  | here sup sub yes no ctx => exact ⟨.inl ⟨rfl, rfl⟩, harena, .refl⟩
  | @next n sup sub yes no b ctx ctx' q hx _ ih =>
      obtain ⟨hsup, hsub⟩ := hp sup sub (.inl ⟨rfl, rfl⟩)
      obtain ⟨hsound, hbuilds, -⟩ :=
        Upkeep.isSupertype_keeps (soundness_allows h) hplain n
          ctx.captures.size sup sub hsup hsub ctx (Nat.le_refl _) harena
      rw [hx] at hsound hbuilds
      have hbranch : ∀ s t, (if b = true then yes else no).Mentions s t →
          (Plan.ask sup sub yes no).Mentions s t := by
        intro s t hmention
        cases b with
        | true => exact .inr (.inl hmention)
        | false => exact .inr (.inr hmention)
      obtain ⟨hmention, hsound', hbuilds'⟩ := ih hsound fun s t hmention => by
        obtain ⟨hs, ht⟩ := hp s t (hbranch s t hmention)
        exact ⟨hs.mono hbuilds.grows.size_le, ht.mono hbuilds.grows.size_le⟩
      exact ⟨hbranch _ _ hmention, hsound', hbuilds.trans hbuilds'⟩

end

section

variable (h : r.env.Founded) (hplain : r.config.memoizeSupertypes = false)

include h hplain

/-- What a question on regular types needs follows from it, and is a question on
regular types again. -/
theorem Needs.follows (hq : r.Valid q) (hneeds : r.Needs q q') : r.Valid q' ∧
    ∃ later, r.Follows q.ctx.captures q.sup q.sub later q'.sup q'.sub ∧
      r.Builds later q'.ctx.captures := by
  obtain ⟨n, p, ctx', hmade, hreach⟩ := hneeds
  obtain ⟨-, hplanned⟩ := planned_of_made h hplain hq.sound hq.sup hq.sub hmade
  have hregular : ∀ s t, p.Mentions s t →
      r.env.Regular ctx'.captures.size s ∧ r.env.Regular ctx'.captures.size t :=
    fun s t hmention =>
      (hplanned.follows s t hmention).regular h hq.sound hq.sup hq.sub
  obtain ⟨hmention, hsound, hbuilds⟩ :=
    of_reaches h hplain hreach hplanned.sound hregular
  obtain ⟨hsup, hsub⟩ := hregular _ _ hmention
  have hle := hbuilds.grows.size_le
  exact ⟨⟨hsound, hsup.mono hle, hsub.mono hle⟩, ctx'.captures,
    hplanned.follows _ _ hmention,
    hbuilds⟩

theorem fails_of_refused (hq : r.Valid q) (hrefusal : q.sup.refusal? = some e) :
    r.Fails q e := by
  rcases plan_cases h hplain hq.sound hq.sup hq.sub with
      ⟨e', hrefusal', hrefused⟩ | ⟨hnone, -⟩
  · rw [hrefusal] at hrefusal'
    obtain rfl := Option.some.inj hrefusal'
    refine ⟨1, ?_⟩
    rw [isSupertype_eq_plan]
    exact bind_error (hrefused 0)
  · rw [hrefusal] at hnone
    cases hnone

/-- A question on regular types comes to an end exactly if no walk from it is
infinite. -/
theorem ends_iff_acc (hq : r.Valid q) :
    r.Ends q ↔ Acc (fun q' q => r.Needs q q') q := by
  refine ⟨acc_of_ends, fun hacc => ?_⟩
  induction hacc with
  | intro q _ ih =>
      rcases plan_cases h hplain hq.sound hq.sup hq.sub with
        ⟨e, hrefusal, -⟩ | ⟨-, p, ctx', hplanned⟩
      · obtain ⟨n, hn⟩ := fails_of_refused h hplain hq hrefusal
        exact ⟨n, by rw [hn]; exact nofun⟩
      · obtain ⟨n, hn⟩ := hplanned.made
        have hends : ∀ q', r.Reaches p ctx' q' → r.Ends q' := fun q' hreach =>
          have hneeds : r.Needs q q' := ⟨n, p, ctx', hn, hreach⟩
          ih q' hneeds (hneeds.follows h hplain hq).1
        obtain ⟨m, hm⟩ := run_ends hends
        obtain ⟨depth, hdepth⟩ := isSupertype_of_made hn hm
        exact ⟨depth, hdepth ▸ hm⟩

/-- A question on regular types fails exactly if a walk from it leads to one
whose left side is refused. -/
theorem fails_iff_refused (hq : r.Valid q) (e : Error) :
    r.Fails q e ↔ ∃ q', ReflTransGen r.Needs q q' ∧
      q'.sup.refusal? = some e := by
  constructor
  · rintro ⟨n, hn⟩
    -- down the depth: a failure is a refusal, or comes from a question one
    -- level down
    induction n generalizing q with
    | zero => cases hn
    | succ n ih =>
        rw [isSupertype_eq_plan] at hn
        match hx : r.plan n q.sup q.sub q.ctx with
        | (.exhausted, _) =>
            rw [bind_exhausted (congrArg Prod.fst hx)] at hn; cases hn
        | (.error e', _) =>
            rw [bind_error (congrArg Prod.fst hx)] at hn
            obtain rfl := Outcome.error.inj hn
            rcases plan_cases h hplain hq.sound hq.sup hq.sub with
              ⟨e, hrefusal, hrefused⟩ | ⟨-, p, ctx', hplanned⟩
            · have heq := (congrArg Prod.fst hx).symm.trans (hrefused n)
              obtain rfl := Outcome.error.inj heq
              exact ⟨q, .refl, hrefusal⟩
            · obtain ⟨m, hm⟩ := hplanned.made
              have hsame := plan_unique hm (n := n) (by rw [hx]; exact nofun)
              rw [hx] at hsame
              cases hsame
        | (.ok p, ctx') =>
            rw [bind_ok (by rw [hx]), hx] at hn
            obtain ⟨-, hplanned⟩ :=
              planned_of_made h hplain hq.sound hq.sup hq.sub hx
            obtain ⟨q₁, hreach, hfails⟩ :=
              reaches_of_fails hplanned.unrefused hn
            have hneeds : r.Needs q q₁ := ⟨n, p, ctx', hx, hreach⟩
            obtain ⟨q₂, hwalk, hrefusal⟩ :=
              ih (hneeds.follows h hplain hq).1 hfails
            exact ⟨q₂, .head hneeds hwalk, hrefusal⟩
  · rintro ⟨q', hwalk, hrefusal⟩
    -- and back along the walk: the plan fails where the question on its way
    -- does
    induction hwalk using ReflTransGen.head_induction_on with
    | refl => exact fails_of_refused h hplain hq hrefusal
    | @head q q₁ hneeds hwalk ih =>
        obtain ⟨m, hm⟩ := ih (hneeds.follows h hplain hq).1
        obtain ⟨n, p, ctx', hmade, hreach⟩ := hneeds
        obtain ⟨m, hm⟩ := fails_of_reaches hreach ⟨m, hm⟩
        obtain ⟨depth, hdepth⟩ :=
          isSupertype_of_made hmade (m := m) (by rw [hm]; exact nofun)
        exact ⟨depth, by rw [hdepth, hm]⟩

end

end Resolver

end GenericTypes
