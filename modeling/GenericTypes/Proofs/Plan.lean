import GenericTypes.Proofs.Comparison

/-!
# One level of a comparison

A comparison does a bounded amount of work of its own: it erases, captures and
searches, and then either it has its answer or it depends on other comparisons,
which are asked one after the other. A `Plan` is what is left to do after that
work, with the answers still open. It is what anything said of the recursion can
be proved on by induction, as the definition itself recurs through lists of
bounds and of arguments at once.

`isSupertype_eq_plan` cuts one level of the recursion into making a plan and
carrying it out. What a plan may ask is read off the two types that it compares
(`Plan.Compares`).
-/

namespace GenericTypes

/-- What is left to do of a comparison: it has its answer, it fails, or the
answer to another comparison says how to go on. -/
inductive Plan where
  | answer (b : Bool)
  | refuse (e : Error)
  | ask (sup sub : Ty) (yes no : Plan)

namespace Plan

/-- Carry a plan out. -/
def run (isSup : Ty → Ty → Resolve Bool) : Plan → Resolve Bool
  | .answer b => pure b
  | .refuse e => Resolve.fail e
  | .ask sup sub yes no =>
      isSup sup sub >>= fun b =>
        if b = true then yes.run isSup else no.run isSup

/-- Go through the questions on several types up to the first yes. -/
def askAny (question : Ty → Ty × Ty) : List Ty → Plan
  | [] => .answer false
  | t :: ts =>
      .ask (question t).1 (question t).2 (.answer true) (askAny question ts)

/-- Go through the questions on several types up to the first no, and then
on. -/
def askAll (question : Ty → Ty × Ty) : List Ty → Plan → Plan
  | [], next => next
  | t :: ts, next =>
      .ask (question t).1 (question t).2 (askAll question ts next)
        (.answer false)

/-- Find out whether `outer` contains `inner`, and go on if it does. -/
def contains (outer inner : Ty) (next : Plan) : Plan :=
  match outer with
  | .wildcard upper lower =>
      askAll (fun bound => (bound, inner)) upper
        (askAll (fun bound => (inner, bound)) lower next)
  | .nominal _ | .parameterized _ _ _ | .var _ | .genericArray _ | .capture _ =>
      if outer = inner then next else .answer false

/-- Find out whether each type contains its counterpart, and go on if so. -/
def containsEach : List (Ty × Ty) → Plan → Plan
  | [], next => next
  | (outer, inner) :: pairs, next =>
      contains outer inner (containsEach pairs next)

/-- Compare the owners, where both are there. -/
def owners : Option Ty → Option Ty → Plan
  | some o, some o' => .ask o o' (.answer true) (.answer false)
  | some _, none | none, _ => .answer true

/-- Compare the arguments and then the owners. -/
def arguments (id : ClassId) (args : List Ty) (owner : Option Ty)
    (args' : List Ty) (owner' : Option Ty) : Plan :=
  if args.length = args'.length then
    containsEach (args.zip args') (owners owner owner')
  else .refuse (.arityMismatch (some id) args.length args'.length)

/-- Compare the view that was found of the right side. -/
def view (sup found : Ty) : Plan :=
  match sup, found with
  | .nominal _, _ => .answer true
  | _, .nominal _ => .answer true
  | _, .genericArray component' =>
      match sup.component? with
      | some component =>
          .ask component component' (.answer true) (.answer false)
      | none => .answer false
  | .parameterized id args owner, .parameterized _ args' owner' =>
      arguments id args owner args' owner'
  | _, _ => .answer false

variable {isSup isSup' : Ty → Ty → Resolve Bool} {question : Ty → Ty × Ty}

theorem ask_run (sup sub : Ty) :
    (ask sup sub (.answer true) (.answer false)).run isSup = isSup sup sub := by
  have hid : (fun b : Bool => if b = true then pure true else pure false) =
      (pure : Bool → Resolve Bool) := by
    funext b
    cases b <;> rfl
  show (isSup sup sub >>= fun b => if b = true then pure true else
    pure false) = _
  rw [hid, bind_pure]

theorem askAny_run (question : Ty → Ty × Ty) :
    ∀ ts : List Ty, (askAny question ts).run isSup =
    Resolver.anyHolds (fun t => isSup (question t).1 (question t).2) ts
  | [] => rfl
  | t :: ts => by
      rw [askAny, run, askAny_run question ts]
      rfl

theorem askAll_run (next : Plan) :
    ∀ ts : List Ty, (askAll question ts next).run isSup =
    Resolver.allHold (fun t => isSup (question t).1 (question t).2) ts >>=
      fun b =>
        if b = true then next.run isSup else pure false
  | [] => rfl
  | t :: ts => by
      rw [askAll, run, askAll_run next ts, Resolver.allHold, bind_assoc]
      congr 1
      funext b
      cases b <;> rfl

theorem contains_run (outer inner : Ty) (next : Plan) :
    (contains outer inner next).run isSup =
    Resolver.containsBy isSup outer inner >>= fun b =>
      if b = true then next.run isSup else pure false := by
  have hplain : (if outer = inner then next else .answer false :
        Plan).run isSup =
      (pure (decide (outer = inner)) : Resolve Bool) >>= fun b =>
        if b = true then next.run isSup else pure false := by
    rw [pure_bind]
    by_cases h : outer = inner
    · rw [if_pos h, if_pos (decide_eq_true h)]
    · rw [if_neg h, if_neg fun hdec => h (of_decide_eq_true hdec)]
      rfl
  cases outer with
  | wildcard upper lower =>
      rw [contains, askAll_run, Resolver.containsBy, bind_assoc]
      congr 1
      funext b
      cases b with
      | true => exact askAll_run next lower
      | false => rfl
  | nominal _ | parameterized _ _ _ | var _ | genericArray _ | capture _ =>
      exact hplain

theorem containsEach_run (next : Plan) : ∀ pairs : List (Ty × Ty),
    (containsEach pairs next).run isSup =
      Resolver.allHold (fun pair => Resolver.containsBy isSup pair.1 pair.2)
        pairs >>= fun b =>
        if b = true then next.run isSup else pure false
  | [] => rfl
  | (outer, inner) :: pairs => by
      rw [containsEach, contains_run, containsEach_run next pairs,
        Resolver.allHold, bind_assoc]
      congr 1
      funext b
      cases b <;> rfl

theorem arguments_run (id : ClassId) (args : List Ty) (owner : Option Ty)
    (args' : List Ty) (owner' : Option Ty) :
    (arguments id args owner args' owner').run isSup =
      Resolver.argumentsMatch isSup id args owner args' owner' := by
  have howners : (owners owner owner').run isSup =
      Resolver.ownersMatch isSup owner owner' := by
    match owner, owner' with
    | some o, some o' => exact ask_run o o'
    | some _, none | none, _ => rfl
  unfold arguments Resolver.argumentsMatch
  split
  · rw [containsEach_run, howners]
    cases owner <;> cases owner' <;> rfl
  · rfl

theorem view_run (sup found : Ty) :
    (view sup found).run isSup = Resolver.matchesView isSup sup found := by
  cases found with
  | nominal _ => cases sup <;> rfl
  | parameterized id' args' owner' =>
      cases sup with
      | parameterized id args owner =>
          exact arguments_run id args owner args' owner'
      | nominal _ | var _ | wildcard _ _ | genericArray _ | capture _ => rfl
  | genericArray k' =>
      cases sup with
      | genericArray k => exact ask_run k k'
      | nominal _ | parameterized _ _ _ | var _ | wildcard _ _ | capture _ =>
          rfl
  | var _ | wildcard _ _ | capture _ => cases sup <;> rfl

theorem run_extends
    (h : ∀ sup sub, Resolve.Extends (isSup sup sub) (isSup' sup sub)) :
    ∀ p : Plan, Resolve.Extends (p.run isSup) (p.run isSup')
  | .answer _ => .refl _
  | .refuse _ => .refl _
  | .ask sup sub yes no => (h sup sub).bind fun b => by
      cases b with
      | true => exact run_extends h yes
      | false => exact run_extends h no

/-! What a plan may ask, whatever the answers. -/

/-- The plan has the question somewhere. -/
def Mentions : Plan → Ty → Ty → Prop
  | .answer _, _, _ | .refuse _, _, _ => False
  | .ask sup sub yes no, s, t =>
      s = sup ∧ t = sub ∨ yes.Mentions s t ∨ no.Mentions s t

/-- No branch of the plan fails. -/
def Unrefused : Plan → Prop
  | .answer _ => True
  | .refuse _ => False
  | .ask _ _ yes no => yes.Unrefused ∧ no.Unrefused

variable {s t : Ty}

theorem mentions_askAny : ∀ {ts : List Ty}, (askAny question ts).Mentions s t →
    ∃ u ∈ ts, (s, t) = question u
  | u :: ts, h => by
      rcases h with ⟨rfl, rfl⟩ | hyes | hno
      · exact ⟨u, List.mem_cons_self, rfl⟩
      · exact hyes.elim
      · obtain ⟨u', hu', heq⟩ := mentions_askAny hno
        exact ⟨u', List.mem_cons_of_mem u hu', heq⟩

theorem unrefused_askAny : ∀ ts : List Ty, (askAny question ts).Unrefused
  | [] => trivial
  | _ :: ts => ⟨trivial, unrefused_askAny ts⟩

theorem mentions_askAll {next : Plan} :
    ∀ {ts : List Ty}, (askAll question ts next).Mentions s t →
    (∃ u ∈ ts, (s, t) = question u) ∨ next.Mentions s t
  | [], h => .inr h
  | u :: ts, h => by
      rcases h with ⟨rfl, rfl⟩ | hyes | hno
      · exact .inl ⟨u, List.mem_cons_self, rfl⟩
      · refine (mentions_askAll hyes).imp_left fun ⟨u', hu', heq⟩ => ?_
        exact ⟨u', List.mem_cons_of_mem u hu', heq⟩
      · exact hno.elim

theorem unrefused_askAll {next : Plan} (h : next.Unrefused) : ∀ ts : List Ty,
    (askAll question ts next).Unrefused
  | [] => h
  | _ :: ts => ⟨unrefused_askAll h ts, trivial⟩

theorem mentions_contains {outer inner : Ty} {next : Plan}
    (h : (contains outer inner next).Mentions s t) :
    (∃ upper lower, outer = .wildcard upper lower ∧
      (s ∈ upper ∧ t = inner ∨ s = inner ∧ t ∈ lower)) ∨ next.Mentions s t := by
  have hplain : (if outer = inner then next else .answer false :
        Plan).Mentions s t →
      next.Mentions s t := by
    intro h
    split at h
    · exact h
    · exact h.elim
  cases outer with
  | wildcard upper lower =>
      rcases mentions_askAll h with ⟨u, hu, heq⟩ | h
      · obtain ⟨rfl, rfl⟩ := Prod.mk.inj heq
        exact .inl ⟨upper, lower, rfl, .inl ⟨hu, rfl⟩⟩
      · rcases mentions_askAll h with ⟨l, hl, heq⟩ | h
        · obtain ⟨rfl, rfl⟩ := Prod.mk.inj heq
          exact .inl ⟨upper, lower, rfl, .inr ⟨rfl, hl⟩⟩
        · exact .inr h
  | nominal _ | parameterized _ _ _ | var _ | genericArray _ | capture _ =>
      exact .inr (hplain h)

theorem unrefused_contains (outer inner : Ty) {next : Plan}
    (h : next.Unrefused) : (contains outer inner next).Unrefused := by
  cases outer with
  | wildcard upper lower =>
      exact unrefused_askAll (unrefused_askAll h lower) upper
  | nominal _ | parameterized _ _ _ | var _ | genericArray _ | capture _ =>
      show (if _ = inner then next else .answer false : Plan).Unrefused
      split
      · exact h
      · trivial

theorem mentions_containsEach {next : Plan} : ∀ {pairs : List (Ty × Ty)},
    (containsEach pairs next).Mentions s t →
    (∃ upper lower inner, (.wildcard upper lower, inner) ∈ pairs ∧
      (s ∈ upper ∧ t = inner ∨ s = inner ∧ t ∈ lower)) ∨ next.Mentions s t
  | [], h => .inr h
  | (outer, inner) :: pairs, h => by
      rcases mentions_contains h with ⟨upper, lower, rfl, hq⟩ | h
      · exact .inl ⟨upper, lower, inner, List.mem_cons_self, hq⟩
      · refine (mentions_containsEach h).imp_left
          fun ⟨upper, lower, inner', hmem, hq⟩ => ?_
        exact ⟨upper, lower, inner', List.mem_cons_of_mem _ hmem, hq⟩

theorem unrefused_containsEach {next : Plan} (h : next.Unrefused) :
    ∀ pairs : List (Ty × Ty), (containsEach pairs next).Unrefused
  | [] => h
  | (outer, inner) :: pairs =>
      unrefused_contains outer inner (unrefused_containsEach h pairs)

/-- What may be asked of `sup` and the view that was found: a component, what
lies between the bounds of a wildcard argument, or the owners. -/
inductive Compares : Ty → Ty → Ty → Ty → Prop where
  | component (k k' : Ty) : Compares (.genericArray k) (.genericArray k') k k'
  | upper {id id' : ClassId} {args args' : List Ty} {owner owner' : Option Ty}
      {upper lower : List Ty}
      {u a : Ty} (hpair : (.wildcard upper lower, a) ∈ args.zip args')
      (hu : u ∈ upper) :
      Compares (.parameterized id args owner)
      (.parameterized id' args' owner') u a
  | lower {id id' : ClassId} {args args' : List Ty} {owner owner' : Option Ty}
      {upper lower : List Ty}
      {l a : Ty} (hpair : (.wildcard upper lower, a) ∈ args.zip args')
      (hl : l ∈ lower) :
      Compares (.parameterized id args owner)
      (.parameterized id' args' owner') a l
  | owner {id id' : ClassId} {args args' : List Ty} (o o' : Ty) :
      Compares (.parameterized id args (some o))
      (.parameterized id' args' (some o')) o o'

theorem compares_of_view {sup found : Ty} (h : (view sup found).Mentions s t) :
    Compares sup found s t := by
  cases found with
  | nominal _ => cases sup <;> exact h.elim
  | parameterized id' args' owner' =>
      cases sup with
      | parameterized id args owner =>
          rw [view, arguments] at h
          split at h
          · rcases mentions_containsEach h with
                ⟨upper, lower, inner, hpair, hq⟩ | h
            · rcases hq with ⟨hs, rfl⟩ | ⟨rfl, ht⟩
              · exact .upper hpair hs
              · exact .lower hpair ht
            · match owner, owner', h with
              | some o, some o', h =>
                  rcases h with ⟨rfl, rfl⟩ | h | h
                  · exact .owner s t
                  · exact h.elim
                  · exact h.elim
          · exact h.elim
      | nominal _ | var _ | wildcard _ _ | genericArray _ | capture _ =>
          exact h.elim
  | genericArray k' =>
      cases sup with
      | genericArray k =>
          rcases h with ⟨rfl, rfl⟩ | h | h
          · exact .component s t
          · exact h.elim
          · exact h.elim
      | nominal _ | parameterized _ _ _ | var _ | wildcard _ _ | capture _ =>
          exact h.elim
  | var _ | wildcard _ _ | capture _ => cases sup <;> exact h.elim

theorem unrefused_view {sup found : Ty} (h : ∀ id args owner id' args' owner',
    sup = .parameterized id args owner →
      found = .parameterized id' args' owner' →
      args.length = args'.length) : (view sup found).Unrefused := by
  cases found with
  | nominal _ => cases sup <;> trivial
  | parameterized id' args' owner' =>
      cases sup with
      | parameterized id args owner =>
          rw [view, arguments,
            if_pos (h id args owner id' args' owner' rfl rfl)]
          refine unrefused_containsEach ?_ _
          cases owner <;> cases owner' <;> trivial
      | nominal _ | var _ | wildcard _ _ | genericArray _ | capture _ => trivial
  | genericArray k' =>
      cases sup with
      | genericArray k => exact ⟨trivial, trivial⟩
      | nominal _ | parameterized _ _ _ | var _ | wildcard _ _ | capture _ =>
          trivial
  | var _ | wildcard _ _ | capture _ => cases sup <;> trivial

end Plan

/-! ## One level of the recursion -/

namespace Resolver

open Resolve Declarations

variable {r : Resolver} {sup sub s t : Ty} {e : Error} {n m : Nat}
  {ctx ctx' : Context}

/-- The work of a comparison itself, as far as the first question to another. -/
def plan (r : Resolver) (n : Nat) (sup sub : Ty) : Resolve Plan :=
  match sup with
  | .nominal _ | .parameterized _ _ _ | .genericArray _ => do
      let superClass ← r.env.erase sup
      match ← r.settledByErasure sup sub superClass with
      | some b => return .answer b
      | none =>
          let captured ← r.capture sub
          match ← r.exactSupertype n captured superClass with
          | some found => return .view sup found
          | none => return .answer false
  | .capture id => do
      if sup = sub then return .answer true
      else
        let c ← captureDef id
        return .askAny (fun bound => (bound, sub)) c.lower
  | .var _ => do
      if sup = sub then return .answer true
      else
        match sub with
        | .var _ | .capture _ => do
            let bounds ← r.directSupertypes sub
            return .askAny (fun bound => (sup, bound)) bounds
        | _ => return .answer false
  | .wildcard _ _ => fail .unexpectedWildcard

theorem plan_eq (hsup : sup.isUnknown = false) (n : Nat) (sub : Ty) :
    r.plan n sup sub =
      (ofOutcome (r.env.erase sup) >>= fun superClass =>
        ofOutcome (r.settledByErasure sup sub superClass) >>= fun settled =>
          match settled with
          | some b => pure (Plan.answer b)
          | none => r.capture sub >>= fun captured =>
              r.exactSupertype n captured superClass >>= fun found =>
                match found with
                | some found => pure (Plan.view sup found)
                | none => pure (Plan.answer false)) := by
  cases sup with
  | nominal _ | parameterized _ _ _ | genericArray _ => rfl
  | var _ | wildcard _ _ | capture _ => cases hsup

/-- A comparison makes a plan and carries it out one level further down. -/
theorem isSupertype_eq_plan (n : Nat) (sup sub : Ty) :
    r.isSupertype (n + 1) sup sub =
    r.plan n sup sub >>= fun p => p.run (r.isSupertype n) := by
  have hknown : sup.isUnknown = false → r.isSupertype (n + 1) sup sub =
      r.plan n sup sub >>= fun p => p.run (r.isSupertype n) := by
    intro hknown
    rw [isSupertype_eq hknown, plan_eq hknown, bind_assoc]
    congr 1
    funext superClass
    rw [bind_assoc]
    congr 1
    funext settled
    cases settled with
    | some b => rfl
    | none =>
        dsimp only
        rw [bind_assoc]
        congr 1
        funext captured
        rw [bind_assoc]
        congr 1
        funext found
        cases found with
        | some found => exact (Plan.view_run sup found).symm
        | none => rfl
  cases sup with
  | nominal _ | parameterized _ _ _ | genericArray _ => exact hknown rfl
  | wildcard _ _ => rfl
  | capture i =>
      unfold isSupertype plan
      dsimp only
      split
      · rfl
      · rw [bind_assoc]
        congr 1
        funext c
        exact (Plan.askAny_run (fun bound => (bound, sub)) c.lower).symm
  | var v =>
      have hbounds : (r.directSupertypes sub >>= fun bounds =>
          anyHolds (fun bound => r.isSupertype n (.var v) bound) bounds) =
          (r.directSupertypes sub >>= fun bounds =>
            pure (.askAny (fun bound => (.var v, bound)) bounds) :
                Resolve Plan) >>=
              fun p => p.run (r.isSupertype n) := by
        rw [bind_assoc]
        congr 1
        funext bounds
        exact (Plan.askAny_run (fun bound => (Ty.var v, bound)) bounds).symm
      unfold isSupertype plan
      dsimp only
      split
      · rfl
      · cases sub with
        | var _ | capture _ => exact hbounds
        | nominal _ | parameterized _ _ _ | wildcard _ _ | genericArray _ => rfl

theorem plan_extends (hle : n ≤ m) (sup sub : Ty) :
    Extends (r.plan n sup sub) (r.plan m sup sub) := by
  cases sup with
  | nominal _ | parameterized _ _ _ | genericArray _ =>
      refine .after _ fun superClass => .after _ fun settled => ?_
      cases settled with
      | some b => exact .refl _
      | none =>
          refine .after _ fun captured =>
            (exactSupertype_extends r superClass hle captured).bind
              fun found => .refl _
  | capture _ | var _ | wildcard _ _ => exact .refl _

variable {p : Plan}

theorem plan_mono (hle : n ≤ m) (hmade : r.plan n sup sub ctx = (.ok p, ctx')) :
    r.plan m sup sub ctx = (.ok p, ctx') := by
  rw [plan_extends hle sup sub ctx (by rw [hmade]; exact nofun), hmade]

theorem plan_unique (hmade : r.plan m sup sub ctx = (.ok p, ctx'))
    (hn : (r.plan n sup sub ctx).1 ≠ .exhausted) :
    r.plan n sup sub ctx = (.ok p, ctx') := by
  have hsmall := plan_extends (Nat.le_max_left n m) sup sub ctx hn
  exact hsmall.symm.trans (plan_mono (Nat.le_max_right n m) hmade)

theorem run_mono (hle : n ≤ m) (p : Plan) :
    Extends (p.run (r.isSupertype n)) (p.run (r.isSupertype m)) :=
  p.run_extends fun sup sub => isSupertype_mono sup sub hle

/-- The comparison comes out as the plan does that it makes. -/
theorem isSupertype_of_made (hmade : r.plan n sup sub ctx = (.ok p, ctx'))
    (hm : (p.run (r.isSupertype m) ctx').1 ≠ .exhausted) :
    ∃ depth, r.isSupertype depth sup sub ctx =
      p.run (r.isSupertype m) ctx' := by
  have hplan := plan_mono (Nat.le_max_left n m) hmade
  refine ⟨max n m + 1, ?_⟩
  rw [isSupertype_eq_plan, bind_ok (by rw [hplan]), hplan]
  exact run_mono (Nat.le_max_right n m) p ctx' hm

end Resolver

end GenericTypes
