import GenericTypes.Proofs.MemberShapes
import GenericTypes.Proofs.Settling
import GenericTypes.Proofs.Verdict

/-!
# Capture conversion by its two phases

Capture conversion is defined in two phases: first each wildcard along the chain
gets a fresh variable, then each fresh variable gets its bounds, in which all
the fresh ones may occur. `TwoPhase` is that definition, level by level from the
outermost owner, as a relation between a type, its capture and the entries that
capturing adds to the arena. It fixes the outcome (`TwoPhase.unique`).

The resolver follows it in whatever state it is and whatever is declared, so
long as it succeeds (`capture_twoPhase`). What it looks bounds up in is a
substitution where later bindings hide earlier ones, an owner's before those of
a member class; when no parameter occurs twice along the chain, nothing is
hidden, and it binds what the definition says (`binds_level`).
-/

namespace GenericTypes

open Substitution

namespace Substitution

/-- When no variable is bound twice, every binding counts. -/
theorem lastValue_eq_some_iff {vs : List TypeVarId} {ts : List Ty}
    {v : TypeVarId} {t : Ty} (hdistinct : vs.Nodup) :
    lastValue vs ts v = some t ↔ (v, t) ∈ vs.zip ts := by
  constructor
  · exact fun h => List.mem_reverse.1 (mem_of_lookup h)
  · intro hmem
    have hsome : (lastValue vs ts v).isSome := by
      rw [lastValue, List.lookup_isSome_iff]
      exact ⟨(v, t), List.mem_reverse.2 hmem, beq_self_eq_true v⟩
    obtain ⟨s, hs⟩ := Option.isSome_iff_exists.1 hsome
    -- both bindings are at the place of `v`, and that is one place
    obtain ⟨i, hi⟩ := List.getElem?_of_mem hmem
    obtain ⟨j, hj⟩ :=
      List.getElem?_of_mem (List.mem_reverse.1 (mem_of_lookup hs))
    obtain ⟨hvi, hti⟩ := List.getElem?_zip_eq_some.1 hi
    obtain ⟨hvj, hsj⟩ := List.getElem?_zip_eq_some.1 hj
    obtain ⟨hlt, -⟩ := List.getElem?_eq_some_iff.1 hvi
    obtain rfl := (List.getElem?_inj hlt hdistinct).1 (hvi.trans hvj.symm)
    rw [hs, ← hsj, hti]

end Substitution

namespace Declarations

/-- Each parameter along the owner chain of a type, with the argument it is
given. -/
def chainBindings (d : Declarations) : Ty → List (TypeVarId × Ty)
  | .parameterized id args (some owner) =>
      (d.paramsOf id).zip args ++ d.chainBindings owner
  | .parameterized id args none => (d.paramsOf id).zip args
  | .nominal _ | .var _ | .wildcard _ _ | .genericArray _ | .capture _ => []

variable {d : Declarations} {v : TypeVarId} {s : Ty}

theorem mem_chainVars_of_chainValue :
    ∀ {t s : Ty}, d.chainValue t v = some s → v ∈ d.chainVars t
  | .parameterized _ _ (some _), _, h => by
      rw [chainValue, Option.or_eq_some_iff] at h
      rcases h with h | ⟨-, h⟩
      · exact List.mem_append_right _ (mem_chainVars_of_chainValue h)
      · exact List.mem_append_left _ (mem_of_lastValue h).1
  | .parameterized _ _ none, _, h => (mem_of_lastValue h).1

/-- Where no parameter occurs twice, an owner has no value for those of its
member class. -/
theorem chainValue_eq_none {id : ClassId} {args : List Ty} {owner : Ty}
    (hdistinct : (d.chainVars (.parameterized id args (some owner))).Nodup)
    (hv : v ∈ d.paramsOf id) : d.chainValue owner v = none := by
  obtain ⟨-, -, hapart⟩ := List.nodup_append.1 hdistinct
  refine Option.eq_none_iff_forall_ne_some.2 fun s hs => ?_
  exact hapart v hv v (mem_chainVars_of_chainValue hs) rfl

theorem chainValue_eq_some_iff : ∀ {t s : Ty}, (d.chainVars t).Nodup →
    (d.chainValue t v = some s ↔ (v, s) ∈ d.chainBindings t)
  | .parameterized id args (some owner), s, hdistinct => by
      obtain ⟨hparams, howner, -⟩ := List.nodup_append.1 hdistinct
      rw [chainValue, chainBindings, List.mem_append,
        ← lastValue_eq_some_iff hparams,
        Option.or_eq_some_iff, chainValue_eq_some_iff howner, or_comm]
      refine or_congr_left ⟨And.right, fun hlast => ⟨?_, hlast⟩⟩
      exact chainValue_eq_none hdistinct (mem_of_lastValue hlast).1
  | .parameterized id args none, _, hdistinct => lastValue_eq_some_iff hdistinct
  | .nominal _, _, _ | .var _, _, _ | .wildcard _ _, _, _
  | .genericArray _, _, _ | .capture _, _, _ => by
      simp [chainValue, chainBindings]

end Declarations

namespace Resolver

open Resolve Declarations

variable {r : Resolver} {σ τ : Substitution} {id : ClassId} {args : List Ty}
  {n : Nat} {p q q' : Ty} {added added' : List CaptureDef}

/-- What bounds say beyond what the top type does. -/
def telling (r : Resolver) (bounds : List Ty) : List Ty :=
  if bounds = [r.env.top] then [] else bounds

/-- The upper bounds of a fresh capture: the declared ones, then those of the
wildcard, as far as they are telling, and the top type if none is. -/
def mergedBounds (r : Resolver) (declared wildcard : List Ty) : List Ty :=
  match r.telling declared ++ r.telling wildcard with
  | [] => [r.env.top]
  | bounds => bounds

/-- The substitution has just the bindings of the chain of `t`. -/
def Binds (r : Resolver) (σ : Substitution) (t : Ty) : Prop :=
  ∀ v s, σ.get? v = some s ↔ (v, s) ∈ r.env.chainBindings t

/-- The entry of the arena for a wildcard, given with the parameter it is an
argument for. -/
structure EntryFor (r : Resolver) (σ : Substitution) (w : TypeVarId × Wildcard)
    (c : CaptureDef) : Prop where
  typeVar : c.typeVar = w.1
  wildcard : c.wildcard = w.2
  lower : c.lower = w.2.lower
  upper : ∃ p declared, r.env.typeParam? w.1 = some p ∧
    σ.resolveAll p.upperBounds = .ok declared ∧
    c.upper = r.mergedBounds declared w.2.upper

/-- The capture of a type over an arena of `n` entries, and the entries it adds.
At each level the wildcards become captures, numbered on from those of the
owner, and their bounds are found with the captured arguments of the level and
its owners for the parameters. -/
inductive TwoPhase (r : Resolver) (n : Nat) :
    Ty → Ty → List CaptureDef → Prop where
  | bare {t : Ty} (h : ∀ id args owner, t ≠ .parameterized id args owner) :
    TwoPhase r n t t []
  | outermost {id : ClassId} {args : List Ty}
      {σ : Substitution} {added : List CaptureDef}
      (hσ : r.Binds σ (.parameterized id (numberWildcards n args) none))
      (hadded : List.Forall₂ (r.EntryFor σ)
        (wildcardsFor (r.env.paramsOf id) args) added) :
      TwoPhase r n (.parameterized id args none)
        (.parameterized id (numberWildcards n args) none) added
  | member {id : ClassId} {args : List Ty}
      {owner owner' : Ty} {σ : Substitution} {below added : List CaptureDef}
      (howner : TwoPhase r n owner owner' below) (hσ : r.Binds σ
        (.parameterized id (numberWildcards (n + below.length) args)
          (some owner')))
      (hadded : List.Forall₂ (r.EntryFor σ)
        (wildcardsFor (r.env.paramsOf id) args) added) :
      TwoPhase r n (.parameterized id args (some owner))
        (.parameterized id (numberWildcards (n + below.length) args)
          (some owner'))
        (below ++ added)

/-! ## The definition fixes the outcome -/

theorem Binds.get?_eq {t : Ty} (hσ : r.Binds σ t) (hτ : r.Binds τ t)
    (v : TypeVarId) : σ.get? v = τ.get? v :=
  Option.ext fun s => (hσ v s).trans (hτ v s).symm

theorem EntryFor.unique {t : Ty} {w : TypeVarId × Wildcard} {c c' : CaptureDef}
    (hσ : r.Binds σ t) (hτ : r.Binds τ t) (hc : r.EntryFor σ w c)
    (hc' : r.EntryFor τ w c') : c = c' := by
  obtain ⟨typeVar, wildcard, lower, p, declared, hp, hdeclared, upper⟩ := hc
  obtain ⟨typeVar', wildcard', lower', p', declared', hp', hdeclared',
      upper'⟩ := hc'
  obtain rfl := Option.some.inj (hp.symm.trans hp')
  have happly : σ.apply = τ.apply := funext fun v => by
    rw [apply, apply, hσ.get?_eq hτ v]
  have heq : declared = declared' := by
    rw [eq_map_of_resolveAll hdeclared, eq_map_of_resolveAll hdeclared', happly]
  cases c
  cases c'
  subst heq
  simp_all only

theorem TwoPhase.unique (h : r.TwoPhase n p q added)
    (h' : r.TwoPhase n p q' added') : q = q' ∧ added = added' := by
  have hentries : ∀ {t : Ty} {σ τ : Substitution}
      {ws : List (TypeVarId × Wildcard)} {cs cs' : List CaptureDef},
      r.Binds σ t → r.Binds τ t → List.Forall₂ (r.EntryFor σ) ws cs →
      List.Forall₂ (r.EntryFor τ) ws cs' → cs = cs' := by
    intro t σ τ ws cs cs' hσ hτ hcs hcs'
    induction hcs generalizing cs' with
    | nil =>
        cases hcs'
        rfl
    | cons hc _ ih =>
        cases hcs' with
        | cons hc' hrest => rw [EntryFor.unique hσ hτ hc hc', ih hrest]
  induction h generalizing q' added' with
  | bare hbare =>
      cases h' with
      | bare _ => exact ⟨rfl, rfl⟩
      | outermost _ _ | member _ _ _ => exact absurd rfl (hbare _ _ _)
  | outermost hσ hadded =>
      cases h' with
      | bare hbare => exact absurd rfl (hbare _ _ _)
      | outermost hτ hadded' => exact ⟨rfl, hentries hσ hτ hadded hadded'⟩
  | member _ hσ hadded ih =>
      cases h' with
      | bare hbare => exact absurd rfl (hbare _ _ _)
      | member howner' hτ hadded' =>
          obtain ⟨rfl, rfl⟩ := ih howner'
          exact ⟨rfl, congrArg _ (hentries hσ hτ hadded hadded')⟩

theorem TwoPhase.chainVars_eq (h : r.TwoPhase n p q added) :
    r.env.chainVars q = r.env.chainVars p := by
  induction h with
  | bare _ | outermost _ _ => rfl
  | member _ _ _ ih => rw [chainVars, chainVars, ih]

/-! ## The resolver follows it -/

theorem telling_of_isTop {bounds : List Ty} (h : r.env.isTop bounds = true) :
    r.telling bounds = [] := by
  rw [isTop, Bool.or_eq_true, decide_eq_true_eq, List.isEmpty_iff] at h
  rcases h with rfl | rfl
  · exact ite_self _
  · exact if_pos rfl

theorem telling_of_not_isTop {bounds : List Ty}
    (h : r.env.isTop bounds = false) :
    r.telling bounds = bounds ∧ bounds ≠ [] := by
  rw [isTop, Bool.or_eq_false_iff, List.isEmpty_eq_false_iff,
    decide_eq_false_iff_not] at h
  exact ⟨if_neg h.2, h.1⟩

theorem mergedBounds_of_ne_nil {declared wildcard bounds : List Ty}
    (hne : bounds ≠ [])
    (h : r.telling declared ++ r.telling wildcard = bounds) :
    r.mergedBounds declared wildcard = bounds := by
  rw [mergedBounds, h]
  cases bounds with
  | nil => contradiction
  | cons _ _ => rfl

/-- The cases of the merge come to this. -/
theorem mergeBounds_eq (declared wildcard : List Ty) :
    r.mergeBounds declared wildcard = r.mergedBounds declared wildcard := by
  rw [mergeBounds]
  cases hwildcard : r.env.isTop wildcard with
  | true =>
      have hnone := telling_of_isTop hwildcard
      rw [if_pos rfl]
      cases hdeclared : r.env.isTop declared with
      | true =>
          rw [mergedBounds, telling_of_isTop hdeclared, hnone]
          rw [isTop, Bool.or_eq_true, decide_eq_true_eq] at hdeclared
          rcases hdeclared with hempty | rfl
          · exact if_pos hempty
          · rfl
      | false =>
          obtain ⟨hsame, hne⟩ := telling_of_not_isTop hdeclared
          rw [mergedBounds_of_ne_nil hne
            (by rw [hsame, hnone, List.append_nil])]
          exact if_neg (mt List.isEmpty_iff.1 hne)
  | false =>
      obtain ⟨hsame, hne⟩ := telling_of_not_isTop hwildcard
      rw [if_neg Bool.false_ne_true]
      cases hdeclared : r.env.isTop declared with
      | true =>
          have hnone := telling_of_isTop hdeclared
          rw [mergedBounds_of_ne_nil hne
            (by rw [hnone, hsame, List.nil_append])]
          exact if_pos rfl
      | false =>
          obtain ⟨hsame', -⟩ := telling_of_not_isTop hdeclared
          rw [mergedBounds_of_ne_nil
            (List.append_ne_nil_of_right_ne_nil declared hne)
            (by rw [hsame', hsame])]
          exact if_neg Bool.false_ne_true

/-- The entries a level settles are those of the definition. -/
theorem entryFor_settled {w : TypeVarId × Wildcard} (hcan : r.CanSettle σ w.1) :
    r.EntryFor σ w (r.settled σ.apply w) where
  typeVar := rfl
  wildcard := rfl
  lower := rfl
  upper := by
    obtain ⟨p, declared, hp, hdeclared⟩ := hcan
    refine ⟨p, declared, hp, hdeclared, ?_⟩
    rw [settled, mergeBounds_eq, boundsOf_eq hp, eq_map_of_resolveAll hdeclared]

/-- What a level binds, once its owner is captured. -/
theorem binds_level {c : ClassDecl} {owner : Option Ty}
    (hc : r.env.class? id = some c)
    (howner : bindOwner r.env.toDeclarations owner = .ok σ)
    (hdistinct : (r.env.chainVars (.parameterized id args owner)).Nodup) :
    r.Binds (σ.bindZip c.typeParams args) (.parameterized id args owner) := by
  intro v s
  have hcounted : ∀ o, owner = some o → r.env.Counted o := by
    rintro o rfl
    exact counted_of_bindChain howner
  obtain ⟨σ', hσ', hget⟩ := bindOwner_spec hcounted
  obtain rfl := Except.ok.inj (howner.symm.trans hσ')
  rw [get?_bindZip, hget, ← paramsOf_eq hc, ← chainValue_eq_some_iff hdistinct]
  cases owner with
  | none => rw [chainValue, Option.bind_none, Option.or_none]
  | some o =>
      rw [chainValue, Option.bind_some]
      -- a parameter has a value on one side only, so it does not matter which
      -- comes first
      cases hlast : lastValue (r.env.paramsOf id) args v with
      | none => rw [Option.none_or, Option.or_none]
      | some t =>
          rw [chainValue_eq_none hdistinct (mem_of_lastValue hlast).1,
            Option.or_none, Option.none_or]

/-- What a level that succeeds makes of its arguments, which it has counted. -/
theorem captureLevel_counted {owner : Option Ty} {ctx ctx' : Context}
    (hsuccess : r.captureLevel id args owner ctx = (.ok q, ctx')) :
    q = .parameterized id (numberWildcards ctx.captures.size args) owner ∧
      r.env.Counts id args ∧
      ∀ o, owner = some o → r.env.Counted o := by
  rcases captureLevel_begins (r := r) id args owner with
      ⟨e, hfail, -⟩ | ⟨c, σ, hc, hlen, howner⟩
  · rw [hfail] at hsuccess
    cases congrArg Prod.fst hsuccess
  · obtain ⟨o, _, _, _, hrun, -, -, ⟨rfl, -, -⟩ | ⟨⟨e, rfl, -⟩, -⟩⟩ :=
      captureLevel_cases ctx hc hlen howner
    · obtain rfl :=
        Outcome.ok.inj (congrArg Prod.fst (hrun.symm.trans hsuccess))
      refine ⟨rfl, ⟨c, hc, hlen⟩, ?_⟩
      rintro o rfl
      exact counted_of_bindChain howner
    · cases congrArg Prod.fst (hrun.symm.trans hsuccess)

/-- A level that succeeds captures as the definition says. -/
theorem captureLevel_twoPhase {owner : Option Ty} {ctx ctx' : Context}
    (hdistinct : (r.env.chainVars (.parameterized id args owner)).Nodup)
    (hsuccess : r.captureLevel id args owner ctx = (.ok q, ctx')) :
    q = .parameterized id (numberWildcards ctx.captures.size args) owner ∧
      ∃ σ added, r.Binds σ q ∧
        List.Forall₂ (r.EntryFor σ)
          (wildcardsFor (r.env.paramsOf id) args) added ∧
        ctx'.captures.toList = ctx.captures.toList ++ added := by
  rcases captureLevel_begins (r := r) id args owner with
      ⟨e, hfail, -⟩ | ⟨c, σ, hc, hlen, howner⟩
  · rw [hfail] at hsuccess
    cases congrArg Prod.fst hsuccess
  have hparams := paramsOf_eq hc
  have hcan : ∀ w ∈ wildcardsFor c.typeParams args, r.CanSettle
      (σ.bindZip c.typeParams (numberWildcards ctx.captures.size args))
      w.1 := by
    obtain ⟨o, _, _, _, hrun, -, -, ⟨-, -, hcan⟩ | ⟨⟨e, rfl, -⟩, -⟩⟩ :=
      captureLevel_cases ctx hc hlen howner
    · exact hcan
    · cases congrArg Prod.fst (hrun.symm.trans hsuccess)
  obtain ⟨ctx₁, hrun, harena⟩ := captureLevel_settled
    (σ.bindZip c.typeParams (numberWildcards ctx.captures.size args)).apply ctx
    hc hlen howner fun w hw => by
      obtain ⟨p, declared, hp, hdeclared⟩ := hcan w hw
      refine ⟨p, hp, fun b hb v hv => ?_⟩
      obtain ⟨s, hs⟩ := resolve_of_resolveAll hdeclared hb
      obtain ⟨t, ht⟩ := Option.isSome_iff_exists.1 (isSome_of_resolve hs v hv)
      rw [apply, ht, Option.getD_some]
  obtain ⟨hq, rfl⟩ := Prod.mk.inj (hsuccess.symm.trans hrun)
  obtain rfl := Outcome.ok.inj hq
  refine ⟨rfl, _, _, binds_level hc howner ?_, ?_, harena⟩
  · cases owner <;> exact hdistinct
  · rw [hparams, List.forall₂_map_right_iff, List.forall₂_same]
    exact fun w hw => entryFor_settled (hcan w hw)

/-- Nothing is left to capture in what a level has numbered. -/
theorem isWildcard_numberWildcards {a : Ty} (ha : a ∈ numberWildcards n args) :
    a.isWildcard = false := by
  rcases mem_numberWildcards ha with ⟨i, rfl⟩ | ⟨-, hwild⟩
  · rfl
  · exact hwild

/-- Where there is an owner, it was captured before the level, and with success
if the whole was. -/
theorem of_capture_member {owner : Ty} {ctx ctx' : Context}
    (hsuccess : r.capture (.parameterized id args (some owner)) ctx = (.ok q,
      ctx')) :
    ∃ owner' between, r.capture owner ctx = (.ok owner', between) ∧
      r.captureLevel id args (some owner') between = (.ok q, ctx') := by
  rw [capture, bind_apply] at hsuccess
  rcases howner : r.capture owner ctx with ⟨o, between⟩
  rw [howner] at hsuccess
  cases o with
  | error _ | exhausted => cases congrArg Prod.fst hsuccess
  | ok owner' => exact ⟨owner', between, rfl, hsuccess⟩

/-- A capture that succeeds has counted the arguments along the chain and leaves
no wildcard among them. -/
theorem capture_counted :
    ∀ {p q : Ty} {ctx ctx' : Context}, r.capture p ctx = (.ok q, ctx') →
    r.env.Counted q ∧ q.Converted
  | .parameterized id args (some owner), q, ctx, ctx', hsuccess => by
      obtain ⟨owner', between, howner, hlevel⟩ := of_capture_member hsuccess
      obtain ⟨-, hconverted⟩ := capture_counted howner
      obtain ⟨rfl, ⟨c, hc, hlen⟩, hcounted⟩ := captureLevel_counted hlevel
      exact ⟨⟨⟨c, hc, hlen.trans (length_numberWildcards _ _).symm⟩,
          hcounted owner' rfl⟩,
        fun a ha => isWildcard_numberWildcards ha, hconverted⟩
  | .parameterized id args none, q, ctx, ctx', hsuccess => by
      obtain ⟨rfl, ⟨c, hc, hlen⟩, -⟩ := captureLevel_counted hsuccess
      exact ⟨⟨c, hc, hlen.trans (length_numberWildcards _ _).symm⟩,
        fun a ha => isWildcard_numberWildcards ha⟩
  | .nominal _, _, _, _, hsuccess | .var _, _, _, _, hsuccess
  | .wildcard _ _, _, _, _, hsuccess | .genericArray _, _, _, _, hsuccess
  | .capture _, _, _, _, hsuccess => by
      obtain rfl := Outcome.ok.inj (congrArg Prod.fst hsuccess)
      exact ⟨trivial, trivial⟩

/-- What has been captured is captured already. -/
theorem capture_captured {ctx ctx' : Context}
    (hsuccess : r.capture p ctx = (.ok q, ctx')) : r.capture q = pure q :=
  capture_converted (capture_counted hsuccess).1 (capture_counted hsuccess).2

theorem captured_twoPhase {ctx ctx' : Context}
    (hdistinct : (r.env.chainVars p).Nodup)
    (hsuccess : r.capture p ctx = (.ok q, ctx')) :
    ∃ added, r.TwoPhase ctx.captures.size p q added ∧
      ctx'.captures.toList = ctx.captures.toList ++ added := by
  induction p using Ty.induct generalizing q ctx ctx' with
  | parameterized id args owner _ ih =>
      cases owner with
      | some owner =>
          obtain ⟨owner', between, howner, hlevel⟩ := of_capture_member hsuccess
          obtain ⟨below, hbelow, harena⟩ :=
            ih owner rfl (List.nodup_append.1 hdistinct).2.1 howner
          have hdistinct' : (r.env.chainVars
              (.parameterized id args (some owner'))).Nodup := by
            rw [chainVars, hbelow.chainVars_eq]
            exact hdistinct
          obtain ⟨rfl, σ, added, hσ, hadded, harena'⟩ :=
            captureLevel_twoPhase hdistinct' hlevel
          have hsize : between.captures.size =
              ctx.captures.size + below.length :=
            size_of_append harena
          rw [hsize] at hσ ⊢
          refine ⟨below ++ added, .member hbelow hσ hadded, ?_⟩
          rw [harena', harena, List.append_assoc]
      | none =>
          obtain ⟨rfl, σ, added, hσ, hadded, harena⟩ :=
            captureLevel_twoPhase hdistinct hsuccess
          exact ⟨added, .outermost hσ hadded, harena⟩
  | nominal _ | var _ | wildcard _ _ _ _ | genericArray _ _ | capture _ =>
      obtain ⟨hq, rfl⟩ := Prod.mk.inj hsuccess
      obtain rfl := Outcome.ok.inj hq
      refine ⟨[], .bare ?_, (List.append_nil _).symm⟩
      rintro id args owner ⟨⟩

/-- Whatever the state and the declarations, a capture that succeeds is the one
of the two-phase definition, and adds just the entries this asks for. Captured
again, at any later time, it stays as it is and leaves everything as it was. -/
theorem capture_twoPhase {ctx ctx' : Context}
    (hdistinct : (r.env.chainVars p).Nodup)
    (hsuccess : r.capture p ctx = (.ok q, ctx')) :
    ∃ added, r.TwoPhase ctx.captures.size p q added ∧
      ctx'.captures.toList = ctx.captures.toList ++ added ∧
      ∀ later, r.capture q later = (.ok q, later) := by
  obtain ⟨added, hphases, harena⟩ := captured_twoPhase hdistinct hsuccess
  refine ⟨added, hphases, harena, fun later => ?_⟩
  rw [capture_captured hsuccess]
  rfl

end Resolver

namespace TypeStore

namespace Seed

/-- `Outer<owned>.Inner<arg>`. -/
def innerOf (owned arg : Ty) : Ty :=
  .parameterized inner [arg] (some (applied outer [owned]))

end Seed

/-- Captured, `Outer<?>.Inner<? super String>` has two fresh arguments. The
second is bounded by the first, as `Inner<U extends T>` asks for. -/
theorem innerOfUnknown_captured :
    ∃ added, nestedResolver.TwoPhase 0
        (Seed.innerOf (Wildcard.unbounded Seed.object).toTy
          (Wildcard.above Seed.object (.named Seed.string)).toTy)
        (Seed.innerOf (.capture ⟨0⟩) (.capture ⟨1⟩)) added ∧
      added.map CaptureDef.upper = [[.named Seed.object], [.capture ⟨0⟩]] ∧
      added.map CaptureDef.lower = [[], [.named Seed.string]] := by
  have hcapture : nestedResolver.capture
      (Seed.innerOf (Wildcard.unbounded Seed.object).toTy
        (Wildcard.above Seed.object (.named Seed.string)).toTy) .empty =
        (.ok (Seed.innerOf (.capture ⟨0⟩) (.capture ⟨1⟩)), _) := rfl
  obtain ⟨added, hphases, harena, -⟩ :=
    Resolver.capture_twoPhase (by decide) hcapture
  refine ⟨added, hphases, ?_⟩
  obtain rfl : _ = added := harena
  exact ⟨rfl, rfl⟩

end TypeStore

end GenericTypes
