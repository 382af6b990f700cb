import GenericTypes.Resolver.Request

/-!
# Remembering supertypes is unobservable

A resolver may remember the direct supertypes of a class or parameterized type.
What it remembers was worked out by `freshSupertypes`, which looks at the
declarations only, so an entry of the memo is as good as a fresh computation
whatever the arena has become since. That is the whole invariant, `MemoSound`,
and it is the reason why no capture has to be tracked through the memo.

The rest is a simulation. A resolver that remembers and one that does not are
run side by side on contexts that agree on captures and events. Each layer of
the definitions is a chain of steps, and a chain simulates a chain as soon as
each step simulates its counterpart; the one step where the two differ is
`declaredSupertypes`.
-/

namespace GenericTypes

namespace Resolve

variable {α β : Type} {R : Context → Context → Prop}

/-- From related contexts, `x` and `y` come to the same outcome and leave
related contexts. -/
def Simulates (R : Context → Context → Prop) (x y : Resolve α) : Prop :=
  ∀ c c', R c c' → (x c).1 = (y c').1 ∧ R (x c).2 (y c').2

theorem Simulates.outcome (o : Outcome α) :
    Simulates R (ofOutcome o) (ofOutcome o) :=
  fun _ _ h => ⟨rfl, h⟩

theorem Simulates.bind {x y : Resolve α} {f g : α → Resolve β}
    (h : Simulates R x y) (hf : ∀ a, Simulates R (f a) (g a)) :
    Simulates R (x >>= f) (y >>= g) := by
  intro c c' hc
  obtain ⟨ho, hR⟩ := h c c' hc
  rw [bind_apply, bind_apply]
  match hx : x c, hy : y c' with
  | (.ok a, d), (o, d') =>
      rw [hx, hy] at ho hR
      simp only at ho hR
      subst ho
      exact hf a d d' hR
  | (.error e, d), (o, d') =>
      rw [hx, hy] at ho hR
      simp only at ho hR
      subst ho
      exact ⟨rfl, hR⟩
  | (.exhausted, d), (o, d') =>
      rw [hx, hy] at ho hR
      simp only at ho hR
      subst ho
      exact ⟨rfl, hR⟩

/-- An outcome worked out without the context comes first. -/
theorem Simulates.after (o : Outcome α) {f g : α → Resolve β}
    (hf : ∀ a, Simulates R (f a) (g a)) :
    Simulates R (ofOutcome o >>= f) (ofOutcome o >>= g) :=
  (Simulates.outcome o).bind hf

theorem Simulates.ite {p : Prop} [Decidable p] {x x' y y' : Resolve α}
    (hx : Simulates R x x') (hy : Simulates R y y') :
    Simulates R (if p then x else y) (if p then x' else y') := by
  split
  · exact hx
  · exact hy

theorem Simulates.read {f : Context → α} (h : ∀ c c', R c c' → f c = f c') :
    Simulates R (Resolve.read f) (Resolve.read f) :=
  fun c c' hc => ⟨congrArg Outcome.ok (h c c' hc), hc⟩

theorem Simulates.modify {f : Context → Context}
    (h : ∀ c c', R c c' → R (f c) (f c')) :
    Simulates R (Resolve.modify f) (Resolve.modify f) :=
  fun c c' hc => ⟨rfl, h c c' hc⟩

end Resolve

namespace Resolver

open Resolve

variable {α : Type}

/-- The resolver that remembers nothing, all else being equal. -/
def forgetting (r : Resolver) : Resolver :=
  { r with config := { r.config with memoizeSupertypes := false } }

theorem forgetting_env (r : Resolver) : r.forgetting.env = r.env := rfl

/-- What the memo holds for a type is what its declarations give afresh, and no
type in it mentions a capture. -/
def MemoSound (r : Resolver) (memo : List (Ty × List Ty)) : Prop :=
  ∀ t supertypes, memo.lookup t = some supertypes →
    t.mentionsCapture = false ∧
      ∀ id, t.head? = some id → r.freshSupertypes id t = .ok supertypes

/-- Two contexts agree on captures and events, and the first has a sound
memo. -/
structure SameButMemo (r : Resolver) (c c' : Context) : Prop where
  captures : c.captures = c'.captures
  events : c.events = c'.events
  memo : r.MemoSound c.memo

theorem memoSound_nil (r : Resolver) : r.MemoSound [] := fun _ _ h => nomatch h

/-! ## The one step that differs -/

/-- The two resolvers are over the same declarations and have the same knob for
lone interfaces. -/
structure Alike (r r' : Resolver) : Prop where
  declarations : r'.env.toDeclarations = r.env.toDeclarations
  implicitTop : r'.config.implicitObjectSupertype =
    r.config.implicitObjectSupertype

theorem Alike.symm {r r' : Resolver} (h : r.Alike r') : r'.Alike r :=
  ⟨h.declarations.symm, h.implicitTop.symm⟩

theorem forgetting_alike (r : Resolver) : r.Alike r.forgetting := ⟨rfl, rfl⟩

theorem Alike.substituteAll {r r' : Resolver} (h : r.Alike r') (via : Ty)
    (own : List TypeVarId) :
    ∀ ts, r'.substituteAll via own ts = r.substituteAll via own ts
  | [] => rfl
  | t :: ts => by
      have hfirst : r'.substituteThrough t via own =
          r.substituteThrough t via own := by
        unfold substituteThrough
        rw [h.declarations]
      rw [Resolver.substituteAll, Resolver.substituteAll, hfirst,
        h.substituteAll via own ts]

theorem Alike.freshSupertypes {r r' : Resolver} (h : r.Alike r')
    (id : ClassId) (t : Ty) :
    r'.freshSupertypes id t = r.freshSupertypes id t := by
  unfold Resolver.freshSupertypes
  rw [h.declarations, h.implicitTop]
  refine bind_congr fun c => ?_
  rw [h.substituteAll]

theorem MemoSound.cons {r : Resolver} {memo : List (Ty × List Ty)}
    (h : r.MemoSound memo) {t : Ty} {id : ClassId} (hid : t.head? = some id)
    {supertypes : List Ty} (hcap : t.mentionsCapture = false)
    (hfresh : r.freshSupertypes id t = .ok supertypes) :
    r.MemoSound ((t, supertypes) :: memo) := by
  intro s ss hs
  rw [List.lookup_cons] at hs
  split at hs
  · next heq =>
      obtain rfl := eq_of_beq heq
      obtain rfl := Option.some.inj hs
      refine ⟨hcap, fun id' hid' => ?_⟩
      obtain rfl := Option.some.inj (hid.symm.trans hid')
      exact hfresh
  · exact h s ss hs

theorem remember_simulates (r : Resolver) {t : Ty} {id : ClassId}
    (hid : t.head? = some id) {supertypes : List Ty}
    (hfresh : r.freshSupertypes id t = .ok supertypes) :
    Simulates r.SameButMemo (r.remember t supertypes) (pure ()) := by
  intro c c' hc
  unfold remember
  split
  · next hcond =>
      have hcap : t.mentionsCapture = false := by
        simp only [Bool.and_eq_true, Bool.not_eq_true'] at hcond
        exact hcond.2
      exact ⟨rfl, hc.captures, hc.events, hc.memo.cons hid hcap hfresh⟩
  · exact ⟨rfl, hc⟩

theorem declaredSupertypes_forgetting (r : Resolver) (id : ClassId) (t : Ty) :
    r.forgetting.declaredSupertypes id t =
      ofOutcome (r.freshSupertypes id t) := by
  funext ctx
  show (liftM (r.forgetting.freshSupertypes id t) >>= fun supertypes =>
    r.forgetting.remember t supertypes >>= fun _ => pure supertypes :
      Resolve (List Ty)) ctx = _
  rw [r.forgetting_alike.freshSupertypes]
  cases r.freshSupertypes id t <;> rfl

/-- Working the supertypes of a type out and then remembering them. -/
theorem afresh_simulates (r : Resolver) {t : Ty} {id : ClassId}
    (hid : t.head? = some id) : Simulates r.SameButMemo
      (ofOutcome (r.freshSupertypes id t) >>= fun supertypes =>
        r.remember t supertypes >>= fun _ => pure supertypes)
      (ofOutcome (r.freshSupertypes id t)) := by
  cases hfresh : r.freshSupertypes id t with
  | ok supertypes =>
      intro c c' hc
      obtain ⟨ho, hR⟩ := remember_simulates r hid hfresh c c' hc
      rw [bind_apply]
      simp only [ofOutcome]
      rw [bind_apply]
      match hm : r.remember t supertypes c with
      | (o, d) =>
          rw [hm] at ho hR
          simp only [pure_apply] at ho hR
          subst ho
          exact ⟨rfl, hR⟩
  | error e => exact fun _ _ hc => ⟨rfl, hc⟩
  | exhausted => exact fun _ _ hc => ⟨rfl, hc⟩

/-- Looking a type up in a sound memo and working its supertypes out afresh come
to the same. -/
theorem declaredSupertypes_simulates (r : Resolver) {t : Ty} {id : ClassId}
    (hid : t.head? = some id) :
    Simulates r.SameButMemo (r.declaredSupertypes id t)
      (r.forgetting.declaredSupertypes id t) := by
  intro c c' hc
  have hafresh := afresh_simulates r hid c c' hc
  rw [declaredSupertypes_forgetting]
  unfold declaredSupertypes remembered
  split
  · rw [bind_apply]
    simp only [Resolve.read]
    cases hlook : c.memo.lookup t with
    | none => exact hafresh
    | some supertypes =>
        obtain ⟨-, hfresh⟩ := hc.memo t supertypes hlook
        rw [hfresh id hid]
        exact ⟨rfl, hc⟩
  · exact hafresh

/-! ## Capture conversion

Nothing here looks at the memo. The two sides run the same steps, and all there
is to see is that the arena they read and write is the same. -/

theorem emit_simulates (r : Resolver) (e : Event) :
    Simulates r.SameButMemo (emit e) (emit e) :=
  .modify fun _ _ hc => ⟨hc.captures, congrArg (·.push e) hc.events, hc.memo⟩

theorem captureDef_simulates (r : Resolver) (id : CaptureId) :
    Simulates r.SameButMemo (captureDef id) (captureDef id) := by
  refine .bind (.read fun c c' hc => ?_) fun found => ?_
  · rw [Context.capture?, Context.capture?, hc.captures]
  · cases found with
    | some c => exact .outcome (.ok c)
    | none => exact .outcome (.error _)

theorem openCapture_simulates (r : Resolver) (v : TypeVarId) (w : Wildcard) :
    Simulates r.SameButMemo (r.openCapture v w)
      (r.forgetting.openCapture v w) := by
  refine .bind (.read fun c c' hc => ?_) fun id =>
    .bind (.modify fun c c' hc => ?_) fun _ => ?_
  · rw [hc.captures]
  · exact ⟨by simp only [hc.captures], hc.events, hc.memo⟩
  · exact .outcome (.ok id)

theorem openArguments_simulates (r : Resolver) : ∀ vs args σ,
    Simulates r.SameButMemo (r.openArguments vs args σ)
      (r.forgetting.openArguments vs args σ)
  | [], _, _ => .outcome (.ok _)
  | _ :: _, [], _ => .outcome (.ok _)
  | v :: vs, arg :: args, σ => by
      cases arg with
      | wildcard upper lower =>
          exact .bind (openCapture_simulates r v _) fun id =>
            .bind (openArguments_simulates r vs args _)
              fun _ => .outcome (.ok _)
      | nominal _ | parameterized _ _ _ | var _ | genericArray _ | capture _ =>
          exact .bind (openArguments_simulates r vs args _)
            fun _ => .outcome (.ok _)

theorem settleCapture_simulates (r : Resolver) (σ : Substitution)
    (id : CaptureId) :
    Simulates r.SameButMemo (r.settleCapture σ id)
      (r.forgetting.settleCapture σ id) :=
  .bind (captureDef_simulates r id) fun c =>
    .after (.ofExcept (r.env.getTypeParam c.typeVar)) fun p =>
      .after (.ofExcept (σ.resolveAll p.upperBounds)) fun declared =>
        .bind (emit_simulates r _) fun _ =>
          .modify fun _ _ hc =>
            ⟨by simp only [hc.captures], hc.events, hc.memo⟩

theorem settleCaptures_simulates (r : Resolver) (σ : Substitution) : ∀ ids,
    Simulates r.SameButMemo (r.settleCaptures σ ids)
      (r.forgetting.settleCaptures σ ids)
  | [] => .outcome (.ok ())
  | id :: ids =>
      .bind (settleCapture_simulates r σ id) fun _ =>
        settleCaptures_simulates r σ ids

theorem captureLevel_simulates (r : Resolver) (id : ClassId) (args : List Ty)
    (owner : Option Ty) :
    Simulates r.SameButMemo (r.captureLevel id args owner)
      (r.forgetting.captureLevel id args owner) := by
  refine .after (.ofExcept (r.env.getClass id)) fun c => ?_
  split
  · exact .after (.ofExcept (bindOwner r.env.toDeclarations owner)) fun σ =>
      .bind (openArguments_simulates r _ _ _) fun opened =>
        .bind (settleCaptures_simulates r _ _) fun _ => .outcome (.ok _)
  · exact .outcome (.error _)

theorem capture_simulates (r : Resolver) : ∀ t,
    Simulates r.SameButMemo (r.capture t) (r.forgetting.capture t)
  | .parameterized id args (some owner) =>
      .bind (capture_simulates r owner) fun _ =>
        captureLevel_simulates r id args _
  | .parameterized id args none => captureLevel_simulates r id args none
  | .nominal _ | .var _ | .wildcard _ _ | .genericArray _ | .capture _ =>
      .outcome (.ok _)

/-! ## Supertypes -/

theorem classSupertypes_simulates (r : Resolver) : ∀ c,
    Simulates r.SameButMemo (r.classSupertypes c)
      (r.forgetting.classSupertypes c)
  | .named _ => declaredSupertypes_simulates r rfl
  | .primitive _ => .outcome (.ok _)
  | .array c => .bind (classSupertypes_simulates r c) fun _ => .outcome (.ok _)

theorem directSupertypes_simulates (r : Resolver) : ∀ t,
    Simulates r.SameButMemo (r.directSupertypes t)
      (r.forgetting.directSupertypes t)
  | .nominal c => classSupertypes_simulates r c
  | .parameterized _ _ _ => declaredSupertypes_simulates r rfl
  | .var v =>
      .after (.ofExcept (r.env.getTypeParam v)) fun _ => .outcome (.ok _)
  | .wildcard _ _ => .outcome (.ok _)
  | .genericArray t =>
      .bind (directSupertypes_simulates r t) fun _ => .outcome (.ok _)
  | .capture id => .bind (captureDef_simulates r id) fun _ => .outcome (.ok _)

theorem firstAnswer_simulates {R : Context → Context → Prop}
    {ask ask' : Ty → Resolve (Option α)}
    (h : ∀ t, Simulates R (ask t) (ask' t)) :
    ∀ ts, Simulates R (firstAnswer ask ts) (firstAnswer ask' ts)
  | [] => .outcome (.ok none)
  | t :: ts => (h t).bind fun found => by
      cases found with
      | some a => exact .outcome (.ok (some a))
      | none => exact firstAnswer_simulates h ts

theorem exactSupertype_simulates (r : Resolver) (target : Class) : ∀ depth t,
    Simulates r.SameButMemo (r.exactSupertype depth t target)
      (r.forgetting.exactSupertype depth t target)
  | 0, _ => .outcome .exhausted
  | depth + 1, t => by
      refine .after (r.settledBy t target) fun settled => ?_
      cases settled with
      | some found => exact .outcome (.ok found)
      | none =>
          exact .bind (directSupertypes_simulates r t) fun ts =>
            firstAnswer_simulates (fun s => .bind (emit_simulates r _) fun _ =>
              exactSupertype_simulates r target depth s) ts

theorem typeArgument_simulates (r : Resolver) (depth : Nat) (t : Ty)
    (v : TypeVarId) :
    Simulates r.SameButMemo (r.typeArgument depth t v)
      (r.forgetting.typeArgument depth t v) := by
  refine .after (.ofExcept (r.env.getTypeParam v)) fun p => ?_
  cases p.declaringClass with
  | none => exact .outcome (.ok none)
  | some id =>
      refine .bind (exactSupertype_simulates r _ depth t) fun view => ?_
      match view with
      | some (.parameterized _ _ _) =>
          exact .after (.ofExcept (r.env.getClass id)) fun _ => .outcome (.ok _)
      | none | some (.nominal _) | some (.var _) | some (.wildcard _ _)
      | some (.genericArray _) | some (.capture _) => exact .outcome (.ok none)

theorem collectEach_simulates {R : Context → Context → Prop}
    {step step' : Ty → List Class → Resolve (List Class)}
    (h : ∀ t found, Simulates R (step t found) (step' t found)) :
    ∀ ts found, Simulates R (collectEach step ts found)
      (collectEach step' ts found)
  | [], _ => .outcome (.ok _)
  | t :: ts, found =>
      (h t found).bind fun found => collectEach_simulates h ts found

theorem collectBounds_simulates (r : Resolver) : ∀ depth t found,
    Simulates r.SameButMemo (r.collectBounds depth t found)
      (r.forgetting.collectBounds depth t found)
  | 0, _, _ => .outcome .exhausted
  | depth + 1, t, found => by
      cases t with
      | nominal _ | parameterized _ _ _ =>
          exact .after (r.env.erase _) fun _ => .outcome (.ok _)
      | var _ | wildcard _ _ | genericArray _ | capture _ =>
          exact .bind (directSupertypes_simulates r _) fun ts =>
            collectEach_simulates (collectBounds_simulates r depth) ts found

/-! ## Subtyping -/

section Comparison

variable {R : Context → Context → Prop}

theorem anyHolds_simulates {test test' : α → Resolve Bool}
    (h : ∀ a, Simulates R (test a) (test' a)) :
    ∀ as, Simulates R (anyHolds test as) (anyHolds test' as)
  | [] => .outcome (.ok false)
  | a :: as => (h a).bind fun holds => by
      cases holds with
      | true => exact .outcome (.ok true)
      | false => exact anyHolds_simulates h as

theorem allHold_simulates {test test' : α → Resolve Bool}
    (h : ∀ a, Simulates R (test a) (test' a)) :
    ∀ as, Simulates R (allHold test as) (allHold test' as)
  | [] => .outcome (.ok true)
  | a :: as => (h a).bind fun holds => by
      cases holds with
      | true => exact allHold_simulates h as
      | false => exact .outcome (.ok false)

variable {isSup isSup' : Ty → Ty → Resolve Bool}

theorem containsBy_simulates (h : ∀ s t, Simulates R (isSup s t) (isSup' s t))
    (outer inner : Ty) :
    Simulates R (containsBy isSup outer inner)
      (containsBy isSup' outer inner) := by
  cases outer with
  | wildcard upper lower =>
      refine (allHold_simulates (fun bound => h bound inner) upper).bind
        fun holds => ?_
      cases holds with
      | true => exact allHold_simulates (fun bound => h inner bound) lower
      | false => exact .outcome (.ok false)
  | nominal _ | parameterized _ _ _ | var _ | genericArray _ | capture _ =>
      exact .outcome (.ok _)

theorem argumentsMatch_simulates
    (h : ∀ s t, Simulates R (isSup s t) (isSup' s t)) (id : ClassId)
    (args : List Ty) (owner : Option Ty) (args' : List Ty)
    (owner' : Option Ty) :
    Simulates R (argumentsMatch isSup id args owner args' owner')
      (argumentsMatch isSup' id args owner args' owner') := by
  unfold argumentsMatch
  split
  · refine (allHold_simulates
      (fun (pair : Ty × Ty) => containsBy_simulates h pair.1 pair.2) _).bind
      fun holds => ?_
    cases holds with
    | false => exact .outcome (.ok false)
    | true =>
        match owner, owner' with
        | some o, some o' => exact h o o'
        | none, _ | some _, none => exact .outcome (.ok true)
  · exact .outcome (.error _)

theorem matchesView_simulates (h : ∀ s t, Simulates R (isSup s t) (isSup' s t))
    (sup found : Ty) :
    Simulates R (matchesView isSup sup found)
      (matchesView isSup' sup found) := by
  unfold matchesView
  split
  · exact .outcome (.ok true)
  · exact .outcome (.ok true)
  · split
    · exact h _ _
    · exact .outcome (.ok false)
  · exact argumentsMatch_simulates h _ _ _ _ _
  · exact .outcome (.ok false)

end Comparison

theorem isSupertype_simulates (r : Resolver) : ∀ depth sup sub,
    Simulates r.SameButMemo (r.isSupertype depth sup sub)
      (r.forgetting.isSupertype depth sup sub)
  | 0, _, _ => .outcome .exhausted
  | depth + 1, sup, sub => by
      have ih := isSupertype_simulates r depth
      cases sup with
      | nominal _ | parameterized _ _ _ | genericArray _ =>
          refine .after (r.env.erase _) fun superClass =>
            .after (r.settledByErasure _ sub superClass) fun settled => ?_
          cases settled with
          | some answer => exact .outcome (.ok answer)
          | none =>
              refine .bind (capture_simulates r sub) fun captured =>
                .bind (exactSupertype_simulates r superClass depth captured)
                  fun found => ?_
              cases found with
              | some view => exact matchesView_simulates ih _ view
              | none => exact .outcome (.ok false)
      | capture id =>
          unfold isSupertype
          dsimp only
          split
          · exact .outcome (.ok true)
          · exact .bind (captureDef_simulates r id) fun c =>
              anyHolds_simulates (fun bound => ih bound sub) c.lower
      | var v =>
          unfold isSupertype
          dsimp only
          split
          · exact .outcome (.ok true)
          · split
            · exact .bind (directSupertypes_simulates r _) fun bounds =>
                anyHolds_simulates (fun bound => ih _ bound) bounds
            · exact .bind (directSupertypes_simulates r _) fun bounds =>
                anyHolds_simulates (fun bound => ih _ bound) bounds
            · exact .outcome (.ok false)
      | wildcard _ _ => exact .outcome (.error _)

theorem contains_simulates (r : Resolver) (depth : Nat) (outer inner : Ty) :
    Simulates r.SameButMemo (r.contains depth outer inner)
      (r.forgetting.contains depth outer inner) :=
  containsBy_simulates (isSupertype_simulates r depth) outer inner

/-! ## Members -/

theorem viewAs_simulates (r : Resolver) (depth : Nat) (declaring : ClassId)
    (owner : Ty) : Simulates r.SameButMemo (r.viewAs depth declaring owner)
      (r.forgetting.viewAs depth declaring owner) := by
  refine .bind (capture_simulates r owner) fun captured =>
    .bind (exactSupertype_simulates r _ depth captured) fun found => ?_
  cases found with
  | some view => exact .outcome (.ok (some view))
  | none => exact .bind (emit_simulates r _) fun _ => .outcome (.ok none)

theorem seenThrough_simulates (r : Resolver) (depth : Nat) (declaring : ClassId)
    (declared owner : Ty) (own : List TypeVarId) :
    Simulates r.SameButMemo (r.seenThrough depth declaring declared owner own)
      (r.forgetting.seenThrough depth declaring declared owner own) := by
  refine .bind (viewAs_simulates r depth declaring owner) fun found => ?_
  cases found with
  | some view => exact .outcome (r.substituteThrough declared view own)
  | none => exact .outcome (.ok declared)

theorem memberType_simulates (r : Resolver) (depth : Nat) (declaring : ClassId)
    (declared owner : Ty) :
    Simulates r.SameButMemo (r.memberType depth declaring declared owner)
      (r.forgetting.memberType depth declaring declared owner) :=
  .ite (.outcome (.ok declared))
    (seenThrough_simulates r depth declaring declared owner [])

theorem fieldType_simulates (r : Resolver) (depth : Nat) (declaring : ClassId)
    (field : FieldDecl) (owner : Ty) :
    Simulates r.SameButMemo (r.fieldType depth declaring field owner)
      (r.forgetting.fieldType depth declaring field owner) :=
  .ite (.outcome (.ok field.type))
    (memberType_simulates r depth declaring field.type owner)

theorem parameterTypes_simulates (r : Resolver) (depth : Nat)
    (declaring : ClassId) (method : MethodDecl) (owner : Ty) :
    Simulates r.SameButMemo (r.parameterTypes depth declaring method owner)
      (r.forgetting.parameterTypes depth declaring method owner) := by
  refine .ite (.outcome (.ok method.params)) ?_
  refine .bind (viewAs_simulates r depth declaring owner) fun found => ?_
  cases found with
  | some view =>
      dsimp only
      rw [r.forgetting_alike.substituteAll]
      exact .outcome (r.substituteAll view method.typeParams method.params)
  | none => exact .outcome (.ok method.params)

theorem returnType_simulates (r : Resolver) (depth : Nat) (declaring : ClassId)
    (method : MethodDecl) (owner : Ty) :
    Simulates r.SameButMemo (r.returnType depth declaring method owner)
      (r.forgetting.returnType depth declaring method owner) := by
  unfold returnType
  cases method.returnType with
  | none => exact .outcome (.ok none)
  | some declared =>
      exact .ite (.outcome (.ok (some declared)))
        (.bind (seenThrough_simulates r depth declaring declared owner _)
          fun _ => .outcome (.ok _))

theorem resolveBound_simulates (r : Resolver) (depth : Nat) (t : Ty) :
    Simulates r.SameButMemo (r.resolveBound depth t)
      (r.forgetting.resolveBound depth t) := by
  cases t with
  | var v =>
      refine .bind (collectBounds_simulates r depth (.var v) [])
        fun bounds => ?_
      match bounds with
      | [c] => exact .outcome (.ok _)
      | [] | _ :: _ :: _ => exact .outcome (.ok _)
  | parameterized id args owner =>
      unfold resolveBound
      dsimp only
      split
      · exact .after (r.env.erase _) fun _ => .outcome (.ok _)
      · exact .outcome (.ok _)
  | nominal _ | wildcard _ _ | genericArray _ | capture _ =>
      exact .outcome (.ok _)

theorem resolveBounds_simulates (r : Resolver) (depth : Nat) : ∀ ts,
    Simulates r.SameButMemo (r.resolveBounds depth ts)
      (r.forgetting.resolveBounds depth ts)
  | [] => .outcome (.ok [])
  | t :: ts =>
      .bind (resolveBound_simulates r depth t) fun _ =>
        .bind (resolveBounds_simulates r depth ts) fun _ => .outcome (.ok _)

theorem boundedReturnType_simulates (r : Resolver) (depth : Nat)
    (declaring : ClassId) (method : MethodDecl) (owner : Ty) :
    Simulates r.SameButMemo (r.boundedReturnType depth declaring method owner)
      (r.forgetting.boundedReturnType depth declaring method owner) := by
  refine .bind (returnType_simulates r depth declaring method owner)
    fun found => ?_
  cases found with
  | some t =>
      exact .bind (resolveBound_simulates r depth t) fun _ => .outcome (.ok _)
  | none => exact .outcome (.ok none)

theorem fieldTypeByName_simulates (r : Resolver) (depth : Nat) (owner : Ty)
    (name : String) :
    Simulates r.SameButMemo (r.fieldTypeByName depth owner name)
      (r.forgetting.fieldTypeByName depth owner name) := by
  unfold fieldTypeByName
  rw [forgetting_env]
  cases ownerClass? owner >>= fun id => r.env.lookupField id name with
  | some found =>
      exact .bind (fieldType_simulates r depth found.1 found.2 owner)
        fun _ => .outcome (.ok _)
  | none => exact .outcome (.ok none)

theorem returnTypeByName_simulates (r : Resolver) (depth : Nat) (owner : Ty)
    (name : String) :
    Simulates r.SameButMemo (r.returnTypeByName depth owner name)
      (r.forgetting.returnTypeByName depth owner name) := by
  unfold returnTypeByName
  rw [forgetting_env]
  cases ownerClass? owner >>= fun id => r.env.lookupMethod id name with
  | some found =>
      exact .bind (returnType_simulates r depth found.1 found.2 owner)
        fun _ => .outcome (.ok _)
  | none => exact .outcome (.ok none)

/-! ## Histories -/

/-- Forgetting everything leaves related contexts, the empty memo being
sound. -/
theorem reset_simulates (r : Resolver) :
    Simulates r.SameButMemo
      (Resolve.modify fun ctx => { ctx with captures := #[], memo := [] })
      (Resolve.modify fun ctx => { ctx with captures := #[], memo := [] }) :=
  .modify fun _ _ hc => ⟨rfl, hc.events, memoSound_nil r⟩

/-- Every request is answered alike with a sound memo and without one. -/
theorem answer_simulates (r : Resolver) (depth : Nat) (q : Request) :
    Simulates r.SameButMemo (r.answer depth q)
      (r.forgetting.answer depth q) := by
  cases q with
  | reset => exact .bind (reset_simulates r) fun _ => .outcome (.ok Answer.done)
  | erase t => exact .after (r.env.erase t) fun _ => .outcome (.ok _)
  | capture t => exact .bind (capture_simulates r t) fun _ => .outcome (.ok _)
  | directSupertypes t =>
      exact .bind (directSupertypes_simulates r t) fun _ => .outcome (.ok _)
  | exactSupertype t target =>
      exact .bind (exactSupertype_simulates r target depth t)
        fun _ => .outcome (.ok _)
  | isRaw c => exact .after (r.env.isRaw c) fun _ => .outcome (.ok _)
  | withWildcards c =>
      exact .after (r.env.withWildcards c) fun _ => .outcome (.ok _)
  | typeArgument t v =>
      exact .bind (typeArgument_simulates r depth t v) fun _ => .outcome (.ok _)
  | boundingClasses t =>
      exact .bind (collectBounds_simulates r depth t [])
        fun _ => .outcome (.ok _)
  | isSupertype sup sub =>
      exact .bind (isSupertype_simulates r depth sup sub)
        fun _ => .outcome (.ok _)
  | contains outer inner =>
      exact .bind (contains_simulates r depth outer inner)
        fun _ => .outcome (.ok _)
  | memberType declaring declared owner =>
      exact .bind (memberType_simulates r depth declaring declared owner)
        fun _ => .outcome (.ok _)
  | fieldType declaring field owner =>
      exact .bind (fieldType_simulates r depth declaring field owner)
        fun _ => .outcome (.ok _)
  | parameterTypes declaring method owner =>
      exact .bind (parameterTypes_simulates r depth declaring method owner)
        fun _ => .outcome (.ok _)
  | returnType declaring method owner =>
      exact .bind (returnType_simulates r depth declaring method owner)
        fun _ => .outcome (.ok _)
  | boundedParameterTypes declaring method owner =>
      exact .bind
        (.bind (parameterTypes_simulates r depth declaring method owner)
          fun ts => resolveBounds_simulates r depth ts)
        fun _ => .outcome (.ok _)
  | boundedReturnType declaring method owner =>
      exact .bind (boundedReturnType_simulates r depth declaring method owner)
        fun _ => .outcome (.ok _)
  | fieldTypeByName owner name =>
      exact .bind (fieldTypeByName_simulates r depth owner name)
        fun _ => .outcome (.ok _)
  | returnTypeByName owner name =>
      exact .bind (returnTypeByName_simulates r depth owner name)
        fun _ => .outcome (.ok _)
  | resolveBound t =>
      exact .bind (resolveBound_simulates r depth t) fun _ => .outcome (.ok _)

/-- The resolver that remembers, all else being equal. -/
def remembering (r : Resolver) : Resolver :=
  { r with config := { r.config with memoizeSupertypes := true } }

/-- What can be seen of a history: for each request, searched no deeper than is
said beside it, its outcome and the arena and events it leaves. -/
def observe (r : Resolver) :
    List (Nat × Request) → Context →
      List (Outcome Answer × Array CaptureDef × Array Event)
  | [], _ => []
  | (depth, q) :: qs, ctx =>
      let (outcome, ctx) := r.answer depth q ctx
      (outcome, ctx.captures, ctx.events) :: r.observe qs ctx

theorem observe_forgetting (r : Resolver) : ∀ qs c c', r.SameButMemo c c' →
    r.observe qs c = r.forgetting.observe qs c'
  | [], _, _, _ => rfl
  | (depth, q) :: qs, c, c', hc => by
      obtain ⟨ho, hR⟩ := answer_simulates r depth q c c' hc
      simp only [observe]
      rw [ho, hR.captures, hR.events, observe_forgetting r qs _ _ hR]

/-- A resolver that remembers supertypes and one that does not give the same
outcome to every request of a history, failures and requests that do not end in
time included, and leave the same arena and the same events after each. -/
theorem observe_remembering (r : Resolver) (qs : List (Nat × Request)) :
    r.remembering.observe qs .empty = r.forgetting.observe qs .empty :=
  observe_forgetting r.remembering qs .empty .empty ⟨rfl, rfl, memoSound_nil _⟩

end Resolver

end GenericTypes
