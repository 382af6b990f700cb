import GenericTypes.Proofs.Memo
import GenericTypes.Proofs.Renaming
import GenericTypes.Proofs.Search

/-!
# Two runs in lockstep

A capture is a number, and a run only ever looks captures up, opens new ones at
the end of the arena, settles those and compares types. So it can be played in
another arena where the same captures have other numbers. What the two arenas
must have in common is said once (`Mirroring`): a renaming of captures that can
be undone, and a relation between contexts that every such move in both keeps.
Then the two runs go the same way step by step (`Mirrors`), to the same end
under the renaming, and the contexts they leave are still related.

Nothing is said of what the arenas hold besides. They may have entries in
different places, and entries that the other has not; whatever has a number in
the one arena has its counterpart's number there in the other.
-/

namespace GenericTypes

namespace Resolve

/-- A renaming of captures and a relation between contexts that belong together.
In related contexts the one capture is found under the number that the renaming
gives the other, the number that is next is the renamed one, and what is opened,
changed or reported in both keeps them related. -/
structure Mirroring (f : CaptureId → CaptureId)
    (R : Context → Context → Prop) : Prop where
  undone : Function.HasLeftInverse f
  found : ∀ {c c'}, R c c' →
    ∀ i, c'.capture? (f i) = (c.capture? i).map (·.rename f)
  next : ∀ {c c'}, R c c' →
    (⟨c'.captures.size⟩ : CaptureId) = f ⟨c.captures.size⟩
  push : ∀ {c c'}, R c c' → ∀ d : CaptureDef,
    R { c with captures := c.captures.push d }
      { c' with captures := c'.captures.push (d.rename f) }
  change : ∀ {c c'}, R c c' →
    ∀ (i : CaptureId) {change change' : CaptureDef → CaptureDef},
    (∀ d, change' (d.rename f) = (change d).rename f) →
    R { c with captures := c.captures.modify i.index change }
      { c' with captures := c'.captures.modify (f i).index change' }
  emit : ∀ {c c'}, R c c' → ∀ e : Event,
    R { c with events := c.events.push e }
      { c' with events := c'.events.push (e.rename f) }

variable {α α' β β' : Type} {f : CaptureId → CaptureId}
  {R : Context → Context → Prop} {g : α → α'} {g' : β → β'}

/-- From related contexts the one step does what the other does, the answer
being put into other numbers by `g`, and leaves related contexts. -/
def Mirrors (R : Context → Context → Prop) (f : CaptureId → CaptureId)
    (g : α → α') (x : Resolve α) (y : Resolve α') : Prop :=
  ∀ c c', R c c' → (y c').1 = (x c).1.rename f g ∧ R (x c).2 (y c').2

theorem Mirrors.outcome {x : Outcome α} {y : Outcome α'}
    (h : y = x.rename f g) : Mirrors R f g (ofOutcome x) (ofOutcome y) :=
  fun _ _ hc => ⟨h, hc⟩

theorem Mirrors.pure {a : α} {a' : α'} (h : a' = g a) :
    Mirrors R f g (Pure.pure a) (Pure.pure a') :=
  fun _ _ hc => ⟨congrArg Outcome.ok h, hc⟩

theorem Mirrors.bind {x : Resolve α} {y : Resolve α'} {F : α → Resolve β}
    {F' : α' → Resolve β'} (h : Mirrors R f g x y)
    (hF : ∀ a, Mirrors R f g' (F a) (F' (g a))) :
    Mirrors R f g' (x >>= F) (y >>= F') := by
  intro c c' hc
  obtain ⟨ho, hafter⟩ := h c c' hc
  rw [bind_apply, bind_apply]
  match hx : x c, hy : y c' with
  | (.ok a, d), (o, d') =>
      rw [hx, hy] at ho hafter
      simp only at ho hafter
      subst ho
      exact hF a d d' hafter
  | (.error e, d), (o, d') =>
      rw [hx, hy] at ho hafter
      simp only at ho hafter
      subst ho
      exact ⟨rfl, hafter⟩
  | (.exhausted, d), (o, d') =>
      rw [hx, hy] at ho hafter
      simp only at ho hafter
      subst ho
      exact ⟨rfl, hafter⟩

/-- An outcome worked out without the context comes first. -/
theorem Mirrors.after {x : Outcome α} {y : Outcome α'} {F : α → Resolve β}
    {F' : α' → Resolve β'} (h : y = x.rename f g)
    (hF : ∀ a, Mirrors R f g' (F a) (F' (g a))) :
    Mirrors R f g' (ofOutcome x >>= F) (ofOutcome y >>= F') :=
  (Mirrors.outcome h).bind hF

theorem Mirrors.ite {p p' : Prop} [Decidable p] [Decidable p'] {x y : Resolve α}
    {x' y' : Resolve α'} (hp : p' ↔ p) (hx : Mirrors R f g x x')
    (hy : Mirrors R f g y y') :
    Mirrors R f g (if p then x else y) (if p' then x' else y') := by
  by_cases h : p
  · rw [if_pos h, if_pos (hp.2 h)]
    exact hx
  · rw [if_neg h, if_neg (mt hp.1 h)]
    exact hy

end Resolve

namespace Resolver

open Resolve

variable {α α' : Type} {r : Resolver} {f : CaptureId → CaptureId}
  {R : Context → Context → Prop}

section

variable (hR : Mirroring f R)

include hR

/-! ## Captures -/

theorem emit_mirrors (e : Event) :
    Mirrors R f id (emit e) (emit (e.rename f)) :=
  fun _ _ hc => ⟨rfl, hR.emit hc e⟩

theorem captureDef_mirrors (i : CaptureId) :
    Mirrors R f (·.rename f) (captureDef i) (captureDef (f i)) := by
  intro c c' hc
  unfold captureDef
  rw [bind_apply, bind_apply]
  simp only [Resolve.read]
  rw [hR.found hc]
  cases c.capture? i <;> exact ⟨rfl, hc⟩

theorem openCapture_mirrors (v : TypeVarId) (w : Wildcard) :
    Mirrors R f f (r.openCapture v w) (r.openCapture v (w.rename f)) :=
  fun _ _ hc =>
    ⟨congrArg Outcome.ok (hR.next hc), hR.push hc ⟨w, v, [r.env.top], []⟩⟩

/-- Give every capture in what a first pass returns another number. -/
def renameOpened (f : CaptureId → CaptureId)
    (opened : List Ty × Substitution × List CaptureId) :
    List Ty × Substitution × List CaptureId :=
  (opened.1.map (Ty.rename f), opened.2.1.rename f, opened.2.2.map f)

theorem openArguments_mirrors :
    ∀ (vs : List TypeVarId) (args : List Ty) (σ : Substitution), Mirrors R f
      (renameOpened f) (r.openArguments vs args σ)
        (r.openArguments vs (args.map (Ty.rename f)) (σ.rename f))
  | [], _, _ | _ :: _, [], _ => .pure rfl
  | v :: vs, arg :: args, σ => by
      have hrest : ∀ t : Ty, Mirrors R f (renameOpened f)
          (r.openArguments vs args (σ.bind v t))
          (r.openArguments vs (args.map (Ty.rename f))
            ((σ.rename f).bind v (t.rename f))) := by
        intro t
        rw [← Substitution.rename_bind]
        exact openArguments_mirrors vs args (σ.bind v t)
      cases arg with
      | wildcard upper lower =>
          rw [List.map_cons, Ty.rename, Ty.renameList_eq_map,
            Ty.renameList_eq_map]
          exact .bind (openCapture_mirrors hR v ⟨upper, lower⟩) fun i =>
            (hrest (.capture i)).bind fun _ => .pure rfl
      | nominal _ | parameterized _ _ _ | var _ | genericArray _ | capture _ =>
          exact (hrest _).bind fun _ => .pure rfl

section

variable (h : r.env.CaptureFree)

include h

omit hR in
theorem resolveBounds_rename {f : CaptureId → CaptureId} (σ : Substitution)
    {v : TypeVarId} {p : TypeParamDecl} (hp : r.env.typeParam? v = some p) :
    Outcome.ofExcept ((σ.rename f).resolveAll p.upperBounds) =
      (Outcome.ofExcept (σ.resolveAll p.upperBounds)).rename f
        (List.map (Ty.rename f)) := by
  have hall : Outcome.ofExcept
        ((σ.rename f).resolveAll (p.upperBounds.map (Ty.rename f))) =
      (Outcome.ofExcept (σ.resolveAll p.upperBounds)).rename f
        (List.map (Ty.rename f)) :=
    Substitution.resolveAll_rename fun t _ => Substitution.resolve_rename σ t
  rwa [Ty.map_rename_of_plain (h.bounds hp)] at hall

theorem settleCapture_mirrors (σ : Substitution) (i : CaptureId) :
    Mirrors R f id (r.settleCapture σ i)
      (r.settleCapture (σ.rename f) (f i)) := by
  refine .bind (captureDef_mirrors hR i) fun c => ?_
  cases hp : r.env.typeParam? c.typeVar with
  | none =>
      have hget : r.env.getTypeParam c.typeVar =
          .error (.undeclaredVariable c.typeVar) := by
        rw [Declarations.getTypeParam, hp]
      show Mirrors _ _ _ (liftM (r.env.getTypeParam c.typeVar) >>= _)
        (liftM (r.env.getTypeParam c.typeVar) >>= _)
      rw [hget]
      exact .outcome rfl
  | some p =>
      show Mirrors _ _ _ (liftM (r.env.getTypeParam c.typeVar) >>= _)
        (liftM (r.env.getTypeParam c.typeVar) >>= _)
      rw [Declarations.getTypeParam_eq hp]
      show Mirrors _ _ _
        (ofOutcome (.ofExcept (σ.resolveAll p.upperBounds)) >>= _)
        (ofOutcome (.ofExcept ((σ.rename _).resolveAll p.upperBounds)) >>= _)
      refine .after (resolveBounds_rename h σ hp) fun declared => ?_
      have hmerge := mergeBounds_rename r f declared c.wildcard.upper
      simp only [CaptureDef.rename, Wildcard.rename, hmerge, List.length_map]
      exact .bind (emit_mirrors hR _) fun _ _ _ hc =>
        ⟨rfl, hR.change hc i fun _ => rfl⟩

theorem settleCaptures_mirrors (σ : Substitution) : ∀ ids : List CaptureId,
    Mirrors R f id (r.settleCaptures σ ids)
      (r.settleCaptures (σ.rename f) (ids.map f))
  | [] => .pure rfl
  | i :: ids =>
      .bind (settleCapture_mirrors hR h σ i) fun _ =>
        settleCaptures_mirrors σ ids

theorem captureLevel_mirrors (c : ClassId) (args : List Ty)
    (owner : Option Ty) :
    Mirrors R f (Ty.rename f) (r.captureLevel c args owner)
      (r.captureLevel c (args.map (Ty.rename f))
        (owner.map (Ty.rename f))) := by
  refine .after (r.env.getClass_renamed _ c) fun decl => ?_
  dsimp only [id]
  rw [List.length_map]
  split
  · refine .after (bindOwner_rename _ r.env.toDeclarations owner) fun σ => ?_
    refine .bind (openArguments_mirrors hR decl.typeParams args σ)
      fun opened => ?_
    refine .bind (settleCaptures_mirrors hR h opened.2.1 opened.2.2)
      fun _ => .pure ?_
    simp only [renameOpened, Ty.rename, Ty.renameList_eq_map,
      Ty.renameOwner_eq_map]
  · exact .outcome rfl

theorem capture_mirrors :
    ∀ t : Ty, Mirrors R f (Ty.rename f) (r.capture t) (r.capture (t.rename f))
  | .parameterized c args (some owner) => by
      rw [Ty.rename, Ty.renameList_eq_map]
      exact .bind (capture_mirrors owner) fun o =>
        captureLevel_mirrors hR h c args (some o)
  | .parameterized c args none => by
      rw [Ty.rename, Ty.renameList_eq_map]
      exact captureLevel_mirrors hR h c args none
  | .nominal _ | .var _ | .wildcard _ _ | .genericArray _ | .capture _ =>
      .pure (by
        simp only [Ty.rename, Ty.renameList_eq_map])

/-! ## Supertypes -/

variable (hplain : r.config.memoizeSupertypes = false)

include hplain

omit hR in
theorem declaredSupertypes_mirrors (c : ClassId) (t : Ty) :
    Mirrors R f (List.map (Ty.rename f)) (r.declaredSupertypes c t)
      (r.declaredSupertypes c (t.rename f)) := by
  rw [declaredSupertypes_plain hplain, declaredSupertypes_plain hplain]
  exact .outcome (freshSupertypes_rename _ h c t)

omit hR in
theorem classSupertypes_mirrors : ∀ c : Class,
    Mirrors R f (List.map (Ty.rename f)) (r.classSupertypes c)
      (r.classSupertypes c)
  | .named c => declaredSupertypes_mirrors h hplain c (.named c)
  | .primitive _ => .pure rfl
  | .array c => .bind (classSupertypes_mirrors c) fun ts =>
      .pure (arraySupertypes_rename r _ ts)

theorem directSupertypes_mirrors : ∀ t : Ty,
    Mirrors R f (List.map (Ty.rename f)) (r.directSupertypes t)
      (r.directSupertypes (t.rename f))
  | .nominal c => classSupertypes_mirrors h hplain c
  | .parameterized c args owner =>
      declaredSupertypes_mirrors h hplain c (.parameterized c args owner)
  | .var v => by
      cases hp : r.env.typeParam? v with
      | none =>
          have hget :
              r.env.getTypeParam v = .error (.undeclaredVariable v) := by
            rw [Declarations.getTypeParam, hp]
          rw [Ty.rename, directSupertypes, hget]
          exact .outcome rfl
      | some p =>
          rw [Ty.rename, directSupertypes, Declarations.getTypeParam_eq hp]
          refine .pure ?_
          split
          · rfl
          · exact (Ty.map_rename_of_plain (h.bounds hp)).symm
  | .wildcard upper _ => .pure (Ty.renameList_eq_map _ upper)
  | .genericArray t => .bind (directSupertypes_mirrors t) fun ts =>
      .pure (arraySupertypes_rename r _ ts)
  | .capture i => .bind (captureDef_mirrors hR i) fun _ => .pure rfl

omit hR h hplain in
theorem firstAnswer_mirrors {g : α → α'} {ask : Ty → Resolve (Option α)}
    {ask' : Ty → Resolve (Option α')}
    (hask : ∀ t : Ty, Mirrors R f (Option.map g) (ask t)
      (ask' (t.rename f))) : ∀ ts : List Ty, Mirrors R f (Option.map g)
      (firstAnswer ask ts) (firstAnswer ask' (ts.map (Ty.rename f)))
  | [] => .pure rfl
  | t :: ts => .bind (hask t) fun found => by
      cases found with
      | none => exact firstAnswer_mirrors hask ts
      | some _ => exact .pure rfl

theorem exactSupertype_mirrors (target : Class) : ∀ (depth : Nat) (t : Ty),
    Mirrors R f (Option.map (Ty.rename f)) (r.exactSupertype depth t target)
      (r.exactSupertype depth (t.rename f) target)
  | 0, _ => .outcome rfl
  | depth + 1, t => by
      refine .after (settledBy_rename r _ t target) fun settled => ?_
      cases settled with
      | some _ => exact .pure rfl
      | none =>
          refine .bind (directSupertypes_mirrors hR h hplain t) fun ts => ?_
          exact firstAnswer_mirrors (fun s => .bind (emit_mirrors hR _) fun _ =>
            exactSupertype_mirrors target depth s) ts

theorem typeArgument_mirrors (depth : Nat) (t : Ty) (v : TypeVarId) :
    Mirrors R f (Option.map (Ty.rename f)) (r.typeArgument depth t v)
      (r.typeArgument depth (t.rename f) v) := by
  refine .after (r.env.getTypeParam_renamed _ v) fun p => ?_
  dsimp only [id]
  cases p.declaringClass with
  | none => exact .pure rfl
  | some c =>
      refine .bind (exactSupertype_mirrors hR h hplain (.named c) depth t)
        fun found => ?_
      match found with
      | some (.parameterized _ args _) =>
          refine .after (r.env.getClass_renamed _ c) fun decl => .pure ?_
          simp only [Ty.renameList_eq_map, id]
          cases decl.typeParams.findIdx? (· == v) with
          | none => rfl
          | some place => exact List.getElem?_map
      | none | some (.nominal _) | some (.var _) | some (.wildcard _ _)
      | some (.genericArray _) | some (.capture _) => exact .pure rfl

omit hR h hplain in
theorem collectEach_mirrors {step : Ty → List Class → Resolve (List Class)}
    (hstep : ∀ (t : Ty) (found : List Class), Mirrors R f id (step t found)
      (step (t.rename f) found)) :
    ∀ (ts : List Ty) (found : List Class), Mirrors R f id
      (collectEach step ts found)
        (collectEach step (ts.map (Ty.rename f)) found)
  | [], _ => .pure rfl
  | t :: ts, found =>
      .bind (hstep t found) fun found => collectEach_mirrors hstep ts found

theorem collectBounds_mirrors : ∀ (depth : Nat) (t : Ty) (found : List Class),
    Mirrors R f id (r.collectBounds depth t found)
      (r.collectBounds depth (t.rename f) found)
  | 0, _, _ => .outcome rfl
  | depth + 1, t, found => by
      have hrest : Mirrors R f id
          (r.directSupertypes t >>=
            fun ts => collectEach (r.collectBounds depth) ts found)
          (r.directSupertypes (t.rename f) >>= fun ts =>
            collectEach (r.collectBounds depth) ts found) :=
        .bind (directSupertypes_mirrors hR h hplain t) fun ts =>
          collectEach_mirrors (collectBounds_mirrors depth) ts found
      cases t with
      | nominal _ | parameterized _ _ _ =>
          exact .after (r.env.erase_renamed _ _) fun _ => .pure rfl
      | var _ | wildcard _ _ | genericArray _ | capture _ => exact hrest

/-! ## Subtyping -/

omit hR h hplain in
theorem anyHolds_mirrors {test : α → Resolve Bool} {test' : α' → Resolve Bool}
    {g : α → α'} (htest : ∀ a, Mirrors R f id (test a) (test' (g a))) :
    ∀ as : List α, Mirrors R f id (anyHolds test as) (anyHolds test' (as.map g))
  | [] => .pure rfl
  | a :: as => .bind (htest a) fun holds => by
      cases holds with
      | true => exact .pure rfl
      | false => exact anyHolds_mirrors htest as

omit hR h hplain in
theorem allHold_mirrors {test : α → Resolve Bool} {test' : α' → Resolve Bool}
    {g : α → α'} (htest : ∀ a, Mirrors R f id (test a) (test' (g a))) :
    ∀ as : List α, Mirrors R f id (allHold test as) (allHold test' (as.map g))
  | [] => .pure rfl
  | a :: as => .bind (htest a) fun holds => by
      cases holds with
      | true => exact allHold_mirrors htest as
      | false => exact .pure rfl

section

variable {isSup : Ty → Ty → Resolve Bool}
  (hsup : ∀ s t : Ty, Mirrors R f id (isSup s t)
    (isSup (s.rename f) (t.rename f)))

omit h hplain

include hsup

theorem containsBy_mirrors (outer inner : Ty) :
    Mirrors R f id (containsBy isSup outer inner)
      (containsBy isSup (outer.rename f) (inner.rename f)) := by
  obtain ⟨back, hback⟩ := hR.undone
  have hsame : decide (outer.rename f = inner.rename f) =
      decide (outer = inner) :=
    decide_eq_decide.2 (Ty.rename_inj hback)
  cases outer with
  | wildcard upper lower =>
      rw [Ty.rename, Ty.renameList_eq_map, Ty.renameList_eq_map]
      refine .bind (allHold_mirrors (fun bound => hsup bound inner) upper)
        fun holds => ?_
      cases holds with
      | true => exact allHold_mirrors (fun bound => hsup inner bound) lower
      | false => exact .pure rfl
  | nominal _ | parameterized _ _ _ | var _ | genericArray _ | capture _ =>
      exact .pure hsame

theorem argumentsMatch_mirrors (c : ClassId) (args : List Ty)
    (owner : Option Ty) (args' : List Ty) (owner' : Option Ty) :
    Mirrors R f id (argumentsMatch isSup c args owner args' owner')
      (argumentsMatch isSup c (args.map (Ty.rename f)) (owner.map (Ty.rename f))
        (args'.map (Ty.rename f)) (owner'.map (Ty.rename f))) := by
  unfold argumentsMatch
  rw [List.length_map, List.length_map, List.zip_map]
  split
  · refine .bind
      (allHold_mirrors (fun pair => containsBy_mirrors hR hsup pair.1 pair.2) _)
      fun holds => ?_
    cases holds with
    | false => exact .pure rfl
    | true =>
        match owner, owner' with
        | some o, some o' => exact hsup o o'
        | none, _ | some _, none => exact .pure rfl
  · exact .outcome rfl

theorem matchesView_mirrors (sup found : Ty) :
    Mirrors R f id (matchesView isSup sup found)
      (matchesView isSup (sup.rename f) (found.rename f)) := by
  cases sup with
  | nominal _ => exact .pure rfl
  | parameterized c args owner =>
      cases found with
      | parameterized c' args' owner' =>
          simp only [Ty.rename, Ty.renameList_eq_map, Ty.renameOwner_eq_map]
          exact argumentsMatch_mirrors hR hsup c args owner args' owner'
      | nominal _ | var _ | wildcard _ _ | genericArray _ | capture _ =>
          exact .pure rfl
  | genericArray k =>
      cases found with
      | genericArray k' => exact hsup k k'
      | nominal _ | parameterized _ _ _ | var _ | wildcard _ _ | capture _ =>
          exact .pure rfl
  | var _ | wildcard _ _ | capture _ => cases found <;> exact .pure rfl

end

theorem isSupertype_mirrors : ∀ (depth : Nat) (sup sub : Ty),
    Mirrors R f id (r.isSupertype depth sup sub)
      (r.isSupertype depth (sup.rename f) (sub.rename f))
  | 0, _, _ => .outcome rfl
  | depth + 1, sup, sub => by
      have ih := isSupertype_mirrors depth
      obtain ⟨back, hback⟩ := hR.undone
      have hself : sup.rename f = sub.rename f ↔
          sup = sub := Ty.rename_inj hback
      cases sup with
      | nominal _ | parameterized _ _ _ | genericArray _ =>
          refine .after ((r.env.erase_rename _ _).trans
              (r.env.erase_renamed _ _))
            fun superClass => ?_
          refine .after (settledByErasure_rename r _ _ sub superClass)
            fun settled => ?_
          cases settled with
          | some _ => exact .pure rfl
          | none =>
              refine .bind (capture_mirrors hR h sub) fun captured => ?_
              refine .bind (exactSupertype_mirrors hR h hplain superClass
                  depth captured)
                fun found => ?_
              cases found with
              | none => exact .pure rfl
              | some view => exact matchesView_mirrors hR ih _ view
      | capture i =>
          refine .ite hself (.pure rfl)
            (.bind (captureDef_mirrors hR i) fun c => ?_)
          exact anyHolds_mirrors (fun bound => ih bound sub) c.lower
      | var v =>
          refine .ite hself (.pure rfl) ?_
          have hbounds : Mirrors R f id
              (r.directSupertypes sub >>= fun bounds =>
                anyHolds (fun bound => r.isSupertype depth
                  (.var v) bound) bounds)
              (r.directSupertypes (sub.rename f) >>= fun bounds =>
                anyHolds (fun bound => r.isSupertype depth (.var v) bound)
                  bounds) :=
            .bind (directSupertypes_mirrors hR h hplain sub) fun bounds =>
              anyHolds_mirrors (fun bound => ih (.var v) bound) bounds
          cases sub with
          | var _ | capture _ => exact hbounds
          | nominal _ | parameterized _ _ _ | wildcard _ _ | genericArray _ =>
              exact .pure rfl
      | wildcard _ _ => exact .outcome rfl

theorem contains_mirrors (depth : Nat) (outer inner : Ty) :
    Mirrors R f id (r.contains depth outer inner)
      (r.contains depth (outer.rename f)
        (inner.rename f)) :=
  containsBy_mirrors hR (isSupertype_mirrors hR h hplain depth) outer inner

/-! ## Members -/

theorem viewAs_mirrors (depth : Nat) (declaring : ClassId) (owner : Ty) :
    Mirrors R f (Option.map (Ty.rename f)) (r.viewAs depth declaring owner)
      (r.viewAs depth declaring (owner.rename f)) := by
  refine .bind (capture_mirrors hR h owner) fun captured => ?_
  refine .bind (exactSupertype_mirrors hR h hplain _ depth captured)
    fun found => ?_
  cases found with
  | some _ => exact .pure rfl
  | none => exact .bind (emit_mirrors hR _) fun _ => .pure rfl

theorem seenThrough_mirrors (depth : Nat) (declaring : ClassId)
    (declared owner : Ty) (own : List TypeVarId) : Mirrors R f (Ty.rename f)
      (r.seenThrough depth declaring declared owner own)
      (r.seenThrough depth declaring (declared.rename f)
        (owner.rename f) own) := by
  refine .bind (viewAs_mirrors hR h hplain depth declaring owner)
    fun found => ?_
  cases found with
  | some view => exact .outcome (substituteThrough_rename r _ declared view own)
  | none => exact .pure rfl

theorem memberType_mirrors (depth : Nat) (declaring : ClassId)
    (declared owner : Ty) :
    Mirrors R f (Ty.rename f) (r.memberType depth declaring declared owner)
      (r.memberType depth declaring (declared.rename f) (owner.rename f)) :=
  .ite .rfl (.pure rfl)
    (seenThrough_mirrors hR h hplain depth declaring declared owner [])

theorem fieldType_mirrors (depth : Nat) (declaring : ClassId)
    (field : FieldDecl) (owner : Ty) :
    Mirrors R f (Ty.rename f) (r.fieldType depth declaring field owner)
      (r.fieldType depth declaring (field.rename f) (owner.rename f)) :=
  .ite .rfl (.pure rfl)
    (memberType_mirrors hR h hplain depth declaring field.type owner)

theorem parameterTypes_mirrors (depth : Nat) (declaring : ClassId)
    (method : MethodDecl) (owner : Ty) : Mirrors R f (List.map (Ty.rename f))
      (r.parameterTypes depth declaring method owner)
      (r.parameterTypes depth declaring (method.rename f)
        (owner.rename f)) := by
  refine .ite .rfl (.pure rfl) ?_
  refine .bind (viewAs_mirrors hR h hplain depth declaring owner)
    fun found => ?_
  cases found with
  | some view =>
      exact .outcome (substituteAll_rename r _ view method.typeParams
        method.params)
  | none => exact .pure rfl

theorem returnType_mirrors (depth : Nat) (declaring : ClassId)
    (method : MethodDecl) (owner : Ty) :
    Mirrors R f (Option.map (Ty.rename f))
      (r.returnType depth declaring method owner)
        (r.returnType depth declaring (method.rename f) (owner.rename f)) := by
  unfold returnType MethodDecl.rename
  cases method.returnType with
  | none => exact .pure rfl
  | some declared =>
      exact .ite .rfl (.pure rfl)
        ((seenThrough_mirrors hR h hplain depth declaring declared owner _).bind
          fun _ => .pure rfl)

theorem resolveBound_mirrors (depth : Nat) (t : Ty) :
    Mirrors R f (Ty.rename f) (r.resolveBound depth t)
      (r.resolveBound depth (t.rename f)) := by
  cases t with
  | var v =>
      refine .bind (collectBounds_mirrors hR h hplain depth (.var v) [])
        fun bounds => ?_
      match bounds with
      | [_] | [] | _ :: _ :: _ => exact .pure rfl
  | parameterized c args owner =>
      have hvars : (args.map (Ty.rename f)).any Ty.isVar =
          args.any Ty.isVar := by
        rw [List.any_map]
        exact congrArg args.any (funext fun t => Ty.isVar_rename _ t)
      rw [Ty.rename, Ty.renameList_eq_map]
      refine .ite (by rw [hvars]) (.after (r.env.erase_renamed _ _)
        fun _ => .pure rfl) (.pure ?_)
      simp only [Ty.rename, Ty.renameList_eq_map]
  | nominal _ | wildcard _ _ | genericArray _ | capture _ => exact .pure rfl

theorem resolveBounds_mirrors (depth : Nat) : ∀ ts : List Ty,
    Mirrors R f (List.map (Ty.rename f)) (r.resolveBounds depth ts)
      (r.resolveBounds depth (ts.map (Ty.rename f)))
  | [] => .pure rfl
  | t :: ts => .bind (resolveBound_mirrors hR h hplain depth t) fun _ =>
      .bind (resolveBounds_mirrors depth ts) fun _ => .pure rfl

theorem boundedParameterTypes_mirrors (depth : Nat) (declaring : ClassId)
    (method : MethodDecl) (owner : Ty) : Mirrors R f (List.map (Ty.rename f))
      (r.boundedParameterTypes depth declaring method owner)
      (r.boundedParameterTypes depth declaring (method.rename f)
        (owner.rename f)) :=
  .bind (parameterTypes_mirrors hR h hplain depth declaring method owner)
    fun ts => resolveBounds_mirrors hR h hplain depth ts

theorem boundedReturnType_mirrors (depth : Nat) (declaring : ClassId)
    (method : MethodDecl) (owner : Ty) : Mirrors R f (Option.map (Ty.rename f))
      (r.boundedReturnType depth declaring method owner)
      (r.boundedReturnType depth declaring (method.rename f)
        (owner.rename f)) := by
  refine .bind (returnType_mirrors hR h hplain depth declaring method owner)
    fun found => ?_
  cases found with
  | some t =>
      exact .bind (resolveBound_mirrors hR h hplain depth t) fun _ => .pure rfl
  | none => exact .pure rfl

omit hR h hplain in
theorem ownerClass?_rename (f : CaptureId → CaptureId) (t : Ty) :
    ownerClass? (t.rename f) = ownerClass? t := by
  cases t <;> rfl

omit hR h hplain in
/-- A member that is found is declared somewhere. -/
theorem exists_class_of_lookup {d : Declarations} {start c : ClassId}
    {find : ClassDecl → Option α} {member : α}
    (hfound : d.lookup start find = some (c, member)) :
    ∃ decl, d.class? c = some decl ∧ find decl = some member := by
  obtain ⟨c', -, hc'⟩ := List.exists_of_findSome?_eq_some hfound
  simp only [Option.bind_eq_bind, Option.bind_eq_some_iff, Option.pure_def,
    Option.some.injEq, Prod.mk.injEq] at hc'
  obtain ⟨decl, hdecl, m, hm, rfl, rfl⟩ := hc'
  exact ⟨decl, hdecl, hm⟩

theorem fieldTypeByName_mirrors (depth : Nat) (owner : Ty) (name : String) :
    Mirrors R f (Option.map (Ty.rename f)) (r.fieldTypeByName depth owner name)
      (r.fieldTypeByName depth (owner.rename f) name) := by
  unfold fieldTypeByName
  rw [ownerClass?_rename]
  cases hfound : ownerClass? owner >>= fun id => r.env.lookupField id name with
  | none => exact .pure rfl
  | some found =>
      obtain ⟨c, -, hlookup⟩ := Option.bind_eq_some_iff.1 hfound
      obtain ⟨decl, hdecl, hfield⟩ := exists_class_of_lookup hlookup
      have hplainField : found.2.rename f = found.2 :=
        FieldDecl.rename_of_plain (h.classes hdecl _ (List.mem_append_left _
          (List.mem_append_right _
            (List.mem_map_of_mem (List.mem_of_find?_eq_some hfield)))))
      have hfieldType : Mirrors R f (Ty.rename f)
          (r.fieldType depth found.1 found.2 owner)
          (r.fieldType depth found.1 (found.2.rename f)
            (owner.rename f)) :=
        fieldType_mirrors hR h hplain depth found.1 found.2 owner
      rw [hplainField] at hfieldType
      exact hfieldType.bind fun _ => .pure rfl

theorem returnTypeByName_mirrors (depth : Nat) (owner : Ty) (name : String) :
    Mirrors R f (Option.map (Option.map (Ty.rename f)))
      (r.returnTypeByName depth owner name)
        (r.returnTypeByName depth (owner.rename f) name) := by
  unfold returnTypeByName
  rw [ownerClass?_rename]
  cases hfound : ownerClass? owner >>= fun id => r.env.lookupMethod id name with
  | none => exact .pure rfl
  | some found =>
      obtain ⟨c, -, hlookup⟩ := Option.bind_eq_some_iff.1 hfound
      obtain ⟨decl, hdecl, hmethod⟩ := exists_class_of_lookup hlookup
      have hplainMethod : found.2.rename f = found.2 :=
        MethodDecl.rename_of_plain fun t ht => h.classes hdecl t
          (List.mem_append_right _
            (List.mem_flatMap.2
              ⟨found.2, List.mem_of_find?_eq_some hmethod, ht⟩))
      have hreturnType : Mirrors R f (Option.map (Ty.rename f))
          (r.returnType depth found.1 found.2 owner)
          (r.returnType depth found.1 (found.2.rename f)
            (owner.rename f)) :=
        returnType_mirrors hR h hplain depth found.1 found.2 owner
      rw [hplainMethod] at hreturnType
      exact hreturnType.bind fun _ => .pure rfl

end

end

end Resolver

end GenericTypes
