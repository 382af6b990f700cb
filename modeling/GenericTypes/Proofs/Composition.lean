import GenericTypes.Resolver.Request

/-!
# What requests are made of

Apart from the order to forget everything, all that a request does to its
context is done by five kinds of step: it reads, it remembers supertypes, it
reports, it captures a level of a type, or it comes to an end that the context
has no part in. A request puts such steps one after the other
(`answer_composed`), so what each kind of step keeps, and a sequence of two with
it, every request keeps. The depth and the declarations do not matter for that.
-/

namespace GenericTypes

namespace Resolver

open Resolve

/-- A step made of reading, remembering, reporting and capturing. -/
inductive Composed (r : Resolver) : {α : Type} → Resolve α → Prop where
  | outcome {α : Type} (o : Outcome α) : Composed r (ofOutcome o)
  | read {α : Type} (f : Context → α) : Composed r (Resolve.read f)
  | remember (f : Context → List (Ty × List Ty)) :
      Composed r (modify fun ctx => { ctx with memo := f ctx })
  | emit (e : Event) : Composed r (Resolve.emit e)
  | level (id : ClassId) (args : List Ty) (owner : Option Ty) :
      Composed r (r.captureLevel id args owner)
  | bind {α β : Type} {x : Resolve α} {f : α → Resolve β} (hx : Composed r x)
      (hf : ∀ a, Composed r (f a)) : Composed r (x >>= f)

variable {r : Resolver} {α β : Type}

theorem Composed.pure (a : α) : r.Composed (Pure.pure a : Resolve α) :=
  .outcome (.ok a)

/-- An outcome worked out without the context comes first. -/
theorem Composed.after (o : Outcome α) {f : α → Resolve β}
    (hf : ∀ a, r.Composed (f a)) : r.Composed (ofOutcome o >>= f) :=
  (Composed.outcome o).bind hf

theorem Composed.ite {p : Prop} [Decidable p] {x y : Resolve α}
    (hx : r.Composed x) (hy : r.Composed y) :
    r.Composed (if p then x else y) := by
  split
  · exact hx
  · exact hy

theorem captureDef_composed (i : CaptureId) : r.Composed (captureDef i) :=
  .bind (.read _) fun found => by
    cases found with
    | some c => exact .pure c
    | none => exact .outcome _

theorem capture_composed : ∀ t, r.Composed (r.capture t)
  | .parameterized c args (some owner) =>
      .bind (capture_composed owner) fun o => .level c args (some o)
  | .parameterized c args none => .level c args none
  | .nominal _ | .var _ | .wildcard _ _ | .genericArray _ | .capture _ =>
      .pure _

/-! ## Supertypes -/

theorem declaredSupertypes_composed (c : ClassId) (t : Ty) :
    r.Composed (r.declaredSupertypes c t) := by
  refine .bind (.ite (.read _) (.pure none)) fun found => ?_
  cases found with
  | some ts => exact .pure ts
  | none =>
      refine .after (r.freshSupertypes c t) fun ts => .bind ?_ fun _ => .pure ts
      exact .ite (.remember _) (.pure ())

theorem classSupertypes_composed : ∀ c, r.Composed (r.classSupertypes c)
  | .named c => declaredSupertypes_composed c (.named c)
  | .primitive _ => .pure []
  | .array c => .bind (classSupertypes_composed c) fun _ => .pure _

theorem directSupertypes_composed : ∀ t, r.Composed (r.directSupertypes t)
  | .nominal c => classSupertypes_composed c
  | .parameterized c args owner =>
      declaredSupertypes_composed c (.parameterized c args owner)
  | .var v => .after (.ofExcept (r.env.getTypeParam v)) fun _ => .pure _
  | .wildcard upper _ => .pure upper
  | .genericArray t => .bind (directSupertypes_composed t) fun _ => .pure _
  | .capture i => .bind (captureDef_composed i) fun _ => .pure _

theorem firstAnswer_composed {ask : Ty → Resolve (Option α)}
    (hask : ∀ t, r.Composed (ask t)) : ∀ ts, r.Composed (firstAnswer ask ts)
  | [] => .pure none
  | t :: ts => .bind (hask t) fun found => by
      cases found with
      | some a => exact .pure (some a)
      | none => exact firstAnswer_composed hask ts

theorem exactSupertype_composed (target : Class) : ∀ depth t,
    r.Composed (r.exactSupertype depth t target)
  | 0, _ => .outcome .exhausted
  | depth + 1, t => .after (r.settledBy t target) fun settled => by
      cases settled with
      | some found => exact .pure found
      | none =>
          refine .bind (directSupertypes_composed t)
            fun ts => firstAnswer_composed (fun s => ?_) ts
          exact .bind (.emit _) fun _ => exactSupertype_composed target depth s

theorem typeArgument_composed (depth : Nat) (t : Ty) (v : TypeVarId) :
    r.Composed (r.typeArgument depth t v) := by
  refine .after (.ofExcept (r.env.getTypeParam v)) fun p => ?_
  cases p.declaringClass with
  | none => exact .pure none
  | some c =>
      refine .bind (exactSupertype_composed (.named c) depth t) fun found => ?_
      match found with
      | some (.parameterized _ _ _) =>
          exact .after (.ofExcept (r.env.getClass c)) fun _ => .pure _
      | none | some (.nominal _) | some (.var _) | some (.wildcard _ _)
      | some (.genericArray _) | some (.capture _) => exact .pure none

theorem collectEach_composed {step : Ty → List Class → Resolve (List Class)}
    (hstep : ∀ t found, r.Composed (step t found)) :
    ∀ ts found, r.Composed (collectEach step ts found)
  | [], found => .pure found
  | t :: ts, found =>
      .bind (hstep t found) fun found => collectEach_composed hstep ts found

theorem collectBounds_composed :
    ∀ depth t found, r.Composed (r.collectBounds depth t found)
  | 0, _, _ => .outcome .exhausted
  | depth + 1, t, found => by
      cases t with
      | nominal _ | parameterized _ _ _ =>
          exact .after (r.env.erase _) fun _ => .pure _
      | var _ | wildcard _ _ | genericArray _ | capture _ =>
          exact .bind (directSupertypes_composed _) fun ts =>
            collectEach_composed (collectBounds_composed depth) ts found

/-! ## Subtyping -/

theorem anyHolds_composed {test : α → Resolve Bool}
    (htest : ∀ a, r.Composed (test a)) : ∀ as, r.Composed (anyHolds test as)
  | [] => .pure false
  | a :: as => .bind (htest a) fun holds => by
      cases holds with
      | true => exact .pure true
      | false => exact anyHolds_composed htest as

theorem allHold_composed {test : α → Resolve Bool}
    (htest : ∀ a, r.Composed (test a)) : ∀ as, r.Composed (allHold test as)
  | [] => .pure true
  | a :: as => .bind (htest a) fun holds => by
      cases holds with
      | true => exact allHold_composed htest as
      | false => exact .pure false

section

variable {isSup : Ty → Ty → Resolve Bool} (hsup : ∀ s t, r.Composed (isSup s t))

include hsup

theorem containsBy_composed (outer inner : Ty) :
    r.Composed (containsBy isSup outer inner) := by
  cases outer with
  | wildcard upper lower =>
      refine .bind (allHold_composed (fun bound => hsup bound inner) upper)
        fun holds => ?_
      cases holds with
      | true => exact allHold_composed (fun bound => hsup inner bound) lower
      | false => exact .pure false
  | nominal _ | parameterized _ _ _ | var _ | genericArray _ | capture _ =>
      exact .pure _

theorem argumentsMatch_composed (c : ClassId) (args : List Ty)
    (owner : Option Ty) (args' : List Ty) (owner' : Option Ty) :
    r.Composed (argumentsMatch isSup c args owner args' owner') := by
  refine .ite (.bind (allHold_composed (fun pair : Ty × Ty =>
    containsBy_composed hsup pair.1 pair.2) _) fun holds => ?_) (.outcome _)
  cases holds with
  | false => exact .pure false
  | true =>
      match owner, owner' with
      | some o, some o' => exact hsup o o'
      | none, _ | some _, none => exact .pure true

theorem matchesView_composed (sup found : Ty) :
    r.Composed (matchesView isSup sup found) := by
  unfold matchesView
  split
  · exact .pure true
  · exact .pure true
  · split
    · exact hsup _ _
    · exact .pure false
  · exact argumentsMatch_composed hsup _ _ _ _ _
  · exact .pure false

end

theorem isSupertype_composed :
    ∀ depth sup sub, r.Composed (r.isSupertype depth sup sub)
  | 0, _, _ => .outcome .exhausted
  | depth + 1, sup, sub => by
      have ih := isSupertype_composed depth
      cases sup with
      | nominal _ | parameterized _ _ _ | genericArray _ =>
          refine .after (r.env.erase _) fun superClass =>
            .after (r.settledByErasure _ sub superClass) fun settled => ?_
          cases settled with
          | some answer => exact .pure answer
          | none =>
              refine .bind (capture_composed sub) fun captured =>
                .bind (exactSupertype_composed superClass depth captured)
                  fun found => ?_
              cases found with
              | none => exact .pure false
              | some view => exact matchesView_composed ih _ view
      | capture i =>
          exact .ite (.pure true) (.bind (captureDef_composed i) fun c =>
            anyHolds_composed (fun bound => ih bound sub) c.lower)
      | var v =>
          have hbounds : r.Composed (r.directSupertypes sub >>= fun bounds =>
              anyHolds (fun bound => r.isSupertype depth (.var v) bound)
                bounds) :=
            .bind (directSupertypes_composed sub) fun bounds =>
              anyHolds_composed (fun bound => ih (.var v) bound) bounds
          refine .ite (.pure true) ?_
          cases sub with
          | var _ | capture _ => exact hbounds
          | nominal _ | parameterized _ _ _ | wildcard _ _ | genericArray _ =>
              exact .pure false
      | wildcard _ _ => exact .outcome _

theorem contains_composed (depth : Nat) (outer inner : Ty) :
    r.Composed (r.contains depth outer inner) :=
  containsBy_composed (isSupertype_composed depth) outer inner

/-! ## Members -/

theorem viewAs_composed (depth : Nat) (declaring : ClassId) (owner : Ty) :
    r.Composed (r.viewAs depth declaring owner) := by
  refine .bind (capture_composed owner) fun captured =>
    .bind (exactSupertype_composed _ depth captured) fun found => ?_
  cases found with
  | some view => exact .pure (some view)
  | none => exact .bind (.emit _) fun _ => .pure none

theorem seenThrough_composed (depth : Nat) (declaring : ClassId)
    (declared owner : Ty) (own : List TypeVarId) :
    r.Composed (r.seenThrough depth declaring declared owner own) := by
  refine .bind (viewAs_composed depth declaring owner) fun found => ?_
  cases found with
  | some view => exact .outcome (r.substituteThrough declared view own)
  | none => exact .pure declared

theorem memberType_composed (depth : Nat) (declaring : ClassId)
    (declared owner : Ty) :
    r.Composed (r.memberType depth declaring declared owner) :=
  .ite (.pure declared) (seenThrough_composed depth declaring declared owner [])

theorem fieldType_composed (depth : Nat) (declaring : ClassId)
    (field : FieldDecl) (owner : Ty) :
    r.Composed (r.fieldType depth declaring field owner) :=
  .ite (.pure field.type) (memberType_composed depth declaring field.type owner)

theorem parameterTypes_composed (depth : Nat) (declaring : ClassId)
    (method : MethodDecl) (owner : Ty) :
    r.Composed (r.parameterTypes depth declaring method owner) := by
  refine .ite (.pure method.params)
    (.bind (viewAs_composed depth declaring owner) fun found => ?_)
  cases found with
  | some view =>
      exact .outcome (r.substituteAll view method.typeParams method.params)
  | none => exact .pure method.params

theorem returnType_composed (depth : Nat) (declaring : ClassId)
    (method : MethodDecl) (owner : Ty) :
    r.Composed (r.returnType depth declaring method owner) := by
  unfold returnType
  cases method.returnType with
  | none => exact .pure none
  | some declared =>
      exact .ite (.pure _)
        (.bind (seenThrough_composed depth declaring declared owner _)
          fun _ => .pure _)

theorem resolveBound_composed (depth : Nat) (t : Ty) :
    r.Composed (r.resolveBound depth t) := by
  cases t with
  | var v =>
      refine .bind (collectBounds_composed depth (.var v) []) fun bounds => ?_
      match bounds with
      | [_] | [] | _ :: _ :: _ => exact .pure _
  | parameterized _ _ _ =>
      exact .ite (.after (r.env.erase _) fun _ => .pure _) (.pure _)
  | nominal _ | wildcard _ _ | genericArray _ | capture _ => exact .pure _

theorem resolveBounds_composed (depth : Nat) :
    ∀ ts, r.Composed (r.resolveBounds depth ts)
  | [] => .pure []
  | t :: ts => .bind (resolveBound_composed depth t) fun _ =>
      .bind (resolveBounds_composed depth ts) fun _ => .pure _

theorem boundedReturnType_composed (depth : Nat) (declaring : ClassId)
    (method : MethodDecl) (owner : Ty) :
    r.Composed (r.boundedReturnType depth declaring method owner) := by
  refine .bind (returnType_composed depth declaring method owner)
    fun found => ?_
  cases found with
  | some t => exact .bind (resolveBound_composed depth t) fun _ => .pure _
  | none => exact .pure none

theorem fieldTypeByName_composed (depth : Nat) (owner : Ty) (name : String) :
    r.Composed (r.fieldTypeByName depth owner name) := by
  unfold fieldTypeByName
  split
  · exact .bind (fieldType_composed depth _ _ owner) fun _ => .pure _
  · exact .pure none

theorem returnTypeByName_composed (depth : Nat) (owner : Ty) (name : String) :
    r.Composed (r.returnTypeByName depth owner name) := by
  unfold returnTypeByName
  split
  · exact .bind (returnType_composed depth _ _ owner) fun _ => .pure _
  · exact .pure none

/-! ## Requests -/

/-- Every request but a reset is made of such steps. -/
theorem answer_composed (depth : Nat) {q : Request} (hreset : q ≠ .reset) :
    r.Composed (r.answer depth q) := by
  cases q with
  | reset => exact absurd rfl hreset
  | erase t => exact .after (r.env.erase t) fun _ => .pure _
  | isRaw c => exact .after (r.env.isRaw c) fun _ => .pure _
  | withWildcards c => exact .after (r.env.withWildcards c) fun _ => .pure _
  | capture t => exact .bind (capture_composed t) fun _ => .pure _
  | directSupertypes t =>
      exact .bind (directSupertypes_composed t) fun _ => .pure _
  | exactSupertype t target =>
      exact .bind (exactSupertype_composed target depth t) fun _ => .pure _
  | typeArgument t v =>
      exact .bind (typeArgument_composed depth t v) fun _ => .pure _
  | boundingClasses t =>
      exact .bind (collectBounds_composed depth t []) fun _ => .pure _
  | isSupertype sup sub =>
      exact .bind (isSupertype_composed depth sup sub) fun _ => .pure _
  | contains outer inner =>
      exact .bind (contains_composed depth outer inner) fun _ => .pure _
  | memberType declaring declared owner =>
      exact .bind (memberType_composed depth declaring declared owner)
        fun _ => .pure _
  | fieldType declaring field owner =>
      exact .bind (fieldType_composed depth declaring field owner)
        fun _ => .pure _
  | parameterTypes declaring method owner =>
      exact .bind (parameterTypes_composed depth declaring method owner)
        fun _ => .pure _
  | returnType declaring method owner =>
      exact .bind (returnType_composed depth declaring method owner)
        fun _ => .pure _
  | boundedParameterTypes declaring method owner =>
      exact .bind
        (.bind (parameterTypes_composed depth declaring method owner)
          fun ts => resolveBounds_composed depth ts)
        fun _ => .pure _
  | boundedReturnType declaring method owner =>
      exact .bind (boundedReturnType_composed depth declaring method owner)
        fun _ => .pure _
  | fieldTypeByName owner name =>
      exact .bind (fieldTypeByName_composed depth owner name) fun _ => .pure _
  | returnTypeByName owner name =>
      exact .bind (returnTypeByName_composed depth owner name) fun _ => .pure _
  | resolveBound t =>
      exact .bind (resolveBound_composed depth t) fun _ => .pure _

end Resolver

end GenericTypes
