import GenericTypes.Proofs.Lockstep
import GenericTypes.Proofs.Members

/-!
# Answers do not depend on what was asked before

A resolver that has answered questions holds captures and remembered supertypes.
To a question that mentions no capture neither matters. What is remembered is as
good as worked out afresh, and of the arena only its length shows: what the
question opens is numbered on from there. So a run from any context is the run
from the empty one with every capture counted on (`answer_tracks`), and two runs
differ by the numbers of what they have opened themselves (`answer_renumbered`).

The older captures may be anything, half settled ones of requests that failed
among them, since nothing in the run leads to them.
-/

namespace GenericTypes

open CaptureId

/-- The one context holds what the other does, behind captures and events of its
own, and counted on from there. -/
structure Context.Behind (base : List CaptureDef) (before : List Event)
    (c c' : Context) : Prop where
  captures : c'.captures.toList = base ++
    c.captures.toList.map (·.rename (shift base.length))
  events : c'.events.toList = before ++
    c.events.toList.map (·.rename (shift base.length))

namespace Resolve

variable {α α' : Type}

/-- Behind `base` the one step does what the other does from nothing, the answer
being put into other numbers by `g`. -/
def Tracks (base : List CaptureDef) (before : List Event) (g : α → α')
    (x : Resolve α) (y : Resolve α') : Prop :=
  ∀ c c', c.Behind base before c' →
    (y c').1 = (x c).1.rename (shift base.length) g ∧
    (x c).2.Behind base before (y c').2

end Resolve

namespace Resolver

open Resolve

variable {r : Resolver} {base : List CaptureDef} {before : List Event}

theorem size_behind {c c' : Context} (hc : c.Behind base before c') :
    c'.captures.size = base.length + c.captures.size := by
  simpa using congrArg List.length hc.captures

/-- A context behind another one is looked up, extended and changed as that is,
only as many places later. -/
theorem behind_mirroring :
    Mirroring (shift base.length) (Context.Behind base before) where
  undone := ⟨_, unshift_shift base.length⟩
  found := by
    intro c c' hc i
    rw [Context.capture?, Context.capture?, ← Array.getElem?_toList,
      ← Array.getElem?_toList,
      hc.captures, shift, List.getElem?_append_right (Nat.le_add_right _ _),
      Nat.add_sub_cancel_left, List.getElem?_map]
  next := by
    intro c c' hc
    rw [size_behind hc]
    rfl
  push := by
    intro c c' hc d
    refine ⟨?_, hc.events⟩
    rw [Array.toList_push, Array.toList_push, hc.captures, List.map_append,
      List.append_assoc]
    rfl
  change := by
    intro c c' hc i change change' h
    refine ⟨?_, hc.events⟩
    show (c'.captures.modify (base.length + i.index) change').toList =
      base ++ (c.captures.modify i.index change).toList.map
      (·.rename (shift base.length))
    rw [Array.toList_modify, Array.toList_modify, hc.captures]
    refine (List.modifyTailIdx_add _ i.index base _).trans
      (congrArg (base ++ ·) ?_)
    refine List.ext_getElem? fun j => ?_
    show (List.modify (List.map _ c.captures.toList) i.index change')[j]? = _
    rw [List.getElem?_modify, List.getElem?_map, List.getElem?_map,
      List.getElem?_modify]
    cases c.captures.toList[j]? with
    | none => rfl
    | some d =>
        by_cases hij : i.index = j
        · simp [hij, h]
        · simp [hij]
  emit := by
    intro c c' hc e
    refine ⟨hc.captures, ?_⟩
    rw [Array.toList_push, Array.toList_push, hc.events, List.map_append,
      List.append_assoc]
    rfl

end Resolver

/-! ## Requests -/

namespace Request

/-- The types written in a request. -/
def types : Request → List Ty
  | .reset | .isRaw _ | .withWildcards _ => []
  | .erase t | .capture t | .directSupertypes t | .exactSupertype t _
  | .typeArgument t _ | .boundingClasses t | .resolveBound t => [t]
  | .isSupertype s t | .contains s t => [s, t]
  | .memberType _ declared owner => [declared, owner]
  | .fieldType _ field owner => [field.type, owner]
  | .parameterTypes _ method owner | .returnType _ method owner
  | .boundedParameterTypes _ method owner | .boundedReturnType _ method owner =>
      owner :: method.types
  | .fieldTypeByName owner _ | .returnTypeByName owner _ => [owner]

/-- No capture is written in the request. -/
def CaptureFree (q : Request) : Prop := ∀ t ∈ q.types, t.mentionsCapture = false

instance decidableCaptureFree (q : Request) : Decidable q.CaptureFree :=
  inferInstanceAs (Decidable (∀ t ∈ q.types, t.mentionsCapture = false))

/-- Give every capture in a request another number. -/
def rename (f : CaptureId → CaptureId) : Request → Request
  | .reset => .reset
  | .erase t => .erase (t.rename f)
  | .capture t => .capture (t.rename f)
  | .directSupertypes t => .directSupertypes (t.rename f)
  | .exactSupertype t target => .exactSupertype (t.rename f) target
  | .isRaw c => .isRaw c
  | .withWildcards c => .withWildcards c
  | .typeArgument t v => .typeArgument (t.rename f) v
  | .boundingClasses t => .boundingClasses (t.rename f)
  | .isSupertype sup sub => .isSupertype (sup.rename f) (sub.rename f)
  | .contains outer inner => .contains (outer.rename f) (inner.rename f)
  | .memberType declaring declared owner =>
      .memberType declaring (declared.rename f) (owner.rename f)
  | .fieldType declaring field owner =>
      .fieldType declaring (field.rename f) (owner.rename f)
  | .parameterTypes declaring method owner =>
      .parameterTypes declaring (method.rename f) (owner.rename f)
  | .returnType declaring method owner =>
      .returnType declaring (method.rename f) (owner.rename f)
  | .boundedParameterTypes declaring method owner =>
      .boundedParameterTypes declaring (method.rename f) (owner.rename f)
  | .boundedReturnType declaring method owner =>
      .boundedReturnType declaring (method.rename f) (owner.rename f)
  | .fieldTypeByName owner name => .fieldTypeByName (owner.rename f) name
  | .returnTypeByName owner name => .returnTypeByName (owner.rename f) name
  | .resolveBound t => .resolveBound (t.rename f)

theorem rename_of_plain {f : CaptureId → CaptureId} {q : Request}
    (h : q.CaptureFree) : q.rename f = q := by
  have hsame : ∀ t ∈ q.types, t.rename f = t :=
    fun t ht => Ty.rename_of_plain (h t ht)
  have hmethod : ∀ method : MethodDecl, (∀ t ∈ method.types, t ∈ q.types) →
      method.rename f = method :=
    fun method hm => MethodDecl.rename_of_plain fun t ht => h t (hm t ht)
  cases q with
  | reset | isRaw _ | withWildcards _ => rfl
  | erase _ | capture _ | directSupertypes _ | exactSupertype _ _
  | typeArgument _ _ | boundingClasses _ | resolveBound _ | isSupertype _ _
  | contains _ _ | memberType _ _ _ | fieldTypeByName _ _
  | returnTypeByName _ _ => simp_all [rename, types]
  | fieldType declaring field owner =>
      rw [rename, FieldDecl.rename_of_plain (h _ List.mem_cons_self),
        hsame owner (by simp [types])]
  | parameterTypes _ method owner | returnType _ method owner
  | boundedParameterTypes _ method owner | boundedReturnType _ method owner =>
      rw [rename, hmethod method fun t ht => List.mem_cons_of_mem _ ht,
        hsame owner List.mem_cons_self]

end Request

/-- Give every capture in an answer another number. -/
def Answer.rename (f : CaptureId → CaptureId) : Answer → Answer
  | .done => .done
  | .truth b => .truth b
  | .type t => .type (t.rename f)
  | .types ts => .types (ts.map (·.rename f))
  | .typeIfAny t => .typeIfAny (t.map (·.rename f))
  | .erased c => .erased c
  | .bounds cs => .bounds cs
  | .returned t => .returned (t.map (·.map (·.rename f)))

theorem Answer.rename_comp (f g : CaptureId → CaptureId) :
    Answer.rename g ∘ Answer.rename f = Answer.rename (g ∘ f) := by
  funext a
  cases a <;> simp [rename, Function.comp_def]

theorem Answer.rename_eq_truth {f : CaptureId → CaptureId}
    {a : Answer} {b : Bool} : a.rename f = .truth b ↔ a = .truth b := by
  cases a <;> simp [rename]

namespace Resolver

open Resolve

variable {r : Resolver} {base : List CaptureDef} {before : List Event}

/-- Behind other captures a request is answered as from nothing, counted on. -/
theorem answer_tracks (h : r.env.CaptureFree)
    (hplain : r.config.memoizeSupertypes = false) (depth : Nat) {q : Request}
    (hreset : q ≠ .reset) :
    Tracks base before (Answer.rename (shift base.length)) (r.answer depth q)
      (r.answer depth (q.rename (shift base.length))) := by
  have hR : Mirroring (shift base.length) (Context.Behind base before) :=
    behind_mirroring
  show Mirrors _ _ _ _ _
  cases q with
  | reset => exact absurd rfl hreset
  | erase t =>
      exact .after ((r.env.erase_rename _ t).trans (r.env.erase_renamed _ t))
        fun _ => .pure rfl
  | isRaw c => exact .after (r.env.isRaw_renamed _ c) fun _ => .pure rfl
  | withWildcards c =>
      exact .after (r.env.withWildcards_renamed _ c) fun _ => .pure rfl
  | capture t => exact .bind (capture_mirrors hR h t) fun _ => .pure rfl
  | directSupertypes t =>
      exact .bind (directSupertypes_mirrors hR h hplain t) fun _ => .pure rfl
  | exactSupertype t target =>
      exact .bind (exactSupertype_mirrors hR h hplain target depth t)
        fun _ => .pure rfl
  | typeArgument t v =>
      exact .bind (typeArgument_mirrors hR h hplain depth t v)
        fun _ => .pure rfl
  | boundingClasses t =>
      exact .bind (collectBounds_mirrors hR h hplain depth t [])
        fun _ => .pure rfl
  | isSupertype sup sub =>
      exact .bind (isSupertype_mirrors hR h hplain depth sup sub)
        fun _ => .pure rfl
  | contains outer inner =>
      exact .bind (contains_mirrors hR h hplain depth outer inner)
        fun _ => .pure rfl
  | memberType declaring declared owner =>
      exact .bind (memberType_mirrors hR h hplain depth declaring declared
        owner) fun _ => .pure rfl
  | fieldType declaring field owner =>
      exact .bind (fieldType_mirrors hR h hplain depth declaring field owner)
        fun _ => .pure rfl
  | parameterTypes declaring method owner =>
      exact .bind (parameterTypes_mirrors hR h hplain depth declaring method
        owner) fun _ => .pure rfl
  | returnType declaring method owner =>
      exact .bind (returnType_mirrors hR h hplain depth declaring method owner)
        fun _ => .pure rfl
  | boundedParameterTypes declaring method owner =>
      exact .bind (boundedParameterTypes_mirrors hR h hplain depth declaring
          method owner) fun _ =>
        .pure rfl
  | boundedReturnType declaring method owner =>
      exact .bind (boundedReturnType_mirrors hR h hplain depth declaring method
          owner) fun _ =>
        .pure rfl
  | fieldTypeByName owner name =>
      exact .bind (fieldTypeByName_mirrors hR h hplain depth owner name)
        fun _ => .pure rfl
  | returnTypeByName owner name =>
      exact .bind (returnTypeByName_mirrors hR h hplain depth owner name)
        fun _ => .pure rfl
  | resolveBound t =>
      exact .bind (resolveBound_mirrors hR h hplain depth t) fun _ => .pure rfl

/-! ## Two histories -/

/-- What a request that mentions no capture comes to from a reachable context is
what a forgetful resolver makes of it from nothing, counted on. -/
theorem Reachable.answer_behind {ctx : Context} (hctx : r.Reachable ctx)
    (h : r.env.CaptureFree) {q : Request} (hq : q.CaptureFree)
    (hreset : q ≠ .reset) (depth : Nat) :
    (r.answer depth q ctx).1 = (r.forgetting.answer depth q .empty).1.rename
        (shift ctx.captures.size) (Answer.rename (shift ctx.captures.size)) ∧
      (r.forgetting.answer depth q .empty).2.Behind ctx.captures.toList
        ctx.events.toList (r.answer depth q ctx).2 := by
  obtain ⟨hsame, hleft⟩ := answer_simulates r depth q ctx ctx hctx.sameButMemo
  have hbehind :
      Context.empty.Behind ctx.captures.toList ctx.events.toList ctx :=
    ⟨(List.append_nil _).symm, (List.append_nil _).symm⟩
  obtain ⟨ho, hadded⟩ :=
    answer_tracks (r := r.forgetting) h rfl depth hreset _ _ hbehind
  rw [Request.rename_of_plain hq] at ho hadded
  refine ⟨hsame.trans ho, ?_, ?_⟩
  · rw [hleft.captures, hadded.captures]
  · rw [hleft.events, hadded.events]

/-- At any two points of any two histories a request that mentions no capture
comes to the same end, adds the same captures to the arena and reports the same
events, the captures opened on the way being counted from where each arena
stands; an order to forget everything empties both. A truth value is then the
same in both. -/
theorem answer_renumbered {ctx₁ ctx₂ : Context} {q : Request}
    (h : r.env.CaptureFree) (h₁ : r.Reachable ctx₁) (h₂ : r.Reachable ctx₂)
    (hq : q.CaptureFree) (depth : Nat) :
    (r.answer depth q ctx₂).1 = (r.answer depth q ctx₁).1.rename
        (renumber ctx₁.captures.size ctx₂.captures.size)
        (Answer.rename (renumber ctx₁.captures.size ctx₂.captures.size)) ∧
      (q = .reset → (r.answer depth q ctx₁).2.captures = #[] ∧
        (r.answer depth q ctx₂).2.captures = #[]) ∧
      (q ≠ .reset → ∃ (added : List CaptureDef) (reported : List Event),
        ((r.answer depth q ctx₁).2.captures.toList =
            ctx₁.captures.toList ++ added ∧
          (r.answer depth q ctx₂).2.captures.toList = ctx₂.captures.toList ++
            added.map (·.rename
              (renumber ctx₁.captures.size ctx₂.captures.size))) ∧
        (r.answer depth q ctx₁).2.events.toList =
            ctx₁.events.toList ++ reported ∧
          (r.answer depth q ctx₂).2.events.toList = ctx₂.events.toList ++
            reported.map (·.rename
              (renumber ctx₁.captures.size ctx₂.captures.size))) ∧
      ∀ b, (r.answer depth q ctx₁).1 = .ok (.truth b) ↔
        (r.answer depth q ctx₂).1 = .ok (.truth b) := by
  have houtcome : (r.answer depth q ctx₂).1 = (r.answer depth q ctx₁).1.rename
      (renumber ctx₁.captures.size ctx₂.captures.size)
      (Answer.rename (renumber ctx₁.captures.size ctx₂.captures.size)) := by
    by_cases hreset : q = .reset
    · subst hreset
      rfl
    · rw [(h₁.answer_behind h hq hreset depth).1,
        (h₂.answer_behind h hq hreset depth).1,
        Outcome.rename_rename, Answer.rename_comp, renumber_comp_shift]
  refine ⟨houtcome, ?_, fun hreset => ?_, fun b => ?_⟩
  · rintro rfl
    exact ⟨rfl, rfl⟩
  · -- both have added what a forgetful resolver opens from nothing
    obtain ⟨-, hcaptures₁, hevents₁⟩ := h₁.answer_behind h hq hreset depth
    obtain ⟨-, hcaptures₂, hevents₂⟩ := h₂.answer_behind h hq hreset depth
    simp only [Array.length_toList] at hcaptures₁ hevents₁ hcaptures₂ hevents₂
    refine ⟨_, _, ⟨hcaptures₁, ?_⟩, hevents₁, ?_⟩
    · simp only [hcaptures₂, List.map_map, Function.comp_def,
        CaptureDef.rename_rename,
        ← renumber_comp_shift ctx₁.captures.size ctx₂.captures.size]
    · simp only [hevents₂, List.map_map, Function.comp_def, Event.rename_rename,
        ← renumber_comp_shift ctx₁.captures.size ctx₂.captures.size]
  · rw [houtcome]
    match (r.answer depth q ctx₁).1 with
    | .ok a => simp [Outcome.rename, Answer.rename_eq_truth]
    | .error _ | .exhausted => simp [Outcome.rename]

open TypeStore in
/-- Of `Comparable<?>`, asked for twice, the second conversion differs from the
first by the number of its capture. -/
theorem capture_renumbered_comparable :
    (coreResolver.answer 5 (.capture (Seed.applied Seed.comparable
        [(Wildcard.unbounded Seed.object).toTy]))
      (coreResolver.answer 5 (.capture (Seed.applied Seed.comparable
        [(Wildcard.unbounded Seed.object).toTy])) .empty).2).1 =
      .ok (.type (Seed.applied Seed.comparable [.capture ⟨1⟩])) := by
  have hrun :=
    answer_renumbered (r := coreResolver) core_wellFormed.captureFree .start
      (.step .start 5
        (.capture (Seed.applied Seed.comparable
          [(Wildcard.unbounded Seed.object).toTy])))
      (q := .capture (Seed.applied Seed.comparable
        [(Wildcard.unbounded Seed.object).toTy]))
      (by decide) 5
  exact hrun.1.trans (by decide)

end Resolver

end GenericTypes
