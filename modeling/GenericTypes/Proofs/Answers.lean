import GenericTypes.Proofs.Independence
import GenericTypes.Proofs.Provenance

/-!
# Whatever is returned and stored has the property of what was handed in

The rest of the way from the single steps to the requests, and from requests to
histories. Member types come of a search and a substitution; a member found by
its name brings in a declared type as well. A request other than a reset then
answers with types that have the property and stores no others
(`answer_yields`), and by induction so it is along every history of requests
about such types (`ReachedWith.holds`).
-/

namespace GenericTypes

/-- The types in an answer. -/
def Answer.allTypes : Answer → List Ty
  | .type t => [t]
  | .types ts => ts
  | .typeIfAny t => t.toList
  | .returned t => t.join.toList
  | .done | .truth _ | .erased _ | .bounds _ => []

namespace Resolver

open Resolve Declarations

variable {α : Type} {r : Resolver} {P : Nat → Ty → Prop} {n : Nat} {t : Ty}

section

variable (h : Hereditary P) (hdecl : r.env.toDeclarations.Throughout (P 0))

include h hdecl

/-! ## Members -/

theorem viewAs_yields (depth : Nat) (declaring : ClassId) {owner : Ty}
    (howner : P n owner) :
    r.Yields P n (fun m found => ∀ g ∈ found, P m g)
      (r.viewAs depth declaring owner) := by
  refine (capture_yields h hdecl howner).bind fun m captured _ hcaptured => ?_
  refine (exactSupertype_yields h hdecl _ depth hcaptured).bind
    fun m' found _ hfound => ?_
  cases found with
  | some view => exact .pure fun _ hle g hg => h.mono hle (hfound g hg)
  | none => exact (emit_yields _).bind fun _ _ _ _ => .pure fun _ _ => nofun

theorem seenThrough_yields (depth : Nat) (declaring : ClassId)
    {declared owner : Ty} (hdeclared : P n declared) (howner : P n owner)
    (own : List TypeVarId) :
    r.Yields P n P (r.seenThrough depth declaring declared owner own) := by
  refine (viewAs_yields h hdecl depth declaring howner).bind
    fun m found hle hfound => ?_
  cases found with
  | some view =>
      exact .outcome fun _ hle' => h.substituteThrough r
        (h.mono (Nat.le_trans hle hle') hdeclared)
        (h.mono hle' (hfound view rfl))
        (fun _ => h.mono hle' (hfound view rfl)) own
  | none => exact .pure fun _ hle' => h.mono (Nat.le_trans hle hle') hdeclared

theorem memberType_yields (depth : Nat) (declaring : ClassId)
    {declared owner : Ty} (hdeclared : P n declared) (howner : P n owner) :
    r.Yields P n P (r.memberType depth declaring declared owner) := by
  unfold memberType
  split
  · exact .pure fun _ hle => h.mono hle hdeclared
  · exact seenThrough_yields h hdecl depth declaring hdeclared howner []

theorem fieldType_yields (depth : Nat) (declaring : ClassId)
    {field : FieldDecl} {owner : Ty} (hfield : P n field.type)
    (howner : P n owner) :
    r.Yields P n P (r.fieldType depth declaring field owner) := by
  unfold fieldType
  split
  · exact .pure fun _ hle => h.mono hle hfield
  · exact memberType_yields h hdecl depth declaring hfield howner

theorem parameterTypes_yields (depth : Nat) (declaring : ClassId)
    {method : MethodDecl} {owner : Ty} (hmethod : ∀ t ∈ method.types, P n t)
    (howner : P n owner) :
    r.Yields P n (fun m ts => ∀ t ∈ ts, P m t)
      (r.parameterTypes depth declaring method owner) := by
  have hparams : ∀ {m}, n ≤ m → ∀ t ∈ method.params, P m t := fun hle t ht =>
    h.mono hle (hmethod t (List.mem_append_left _ ht))
  unfold parameterTypes
  split
  · exact .pure fun _ hle => hparams hle
  · refine (viewAs_yields h hdecl depth declaring howner).bind
      fun m found hle hfound => ?_
    cases found with
    | some view =>
        exact .outcome fun _ hle' =>
          h.substituteAll r (h.mono hle' (hfound view rfl))
            (fun _ => h.mono hle' (hfound view rfl)) _
            (hparams (Nat.le_trans hle hle'))
    | none => exact .pure fun _ hle' => hparams (Nat.le_trans hle hle')

theorem returnType_yields (depth : Nat) (declaring : ClassId)
    {method : MethodDecl} {owner : Ty} (hmethod : ∀ t ∈ method.types, P n t)
    (howner : P n owner) :
    r.Yields P n (fun m found => ∀ t ∈ found, P m t)
      (r.returnType depth declaring method owner) := by
  unfold returnType
  cases hreturn : method.returnType with
  | none => exact .pure fun _ _ => nofun
  | some declared =>
      have hdeclared : P n declared :=
        hmethod declared (List.mem_append_right _ (by simp [hreturn]))
      dsimp only
      split
      · exact .pure fun _ hle t ht => Option.some.inj ht ▸ h.mono hle hdeclared
      · exact (seenThrough_yields h hdecl depth declaring hdeclared
            howner _).bind
          fun _ s _ hs =>
            .pure fun _ hle t ht => Option.some.inj ht ▸ h.mono hle hs

theorem resolveBound_yields (depth : Nat) (ht : P n t) :
    r.Yields P n P (r.resolveBound depth t) := by
  cases t with
  | var v =>
      refine (collectBounds_yields h hdecl depth ht []).bind
        fun m bounds _ _ => ?_
      match bounds with
      | [_] | [] | _ :: _ :: _ => exact .pure fun _ _ => h.nominal _ _
  | parameterized id args owner =>
      unfold resolveBound
      dsimp only
      split
      · exact (Yields.outcome fun _ _ =>
            Hereditary.erase_satisfies r.env.toDeclarations _).bind
          fun _ _ _ _ => .pure fun _ _ => h.nominal _ _
      · exact .pure fun _ hle => h.mono hle ht
  | nominal _ | wildcard _ _ | genericArray _ | capture _ =>
      exact .pure fun _ hle => h.mono hle ht

theorem resolveBounds_yields (depth : Nat) :
    ∀ {n : Nat} {ts : List Ty}, (∀ t ∈ ts, P n t) →
    r.Yields P n (fun m ts => ∀ t ∈ ts, P m t) (r.resolveBounds depth ts)
  | _, [], _ => .pure fun _ _ => nofun
  | n, t :: ts, hts => by
      refine (resolveBound_yields h hdecl depth (hts t List.mem_cons_self)).bind
        fun m s hle hs => ?_
      refine (resolveBounds_yields depth fun u hu =>
        h.mono hle (hts u (List.mem_cons_of_mem t hu))).bind
          fun m' ss hle' hss => ?_
      exact .pure fun _ hle'' => List.forall_mem_cons.2
        ⟨h.mono (Nat.le_trans hle' hle'') hs,
          fun u hu => h.mono hle'' (hss u hu)⟩

theorem boundedReturnType_yields (depth : Nat) (declaring : ClassId)
    {method : MethodDecl} {owner : Ty} (hmethod : ∀ t ∈ method.types, P n t)
    (howner : P n owner) : r.Yields P n (fun m found => ∀ t ∈ found, P m t)
      (r.boundedReturnType depth declaring method owner) := by
  refine (returnType_yields h hdecl depth declaring hmethod howner).bind
    fun m found _ hfound => ?_
  cases found with
  | some t =>
      exact (resolveBound_yields h hdecl depth (hfound t rfl)).bind
        fun _ s _ hs =>
          .pure fun _ hle t ht => Option.some.inj ht ▸ h.mono hle hs
  | none => exact .pure fun _ _ => nofun

theorem fieldTypeByName_yields (depth : Nat) {owner : Ty} (howner : P n owner)
    (name : String) :
    r.Yields P n (fun m found => ∀ t ∈ found, P m t)
      (r.fieldTypeByName depth owner name) := by
  unfold fieldTypeByName
  split
  · next declaring field hfound =>
      obtain ⟨c, -, hlookup⟩ := Option.bind_eq_some_iff.1 hfound
      obtain ⟨decl, hclass, hfield⟩ := exists_class_of_lookup hlookup
      have htype : field.type ∈ decl.types := List.mem_append_left _
        (List.mem_append_right _
          (List.mem_map_of_mem (List.mem_of_find?_eq_some hfield)))
      exact (fieldType_yields h hdecl depth declaring
        (h.mono (Nat.zero_le n) (hdecl.classes hclass _ htype)) howner).bind
        fun _ s _ hs =>
          .pure fun _ hle t ht => Option.some.inj ht ▸ h.mono hle hs
  · exact .pure fun _ _ => nofun

theorem returnTypeByName_yields (depth : Nat) {owner : Ty} (howner : P n owner)
    (name : String) :
    r.Yields P n (fun m found => ∀ t ∈ found.join, P m t)
      (r.returnTypeByName depth owner name) := by
  unfold returnTypeByName
  split
  · next declaring method hfound =>
      obtain ⟨c, -, hlookup⟩ := Option.bind_eq_some_iff.1 hfound
      obtain ⟨decl, hclass, hmethod⟩ := exists_class_of_lookup hlookup
      have htypes : ∀ t ∈ method.types, P n t := fun t ht =>
        h.mono (Nat.zero_le n) (hdecl.classes hclass t (List.mem_append_right _
          (List.mem_flatMap.2 ⟨method, List.mem_of_find?_eq_some hmethod, ht⟩)))
      exact (returnType_yields h hdecl depth declaring htypes howner).bind
        fun _ found _ hfound => .pure fun _ hle t ht => h.mono hle (hfound t ht)
  · exact .pure fun _ _ => nofun

/-! ## Requests -/

omit h hdecl in
theorem forall_mem_pair {T : Ty → Prop} {s t : Ty}
    (hboth : ∀ u ∈ [s, t], T u) : T s ∧ T t :=
  ⟨hboth s List.mem_cons_self,
    hboth t (List.mem_cons_of_mem _ (List.mem_singleton_self t))⟩

/-! How a step that yields types is made an answer of. -/

omit hdecl in
theorem type_yields {x : Resolve Ty} (hx : r.Yields P n P x) :
    r.Yields P n (fun m a => ∀ t ∈ a.allTypes, P m t)
      (x >>= fun t => pure (Answer.type t)) :=
  hx.bind fun _ _ _ hs =>
    .pure fun _ hle _ ht => List.mem_singleton.1 ht ▸ h.mono hle hs

omit hdecl in
theorem types_yields {x : Resolve (List Ty)}
    (hx : r.Yields P n (fun m ts => ∀ t ∈ ts, P m t) x) :
    r.Yields P n (fun m a => ∀ t ∈ a.allTypes, P m t)
      (x >>= fun ts => pure (Answer.types ts)) :=
  hx.bind fun _ _ _ hss => .pure fun _ hle t ht => h.mono hle (hss t ht)

omit hdecl in
theorem typeIfAny_yields {x : Resolve (Option Ty)}
    (hx : r.Yields P n (fun m found => ∀ t ∈ found, P m t) x) :
    r.Yields P n (fun m a => ∀ t ∈ a.allTypes, P m t)
      (x >>= fun t => pure (Answer.typeIfAny t)) :=
  hx.bind fun _ _ _ hfound => .pure fun _ hle t ht =>
    h.mono hle (hfound t (Option.mem_toList.1 ht))

omit h hdecl in
theorem bare_yields {x : Resolve α} {f : α → Answer} (hx : r.YieldsBare P n x)
    (hf : ∀ a, (f a).allTypes = []) :
    r.Yields P n (fun m a => ∀ t ∈ a.allTypes, P m t)
      (x >>= fun a => pure (f a)) :=
  hx.bind fun _ a _ _ =>
    .pure fun _ _ _ ht => absurd (hf a ▸ ht) List.not_mem_nil

/-- Every request but a reset answers with types that have the property, and
stores no others, if it is asked about such types. -/
theorem answer_yields (depth : Nat) {q : Request} (hreset : q ≠ .reset)
    (hq : ∀ t ∈ q.types, P n t) :
    r.Yields P n (fun m a => ∀ t ∈ a.allTypes, P m t) (r.answer depth q) := by
  cases q with
  | reset => exact absurd rfl hreset
  | erase t =>
      exact bare_yields (.outcome fun _ _ => Hereditary.erase_satisfies _ t)
        fun _ => rfl
  | isRaw c =>
      exact bare_yields (.outcome fun _ _ => Hereditary.isRaw_satisfies _ c)
        fun _ => rfl
  | withWildcards c =>
      exact type_yields h (.outcome fun _ _ => h.withWildcards _ c)
  | capture t =>
      exact type_yields h (capture_yields h hdecl (hq t List.mem_cons_self))
  | directSupertypes t =>
      exact types_yields h
        (directSupertypes_yields h hdecl (hq t List.mem_cons_self))
  | exactSupertype t target =>
      exact typeIfAny_yields h
        (exactSupertype_yields h hdecl target depth (hq t List.mem_cons_self))
  | typeArgument t v =>
      exact typeIfAny_yields h
        (typeArgument_yields h hdecl depth (hq t List.mem_cons_self) v)
  | boundingClasses t =>
      exact bare_yields (collectBounds_yields h hdecl depth
          (hq t List.mem_cons_self) [])
        fun _ => rfl
  | resolveBound t =>
      exact type_yields h
        (resolveBound_yields h hdecl depth (hq t List.mem_cons_self))
  | isSupertype sup sub =>
      obtain ⟨hsup, hsub⟩ := forall_mem_pair hq
      exact bare_yields (isSupertype_yields h hdecl depth hsup hsub)
        fun _ => rfl
  | contains outer inner =>
      obtain ⟨houter, hinner⟩ := forall_mem_pair hq
      exact bare_yields (containsBy_yields h
        (isSupertype_yields h hdecl depth) houter hinner) fun _ => rfl
  | memberType declaring declared owner =>
      obtain ⟨hdeclared, howner⟩ := forall_mem_pair hq
      exact type_yields h
        (memberType_yields h hdecl depth declaring hdeclared howner)
  | fieldType declaring field owner =>
      obtain ⟨hfield, howner⟩ := forall_mem_pair hq
      exact type_yields h
        (fieldType_yields h hdecl depth declaring hfield howner)
  | parameterTypes declaring method owner =>
      obtain ⟨howner, hmethod⟩ := List.forall_mem_cons.1 hq
      exact types_yields h
        (parameterTypes_yields h hdecl depth declaring hmethod howner)
  | returnType declaring method owner =>
      obtain ⟨howner, hmethod⟩ := List.forall_mem_cons.1 hq
      exact typeIfAny_yields h
        (returnType_yields h hdecl depth declaring hmethod howner)
  | boundedParameterTypes declaring method owner =>
      obtain ⟨howner, hmethod⟩ := List.forall_mem_cons.1 hq
      exact types_yields h
        ((parameterTypes_yields h hdecl depth declaring hmethod howner).bind
          fun _ _ _ hts => resolveBounds_yields h hdecl depth hts)
  | boundedReturnType declaring method owner =>
      obtain ⟨howner, hmethod⟩ := List.forall_mem_cons.1 hq
      exact typeIfAny_yields h
        (boundedReturnType_yields h hdecl depth declaring hmethod howner)
  | fieldTypeByName owner name =>
      exact typeIfAny_yields h
        (fieldTypeByName_yields h hdecl depth
          (hq owner List.mem_cons_self) name)
  | returnTypeByName owner name =>
      exact (returnTypeByName_yields h hdecl depth
          (hq owner List.mem_cons_self) name).bind
        fun _ _ _ hfound => .pure fun _ hle t ht => h.mono hle
          (hfound t (Option.mem_toList.1 ht))

/-- What a request leaves and comes to, a reset included. -/
theorem answer_holds {ctx : Context} (hctx : r.Holds P ctx)
    (depth : Nat) {q : Request} (hq : ∀ t ∈ q.types, P ctx.captures.size t) :
    r.Holds P (r.answer depth q ctx).2 ∧
      (r.answer depth q ctx).1.Satisfies
        (P (r.answer depth q ctx).2.captures.size) fun a =>
          ∀ t ∈ a.allTypes, P (r.answer depth q ctx).2.captures.size t := by
  by_cases hreset : q = .reset
  · subst hreset
    have hempty := holds_empty r P
    exact ⟨⟨hempty.stored, hempty.memo⟩, fun _ ht => absurd ht List.not_mem_nil⟩
  · exact (answer_yields h hdecl depth hreset hq ctx (Nat.le_refl _) hctx).2

end

/-! ## Histories -/

/-- A context that a resolver comes to by requests whose types all have the
property when they are handed in. Whether the requests succeed does not
matter. -/
inductive ReachedWith (r : Resolver) (P : Nat → Ty → Prop) :
    Context → Prop where
  | start : ReachedWith r P .empty
  | step {ctx : Context} (h : ReachedWith r P ctx) (depth : Nat) {q : Request}
      (hq : ∀ t ∈ q.types, P ctx.captures.size t) : ReachedWith r P
      (r.answer depth q ctx).2

theorem ReachedWith.mono {Q : Nat → Ty → Prop} (h : ∀ {n t}, P n t → Q n t)
    {ctx : Context} (hctx : r.ReachedWith P ctx) : r.ReachedWith Q ctx := by
  induction hctx with
  | start => exact .start
  | step _ depth hq ih => exact ih.step depth fun t ht => h (hq t ht)

/-- Along every history of requests about types that have the property, so do
all types in the arena. -/
theorem ReachedWith.holds (h : Hereditary P)
    (hdecl : r.env.toDeclarations.Throughout (P 0)) {ctx : Context}
    (hctx : r.ReachedWith P ctx) : r.Holds P ctx := by
  induction hctx with
  | start => exact holds_empty r P
  | step _ depth hq ih => exact (answer_holds h hdecl ih depth hq).1

/-- So every arena is made of levels of types with the property. -/
theorem ReachedWith.layered (h : Hereditary P)
    (hdecl : r.env.toDeclarations.Throughout (P 0)) {ctx : Context}
    (hctx : r.ReachedWith P ctx) : r.Layered P #[] ctx.captures := by
  induction hctx with
  | start => exact .refl
  | @step ctx hctx depth q hq ih =>
      by_cases hreset : q = .reset
      · subst hreset
        exact .refl
      · exact ih.trans
          (answer_yields h hdecl depth hreset hq ctx (Nat.le_refl _)
            (hctx.holds h hdecl)).1

end Resolver

end GenericTypes
