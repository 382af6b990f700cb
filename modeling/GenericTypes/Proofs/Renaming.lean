import GenericTypes.Resolver.Member
import GenericTypes.Proofs.WellFormed

/-!
# Renaming captures

A capture is known by its number, and the number says when it was opened. What
depends on nothing but the identity of captures can be said under any other
numbers: everything that is worked out of types and declarations alone commutes
with a renaming of captures, as long as the declarations mention none. Types
that are equal stay so, and the converse needs a renaming that can be undone;
the one that counts on from a given number can (`CaptureId.unshift_shift`).

An error may carry a type or a capture too, so outcomes are renamed as a whole.
-/

namespace GenericTypes

namespace Ty

mutual

/-- Give every capture in a type another number. -/
def rename (f : CaptureId → CaptureId) : Ty → Ty
  | .nominal c => .nominal c
  | .parameterized id args owner =>
      .parameterized id (renameList f args) (renameOwner f owner)
  | .var v => .var v
  | .wildcard upper lower => .wildcard (renameList f upper) (renameList f lower)
  | .genericArray t => .genericArray (rename f t)
  | .capture i => .capture (f i)

/-- Give every capture in several types another number. -/
def renameList (f : CaptureId → CaptureId) : List Ty → List Ty
  | [] => []
  | t :: ts => rename f t :: renameList f ts

/-- Give every capture in an owner another number. -/
def renameOwner (f : CaptureId → CaptureId) : Option Ty → Option Ty
  | none => none
  | some t => some (rename f t)

end

variable {f g : CaptureId → CaptureId} {s t : Ty}

@[simp] theorem renameList_eq_map (f : CaptureId → CaptureId) :
    ∀ ts, renameList f ts = ts.map (rename f)
  | [] => rfl
  | t :: ts => by rw [renameList, renameList_eq_map f ts, List.map_cons]

@[simp] theorem renameOwner_eq_map (f : CaptureId → CaptureId) (o : Option Ty) :
    renameOwner f o = o.map (rename f) := by
  cases o <;> rfl

theorem mentionsCaptureList_eq_any :
    ∀ ts, mentionsCaptureList ts = ts.any mentionsCapture
  | [] => rfl
  | t :: ts => by
      rw [mentionsCaptureList, mentionsCaptureList_eq_any ts, List.any_cons]

/-- Renamings that agree on the captures of a type rename it alike. -/
theorem rename_congr (h : ∀ i, .capture i ∈ t.parts → f i = g i) :
    t.rename f = t.rename g := by
  induction t using induct with
  | nominal _ | var _ => rfl
  | capture i => rw [rename, rename, h i (mem_parts_self _)]
  | parameterized id args owner ihargs ihowner =>
      simp only [rename, renameList_eq_map, renameOwner_eq_map]
      congr 1
      · exact List.map_congr_left fun a ha => ihargs a ha fun i hi =>
          h i (mem_parts_parameterized.2 (.inr (.inr ⟨a, ha, hi⟩)))
      · exact Option.map_congr fun o ho => ihowner o ho fun i hi =>
          h i (mem_parts_parameterized.2 (.inr (.inl ⟨o, ho, hi⟩)))
  | wildcard upper lower ihupper ihlower =>
      simp only [rename, renameList_eq_map]
      congr 1
      · exact List.map_congr_left fun b hb => ihupper b hb fun i hi =>
          h i (mem_parts_wildcard.2 (.inr (.inl ⟨b, hb, hi⟩)))
      · exact List.map_congr_left fun b hb => ihlower b hb fun i hi =>
          h i (mem_parts_wildcard.2 (.inr (.inr ⟨b, hb, hi⟩)))
  | genericArray t ih =>
      rw [rename, rename,
        ih fun i hi => h i (mem_parts_genericArray.2 (.inr hi))]

@[simp] theorem rename_rename (f g : CaptureId → CaptureId) (t : Ty) :
    (t.rename f).rename g = t.rename (g ∘ f) := by
  induction t using induct with
  | nominal _ | var _ | capture _ => rfl
  | parameterized id args owner ihargs ihowner =>
      simp only [rename, renameList_eq_map, renameOwner_eq_map, List.map_map,
        Option.map_map]
      congr 1
      · exact List.map_congr_left ihargs
      · exact Option.map_congr ihowner
  | wildcard upper lower ihupper ihlower =>
      simp only [rename, renameList_eq_map, List.map_map]
      congr 1
      · exact List.map_congr_left ihupper
      · exact List.map_congr_left ihlower
  | genericArray t ih => rw [rename, rename, ih, rename]

@[simp] theorem rename_id (t : Ty) : t.rename id = t := by
  induction t using induct with
  | nominal _ | var _ | capture _ => rfl
  | parameterized id args owner ihargs ihowner =>
      simp only [rename, renameList_eq_map, renameOwner_eq_map]
      congr 1
      · exact (List.map_congr_left ihargs).trans (List.map_id' args)
      · exact (Option.map_congr ihowner).trans Option.map_id'
  | wildcard upper lower ihupper ihlower =>
      simp only [rename, renameList_eq_map]
      congr 1
      · exact (List.map_congr_left ihupper).trans (List.map_id' upper)
      · exact (List.map_congr_left ihlower).trans (List.map_id' lower)
  | genericArray t ih => rw [rename, ih]

theorem mentionsCapture_iff_child : t.mentionsCapture = true ↔
    (∃ i, t = .capture i) ∨ ∃ c ∈ t.children, c.mentionsCapture = true := by
  cases t with
  | nominal _ | var _ | capture _ | genericArray _ =>
      simp [mentionsCapture, children]
  | parameterized id args owner =>
      cases owner <;>
        simp [mentionsCapture, mentionsCaptureOwner, mentionsCaptureList_eq_any,
          children, or_comm]
  | wildcard upper lower =>
      simp [mentionsCapture, mentionsCaptureList_eq_any, children,
        or_and_right, exists_or]

theorem mentionsCapture_iff :
    t.mentionsCapture = true ↔ ∃ i, .capture i ∈ t.parts := by
  induction t using byChildren with
  | node t ih =>
      rw [mentionsCapture_iff_child]
      constructor
      · rintro (⟨i, rfl⟩ | ⟨c, hc, hmentions⟩)
        · exact ⟨i, mem_parts_self _⟩
        · obtain ⟨i, hi⟩ := (ih c hc).1 hmentions
          exact ⟨i, mem_parts_of_child hc hi⟩
      · rintro ⟨i, hi⟩
        rcases mem_parts_iff.1 hi with heq | ⟨c, hc, hi⟩
        · exact .inl ⟨i, heq.symm⟩
        · exact .inr ⟨c, hc, (ih c hc).2 ⟨i, hi⟩⟩

theorem capture_notMem_parts {i : CaptureId} (h : t.mentionsCapture = false) :
    .capture i ∉ t.parts :=
  fun hi => Bool.false_ne_true (h.symm.trans (mentionsCapture_iff.2 ⟨i, hi⟩))

theorem mentionsCapture_eq_false (h : ∀ i, .capture i ∉ t.parts) :
    t.mentionsCapture = false :=
  Bool.eq_false_iff.2 fun hmentions =>
    have ⟨i, hi⟩ := mentionsCapture_iff.1 hmentions
    h i hi

theorem rename_of_plain (h : t.mentionsCapture = false) : t.rename f = t :=
  (rename_congr fun _ hi => absurd hi (capture_notMem_parts h)).trans
    (rename_id t)

theorem map_rename_of_plain {ts : List Ty}
    (h : ∀ t ∈ ts, t.mentionsCapture = false) : ts.map (rename f) = ts :=
  (List.map_congr_left fun t ht => rename_of_plain (h t ht)).trans
    (List.map_id' ts)

/-! What is read off the shape of a type. -/

@[simp] theorem rename_arrayOf (f : CaptureId → CaptureId) (t : Ty) :
    t.arrayOf.rename f = (t.rename f).arrayOf := by
  cases t <;> rfl

@[simp] theorem isVar_rename (f : CaptureId → CaptureId) (t : Ty) :
    (t.rename f).isVar = t.isVar := by
  cases t <;> rfl

theorem eraseWith_rename (f : CaptureId → CaptureId)
    (onVar : TypeVarId → Outcome Class) :
    ∀ t : Ty, (t.rename f).eraseWith onVar = t.eraseWith onVar
  | .nominal _ | .parameterized _ _ _ | .var _ | .wildcard _ _ | .capture _ =>
      rfl
  | .genericArray t => by
      rw [rename, eraseWith, eraseWith, eraseWith_rename f onVar t]

/-- A renaming that can be undone keeps types apart. -/
theorem rename_inj (h : Function.LeftInverse g f) :
    s.rename f = t.rename f ↔ s = t := by
  constructor
  · intro heq
    have hundo : g ∘ f = id := funext h
    have hback := congrArg (rename g) heq
    rwa [rename_rename, rename_rename, hundo, rename_id, rename_id] at hback
  · exact congrArg _

end Ty

/-! ## Counting on -/

/-- The capture opened as many places later. -/
def CaptureId.shift (n : Nat) (i : CaptureId) : CaptureId := ⟨n + i.index⟩

/-- The capture opened as many places earlier. -/
def CaptureId.unshift (n : Nat) (i : CaptureId) : CaptureId := ⟨i.index - n⟩

theorem CaptureId.unshift_shift (n : Nat) :
    Function.LeftInverse (CaptureId.unshift n) (CaptureId.shift n) := by
  rintro ⟨i⟩
  simp [shift, unshift]

/-- The captures from `n₁` on, counted on from `n₂` instead. -/
def CaptureId.renumber (n₁ n₂ : Nat) (i : CaptureId) : CaptureId :=
  if n₁ ≤ i.index then ⟨i.index - n₁ + n₂⟩ else i

theorem CaptureId.renumber_comp_shift (n₁ n₂ : Nat) :
    CaptureId.renumber n₁ n₂ ∘ CaptureId.shift n₁ = CaptureId.shift n₂ := by
  funext ⟨i⟩
  simp [shift, renumber, Nat.add_comm]

/-! ## Captures in other data -/

section

variable (f : CaptureId → CaptureId)

/-- Give every capture in a wildcard another number. -/
def Wildcard.rename (w : Wildcard) : Wildcard :=
  ⟨w.upper.map (·.rename f), w.lower.map (·.rename f)⟩

/-- Give every capture in the definition of one another number. -/
def CaptureDef.rename (c : CaptureDef) : CaptureDef :=
  ⟨c.wildcard.rename f, c.typeVar, c.upper.map (·.rename f),
    c.lower.map (·.rename f)⟩

/-- Give every capture in a field another number. -/
def FieldDecl.rename (field : FieldDecl) : FieldDecl :=
  { field with type := field.type.rename f }

/-- Give every capture in a method another number. -/
def MethodDecl.rename (method : MethodDecl) : MethodDecl :=
  { method with
    params := method.params.map (·.rename f),
    returnType := method.returnType.map (·.rename f) }

/-- Give every capture in an event another number. -/
def Event.rename : Event → Event
  | .captured id upper lower => .captured (f id) upper lower
  | .searching source target => .searching (source.rename f) (target.rename f)
  | .unsubstituted owner declaring => .unsubstituted (owner.rename f) declaring

/-- Give every capture in the cause of a failure another number. -/
def Error.rename : Error → Error
  | .foreignCapture id => .foreignCapture (f id)
  | .notSubstitutable t => .notSubstitutable (t.rename f)
  | .notErasable kind => .notErasable kind
  | .unboundVariable id => .unboundVariable id
  | .arityMismatch cls expected found => .arityMismatch cls expected found
  | .unexpectedWildcard => .unexpectedWildcard
  | .undeclaredClass id => .undeclaredClass id
  | .undeclaredVariable id => .undeclaredVariable id

/-- Give every capture in an outcome another number, where `g` does so for the
answer. -/
def Outcome.rename {α β : Type} (g : α → β) : Outcome α → Outcome β
  | .ok a => .ok (g a)
  | .error e => .error (e.rename f)
  | .exhausted => .exhausted

end

section

variable (f g : CaptureId → CaptureId)

@[simp] theorem Wildcard.rename_rename (w : Wildcard) :
    (w.rename f).rename g = w.rename (g ∘ f) := by
  simp [rename, Function.comp_def]

@[simp] theorem CaptureDef.rename_rename (c : CaptureDef) :
    (c.rename f).rename g = c.rename (g ∘ f) := by
  simp [rename, Function.comp_def]

@[simp] theorem CaptureDef.rename_id (c : CaptureDef) : c.rename id = c := by
  simp [rename, Wildcard.rename]

@[simp] theorem Error.rename_id (e : Error) : e.rename id = e := by
  cases e <;> simp [rename]

@[simp] theorem Event.rename_rename (e : Event) :
    (e.rename f).rename g = e.rename (g ∘ f) := by
  cases e <;> simp [rename]

@[simp] theorem Error.rename_rename (e : Error) :
    (e.rename f).rename g = e.rename (g ∘ f) := by
  cases e <;> simp [rename]

end

namespace Outcome

variable {α α' β β' : Type} {f : CaptureId → CaptureId}
  {g : α → α'} {g' : β → β'}

theorem rename_rename (f' : CaptureId → CaptureId) (g' : α' → β)
    (x : Outcome α) :
    (x.rename f g).rename f' g' = x.rename (f' ∘ f) (g' ∘ g) := by
  cases x <;> simp [rename]

theorem rename_bind {x : Outcome α} {y : Outcome α'} {F : α → Outcome β}
    {F' : α' → Outcome β'} (hx : y = x.rename f g)
    (hF : ∀ a, F' (g a) = (F a).rename f g') :
    (y >>= F') = (x >>= F).rename f g' := by
  subst hx
  cases x with
  | ok a => exact hF a
  | error _ | exhausted => rfl

theorem ofExcept_bind (x : Except Error α) (F : α → Except Error β) :
    ofExcept (x >>= F) = ofExcept x >>= fun a => ofExcept (F a) := by
  cases x <;> rfl

end Outcome

/-! ## Substitutions -/

namespace Substitution

variable (f : CaptureId → CaptureId)

/-- Give every capture in the values another number. -/
def rename (σ : Substitution) : Substitution :=
  ⟨σ.bindings.map fun b => (b.1, b.2.rename f), by
    rw [List.map_map]
    exact σ.distinct⟩

theorem lookup_map_snd (v : TypeVarId) : ∀ bs : List (TypeVarId × Ty),
    (bs.map fun b => (b.1, b.2.rename f)).lookup v =
      (bs.lookup v).map (Ty.rename f)
  | [] => rfl
  | (w, t) :: bs => by
      rw [List.map_cons, List.lookup_cons, List.lookup_cons,
        lookup_map_snd v bs]
      cases v == w <;> rfl

@[simp] theorem get?_rename (σ : Substitution) (v : TypeVarId) :
    (σ.rename f).get? v = (σ.get? v).map (Ty.rename f) :=
  lookup_map_snd f v σ.bindings

theorem rename_bind (σ : Substitution) (v : TypeVarId) (t : Ty) :
    (σ.bind v t).rename f = (σ.rename f).bind v (t.rename f) := by
  simp only [rename, bind, List.map_cons, List.filter_map]
  rfl

theorem rename_bindZip :
    ∀ (vs : List TypeVarId) (ts : List Ty) (σ : Substitution),
      (σ.bindZip vs ts).rename f = (σ.rename f).bindZip vs
        (ts.map (Ty.rename f))
  | [], _, _ | _ :: _, [], _ => rfl
  | v :: vs, t :: ts, σ => by
      show ((σ.bind v t).bindZip vs ts).rename f = _
      rw [rename_bindZip vs ts, rename_bind]
      rfl

theorem rename_bindSelf : ∀ (vs : List TypeVarId) (σ : Substitution),
    (σ.bindSelf vs).rename f = (σ.rename f).bindSelf vs
  | [], _ => rfl
  | v :: vs, σ => by
      show ((σ.bind v (.var v)).bindSelf vs).rename f = _
      rw [rename_bindSelf vs, rename_bind]
      rfl

variable {f}

theorem resolveAll_rename {σ : Substitution} {ts : List Ty}
    (h : ∀ t ∈ ts, Outcome.ofExcept ((σ.rename f).resolve (t.rename f)) =
      (Outcome.ofExcept (σ.resolve t)).rename f (Ty.rename f)) :
    Outcome.ofExcept ((σ.rename f).resolveAll (ts.map (Ty.rename f))) =
      (Outcome.ofExcept (σ.resolveAll ts)).rename f
        (List.map (Ty.rename f)) := by
  induction ts with
  | nil => rfl
  | cons t ts ih =>
      rw [List.map_cons, resolveAll, resolveAll, Outcome.ofExcept_bind,
        Outcome.ofExcept_bind]
      refine Outcome.rename_bind (h t List.mem_cons_self) fun u => ?_
      rw [Outcome.ofExcept_bind, Outcome.ofExcept_bind]
      exact Outcome.rename_bind (ih fun s hs => h s (List.mem_cons_of_mem t hs))
        fun _ => rfl

theorem resolveOwner_rename {σ : Substitution} {owner : Option Ty}
    (h : ∀ o, owner = some o →
      Outcome.ofExcept ((σ.rename f).resolve (o.rename f)) =
        (Outcome.ofExcept (σ.resolve o)).rename f (Ty.rename f)) :
    Outcome.ofExcept ((σ.rename f).resolveOwner (owner.map (Ty.rename f))) =
      (Outcome.ofExcept (σ.resolveOwner owner)).rename f
        (Option.map (Ty.rename f)) := by
  cases owner with
  | none => rfl
  | some o =>
      rw [Option.map_some, resolveOwner, resolveOwner, Outcome.ofExcept_bind,
        Outcome.ofExcept_bind]
      exact Outcome.rename_bind (h o rfl) fun _ => rfl

/-- Renamed values put into a renamed type make the renamed answer. -/
theorem resolve_rename (σ : Substitution) (t : Ty) :
    Outcome.ofExcept ((σ.rename f).resolve (t.rename f)) =
      (Outcome.ofExcept (σ.resolve t)).rename f (Ty.rename f) := by
  induction t using Ty.induct with
  | nominal _ | capture _ => rfl
  | var v =>
      rw [Ty.rename, resolve, resolve, get?_rename]
      cases σ.get? v <;> rfl
  | parameterized id args owner ihargs ihowner =>
      rw [Ty.rename, resolve, resolve, Ty.renameList_eq_map,
        Ty.renameOwner_eq_map,
        Outcome.ofExcept_bind, Outcome.ofExcept_bind]
      refine Outcome.rename_bind (resolveOwner_rename ihowner) fun o => ?_
      rw [Outcome.ofExcept_bind, Outcome.ofExcept_bind]
      refine Outcome.rename_bind (resolveAll_rename ihargs) fun as => ?_
      simp [Outcome.ofExcept, Outcome.rename, Ty.rename, pure, Except.pure]
  | wildcard upper lower ihupper ihlower =>
      rw [Ty.rename, resolve, resolve, Ty.renameList_eq_map,
        Ty.renameList_eq_map, Outcome.ofExcept_bind, Outcome.ofExcept_bind]
      refine Outcome.rename_bind (resolveAll_rename ihupper) fun us => ?_
      rw [Outcome.ofExcept_bind, Outcome.ofExcept_bind]
      refine Outcome.rename_bind (resolveAll_rename ihlower) fun ls => ?_
      simp [Outcome.ofExcept, Outcome.rename, Ty.rename, pure, Except.pure]
  | genericArray t ih =>
      rw [Ty.rename, resolve, resolve, Outcome.ofExcept_bind,
        Outcome.ofExcept_bind]
      refine Outcome.rename_bind ih fun u => ?_
      simp [Outcome.ofExcept, Outcome.rename, pure, Except.pure]

end Substitution

/-! ## What is worked out of declarations -/

/-- The types written in a class. -/
def ClassDecl.types (c : ClassDecl) : List Ty :=
  c.supertypes ++ c.fields.map FieldDecl.type ++
    c.methods.flatMap MethodDecl.types

theorem FieldDecl.rename_of_plain {f : CaptureId → CaptureId}
    {field : FieldDecl} (h : field.type.mentionsCapture = false) :
    field.rename f = field := by
  rw [rename, Ty.rename_of_plain h]

theorem MethodDecl.rename_of_plain {f : CaptureId → CaptureId}
    {method : MethodDecl} (h : ∀ t ∈ method.types, t.mentionsCapture = false) :
    method.rename f = method := by
  have hparams : method.params.map (Ty.rename f) = method.params :=
    Ty.map_rename_of_plain fun t ht => h t (List.mem_append_left _ ht)
  have hreturn : method.returnType.map (Ty.rename f) = method.returnType := by
    cases hr : method.returnType with
    | none => rfl
    | some t =>
        rw [Option.map_some,
          Ty.rename_of_plain (h t (List.mem_append_right _ (by simp [hr])))]
  rw [rename, hparams, hreturn]

/-- No capture is written anywhere in the declarations. -/
structure Declarations.CaptureFree (d : Declarations) : Prop where
  classes : ∀ {id c}, d.class? id = some c →
    ∀ t ∈ c.types, t.mentionsCapture = false
  bounds : ∀ {v p}, d.typeParam? v = some p →
    ∀ b ∈ p.upperBounds, b.mentionsCapture = false

theorem Declarations.Proper.captureFree {d : Declarations} {t : Ty}
    (h : d.Proper 0 t) : t.mentionsCapture = false :=
  Ty.mentionsCapture_eq_false fun _ hi => Nat.not_lt_zero _ (h.complete _ hi)

theorem Declarations.WellFormed.captureFree {d : Declarations}
    (h : d.WellFormed) : d.CaptureFree where
  classes := by
    intro id c hc t ht
    rcases List.mem_append.1 ht with ht | ht
    · rcases List.mem_append.1 ht with ht | ht
      · exact (h.supertypes hc t ht).2.captureFree
      · obtain ⟨field, hfield, rfl⟩ := List.mem_map.1 ht
        exact (h.fields hc field hfield).captureFree
    · obtain ⟨method, hmethod, ht⟩ := List.mem_flatMap.1 ht
      exact ((h.methods hc method hmethod).2 t ht).captureFree
  bounds := fun {v _} hp b hb =>
    (h.bounds v b ((Declarations.boundsOf_eq hp).symm ▸ hb)).captureFree

namespace Declarations

variable (d : Declarations) (f : CaptureId → CaptureId)

/-! Failures that mention no capture are the same under any numbers. -/

theorem getClass_renamed (c : ClassId) :
    Outcome.ofExcept (d.getClass c) =
      (Outcome.ofExcept (d.getClass c)).rename f id := by
  unfold getClass
  cases d.class? c <;> rfl

theorem getTypeParam_renamed (v : TypeVarId) :
    Outcome.ofExcept (d.getTypeParam v) =
      (Outcome.ofExcept (d.getTypeParam v)).rename f id := by
  unfold getTypeParam
  cases d.typeParam? v <;> rfl

variable {f} in
theorem eraseWith_renamed {onVar : TypeVarId → Outcome Class}
    (h : ∀ v, onVar v = (onVar v).rename f id) :
    ∀ t : Ty, t.eraseWith onVar = (t.eraseWith onVar).rename f id
  | .nominal _ | .parameterized _ _ _ | .wildcard _ _ | .capture _ => rfl
  | .var v => h v
  | .genericArray t => by
      rw [Ty.eraseWith]
      exact Outcome.rename_bind (eraseWith_renamed h t) fun _ => rfl

theorem eraseVar_renamed : ∀ (fuel : Nat) (v : TypeVarId),
    d.eraseVar fuel v = (d.eraseVar fuel v).rename f id
  | 0, _ => rfl
  | fuel + 1, v => by
      rw [eraseVar]
      refine Outcome.rename_bind (getTypeParam_renamed d f v) fun p => ?_
      dsimp only [id]
      cases p.upperBounds with
      | nil => rfl
      | cons bound _ => exact eraseWith_renamed (eraseVar_renamed fuel) bound

theorem erase_renamed (t : Ty) : d.erase t = (d.erase t).rename f id :=
  eraseWith_renamed (eraseVar_renamed d f _) t

theorem erase_rename (t : Ty) : d.erase (t.rename f) = d.erase t :=
  Ty.eraseWith_rename f _ t

theorem erasure?_rename (t : Ty) : d.erasure? (t.rename f) = d.erasure? t := by
  cases t with
  | genericArray t =>
      have herase := erase_rename d f (.genericArray t)
      rw [Ty.rename] at herase
      rw [Ty.rename, erasure?, erasure?, herase]
  | nominal _ | parameterized _ _ _ | var _ | wildcard _ _ | capture _ => rfl

theorem erasure?_renamed (t : Ty) :
    d.erasure? t = (d.erasure? t).rename f id := by
  cases t with
  | nominal c => rfl
  | parameterized c args owner => rfl
  | genericArray t =>
      have herase := erase_renamed d f (.genericArray t)
      rw [erasure?]
      generalize d.erase (.genericArray t) = erased at herase ⊢
      cases erased with
      | ok _ | exhausted => rfl
      | error e =>
          have he := Outcome.error.inj herase
          cases e <;> first | rfl | exact congrArg Outcome.error he
  | var _ | wildcard _ _ | capture _ => rfl

theorem isGenericWithin_renamed : ∀ (fuel : Nat) (c : ClassId),
    d.isGenericWithin fuel c = (d.isGenericWithin fuel c).rename f id
  | 0, _ => rfl
  | fuel + 1, c => by
      rw [isGenericWithin]
      refine Outcome.rename_bind (getClass_renamed d f c) fun decl => ?_
      dsimp only [id]
      split
      · cases decl.enclosing with
        | none => rfl
        | some outer => exact isGenericWithin_renamed fuel outer
      · rfl

theorem isRaw_renamed : ∀ c : Class, d.isRaw c = (d.isRaw c).rename f id
  | .named c => isGenericWithin_renamed d f _ c
  | .primitive _ | .array _ => rfl

theorem wildcardsWithin_renamed : ∀ (fuel : Nat) (c : ClassId),
    d.wildcardsWithin fuel c = (d.wildcardsWithin fuel c).rename f (Ty.rename f)
  | 0, _ => rfl
  | fuel + 1, c => by
      rw [wildcardsWithin]
      refine Outcome.rename_bind (isRaw_renamed d f (.named c)) fun raw => ?_
      cases raw with
      | false => rfl
      | true =>
          refine Outcome.rename_bind (getClass_renamed d f c) fun decl => ?_
          have hunknown :
              (decl.typeParams.map fun _ =>
                (Wildcard.unbounded d.wellKnown.object).toTy).map
                  (Ty.rename f) =
              decl.typeParams.map fun _ =>
                (Wildcard.unbounded d.wellKnown.object).toTy := by
            rw [List.map_map]
            rfl
          dsimp only [id]
          cases decl.enclosing with
          | none =>
              simp only [Outcome.ok_bind, Outcome.pure_eq, Outcome.rename,
                Ty.rename, Ty.renameList_eq_map, hunknown, Ty.renameOwner]
          | some outer =>
              refine Outcome.rename_bind (wildcardsWithin_renamed fuel outer)
                fun t => ?_
              simp only [Outcome.ok_bind, Outcome.pure_eq,
                Outcome.rename, Ty.rename,
                Ty.renameList_eq_map, hunknown, Ty.renameOwner]

theorem withWildcards_renamed : ∀ c : Class,
    d.withWildcards c = (d.withWildcards c).rename f (Ty.rename f)
  | .named c => wildcardsWithin_renamed d f _ c
  | .primitive _ => rfl
  | .array c => by
      rw [withWildcards]
      refine Outcome.rename_bind (withWildcards_renamed c) fun t => ?_
      rw [← Ty.rename_arrayOf]
      rfl

end Declarations

namespace Resolver

variable (r : Resolver) (f : CaptureId → CaptureId)

theorem bindChain_rename (d : Declarations) : ∀ (t : Ty) (σ : Substitution),
    Outcome.ofExcept (bindChain d (t.rename f) (σ.rename f)) =
      (Outcome.ofExcept (bindChain d t σ)).rename f (Substitution.rename f)
  | .parameterized c args owner, σ => by
      rw [Ty.rename, bindChain, bindChain, Ty.renameList_eq_map,
        Outcome.ofExcept_bind,
        Outcome.ofExcept_bind]
      refine Outcome.rename_bind (d.getClass_renamed f c) fun decl => ?_
      dsimp only [id]
      rw [List.length_map]
      split
      · rw [← Substitution.rename_bindZip]
        cases owner with
        | none => rfl
        | some o => exact bindChain_rename d o _
      · rfl
  | .nominal _, _ | .var _, _ | .wildcard _ _, _ | .genericArray _, _
  | .capture _, _ => rfl

theorem bindOwner_rename (d : Declarations) (owner : Option Ty) :
    Outcome.ofExcept (bindOwner d (owner.map (Ty.rename f))) =
      (Outcome.ofExcept (bindOwner d owner)).rename f
        (Substitution.rename f) := by
  cases owner with
  | none => rfl
  | some o => exact bindChain_rename f d o .empty

theorem isTop_map_rename (bounds : List Ty) :
    r.env.isTop (bounds.map (Ty.rename f)) = r.env.isTop bounds := by
  have htop : ∀ t : Ty, t.rename f = r.env.top ↔ t = r.env.top := by
    intro t
    cases t <;> simp [Ty.rename, Declarations.top, Ty.named]
  match bounds with
  | [] | _ :: _ :: _ => simp [Declarations.isTop]
  | [t] => simp [Declarations.isTop, htop]

theorem mergeBounds_rename (declared wildcard : List Ty) :
    r.mergeBounds (declared.map (Ty.rename f)) (wildcard.map (Ty.rename f)) =
      (r.mergeBounds declared wildcard).map (Ty.rename f) := by
  unfold mergeBounds
  rw [isTop_map_rename, isTop_map_rename]
  split
  · cases declared <;> rfl
  · split
    · rfl
    · rw [List.map_append]

theorem substituteThrough_rename (t via : Ty) (own : List TypeVarId) :
    r.substituteThrough (t.rename f) (via.rename f) own =
      (r.substituteThrough t via own).rename f (Ty.rename f) := by
  have hself : (Substitution.empty.bindSelf own).rename f =
      Substitution.empty.bindSelf own :=
    Substitution.rename_bindSelf f own .empty
  cases via with
  | nominal c =>
      rw [Ty.rename, substituteThrough, substituteThrough]
      refine Outcome.rename_bind (r.env.isRaw_renamed f c) fun raw => ?_
      cases raw with
      | true =>
          dsimp only [id]
          rw [if_pos rfl, if_pos rfl, r.env.erase_rename]
          exact Outcome.rename_bind (r.env.erase_renamed f t) fun _ => rfl
      | false =>
          have hresolve :=
            Substitution.resolve_rename (f := f) (.bindSelf .empty own) t
          rw [hself] at hresolve
          exact hresolve
  | parameterized c args owner =>
      have hchain :=
        bindChain_rename f r.env.toDeclarations (.parameterized c args owner)
          (.bindSelf .empty own)
      rw [hself] at hchain
      exact Outcome.rename_bind hchain fun σ => Substitution.resolve_rename σ t
  | var _ | wildcard _ _ | genericArray _ | capture _ => rfl

theorem substituteAll_rename (via : Ty) (own : List TypeVarId) : ∀ ts : List Ty,
    r.substituteAll (via.rename f) own (ts.map (Ty.rename f)) =
      (r.substituteAll via own ts).rename f (List.map (Ty.rename f))
  | [] => rfl
  | t :: ts => by
      rw [List.map_cons, substituteAll, substituteAll]
      refine Outcome.rename_bind (substituteThrough_rename r f t via own)
        fun u => ?_
      exact Outcome.rename_bind (substituteAll_rename via own ts) fun _ => rfl

variable {r} in
theorem freshSupertypes_rename (h : r.env.CaptureFree) (c : ClassId) (t : Ty) :
    r.freshSupertypes c (t.rename f) =
      (r.freshSupertypes c t).rename f (List.map (Ty.rename f)) := by
  unfold freshSupertypes
  cases hc : r.env.class? c with
  | none =>
      have hget : r.env.getClass c = .error (.undeclaredClass c) := by
        rw [Declarations.getClass, hc]
      rw [hget]
      rfl
  | some decl =>
      have hplain : decl.supertypes.map (Ty.rename f) = decl.supertypes :=
        Ty.map_rename_of_plain fun s hs => h.classes hc s
          (List.mem_append_left _ (List.mem_append_left _ hs))
      have hall := substituteAll_rename r f t [] decl.supertypes
      rw [hplain] at hall
      rw [Declarations.getClass_eq hc]
      show (r.substituteAll (t.rename f) [] decl.supertypes >>=
          fun declared => _ : Outcome (List Ty)) = Outcome.rename f _
          (r.substituteAll t [] decl.supertypes >>= _)
      refine Outcome.rename_bind hall fun declared => ?_
      rw [List.isEmpty_map]
      split <;> rfl

theorem arraySupertypes_rename (ts : List Ty) :
    r.arraySupertypes (ts.map (Ty.rename f)) = (r.arraySupertypes ts).map
      (Ty.rename f) := by
  unfold arraySupertypes
  rw [List.map_append, List.map_map, List.map_map]
  congr 1
  exact List.map_congr_left fun t _ => (Ty.rename_arrayOf f t).symm

theorem settledBy_rename (t : Ty) (target : Class) :
    r.settledBy (t.rename f) target =
      (r.settledBy t target).rename f
        (Option.map (Option.map (Ty.rename f))) := by
  unfold settledBy
  rw [r.env.erasure?_rename]
  refine Outcome.rename_bind (r.env.erasure?_renamed f t) fun o => ?_
  cases o with
  | none => rfl
  | some c =>
      dsimp only [id]
      split
      · rfl
      · split <;> rfl

theorem settledByErasure_rename (sup sub : Ty) (c : Class) :
    r.settledByErasure (sup.rename f) (sub.rename f) c =
      (r.settledByErasure sup sub c).rename f id := by
  unfold settledByErasure
  rw [r.env.erasure?_rename]
  refine Outcome.rename_bind (r.env.erasure?_renamed f sub) fun o => ?_
  cases o with
  | none => rfl
  | some a =>
      dsimp only [id]
      split
      · cases sup <;> rfl
      · rfl

end Resolver

end GenericTypes
