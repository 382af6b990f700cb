import GenericTypes.Substitution

/-!
# The parts of a type, and substitution as a function

Nearly every condition on types is a condition on each of their parts: that the
classes and variables are declared, that the arguments are as many as the
parameters, that wildcards stand only where they may. `parts` lists them, from
the outside in, and with it such a condition is `∀ x ∈ t.parts, P x` for a
condition `P` that looks at one node. Where it does not matter how a type holds
what is directly inside it, `children` stands for its cases (`mem_parts_iff`,
`byChildren`).

Applying a substitution can fail only on a variable that it does not bind, and
then it reports the first one on the way through the type, which is the order of
`vars`. `subst` is what it does otherwise, as a function that takes a value for
every variable. One equation says both (`resolve_eq`), as a pass in two stages
stops at the first unbound variable of the first, or else at the first of the
second (`answerUnless_bind`). All laws are then laws of the function: it
composes, it depends on the variables that occur and on no others, and the parts
of its answer are those of the type, substituted into, and those of the values
put in.
-/

namespace GenericTypes

namespace Ty

mutual

/-- The type itself and everything written inside it, owners before arguments
and upper bounds before lower ones. -/
def parts : Ty → List Ty
  | .nominal c => [.nominal c]
  | .parameterized id args owner =>
      .parameterized id args owner :: (partsOwner owner ++ partsList args)
  | .var v => [.var v]
  | .wildcard upper lower =>
      .wildcard upper lower :: (partsList upper ++ partsList lower)
  | .genericArray t => .genericArray t :: t.parts
  | .capture i => [.capture i]

/-- The parts of several types. -/
def partsList : List Ty → List Ty
  | [] => []
  | t :: ts => t.parts ++ partsList ts

/-- The parts of an owner, if there is one. -/
def partsOwner : Option Ty → List Ty
  | none => []
  | some t => t.parts

end

/-- The types written directly inside a type: its owner and its arguments, its
upper and its lower bounds, or its component. -/
def children : Ty → List Ty
  | .parameterized _ args owner => owner.toList ++ args
  | .wildcard upper lower => upper ++ lower
  | .genericArray t => [t]
  | .nominal _ | .var _ | .capture _ => []

mutual

/-- Put the value of each variable in its place. -/
def subst (φ : TypeVarId → Ty) : Ty → Ty
  | .nominal c => .nominal c
  | .parameterized id args owner =>
      .parameterized id (substList φ args) (substOwner φ owner)
  | .var v => φ v
  | .wildcard upper lower => .wildcard (substList φ upper) (substList φ lower)
  | .genericArray t => (t.subst φ).arrayOf
  | .capture i => .capture i

/-- Put values into several types. -/
def substList (φ : TypeVarId → Ty) : List Ty → List Ty
  | [] => []
  | t :: ts => t.subst φ :: substList φ ts

/-- Put values into an owner, if there is one. -/
def substOwner (φ : TypeVarId → Ty) : Option Ty → Option Ty
  | none => none
  | some t => some (t.subst φ)

end

/-! ## Induction over the parts -/

/-- Induction where the arguments, bounds, owner and component of a type may be
assumed to have the property. -/
@[elab_as_elim] theorem induct {P : Ty → Prop} (nominal : ∀ c, P (.nominal c))
    (parameterized : ∀ id args owner, (∀ a ∈ args, P a) →
      (∀ o, owner = some o → P o) →
      P (.parameterized id args owner))
    (var : ∀ v, P (.var v))
    (wildcard : ∀ upper lower, (∀ b ∈ upper, P b) → (∀ b ∈ lower, P b) →
      P (.wildcard upper lower))
    (genericArray : ∀ t, P t → P (.genericArray t))
    (capture : ∀ i, P (.capture i)) (t : Ty) :
    P t :=
  @Ty.rec P (fun ts => ∀ t ∈ ts, P t) (fun o => ∀ t, o = some t → P t)
    nominal (fun id args owner hargs howner =>
      parameterized id args owner hargs howner)
    var wildcard genericArray capture
    (fun _ h => nomatch h)
    (fun _ _ hs hts _ h => (List.mem_cons.1 h).elim
      (fun heq => heq ▸ hs) (hts _))
    (fun _ h => nomatch h) (fun _ hs _ h => Option.some.inj h ▸ hs) t

/-- The same where it does not matter how the parts of a type are put
together. -/
@[elab_as_elim] theorem byChildren {P : Ty → Prop}
    (node : ∀ t, (∀ c ∈ t.children, P c) → P t) (t : Ty) : P t := by
  induction t using induct with
  | nominal _ | var _ | capture _ => exact node _ fun _ hc => nomatch hc
  | parameterized id args owner ihargs ihowner =>
      refine node _ fun c hc => ?_
      rcases List.mem_append.1 hc with hc | hc
      · exact ihowner c (Option.mem_toList.1 hc)
      · exact ihargs c hc
  | wildcard upper lower ihupper ihlower =>
      exact node _ fun c hc =>
        (List.mem_append.1 hc).elim (ihupper c) (ihlower c)
  | genericArray t ih => exact node _ fun c hc => List.mem_singleton.1 hc ▸ ih

/-! ## Parts -/

theorem mem_partsList {x : Ty} :
    ∀ {ts : List Ty}, x ∈ partsList ts ↔ ∃ t ∈ ts, x ∈ t.parts
  | [] => by simp [partsList]
  | t :: ts => by simp [partsList, mem_partsList]

theorem mem_partsOwner {x : Ty} {o : Option Ty} :
    x ∈ partsOwner o ↔ ∃ t, o = some t ∧ x ∈ t.parts := by
  cases o <;> simp [partsOwner]

/-- A part is the type itself or a part of one of its children. -/
theorem mem_parts_iff {x t : Ty} :
    x ∈ t.parts ↔ x = t ∨ ∃ c ∈ t.children, x ∈ c.parts := by
  cases t with
  | nominal _ | var _ | capture _ => simp [parts, children]
  | parameterized id args owner =>
      simp [parts, children, mem_partsList, mem_partsOwner,
        or_and_right, exists_or]
  | wildcard upper lower =>
      simp [parts, children, mem_partsList, or_and_right, exists_or]
  | genericArray t => simp [parts, children]

theorem mem_parts_of_child {x c t : Ty} (hc : c ∈ t.children)
    (hx : x ∈ c.parts) : x ∈ t.parts :=
  mem_parts_iff.2 (.inr ⟨c, hc, hx⟩)

theorem forall_parts_iff {P : Ty → Prop} {t : Ty} :
    (∀ x ∈ t.parts, P x) ↔ P t ∧ ∀ c ∈ t.children, ∀ x ∈ c.parts, P x := by
  simp only [mem_parts_iff (t := t), or_imp, forall_and, forall_eq]
  exact and_congr_right' ⟨fun h c hc x hx => h x ⟨c, hc, hx⟩,
    fun h x ⟨c, hc, hx⟩ => h c hc x hx⟩

theorem forall_children_parameterized {P : Ty → Prop} {id : ClassId}
    {args : List Ty} {owner : Option Ty} :
    (∀ c ∈ (Ty.parameterized id args owner).children, P c) ↔
      (∀ o, owner = some o → P o) ∧ ∀ a ∈ args, P a := by
  rw [children, List.forall_mem_append]
  simp only [Option.mem_toList]

theorem forall_children_wildcard {P : Ty → Prop} {upper lower : List Ty} :
    (∀ c ∈ (Ty.wildcard upper lower).children, P c) ↔ (∀ b ∈ upper, P b) ∧
      ∀ b ∈ lower, P b :=
  List.forall_mem_append

theorem mem_parts_parameterized {x : Ty} {id : ClassId} {args : List Ty}
    {owner : Option Ty} : x ∈ (Ty.parameterized id args owner).parts ↔
      x = .parameterized id args owner ∨ (∃ o, owner = some o ∧ x ∈ o.parts) ∨
        ∃ a ∈ args, x ∈ a.parts := by
  simp [parts, mem_partsList, mem_partsOwner]

theorem mem_parts_wildcard {x : Ty} {upper lower : List Ty} :
    x ∈ (Ty.wildcard upper lower).parts ↔
      x = .wildcard upper lower ∨ (∃ b ∈ upper, x ∈ b.parts) ∨
      ∃ b ∈ lower, x ∈ b.parts := by
  simp [parts, mem_partsList]

theorem mem_parts_genericArray {x t : Ty} :
    x ∈ (Ty.genericArray t).parts ↔ x = .genericArray t ∨ x ∈ t.parts := by
  simp [parts]

theorem mem_parts_self (t : Ty) : t ∈ t.parts := by
  cases t <;> simp [parts]

theorem owner_mem_parts {id : ClassId} {args : List Ty} {o : Ty} :
    o ∈ (Ty.parameterized id args (some o)).parts :=
  mem_parts_parameterized.2 (.inr (.inl ⟨o, rfl, mem_parts_self o⟩))

theorem arg_mem_parts {id : ClassId} {args : List Ty} {owner : Option Ty}
    {a : Ty} (ha : a ∈ args) : a ∈ (Ty.parameterized id args owner).parts :=
  mem_parts_parameterized.2 (.inr (.inr ⟨a, ha, mem_parts_self a⟩))

theorem upper_mem_parts {upper lower : List Ty} {b : Ty} (hb : b ∈ upper) :
    b ∈ (Ty.wildcard upper lower).parts :=
  mem_parts_wildcard.2 (.inr (.inl ⟨b, hb, mem_parts_self b⟩))

theorem lower_mem_parts {upper lower : List Ty} {b : Ty} (hb : b ∈ lower) :
    b ∈ (Ty.wildcard upper lower).parts :=
  mem_parts_wildcard.2 (.inr (.inr ⟨b, hb, mem_parts_self b⟩))

theorem bound_mem_parts {upper lower : List Ty} {b : Ty}
    (hb : b ∈ upper ++ lower) : b ∈ (Ty.wildcard upper lower).parts :=
  (List.mem_append.1 hb).elim upper_mem_parts lower_mem_parts

theorem component_mem_parts (t : Ty) : t ∈ (Ty.genericArray t).parts :=
  mem_parts_genericArray.2 (.inr (mem_parts_self t))

theorem mem_parts_trans {x y t : Ty} (hx : x ∈ y.parts) (hy : y ∈ t.parts) :
    x ∈ t.parts := by
  induction t using byChildren with
  | node t ih =>
      rcases mem_parts_iff.1 hy with rfl | ⟨c, hc, hy⟩
      · exact hx
      · exact mem_parts_of_child hc (ih c hc hy)

/-- The variable that the type is. -/
def var? : Ty → Option TypeVarId
  | .var v => some v
  | .nominal _ | .parameterized _ _ _ | .wildcard _ _ | .genericArray _
  | .capture _ => none

/-- The variables that occur in a type, in the order of its parts. -/
def vars (t : Ty) : List TypeVarId := t.parts.filterMap var?

theorem mem_vars {v : TypeVarId} {t : Ty} : v ∈ t.vars ↔ .var v ∈ t.parts := by
  rw [vars, List.mem_filterMap]
  constructor
  · rintro ⟨x, hx, hv⟩
    cases x with
    | var w => exact Option.some.inj hv ▸ hx
    | nominal _ | parameterized _ _ _ | wildcard _ _ | genericArray _
    | capture _ => cases hv
  · exact fun hv => ⟨.var v, hv, rfl⟩

theorem filterMap_partsList (ts : List Ty) :
    (partsList ts).filterMap var? = ts.flatMap vars := by
  induction ts with
  | nil => rfl
  | cons t ts ih =>
      rw [partsList, List.filterMap_append, ih, List.flatMap_cons, vars]

@[simp] theorem vars_var (v : TypeVarId) : (Ty.var v).vars = [v] := rfl

@[simp] theorem vars_parameterized (id : ClassId) (args : List Ty)
    (owner : Option Ty) :
    (Ty.parameterized id args owner).vars = owner.toList.flatMap vars ++
      args.flatMap vars := by
  have hself : (Ty.parameterized id args owner).vars =
      (partsOwner owner ++ partsList args).filterMap var? := rfl
  rw [hself, List.filterMap_append, filterMap_partsList]
  cases owner with
  | none => rfl
  | some o => simp [partsOwner, vars]

@[simp] theorem vars_wildcard (upper lower : List Ty) :
    (Ty.wildcard upper lower).vars = upper.flatMap vars ++
      lower.flatMap vars := by
  have hself : (Ty.wildcard upper lower).vars =
      (partsList upper ++ partsList lower).filterMap var? := rfl
  rw [hself, List.filterMap_append, filterMap_partsList, filterMap_partsList]

@[simp] theorem vars_genericArray (t : Ty) :
    (Ty.genericArray t).vars = t.vars := rfl

/-! ## Substitution as a function -/

variable {φ ψ : TypeVarId → Ty}

@[simp] theorem substList_eq_map (φ : TypeVarId → Ty) :
    ∀ ts, substList φ ts = ts.map (·.subst φ)
  | [] => rfl
  | t :: ts => by rw [substList, substList_eq_map φ ts, List.map_cons]

@[simp] theorem substOwner_eq_map (φ : TypeVarId → Ty) (o : Option Ty) :
    substOwner φ o = o.map (·.subst φ) := by
  cases o <;> rfl

theorem subst_arrayOf (φ : TypeVarId → Ty) (t : Ty) :
    t.arrayOf.subst φ = (t.subst φ).arrayOf := by
  cases t <;> simp [arrayOf, subst]

theorem isWildcard_subst {t : Ty} (ht : t.isWildcard = false)
    (hφ : ∀ v, t = .var v → (φ v).isWildcard = false) :
    (t.subst φ).isWildcard = false := by
  cases t with
  | var v => exact hφ v rfl
  | genericArray t =>
      rw [subst]
      cases t.subst φ <;> rfl
  | nominal _ | parameterized _ _ _ | wildcard _ _ | capture _ => exact ht

/-- Substitution looks at the variables that occur and at no others. -/
theorem subst_congr {t : Ty} (h : ∀ v, .var v ∈ t.parts → φ v = ψ v) :
    t.subst φ = t.subst ψ := by
  induction t using induct with
  | nominal _ | capture _ => rfl
  | var v => exact h v (mem_parts_self _)
  | parameterized id args owner ihargs ihowner =>
      have hargs : args.map (·.subst φ) = args.map (·.subst ψ) :=
        List.map_congr_left fun a ha => ihargs a ha fun v hv =>
          h v (mem_parts_parameterized.2 (.inr (.inr ⟨a, ha, hv⟩)))
      have howner : owner.map (·.subst φ) = owner.map (·.subst ψ) :=
        Option.map_congr fun o ho => ihowner o ho fun v hv =>
          h v (mem_parts_parameterized.2 (.inr (.inl ⟨o, ho, hv⟩)))
      simp only [subst, substList_eq_map, substOwner_eq_map, hargs, howner]
  | wildcard upper lower ihupper ihlower =>
      have hupper : upper.map (·.subst φ) = upper.map (·.subst ψ) :=
        List.map_congr_left fun b hb => ihupper b hb fun v hv =>
          h v (mem_parts_wildcard.2 (.inr (.inl ⟨b, hb, hv⟩)))
      have hlower : lower.map (·.subst φ) = lower.map (·.subst ψ) :=
        List.map_congr_left fun b hb => ihlower b hb fun v hv =>
          h v (mem_parts_wildcard.2 (.inr (.inr ⟨b, hb, hv⟩)))
      simp only [subst, substList_eq_map, hupper, hlower]
  | genericArray t ih =>
      rw [subst, subst, ih fun v hv => h v (mem_parts_genericArray.2 (.inr hv))]

/-- One substitution after another is one substitution of the values. -/
theorem subst_subst (φ ψ : TypeVarId → Ty) (t : Ty) :
    (t.subst φ).subst ψ = t.subst fun v => (φ v).subst ψ := by
  induction t using induct with
  | nominal _ | capture _ | var _ => rfl
  | parameterized id args owner ihargs ihowner =>
      simp only [subst, substList_eq_map, substOwner_eq_map, List.map_map,
        Option.map_map]
      congr 1
      · exact List.map_congr_left ihargs
      · exact Option.map_congr ihowner
  | wildcard upper lower ihupper ihlower =>
      simp only [subst, substList_eq_map, List.map_map]
      congr 1
      · exact List.map_congr_left ihupper
      · exact List.map_congr_left ihlower
  | genericArray t ih => rw [subst, subst_arrayOf, ih, subst]

theorem head?_subst {t : Ty} {id : ClassId} (h : t.head? = some id)
    (φ : TypeVarId → Ty) : (t.subst φ).head? = some id := by
  rcases head?_eq_some_iff.1 h with rfl | ⟨_, _, rfl⟩ <;> rfl

theorem mem_parts_arrayOf {x t : Ty} (h : x ∈ t.arrayOf.parts) :
    x = t.arrayOf ∨ x ∈ t.parts := by
  cases t with
  | nominal c => exact .inl (by simpa [arrayOf, parts] using h)
  | parameterized _ _ _ | var _ | wildcard _ _ | genericArray _ | capture _ =>
      exact mem_parts_genericArray.1 h

/-- Values are put into the children. Arrays are apart, since one around a plain
class takes it in. -/
theorem children_subst {t : Ty} (hvar : t.isVar = false)
    (harray : ∀ s, t ≠ .genericArray s) :
    (t.subst φ).children = t.children.map (·.subst φ) := by
  cases t with
  | nominal _ | capture _ => rfl
  | var _ => cases hvar
  | genericArray s => exact absurd rfl (harray s)
  | parameterized id args owner => cases owner <;> simp [subst, children]
  | wildcard upper lower => simp [subst, children]

/-- A part of a type with values put in is a part of the type with values put
in, or a part of a value. -/
theorem mem_parts_subst {x t : Ty} (h : x ∈ (t.subst φ).parts) :
    (∃ y ∈ t.parts, y.isVar = false ∧ x = y.subst φ) ∨
      ∃ v, .var v ∈ t.parts ∧ x ∈ (φ v).parts := by
  induction t using byChildren with
  | node t ih =>
      have hinside : ∀ c ∈ t.children, x ∈ (c.subst φ).parts →
          (∃ y ∈ t.parts, y.isVar = false ∧ x = y.subst φ) ∨
            ∃ v, .var v ∈ t.parts ∧ x ∈ (φ v).parts := by
        intro c hc hx
        rcases ih c hc hx with ⟨y, hy, hvar, heq⟩ | ⟨v, hv, hx⟩
        · exact .inl ⟨y, mem_parts_of_child hc hy, hvar, heq⟩
        · exact .inr ⟨v, mem_parts_of_child hc hv, hx⟩
      cases t with
      | var v => exact .inr ⟨v, mem_parts_self _, h⟩
      | genericArray s =>
          rcases mem_parts_arrayOf h with hx | hx
          · exact .inl ⟨.genericArray s, mem_parts_self _, rfl, hx⟩
          · exact hinside s List.mem_cons_self hx
      | nominal _ | parameterized _ _ _ | wildcard _ _ | capture _ =>
          rcases mem_parts_iff.1 h with hx | ⟨c, hc, hx⟩
          · exact .inl ⟨_, mem_parts_self _, rfl, hx⟩
          · rw [children_subst rfl fun _ => Ty.noConfusion] at hc
            obtain ⟨k, hk, rfl⟩ := List.mem_map.1 hc
            exact hinside k hk hx

theorem arrayOf_ne_var (t : Ty) (v : TypeVarId) : t.arrayOf ≠ .var v := by
  cases t <;> exact Ty.noConfusion

/-- A variable of a type with values put in is one of a value. -/
theorem var_mem_parts_subst {t : Ty} {v : TypeVarId}
    (h : .var v ∈ (t.subst φ).parts) :
    ∃ w, .var w ∈ t.parts ∧ .var v ∈ (φ w).parts := by
  rcases mem_parts_subst h with ⟨y, -, hy, heq⟩ | hv
  · cases y with
    | var _ => cases hy
    | genericArray s => exact absurd heq.symm (arrayOf_ne_var _ v)
    | nominal _ | parameterized _ _ _ | wildcard _ _ | capture _ => cases heq
  · exact hv

/-- What is in a part with values put in is in the type with values put in,
plain classes apart: an array around one takes it in. -/
theorem part_mem_subst {t x y : Ty} (hx : ∀ c, x ≠ .nominal c)
    (hy : y ∈ t.parts) (h : x ∈ (y.subst φ).parts) : x ∈ (t.subst φ).parts := by
  induction t using byChildren with
  | node t ih =>
      rcases mem_parts_iff.1 hy with rfl | ⟨c, hc, hmem⟩
      · exact h
      have hinside : x ∈ (c.subst φ).parts := ih c hc hmem
      cases t with
      | nominal _ | var _ | capture _ => cases hc
      | genericArray s =>
          obtain rfl := List.mem_singleton.1 hc
          rw [subst]
          cases hvalue : c.subst φ with
          | nominal b =>
              rw [hvalue] at hinside
              exact absurd (List.mem_singleton.1 hinside) (hx b)
          | parameterized _ _ _ | var _ | wildcard _ _ | genericArray _
          | capture _ =>
              exact mem_parts_genericArray.2 (.inr (hvalue ▸ hinside))
      | parameterized _ _ _ | wildcard _ _ =>
          refine mem_parts_of_child ?_ hinside
          rw [children_subst rfl fun _ => Ty.noConfusion]
          exact List.mem_map_of_mem hc

end Ty

namespace Substitution

variable {α β : Type} {σ : Substitution} {φ : TypeVarId → Ty} {t : Ty}
  {ts : List Ty} {owner : Option Ty} {v : TypeVarId}

/-- The substitution as a function that leaves unbound variables alone. -/
def apply (σ : Substitution) (v : TypeVarId) : Ty := (σ.get? v).getD (.var v)

/-- The first of several variables that has no value. -/
def firstUnbound (σ : Substitution) (vs : List TypeVarId) : Option TypeVarId :=
  vs.find? fun v => (σ.get? v).isNone

/-- An answer, unless a variable stands in its way. -/
def answerUnless (unbound : Option TypeVarId) (answer : α) : Except Error α :=
  match unbound with
  | some v => .error (.unboundVariable v)
  | none => .ok answer

/-- A second stage is not come to where the first fails. -/
theorem answerUnless_bind (o p : Option TypeVarId) (a : α) (f : α → β) :
    (answerUnless o a >>= fun a => answerUnless p (f a)) =
      answerUnless (o.or p) (f a) := by
  cases o <;> rfl

theorem answerUnless_map (o : Option TypeVarId) (a : α) (f : α → β) :
    (answerUnless o a >>= fun a => pure (f a)) = answerUnless o (f a) := by
  cases o <;> rfl

theorem answerUnless_eq_ok_iff {o : Option TypeVarId} {a b : α} :
    answerUnless o a = .ok b ↔ o = none ∧ a = b := by
  cases o <;> simp [answerUnless]

theorem answerUnless_eq_error_iff {o : Option TypeVarId} {a : α} {e : Error} :
    answerUnless o a = .error e ↔ ∃ v, o = some v ∧ e = .unboundVariable v := by
  cases o <;> simp [answerUnless, eq_comm]

theorem firstUnbound_append (vs ws : List TypeVarId) :
    σ.firstUnbound (vs ++ ws) = (σ.firstUnbound vs).or (σ.firstUnbound ws) :=
  List.find?_append

theorem firstUnbound_eq_none_iff {vs : List TypeVarId} :
    σ.firstUnbound vs = none ↔ ∀ v ∈ vs, (σ.get? v).isSome := by
  simp [firstUnbound, Option.isSome_iff_ne_none]

theorem resolveAll_eq
    (h : ∀ t ∈ ts, σ.resolve t = answerUnless (σ.firstUnbound t.vars)
      (t.subst σ.apply)) :
    σ.resolveAll ts =
      answerUnless (σ.firstUnbound (ts.flatMap Ty.vars))
        (ts.map (·.subst σ.apply)) := by
  induction ts with
  | nil => rfl
  | cons t ts ih =>
      have hrest := ih fun s hs => h s (List.mem_cons_of_mem t hs)
      rw [resolveAll, h t List.mem_cons_self, hrest, List.flatMap_cons,
        firstUnbound_append]
      simp only [answerUnless_map]
      exact answerUnless_bind _ _ _ (· :: ts.map (·.subst σ.apply))

theorem resolveOwner_eq
    (h : ∀ o, owner = some o →
      σ.resolve o = answerUnless (σ.firstUnbound o.vars) (o.subst σ.apply)) :
    σ.resolveOwner owner =
      answerUnless (σ.firstUnbound (owner.toList.flatMap Ty.vars))
        (owner.map (·.subst σ.apply)) := by
  cases owner with
  | none => rfl
  | some o =>
      rw [resolveOwner, h o rfl, answerUnless_map]
      simp

/-- Every outcome: the first unbound variable of the type is reported, and where
there is none the values are put in. -/
theorem resolve_eq (σ : Substitution) (t : Ty) :
    σ.resolve t = answerUnless (σ.firstUnbound t.vars) (t.subst σ.apply) := by
  induction t using Ty.induct with
  | nominal _ | capture _ => rfl
  | var v =>
      rw [resolve, Ty.vars_var, Ty.subst, apply, firstUnbound,
        List.find?_singleton]
      cases σ.get? v <;> rfl
  | parameterized id args owner ihargs ihowner =>
      rw [resolve, resolveOwner_eq ihowner, resolveAll_eq ihargs,
        Ty.vars_parameterized,
        firstUnbound_append, Ty.subst, Ty.substList_eq_map,
        Ty.substOwner_eq_map]
      simp only [answerUnless_map]
      exact answerUnless_bind _ _ _
        (Ty.parameterized id (args.map (·.subst σ.apply)))
  | wildcard upper lower ihupper ihlower =>
      rw [resolve, resolveAll_eq ihupper, resolveAll_eq ihlower,
        Ty.vars_wildcard,
        firstUnbound_append, Ty.subst, Ty.substList_eq_map, Ty.substList_eq_map]
      simp only [answerUnless_map]
      exact answerUnless_bind _ _ _
        (Ty.wildcard · (lower.map (·.subst σ.apply)))
  | genericArray t ih =>
      rw [resolve, ih, answerUnless_map, Ty.vars_genericArray, Ty.subst]

/-- Where every variable of a type has the value that `φ` gives it, resolving
the type does not fail, and it is substitution by `φ`. -/
theorem resolve_eq_subst (h : ∀ v, .var v ∈ t.parts → σ.get? v = some (φ v)) :
    σ.resolve t = .ok (t.subst φ) := by
  have hbound : σ.firstUnbound t.vars = none :=
      firstUnbound_eq_none_iff.2 fun v hv => by
    rw [h v (Ty.mem_vars.1 hv), Option.isSome_some]
  have hvalues : t.subst σ.apply = t.subst φ := Ty.subst_congr fun v hv => by
    rw [apply, h v hv, Option.getD_some]
  rw [resolve_eq, hbound, hvalues]
  rfl

/-- A type all of whose variables are bound resolves. -/
theorem resolve_ok (h : ∀ v, .var v ∈ t.parts → (σ.get? v).isSome) :
    σ.resolve t = .ok (t.subst σ.apply) := by
  rw [resolve_eq, firstUnbound_eq_none_iff.2 fun v hv => h v (Ty.mem_vars.1 hv)]
  rfl

theorem exists_resolve_iff :
    (∃ s, σ.resolve t = .ok s) ↔ ∀ v ∈ t.vars, (σ.get? v).isSome := by
  rw [resolve_eq, ← firstUnbound_eq_none_iff]
  simp [answerUnless_eq_ok_iff]

theorem resolve_eq_error_iff {e : Error} :
    σ.resolve t = .error e ↔ ∃ v, σ.firstUnbound t.vars = some v ∧
      e = .unboundVariable v := by
  rw [resolve_eq, answerUnless_eq_error_iff]

/-- What resolves has its variables bound. -/
theorem isSome_of_resolve {s : Ty} (h : σ.resolve t = .ok s) (v : TypeVarId)
    (hv : .var v ∈ t.parts) : (σ.get? v).isSome :=
  exists_resolve_iff.1 ⟨s, h⟩ v (Ty.mem_vars.2 hv)

/-- To resolve a type is to substitute into it, where it does not fail. -/
theorem eq_subst_of_resolve {s : Ty} (h : σ.resolve t = .ok s) :
    s = t.subst σ.apply :=
  Except.ok.inj (h.symm.trans (resolve_ok (isSome_of_resolve h)))

theorem resolveAll_eq_map (h : ∀ t ∈ ts, σ.resolve t = .ok (t.subst φ)) :
    σ.resolveAll ts = .ok (ts.map (·.subst φ)) := by
  induction ts with
  | nil => rfl
  | cons t ts ih =>
      rw [resolveAll, h t (by simp), ih fun s hs => h s (by simp [hs])]
      rfl

theorem resolveAll_eq_answer (σ : Substitution) (ts : List Ty) :
    σ.resolveAll ts =
      answerUnless (σ.firstUnbound (ts.flatMap Ty.vars))
        (ts.map (·.subst σ.apply)) :=
  resolveAll_eq fun t _ => resolve_eq σ t

theorem eq_map_of_resolveAll {ss : List Ty} (h : σ.resolveAll ts = .ok ss) :
    ss = ts.map (·.subst σ.apply) := by
  rw [resolveAll_eq_answer] at h
  exact (answerUnless_eq_ok_iff.1 h).2.symm

theorem resolve_of_resolveAll {ss : List Ty} (h : σ.resolveAll ts = .ok ss)
    (ht : t ∈ ts) : ∃ s, σ.resolve t = .ok s := by
  rw [resolveAll_eq_answer] at h
  have hbound := firstUnbound_eq_none_iff.1 (answerUnless_eq_ok_iff.1 h).1
  exact exists_resolve_iff.2 fun v hv =>
    hbound v (List.mem_flatMap.2 ⟨t, ht, hv⟩)

end Substitution

end GenericTypes
