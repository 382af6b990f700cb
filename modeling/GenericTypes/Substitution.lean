import GenericTypes.Error

/-!
# Substitutions

A substitution binds finitely many type variables, each at most once. Applying
one replaces every variable by its value in a single pass: a value is put in as
it stands and never substituted into again. A variable without a binding is an
error rather than a leaf, so an answer has no variables but those of the values.

The pass goes owner first, then arguments, upper bounds before lower ones, left
to right; that order decides which unbound variable is reported.
-/

namespace GenericTypes

/-- A finite map from type variables to types. -/
structure Substitution where
  bindings : List (TypeVarId × Ty)
  /-- No variable is bound twice. -/
  distinct : (bindings.map Prod.fst).Nodup
deriving DecidableEq

namespace Substitution

theorem distinct_bind {bindings : List (TypeVarId × Ty)}
    (h : (bindings.map Prod.fst).Nodup) (v : TypeVarId) (t : Ty) :
    (((v, t) :: bindings.filter fun b => b.1 != v).map Prod.fst).Nodup := by
  rw [List.map_cons, List.nodup_cons]
  refine ⟨?_, List.Pairwise.sublist (List.filter_sublist.map _) h⟩
  intro hv
  obtain ⟨b, hb, hbv⟩ := List.mem_map.1 hv
  have hne := (List.mem_filter.1 hb).2
  simp [hbv] at hne

/-- The substitution that binds nothing. -/
def empty : Substitution := ⟨[], List.nodup_nil⟩

/-- The value of a variable, if it has one. -/
def get? (σ : Substitution) (v : TypeVarId) : Option Ty := σ.bindings.lookup v

/-- Bind `v` to `t`, dropping an earlier binding of `v`. -/
def bind (σ : Substitution) (v : TypeVarId) (t : Ty) : Substitution :=
  ⟨(v, t) :: σ.bindings.filter fun b => b.1 != v, distinct_bind σ.distinct v t⟩

/-- How many variables are bound. -/
def size (σ : Substitution) : Nat := σ.bindings.length

/-- Bind each variable to the type at its place; of a variable listed twice the
last place counts. -/
def bindZip (σ : Substitution) (vs : List TypeVarId) (ts : List Ty) :
    Substitution :=
  (vs.zip ts).foldl (fun σ b => σ.bind b.1 b.2) σ

/-- `bindZip` where the two lists have one length; otherwise nothing is
bound. -/
def bindAll (σ : Substitution) (vs : List TypeVarId) (ts : List Ty) :
    Except Error Substitution :=
  if vs.length = ts.length then .ok (σ.bindZip vs ts)
  else .error (.arityMismatch none vs.length ts.length)

/-- Bind each variable to itself. -/
def bindSelf (σ : Substitution) (vs : List TypeVarId) : Substitution :=
  vs.foldl (fun σ v => σ.bind v (.var v)) σ

mutual

/-- Replace every variable of a type. Plain classes and captures are leaves, and
an array whose component turns into a plain class turns into a nominal one. -/
def resolve (σ : Substitution) : Ty → Except Error Ty
  | .nominal c => .ok (.nominal c)
  | .parameterized c args owner => do
      let owner ← σ.resolveOwner owner
      let args ← σ.resolveAll args
      return .parameterized c args owner
  | .var v =>
      match σ.get? v with
      | some t => .ok t
      | none => .error (.unboundVariable v)
  | .wildcard upper lower => do
      let upper ← σ.resolveAll upper
      let lower ← σ.resolveAll lower
      return .wildcard upper lower
  | .genericArray t => do
      let t ← σ.resolve t
      return t.arrayOf
  | .capture i => .ok (.capture i)

/-- Replace every variable of several types, left to right. -/
def resolveAll (σ : Substitution) : List Ty → Except Error (List Ty)
  | [] => .ok []
  | t :: ts => do
      let t ← σ.resolve t
      let ts ← σ.resolveAll ts
      return t :: ts

/-- Replace every variable of an owner, if there is one. -/
def resolveOwner (σ : Substitution) : Option Ty → Except Error (Option Ty)
  | none => .ok none
  | some t => do
      let t ← σ.resolve t
      return some t

end

@[simp] theorem get?_empty (v : TypeVarId) : empty.get? v = none := rfl

theorem lookup_filter_ne {v w : TypeVarId} (h : w ≠ v) :
    ∀ bs : List (TypeVarId × Ty),
      (bs.filter fun b => b.1 != v).lookup w = bs.lookup w
  | [] => rfl
  | (u, t) :: bs => by
      have ih := lookup_filter_ne h bs
      by_cases hu : u = v
      · subst hu
        rw [List.filter_cons_of_neg (by simp), List.lookup_cons,
          beq_false_of_ne h]
        exact ih
      · rw [List.filter_cons_of_pos (by simpa using hu), List.lookup_cons,
          List.lookup_cons, ih]

theorem get?_bind (σ : Substitution) (v w : TypeVarId) (t : Ty) :
    (σ.bind v t).get? w = if w = v then some t else σ.get? w := by
  by_cases h : w = v
  · simp [bind, get?, h]
  · simp [bind, get?, List.lookup_cons, h, lookup_filter_ne h,
      beq_false_of_ne h]

end Substitution

end GenericTypes
