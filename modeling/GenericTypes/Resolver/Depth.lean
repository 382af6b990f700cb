import GenericTypes.Resolver.Request

/-!
# The depth never decides an answer

A search is given a depth so that it is total, and the depth would be charged to
every statement about searches if it could change an answer. It cannot: a
search that ends, with an answer or with a failure, ends the same way at every
greater depth, in the same context. The proofs walk the definitions layer by
layer. Each layer is a chain of steps, and a chain does at a greater depth what
it did at the smaller one as soon as each of its steps does; the only step with
anything in it is the recursive call, and the only depth at which a call differs
is zero, where it does not end.
-/

namespace GenericTypes

namespace Resolve

variable {α β : Type}

/-- `y` does what `x` does wherever `x` ends. -/
def Extends (x y : Resolve α) : Prop :=
  ∀ ctx, (x ctx).1 ≠ .exhausted → y ctx = x ctx

theorem Extends.refl (x : Resolve α) : Extends x x := fun _ _ => rfl

theorem Extends.bind {x y : Resolve α} {f g : α → Resolve β} (h : Extends x y)
    (hf : ∀ a, Extends (f a) (g a)) : Extends (x >>= f) (y >>= g) := by
  intro ctx hne
  rw [bind_apply] at hne ⊢
  rw [bind_apply]
  have hx := h ctx
  match hxc : x ctx with
  | (.ok a, ctx') =>
      rw [hxc] at hne hx
      rw [hx (by simp)]
      exact hf a ctx' hne
  | (.error e, ctx') =>
      rw [hxc] at hx
      rw [hx (by simp)]
  | (.exhausted, ctx') =>
      rw [hxc] at hne
      exact absurd rfl hne

/-- Steps before a chain change nothing about it. -/
theorem Extends.after (x : Resolve α) {f g : α → Resolve β}
    (hf : ∀ a, Extends (f a) (g a)) : Extends (x >>= f) (x >>= g) :=
  (Extends.refl x).bind hf

theorem exhausted_extends (y : Resolve α) : Extends exhausted y :=
  fun _ h => absurd rfl h

end Resolve

namespace Resolver

open Resolve

variable {α β : Type}

theorem firstAnswer_extends {ask ask' : Ty → Resolve (Option α)}
    (h : ∀ t, Extends (ask t) (ask' t)) :
    ∀ ts, Extends (firstAnswer ask ts) (firstAnswer ask' ts)
  | [] => .refl _
  | t :: ts => (h t).bind fun found => by
      cases found with
      | none => exact firstAnswer_extends h ts
      | some _ => exact .refl _

theorem anyHolds_extends {test test' : α → Resolve Bool}
    (h : ∀ a, Extends (test a) (test' a)) :
    ∀ as, Extends (anyHolds test as) (anyHolds test' as)
  | [] => .refl _
  | a :: as => (h a).bind fun holds => by
      cases holds with
      | false => exact anyHolds_extends h as
      | true => exact .refl _

theorem allHold_extends {test test' : α → Resolve Bool}
    (h : ∀ a, Extends (test a) (test' a)) :
    ∀ as, Extends (allHold test as) (allHold test' as)
  | [] => .refl _
  | a :: as => (h a).bind fun holds => by
      cases holds with
      | false => exact .refl _
      | true => exact allHold_extends h as

theorem collectEach_extends
    {step step' : Ty → List Class → Resolve (List Class)}
    (h : ∀ t found, Extends (step t found) (step' t found)) :
    ∀ ts found, Extends (collectEach step ts found) (collectEach step' ts found)
  | [], _ => .refl _
  | t :: ts, found =>
      (h t found).bind fun found => collectEach_extends h ts found

/-- A supertype search that ends does so at every greater depth. -/
theorem exactSupertype_extends (r : Resolver) (target : Class) :
    ∀ {n m : Nat}, n ≤ m → ∀ t,
      Extends (r.exactSupertype n t target) (r.exactSupertype m t target)
  | 0, _, _, _ => exhausted_extends _
  | n + 1, m + 1, hle, t => .after _ fun settled => by
      cases settled with
      | some _ => exact .refl _
      | none =>
          exact .after _ fun ts => firstAnswer_extends
            (fun s => .after _ fun _ =>
              exactSupertype_extends r target (Nat.le_of_succ_le_succ hle) s) ts

/-- Collecting bounding classes, where it ends, does so at every greater
depth. -/
theorem collectBounds_extends (r : Resolver) :
    ∀ {n m : Nat}, n ≤ m → ∀ t found,
      Extends (r.collectBounds n t found) (r.collectBounds m t found)
  | 0, _, _, _, _ => exhausted_extends _
  | n + 1, m + 1, hle, t, found => by
      have ih := collectBounds_extends r (Nat.le_of_succ_le_succ hle)
      cases t with
      | nominal _ | parameterized _ _ _ => exact .refl _
      | var _ | wildcard _ _ | genericArray _ | capture _ =>
          exact .after _ fun ts => collectEach_extends ih ts found

section Comparison

variable {isSup isSup' : Ty → Ty → Resolve Bool}

theorem containsBy_extends (h : ∀ s t, Extends (isSup s t) (isSup' s t))
    (outer inner : Ty) :
    Extends (containsBy isSup outer inner) (containsBy isSup' outer inner) := by
  cases outer with
  | wildcard upper lower =>
      refine (allHold_extends (fun bound => h bound inner) upper).bind
        fun holds => ?_
      cases holds with
      | false => exact .refl _
      | true => exact allHold_extends (fun bound => h inner bound) lower
  | nominal _ | parameterized _ _ _ | var _ | genericArray _ | capture _ =>
      exact .refl _

theorem argumentsMatch_extends (h : ∀ s t, Extends (isSup s t) (isSup' s t))
    (id : ClassId) (args : List Ty) (owner : Option Ty) (args' : List Ty)
    (owner' : Option Ty) :
    Extends (argumentsMatch isSup id args owner args' owner')
      (argumentsMatch isSup' id args owner args' owner') := by
  unfold argumentsMatch
  split
  · refine (allHold_extends
      (fun (pair : Ty × Ty) => containsBy_extends h pair.1 pair.2) _).bind ?_
    intro holds
    cases holds with
    | false => exact .refl _
    | true =>
        cases owner with
        | none => exact .refl _
        | some o =>
            cases owner' with
            | none => exact .refl _
            | some o' => exact h o o'
  · exact .refl _

theorem matchesView_extends (h : ∀ s t, Extends (isSup s t) (isSup' s t))
    (sup found : Ty) :
    Extends (matchesView isSup sup found) (matchesView isSup' sup found) := by
  unfold matchesView
  split
  · exact .refl _
  · exact .refl _
  · split
    · exact h _ _
    · exact .refl _
  · exact argumentsMatch_extends h _ _ _ _ _
  · exact .refl _

end Comparison

/-- A comparison that ends does so at every greater depth. -/
theorem isSupertype_extends (r : Resolver) :
    ∀ {n m : Nat}, n ≤ m → ∀ sup sub,
      Extends (r.isSupertype n sup sub) (r.isSupertype m sup sub)
  | 0, _, _, _, _ => exhausted_extends _
  | n + 1, m + 1, hle, sup, sub => by
      have hle' := Nat.le_of_succ_le_succ hle
      have ih := isSupertype_extends r hle'
      cases sup with
      | nominal _ | parameterized _ _ _ | genericArray _ =>
          refine .after _ fun superClass => .after _ fun settled => ?_
          cases settled with
          | some _ => exact .refl _
          | none =>
              refine .after _ fun captured => ?_
              refine (exactSupertype_extends r superClass hle' captured).bind
                fun found => ?_
              cases found with
              | none => exact .refl _
              | some _ => exact matchesView_extends ih _ _
      | capture id =>
          unfold isSupertype
          dsimp only
          split
          · exact .refl _
          · exact .after _ fun c =>
              anyHolds_extends (fun bound => ih bound sub) c.lower
      | var v =>
          unfold isSupertype
          dsimp only
          split
          · exact .refl _
          · split
            · exact .after _ fun bounds =>
                anyHolds_extends (fun bound => ih _ bound) bounds
            · exact .after _ fun bounds =>
                anyHolds_extends (fun bound => ih _ bound) bounds
            · exact .refl _
      | wildcard _ _ => exact .refl _

end Resolver

end GenericTypes
