import GenericTypes.Proofs.Renaming
import GenericTypes.Proofs.Settling

/-!
# Properties that all types made of given ones have

A resolver makes types in a handful of ways: it applies a class to arguments, it
puts values in for variables, it puts an array around a component, and it takes
a type apart. A property that each of these hands on (`Hereditary`) belongs to
every type that comes of types that have it, and it may depend on how many
captures there are, as long as more of them do no harm. That is the case for
every condition on the single parts of a type that only captures and arrays have
to meet (`Hereditary.of_parts`).

Here the property is followed through what is worked out without the arena:
substitution, erasure and the direct supertypes. Failures count as well, for two
of them carry a type of their own.
-/

namespace GenericTypes

/-- What a failure says of types. A capture that is not in the arena is one. -/
def Error.types : Error → List Ty
  | .notSubstitutable t => [t]
  | .foreignCapture i => [.capture i]
  | .notErasable _ | .unboundVariable _ | .arityMismatch _ _ _
  | .unexpectedWildcard | .undeclaredClass _ | .undeclaredVariable _ => []

theorem Error.LacksVariable.types_eq_nil {e : Error} (h : e.LacksVariable) :
    e.types = [] := by
  cases e with
  | unboundVariable _ | undeclaredVariable _ => rfl
  | notErasable _ | arityMismatch _ _ _ | unexpectedWildcard | undeclaredClass _
  | foreignCapture _ | notSubstitutable _ => exact h.elim

/-- The answer, if there is one, is as `S` says, and otherwise the types that
the failure carries have the property `T`. -/
def Outcome.Satisfies {α : Type} (T : Ty → Prop) (S : α → Prop) :
    Outcome α → Prop
  | .ok a => S a
  | .error e => ∀ t ∈ e.types, T t
  | .exhausted => True

namespace Outcome.Satisfies

variable {α β : Type} {T : Ty → Prop} {S : α → Prop} {x : Outcome α}

theorem bind {S' : β → Prop} {f : α → Outcome β} (hx : x.Satisfies T S)
    (hf : ∀ a, S a → (f a).Satisfies T S') : (x >>= f).Satisfies T S' := by
  cases x with
  | ok a => exact hf a hx
  | error _ | exhausted => exact hx

/-- A failure without types has them all as they should be. -/
theorem of_bare {e : Error} (h : e.types = []) :
    (Outcome.error e : Outcome α).Satisfies T S := by
  intro t ht
  rw [h] at ht
  cases ht

end Outcome.Satisfies

/-- A property of types, given how many captures there are, that every type has
which is made of types that have it. -/
structure Hereditary (P : Nat → Ty → Prop) : Prop where
  mono : ∀ {n m t}, n ≤ m → P n t → P m t
  nominal : ∀ n c, P n (.nominal c)
  var : ∀ n v, P n (.var v)
  capture : ∀ {n} {i : CaptureId}, i.index < n → P n (.capture i)
  parameterized : ∀ {n id args owner}, P n (.parameterized id args owner) ↔
    (∀ o ∈ owner, P n o) ∧ ∀ a ∈ args, P n a
  wildcard : ∀ {n upper lower}, P n (.wildcard upper lower) ↔
    (∀ b ∈ upper, P n b) ∧ ∀ b ∈ lower, P n b
  component : ∀ {n t}, P n (.genericArray t) → P n t
  arrayOf : ∀ {n t}, P n t → P n t.arrayOf

/-- Every type written in the declarations has the property. -/
structure Declarations.Throughout (d : Declarations)
    (T : Ty → Prop) : Prop where
  classes : ∀ {id c}, d.class? id = some c → ∀ t ∈ c.types, T t
  bounds : ∀ {v p}, d.typeParam? v = some p → ∀ b ∈ p.upperBounds, T b

/-- Every value of the substitution has the property. -/
def Substitution.Within (T : Ty → Prop) (σ : Substitution) : Prop :=
  ∀ v t, σ.get? v = some t → T t

namespace Hereditary

variable {P : Nat → Ty → Prop} {T : Ty → Prop} {n m : Nat} {t via : Ty}

/-- A condition on the parts of a type that asks nothing of classes, variables,
wildcards and applied classes, is met by arrays as they are built and by
captures that are among the first `n`. -/
theorem of_parts {Q : Nat → Ty → Prop}
    (hmono : ∀ {n m x}, n ≤ m → Q n x → Q m x)
    (hnominal : ∀ n c, Q n (.nominal c)) (hvar : ∀ n v, Q n (.var v))
    (hcapture : ∀ {n} {i : CaptureId}, i.index < n → Q n (.capture i))
    (hparameterized : ∀ n id args owner, Q n (.parameterized id args owner))
    (hwildcard : ∀ n upper lower, Q n (.wildcard upper lower))
    (harray : ∀ n (t : Ty), Q n t.arrayOf) :
    Hereditary fun n t => ∀ x ∈ t.parts, Q n x where
  mono := fun hle ht x hx => hmono hle (ht x hx)
  nominal := fun n c x hx => List.mem_singleton.1 hx ▸ hnominal n c
  var := fun n v x hx => List.mem_singleton.1 hx ▸ hvar n v
  capture := fun hi x hx => List.mem_singleton.1 hx ▸ hcapture hi
  parameterized := by
    intro n id args owner
    rw [Ty.forall_parts_iff, Ty.forall_children_parameterized]
    exact and_iff_right (hparameterized n id args owner)
  wildcard := by
    intro n upper lower
    rw [Ty.forall_parts_iff, Ty.forall_children_wildcard]
    exact and_iff_right (hwildcard n upper lower)
  component := fun h x hx => h x (Ty.mem_parts_genericArray.2 (.inr hx))
  arrayOf := by
    intro n t h x hx
    rcases Ty.mem_parts_arrayOf hx with rfl | hx
    · exact harray n t
    · exact h x hx

variable (h : Hereditary P)

include h

/-! ## Substitution -/

theorem subst {φ : TypeVarId → Ty} (ht : P n t) (hφ : ∀ v, P n (φ v)) :
    P n (t.subst φ) := by
  induction t using Ty.induct with
  | nominal _ | capture _ => exact ht
  | var v => exact hφ v
  | parameterized id args owner ihargs ihowner =>
      obtain ⟨howner, hargs⟩ := h.parameterized.1 ht
      rw [Ty.subst, Ty.substList_eq_map, Ty.substOwner_eq_map]
      refine h.parameterized.2 ⟨fun o ho => ?_, fun a ha => ?_⟩
      · obtain ⟨o', ho', rfl⟩ := Option.map_eq_some_iff.1 ho
        exact ihowner o' ho' (howner o' ho')
      · obtain ⟨a', ha', rfl⟩ := List.mem_map.1 ha
        exact ihargs a' ha' (hargs a' ha')
  | wildcard upper lower ihupper ihlower =>
      obtain ⟨hupper, hlower⟩ := h.wildcard.1 ht
      rw [Ty.subst, Ty.substList_eq_map, Ty.substList_eq_map]
      refine h.wildcard.2 ⟨fun b hb => ?_, fun b hb => ?_⟩
      · obtain ⟨b', hb', rfl⟩ := List.mem_map.1 hb
        exact ihupper b' hb' (hupper b' hb')
      · obtain ⟨b', hb', rfl⟩ := List.mem_map.1 hb
        exact ihlower b' hb' (hlower b' hb')
  | genericArray t ih => exact h.arrayOf (ih (h.component ht))

omit h in
theorem within_bind {σ : Substitution} (hσ : σ.Within (P n)) (v : TypeVarId)
    (ht : P n t) : (σ.bind v t).Within (P n) := by
  intro w s hs
  rw [Substitution.get?_bind] at hs
  split at hs
  · exact Option.some.inj hs ▸ ht
  · exact hσ w s hs

omit h in
theorem within_bindZip :
    ∀ {vs : List TypeVarId} {ts : List Ty} {σ : Substitution}, σ.Within (P n) →
      (∀ t ∈ ts, P n t) → (σ.bindZip vs ts).Within (P n)
  | [], _, _, hσ, _ | _ :: _, [], _, hσ, _ => hσ
  | v :: vs, t :: ts, σ, hσ, hts => by
      show ((σ.bind v t).bindZip vs ts).Within (P n)
      exact within_bindZip (within_bind hσ v (hts t List.mem_cons_self))
        fun s hs => hts s (List.mem_cons_of_mem t hs)

theorem within_bindSelf :
    ∀ {vs : List TypeVarId} {σ : Substitution}, σ.Within (P n) →
    (σ.bindSelf vs).Within (P n)
  | [], _, hσ => hσ
  | v :: vs, σ, hσ => by
      show ((σ.bind v (.var v)).bindSelf vs).Within (P n)
      exact within_bindSelf (within_bind hσ v (h.var n v))

omit h in
theorem within_empty : Substitution.empty.Within (P n) :=
  fun _ _ hs => nomatch hs

theorem apply_within {σ : Substitution} (hσ : σ.Within (P n)) (v : TypeVarId) :
    P n (σ.apply v) := by
  rw [Substitution.apply]
  cases hv : σ.get? v with
  | some t => exact hσ v t hv
  | none => exact h.var n v

/-- Only the values put in and the type they are put into show in the answer,
and what it fails for is a variable. -/
theorem resolve {σ : Substitution} (hσ : σ.Within (P n)) (ht : P n t) :
    (Outcome.ofExcept (σ.resolve t)).Satisfies T (P n) := by
  cases hs : σ.resolve t with
  | ok s =>
      rw [Substitution.eq_subst_of_resolve hs]
      exact h.subst ht (h.apply_within hσ)
  | error e =>
      exact .of_bare (Substitution.lacksVariable_of_resolve hs).types_eq_nil

/-! ## What is looked up in the declarations -/

section

variable (d : Declarations)

omit h

theorem getClass_satisfies (id : ClassId) :
    (Outcome.ofExcept (d.getClass id)).Satisfies T fun c =>
      d.class? id = some c := by
  unfold Declarations.getClass
  cases hc : d.class? id with
  | some c => rfl
  | none => exact .of_bare rfl

theorem getTypeParam_satisfies (v : TypeVarId) :
    (Outcome.ofExcept (d.getTypeParam v)).Satisfies T fun p =>
      d.typeParam? v = some p := by
  unfold Declarations.getTypeParam
  cases hp : d.typeParam? v with
  | some p => rfl
  | none => exact .of_bare rfl

theorem eraseWith_satisfies {onVar : TypeVarId → Outcome Class}
    (hvar : ∀ v, (onVar v).Satisfies T fun _ => True) :
    ∀ t : Ty, (t.eraseWith onVar).Satisfies T fun _ => True
  | .nominal _ | .parameterized _ _ _ => trivial
  | .var v => hvar v
  | .wildcard _ _ | .capture _ => .of_bare rfl
  | .genericArray t => (eraseWith_satisfies hvar t).bind fun _ _ => trivial

theorem eraseVar_satisfies : ∀ (fuel : Nat) (v : TypeVarId),
    (d.eraseVar fuel v).Satisfies T fun _ => True
  | 0, _ => trivial
  | fuel + 1, v => (getTypeParam_satisfies d v).bind fun p _ => by
      cases p.upperBounds with
      | nil => trivial
      | cons bound _ =>
          exact eraseWith_satisfies (eraseVar_satisfies fuel) bound

/-- Erasure may fail, but no failure of it carries a type. -/
theorem erase_satisfies (t : Ty) : (d.erase t).Satisfies T fun _ => True :=
  eraseWith_satisfies (eraseVar_satisfies d _) t

theorem erasure?_satisfies (t : Ty) :
    (d.erasure? t).Satisfies T fun _ => True := by
  have herase := erase_satisfies d (T := T) t
  cases t with
  | nominal _ | parameterized _ _ _ | genericArray _ =>
      unfold Declarations.erasure?
      dsimp only
      split
      · trivial
      · trivial
      · next hc =>
          rw [hc] at herase
          exact herase
      · trivial
  | var _ | wildcard _ _ | capture _ => trivial

theorem isGenericWithin_satisfies : ∀ (fuel : Nat) (id : ClassId),
    (d.isGenericWithin fuel id).Satisfies T fun _ => True
  | 0, _ => trivial
  | fuel + 1, id => (getClass_satisfies d id).bind fun c _ => by
      split
      · cases c.enclosing with
        | none => trivial
        | some outer => exact isGenericWithin_satisfies fuel outer
      · trivial

theorem isRaw_satisfies : ∀ c : Class, (d.isRaw c).Satisfies T fun _ => True
  | .named id => isGenericWithin_satisfies d _ id
  | .primitive _ | .array _ => trivial

end

theorem wildcardsWithin (d : Declarations) : ∀ (fuel : Nat) (id : ClassId),
    (d.wildcardsWithin fuel id).Satisfies (P n) (P n)
  | 0, _ => trivial
  | fuel + 1, id => (isRaw_satisfies d (.named id)).bind fun raw _ => by
      have hunknown : P n (Wildcard.unbounded d.wellKnown.object).toTy :=
        h.wildcard.2 ⟨fun b hb => List.mem_singleton.1 hb ▸ h.nominal n _,
          fun b hb => nomatch hb⟩
      have hargs : ∀ vs : List TypeVarId,
          ∀ a ∈ vs.map (fun _ => (Wildcard.unbounded d.wellKnown.object).toTy),
            P n a := by
        intro vs a ha
        obtain ⟨_, -, rfl⟩ := List.mem_map.1 ha
        exact hunknown
      cases raw with
      | false => exact h.nominal n _
      | true =>
          refine (getClass_satisfies d id).bind fun c _ => ?_
          cases c.enclosing with
          | none => exact h.parameterized.2 ⟨nofun, hargs _⟩
          | some outer =>
              refine (wildcardsWithin d fuel outer).bind fun t ht => ?_
              exact h.parameterized.2
                ⟨fun o ho => Option.some.inj ho ▸ ht, hargs _⟩

theorem withWildcards (d : Declarations) : ∀ c : Class,
    (d.withWildcards c).Satisfies (P n) (P n)
  | .named id => h.wildcardsWithin d _ id
  | .primitive _ => h.nominal n _
  | .array c => (withWildcards d c).bind fun _ ht => h.arrayOf ht

/-! ## Supertypes and views -/

theorem bindChain (d : Declarations) :
    ∀ {t : Ty} {σ : Substitution}, P n t → σ.Within (P n) →
    (Outcome.ofExcept (Resolver.bindChain d t σ)).Satisfies T
      (Substitution.Within (P n))
  | .parameterized id args owner, σ, ht, hσ => by
      obtain ⟨howner, hargs⟩ := h.parameterized.1 ht
      rw [Resolver.bindChain, Outcome.ofExcept_bind]
      refine (getClass_satisfies d id).bind fun c _ => ?_
      split
      · cases owner with
        | none => exact within_bindZip hσ hargs
        | some o => exact bindChain d (howner o rfl) (within_bindZip hσ hargs)
      · exact .of_bare rfl
  | .nominal _, _, _, hσ | .var _, _, _, hσ | .wildcard _ _, _, _, hσ
  | .genericArray _, _, _, hσ | .capture _, _, _, hσ => hσ

theorem bindOwner (d : Declarations) {owner : Option Ty}
    (howner : ∀ o ∈ owner, P n o) :
    (Outcome.ofExcept (Resolver.bindOwner d owner)).Satisfies T
      (Substitution.Within (P n)) := by
  cases owner with
  | none => exact within_empty
  | some o => exact h.bindChain d (howner o rfl) within_empty

variable (r : Resolver)

/-- The only type that a failure carries here is `via`, where it names no
class. -/
theorem substituteThrough (ht : P n t) (hvia : P n via)
    (hblame : via.head? = none → T via) (own : List TypeVarId) :
    (r.substituteThrough t via own).Satisfies T (P n) := by
  have hself : (Substitution.empty.bindSelf own).Within (P n) :=
    h.within_bindSelf within_empty
  cases via with
  | nominal c =>
      refine (isRaw_satisfies r.env.toDeclarations c).bind fun raw _ => ?_
      cases raw with
      | true =>
          exact (erase_satisfies r.env.toDeclarations t).bind
            fun c _ => h.nominal n c
      | false => exact h.resolve hself ht
  | parameterized id args owner =>
      exact (h.bindChain r.env.toDeclarations hvia hself).bind
        fun σ hσ => h.resolve hσ ht
  | var _ | wildcard _ _ | genericArray _ | capture _ =>
      exact fun s hs => List.mem_singleton.1 hs ▸ hblame rfl

theorem substituteAll (hvia : P n via) (hblame : via.head? = none → T via)
    (own : List TypeVarId) : ∀ {ts : List Ty}, (∀ t ∈ ts, P n t) →
      (r.substituteAll via own ts).Satisfies T fun ss => ∀ s ∈ ss, P n s
  | [], _ => fun _ hs => nomatch hs
  | t :: _, hts =>
      (h.substituteThrough r (hts t List.mem_cons_self) hvia hblame own).bind
        fun _ hs =>
          (substituteAll hvia hblame own
              fun u hu => hts u (List.mem_cons_of_mem t hu)).bind fun _ hss =>
            List.forall_mem_cons.2 ⟨hs, hss⟩

variable {r}

theorem top : P n r.env.top := h.nominal n _

theorem freshSupertypes (hdecl : r.env.toDeclarations.Throughout (P 0))
    (id : ClassId) (ht : P n t) (hblame : t.head? = none → T t) :
    (r.freshSupertypes id t).Satisfies T fun ss => ∀ s ∈ ss, P n s := by
  refine (getClass_satisfies r.env.toDeclarations id).bind fun c hc => ?_
  refine (h.substituteAll r ht hblame [] fun s hs => ?_).bind fun ss hss => ?_
  · exact h.mono (Nat.zero_le n) (hdecl.classes hc s
      (List.mem_append_left _ (List.mem_append_left _ hs)))
  · split
    · exact fun s hs => List.mem_singleton.1 hs ▸ h.top
    · exact hss

theorem arraySupertypes {ts : List Ty} (hts : ∀ t ∈ ts, P n t) :
    ∀ s ∈ r.arraySupertypes ts, P n s := by
  intro s hs
  rcases List.mem_append.1 hs with hs | hs
  · obtain ⟨t, ht, rfl⟩ := List.mem_map.1 hs
    exact h.arrayOf (hts t ht)
  · obtain ⟨id, -, rfl⟩ := List.mem_map.1 hs
    exact h.nominal n _

omit h in
theorem settledBy (ht : P n t) (target : Class) :
    (r.settledBy t target).Satisfies T fun found =>
      ∀ o ∈ found, ∀ g ∈ o, P n g := by
  refine (erasure?_satisfies r.env.toDeclarations t).bind fun erased _ => ?_
  cases erased with
  | none => exact fun _ ho => nomatch ho
  | some c =>
      dsimp only
      split
      · intro o ho g hg
        obtain rfl := Option.some.inj ho
        exact Option.some.inj hg ▸ ht
      · split
        · exact fun _ ho => nomatch ho
        · intro o ho g hg
          obtain rfl := Option.some.inj ho
          cases hg

omit h in
theorem settledByErasure (sup sub : Ty) (c : Class) :
    (r.settledByErasure sup sub c).Satisfies T fun _ => True := by
  refine (erasure?_satisfies r.env.toDeclarations sub).bind fun erased _ => ?_
  cases erased with
  | none => trivial
  | some a =>
      dsimp only
      split
      · cases sup <;> trivial
      · trivial

theorem mergeBounds {declared wildcard : List Ty}
    (hdeclared : ∀ t ∈ declared, P n t) (hwildcard : ∀ t ∈ wildcard, P n t) :
    ∀ t ∈ r.mergeBounds declared wildcard, P n t := by
  unfold Resolver.mergeBounds
  split
  · split
    · exact fun t ht => List.mem_singleton.1 ht ▸ h.top
    · exact hdeclared
  · split
    · exact hwildcard
    · exact fun t ht => (List.mem_append.1 ht).elim (hdeclared t) (hwildcard t)

end Hereditary

end GenericTypes
