import GenericTypes.Proofs.Hierarchy
import GenericTypes.Proofs.Parts

/-!
# Well-formed declarations

What declarations have to satisfy so that a question about them has an answer.
A condition on types is said of each of their parts. Two are kept apart. Whether
a part fits (`Fits`) survives every substitution, and a type all of whose parts
fit is complete. Where wildcards stand (`Placed`) does not: a wildcard that is
put in for a variable may end up in an array. Only what is written down is asked
for both.

What a class uses is collected over its supertypes, the bounds of its parameters
and the types of its members that belong to an instance, and a parameterized
type fits only where its chain of owners supplies what its class uses.

Raw classes never come into this. A class named without arguments is raw as
soon as any variable is in scope in it, and is then erased instead of
substituted into; and where none is, there is nothing to supply (`isRaw_ok`).
Erasure in turn ends in a class for every complete type whose innermost
component is neither a wildcard nor a capture (`erase_ok`), and is refused for
every other (`erase_refused`).
-/

namespace GenericTypes

open Relation

namespace MethodDecl

/-- The types that a method mentions. -/
def types (m : MethodDecl) : List Ty := m.params ++ m.returnType.toList

end MethodDecl

namespace Declarations

/-- A class mentions the variable `v` where an instance of it is concerned: in a
declared supertype, in a bound of one of its parameters, or in the type of a
member that is not static. The parameters of a method are its own affair. -/
inductive Uses (d : Declarations) (id : ClassId) (v : TypeVarId) : Prop where
  | supertype {c : ClassDecl} (hc : d.class? id = some c)
      {s : Ty} (hs : s ∈ c.supertypes) (hv : .var v ∈ s.parts)
  | bound {c : ClassDecl} (hc : d.class? id = some c)
      {w : TypeVarId} (hw : w ∈ c.typeParams) {b : Ty} (hb : b ∈ d.boundsOf w)
      (hv : .var v ∈ b.parts)
  | field {c : ClassDecl} (hc : d.class? id = some c)
      {f : FieldDecl} (hf : f ∈ c.fields) (hstatic : f.isStatic = false)
      (hv : .var v ∈ f.type.parts)
  | method {c : ClassDecl} (hc : d.class? id = some c)
      {m : MethodDecl} (hm : m ∈ c.methods) (hstatic : m.isStatic = false)
      (hown : v ∉ m.typeParams) {t : Ty} (ht : t ∈ m.types)
      (hv : .var v ∈ t.parts)

/-- The variable `v` is a parameter of the class or of one enclosing it. -/
inductive InScope (d : Declarations) : ClassId → TypeVarId → Prop where
  | own {id : ClassId} {v : TypeVarId} {c : ClassDecl}
      (hc : d.class? id = some c) (hv : v ∈ c.typeParams) : InScope d id v
  | outer {id outer : ClassId} {v : TypeVarId} (h : d.EnclosedBy id outer)
      (hv : InScope d outer v) : InScope d id v

/-- The parameters of a class; none if it is undefined. -/
def paramsOf (d : Declarations) (id : ClassId) : List TypeVarId :=
  match d.class? id with
  | some c => c.typeParams
  | none => []

/-- The variables that a type binds along its chain of owners. -/
def chainVars (d : Declarations) : Ty → List TypeVarId
  | .parameterized id _ (some owner) => d.paramsOf id ++ d.chainVars owner
  | .parameterized id _ none => d.paramsOf id
  | .nominal _ | .var _ | .wildcard _ _ | .genericArray _ | .capture _ => []

/-- Every class in it is defined. -/
def Defines (d : Declarations) : Class → Prop
  | .named id => d.isDefined id
  | .primitive _ => True
  | .array c => d.Defines c

/-- What is asked of one part of a type, by itself: classes and variables are
declared, arguments are as many as the parameters, owners are classes, their
chain supplies what the class uses, and captures are among the first
`captures`. -/
def Fits (d : Declarations) (captures : Nat) : Ty → Prop
  | .nominal c => d.Defines c
  | .parameterized id args owner =>
      (∃ c, d.class? id = some c ∧ c.typeParams.length = args.length) ∧
        (∀ v, d.Uses id v → v ∈ d.chainVars (.parameterized id args owner)) ∧
        ∀ o, owner = some o → o.head?.isSome
  | .var v => ∃ p, d.typeParam? v = some p
  | .capture i => i.index < captures
  | .wildcard _ _ | .genericArray _ => True

/-- Every part of the type fits. -/
def Complete (d : Declarations) (captures : Nat) (t : Ty) : Prop :=
  ∀ x ∈ t.parts, d.Fits captures x

/-- Wildcards are arguments only: none bounds another, and none is the component
of an array. -/
def Placed : Ty → Prop
  | .wildcard upper lower => ∀ b ∈ upper ++ lower, b.isWildcard = false
  | .genericArray t => t.isWildcard = false
  | .nominal _ | .parameterized _ _ _ | .var _ | .capture _ => True

/-- A complete type with its wildcards in place, and not a wildcard itself. -/
structure Proper (d : Declarations) (captures : Nat) (t : Ty) : Prop where
  complete : d.Complete captures t
  placed : ∀ x ∈ t.parts, Placed x
  notWildcard : t.isWildcard = false

/-- Declarations where every name leads somewhere, arguments are counted and
scoped, and neither the hierarchy nor the enclosing classes nor the variables
bounding variables go in a circle. A bound such as `E extends Enum<E>` is no
circle, but one such as `T extends T[]` is. -/
structure WellFormed (d : Declarations) : Prop where
  known : ∀ id ∈ d.wellKnown.aboveArrays, d.isDefined id
  supertypes : ∀ {id c}, d.class? id = some c → ∀ s ∈ c.supertypes,
    s.head?.isSome ∧ d.Proper 0 s
  params : ∀ {id c}, d.class? id = some c →
    ∀ v ∈ c.typeParams, ∃ p, d.typeParam? v = some p
  enclosing : ∀ {id outer}, d.EnclosedBy id outer → d.isDefined outer
  bounds : ∀ v, ∀ b ∈ d.boundsOf v, d.Proper 0 b
  fields : ∀ {id c}, d.class? id = some c → ∀ f ∈ c.fields, d.Proper 0 f.type
  methods : ∀ {id c}, d.class? id = some c → ∀ m ∈ c.methods,
    (∀ v ∈ m.typeParams, ∃ p, d.typeParam? v = some p) ∧
      ∀ t ∈ m.types, d.Proper 0 t
  scoping : ∀ {id v}, d.Uses id v → d.InScope id v
  hierarchy : ∀ id, ¬ TransGen d.Extends id id
  nesting : ∀ id, ¬ TransGen d.EnclosedBy id id
  bounding : ∀ v, ¬ TransGen d.BoundedBy v v

variable {d : Declarations} {n m : Nat} {t x : Ty}

/-! ## Complete types -/

theorem Complete.part (h : d.Complete n t) (hx : x ∈ t.parts) :
    d.Complete n x :=
  fun _ hy => h _ (Ty.mem_parts_trans hy hx)

theorem Complete.fits (h : d.Complete n t) : d.Fits n t :=
  h t (Ty.mem_parts_self t)

theorem Fits.mono (h : d.Fits n t) (hle : n ≤ m) : d.Fits m t := by
  cases t with
  | capture i => exact Nat.lt_of_lt_of_le h hle
  | nominal _ | parameterized _ _ _ | var _ | wildcard _ _ | genericArray _ =>
      exact h

/-- A type complete in an arena is complete in every larger one. -/
theorem Complete.mono (h : d.Complete n t) (hle : n ≤ m) : d.Complete m t :=
  fun x hx => (h x hx).mono hle

theorem InScope.isDefined {id : ClassId} {v : TypeVarId} (h : d.InScope id v) :
    d.isDefined id := by
  rcases h with ⟨hc, -⟩ | ⟨⟨c, hc, -⟩, -⟩
  · exact isDefined_iff.2 ⟨_, hc⟩
  · exact isDefined_iff.2 ⟨c, hc⟩

end Declarations

/-! ## Components -/

namespace Ty

theorem element_mem_parts : ∀ t : Ty, t.element ∈ t.parts
  | .genericArray t => mem_parts_genericArray.2 (.inr (element_mem_parts t))
  | .nominal _ | .parameterized _ _ _ | .var _ | .wildcard _ _ | .capture _ =>
      mem_parts_self _

theorem element_ne_genericArray : ∀ t s : Ty, t.element ≠ .genericArray s
  | .genericArray t, s => element_ne_genericArray t s
  | .nominal _, _ | .parameterized _ _ _, _ | .var _, _ | .wildcard _ _, _
  | .capture _, _ =>
      Ty.noConfusion

/-- An array erases as soon as its innermost component does. -/
theorem eraseWith_ok_of_element {onVar : TypeVarId → Outcome Class} :
    ∀ {t : Ty}, (∃ c, t.element.eraseWith onVar = .ok c) →
      ∃ c, t.eraseWith onVar = .ok c
  | .genericArray t, h => by
      obtain ⟨c, hc⟩ := eraseWith_ok_of_element (t := t) h
      exact ⟨.array c, by rw [eraseWith, hc, Outcome.ok_bind]; rfl⟩
  | .nominal _, h | .parameterized _ _ _, h | .var _, h | .wildcard _ _, h
  | .capture _, h => h

/-- The erasure of any other array is refused. -/
theorem eraseWith_refused {onVar : TypeVarId → Outcome Class} :
    ∀ {t : Ty}, t.isErasable = false →
      ∃ k, t.eraseWith onVar = .error (.notErasable k)
  | .genericArray t, h => by
      obtain ⟨k, hk⟩ := eraseWith_refused (t := t) h
      exact ⟨k, by rw [eraseWith, hk]; rfl⟩
  | .wildcard _ _, _ => ⟨.wildcard, rfl⟩
  | .capture _, _ => ⟨.capture, rfl⟩

end Ty

namespace Declarations

variable {d : Declarations} {n : Nat} {t : Ty}

theorem erase_refused (h : t.isErasable = false) :
    ∃ k, d.erase t = .error (.notErasable k) :=
  Ty.eraseWith_refused h

theorem Proper.element (h : d.Proper n t) : d.Proper n t.element := by
  induction t using Ty.induct with
  | genericArray t ih =>
      exact ih ⟨h.complete.part (Ty.component_mem_parts t),
        fun x hx => h.placed x (Ty.mem_parts_genericArray.2 (.inr hx)),
        h.placed _ (Ty.mem_parts_self _)⟩
  | nominal _ | parameterized _ _ _ _ _ | var _ | wildcard _ _ _ _
  | capture _ => exact h

/-! ## Erasure -/

theorem eraseVar_eq {v : TypeVarId} {p : TypeParamDecl}
    (hp : d.typeParam? v = some p) (n : Nat) : d.eraseVar (n + 1) v =
      match p.upperBounds with
      | [] => .ok (.named d.wellKnown.object)
      | bound :: _ => bound.eraseWith (d.eraseVar n) := by
  rw [eraseVar, getTypeParam_eq hp]
  rfl

namespace WellFormed

/-- The fuel of an erasure covers the variables that bound each other. -/
theorem eraseVar_ok (h : d.WellFormed) {rank : TypeVarId → Nat}
    (hrank : ∀ v w, d.BoundedBy v w → rank w < rank v) : ∀ fuel v,
    (∃ p, d.typeParam? v = some p) → rank v < fuel →
      ∃ c, d.eraseVar fuel v = .ok c
  | fuel + 1, v, ⟨p, hp⟩, hfuel => by
      rw [eraseVar_eq hp]
      cases hbs : p.upperBounds with
      | nil => exact ⟨_, rfl⟩
      | cons b bs =>
          have hb : b ∈ d.boundsOf v :=
            mem_boundsOf_iff.2 ⟨p, hp, hbs ▸ List.mem_cons_self⟩
          have helem := (h.bounds v b hb).element
          refine Ty.eraseWith_ok_of_element ?_
          cases he : b.element with
          | nominal c => exact ⟨c, rfl⟩
          | parameterized id _ _ => exact ⟨.named id, rfl⟩
          | var w =>
              have hlt := hrank v w ⟨b, hb, he⟩
              rw [he] at helem
              exact eraseVar_ok h hrank fuel w helem.complete.fits (by omega)
          | wildcard _ _ =>
              exact absurd (he ▸ helem.notWildcard) Bool.noConfusion
          | genericArray s => exact absurd he (Ty.element_ne_genericArray b s)
          | capture i =>
              rw [he] at helem
              exact absurd helem.complete.fits (Nat.not_lt_zero _)

/-- Every complete type erases, unless it is a wildcard, a capture or an array
of one. -/
theorem erase_ok (h : d.WellFormed) (ht : d.Complete n t)
    (hready : t.isErasable = true) : ∃ c, d.erase t = .ok c := by
  obtain ⟨rank, hle, hrank⟩ := exists_rank_boundedBy h.bounding
  refine Ty.eraseWith_ok_of_element ?_
  have helem := ht.part (Ty.element_mem_parts t)
  rw [Ty.isErasable] at hready
  cases he : t.element with
  | nominal c => exact ⟨c, rfl⟩
  | parameterized id _ _ => exact ⟨.named id, rfl⟩
  | var w =>
      rw [he] at helem
      exact h.eraseVar_ok hrank _ w helem.fits (Nat.lt_succ_of_le (hle w))
  | genericArray s => exact absurd he (Ty.element_ne_genericArray t s)
  | wildcard _ _ | capture _ => rw [he] at hready; cases hready

/-- Declarations mention no captures, so what they mention properly erases. -/
theorem erase_declared (h : d.WellFormed) (ht : d.Proper 0 t) :
    ∃ c, d.erase t = .ok c := by
  refine h.erase_ok ht.complete ?_
  have helem := ht.element
  rw [Ty.isErasable]
  cases he : t.element with
  | nominal _ | parameterized _ _ _ | var _ | genericArray _ => rfl
  | wildcard _ _ => exact absurd (he ▸ helem.notWildcard) Bool.noConfusion
  | capture i =>
      rw [he] at helem
      exact absurd helem.complete.fits (Nat.not_lt_zero _)

/-! ## Rawness -/

theorem isGenericWithin_ok (h : d.WellFormed) {rank : ClassId → Nat}
    (hrank : ∀ id outer, d.EnclosedBy id outer → rank outer < rank id) :
    ∀ fuel id, d.isDefined id → rank id < fuel →
      ∃ b, d.isGenericWithin fuel id = .ok b ∧ (b = true ↔ ∃ v, d.InScope id v)
  | fuel + 1, id, hdef, hfuel => by
      obtain ⟨c, hc⟩ := isDefined_iff.1 hdef
      rw [isGenericWithin, lift_getClass hc, Outcome.ok_bind]
      split
      · next hempty =>
          have hown : ∀ v, v ∉ c.typeParams := by
            rw [List.isEmpty_iff.1 hempty]
            exact fun _ => List.not_mem_nil
          cases henc : c.enclosing with
          | some outer =>
              have hrel : d.EnclosedBy id outer := ⟨c, hc, henc⟩
              obtain ⟨b, hb, hiff⟩ :=
                isGenericWithin_ok h hrank fuel outer (h.enclosing hrel)
                  (by have := hrank id outer hrel; omega)
              refine ⟨b, hb,
                hiff.trans ⟨fun ⟨v, hv⟩ => ⟨v, .outer hrel hv⟩, ?_⟩⟩
              rintro ⟨v, hc' | ⟨⟨c', hc', henc'⟩, hv⟩⟩
              · next hv =>
                  obtain rfl := Option.some.inj (hc.symm.trans hc')
                  exact absurd hv (hown v)
              · obtain rfl := Option.some.inj (hc.symm.trans hc')
                obtain rfl := Option.some.inj (henc.symm.trans henc')
                exact ⟨v, hv⟩
          | none =>
              refine ⟨false, rfl, by simp, ?_⟩
              rintro ⟨v, hc' | ⟨⟨c', hc', henc'⟩, hv⟩⟩
              · next hv =>
                  obtain rfl := Option.some.inj (hc.symm.trans hc')
                  exact absurd hv (hown v)
              · obtain rfl := Option.some.inj (hc.symm.trans hc')
                rw [henc] at henc'
                cases henc'
      · next hempty =>
          refine ⟨true, rfl, fun _ => ?_, fun _ => rfl⟩
          obtain ⟨v, hv⟩ := List.exists_mem_of_ne_nil c.typeParams
            (fun hnil => hempty (List.isEmpty_iff.2 hnil))
          exact ⟨v, .own hc hv⟩

/-- A class named without arguments is raw exactly where a variable is in scope
in it. -/
theorem isRaw_ok (h : d.WellFormed) {id : ClassId} (hdef : d.isDefined id) :
    ∃ b, d.isRaw (.named id) = .ok b ∧ (b = true ↔ ∃ v, d.InScope id v) := by
  obtain ⟨rank, hle, hrank⟩ := exists_rank_enclosedBy h.nesting
  exact h.isGenericWithin_ok hrank _ id hdef (Nat.lt_succ_of_le (hle id))

end WellFormed

end Declarations

end GenericTypes
