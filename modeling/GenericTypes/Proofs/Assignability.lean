import GenericTypes.Proofs.BreadthFirst

/-!
# Assignability is the closure of what is declared

`isAssignable` decides by the shapes of two classes and, for two named ones, by
a walk. What it decides is said more simply without it: a class is below those
it is declared under, every named class and every array is below the top class,
arrays are below two classes besides, and they are covariant; and this relation
is reflexive and transitive (`Below`).

The rules hold of the test one by one, except for transitivity, which the test
does not look for: it answers from the two ends alone and never asks about a
class between them. A named class in the middle could be lost, since the walk
from an array does not go on from the classes above all arrays, nor does a walk
pass through the top class by the edge that every class has to it. So nothing
else may be declared above these three classes, and `TopsPlain` is what the
transitivity of the test rests on (`isAssignable_trans`).
-/

namespace GenericTypes

open Relation

namespace Declarations

variable {d : Declarations}

/-- The least reflexive and transitive relation with the declared hierarchy in
it, the classes above all others and above all arrays at their place, and
covariant arrays. The class below comes first. -/
inductive Below (d : Declarations) : Class → Class → Prop
  | refl (c : Class) : Below d c c
  | trans {a b c : Class} : Below d a b → Below d b c → Below d a c
  | declared {id parent : ClassId} : d.Extends id parent →
    Below d (.named id) (.named parent)
  | object (id : ClassId) : Below d (.named id) (.named d.wellKnown.object)
  | aboveArrays (c : Class) {id : ClassId} : id ∈ d.wellKnown.aboveArrays →
      Below d (.array c) (.named id)
  | covariant {c e : Class} : c.isPrimitive = false → Below d c e →
      Below d (.array c) (.array e)

/-- The classes above all arrays are declared under nothing but the top class,
and so is that class itself. -/
def TopsPlain (d : Declarations) : Prop :=
  ∀ id ∈ d.wellKnown.aboveArrays, ∀ parent, d.Extends id parent →
    parent = d.wellKnown.object

theorem TopsPlain.reached (h : d.TopsPlain) {id parent : ClassId}
    (hid : id ∈ d.wellKnown.aboveArrays)
    (hup : ReflTransGen d.Extends id parent) :
    parent = id ∨ parent = d.wellKnown.object := by
  induction hup with
  | refl => exact .inl rfl
  | tail _ hext ih =>
      rcases ih with rfl | rfl
      · exact .inr (h _ hid _ hext)
      · exact .inr (h _ List.mem_cons_self _ hext)

theorem TopsPlain.reached_object (h : d.TopsPlain) {parent : ClassId}
    (hup : ReflTransGen d.Extends d.wellKnown.object parent) :
    parent = d.wellKnown.object :=
  (h.reached List.mem_cons_self hup).elim id id

/-! ## What the test answers, shape by shape -/

theorem isAssignable_named_named {s t : ClassId} :
    d.isAssignable (.named t) (.named s) = true ↔
      t = d.wellKnown.object ∨ ReflTransGen d.Extends s t := by
  simp [isAssignable, reaches_iff]

theorem isAssignable_named_array {c : Class} {t : ClassId} :
    d.isAssignable (.named t) (.array c) = true ↔
      t ∈ d.wellKnown.aboveArrays := by
  simp [isAssignable]

theorem isAssignable_array_array {c e : Class} :
    d.isAssignable (.array e) (.array c) = true ↔
      e = c ∨ e.isPrimitive = false ∧ c.isPrimitive = false ∧
      d.isAssignable e c = true := by
  simp [isAssignable, and_assoc]

theorem isAssignable_refl : ∀ c : Class, d.isAssignable c c = true
  | .primitive _ => by simp [isAssignable]
  | .named _ => isAssignable_named_named.2 (.inr .refl)
  | .array _ => isAssignable_array_array.2 (.inl rfl)

/-- What is not primitive is assignable to nothing primitive. -/
theorem isPrimitive_of_isAssignable {c e : Class} (hc : c.isPrimitive = false)
    (h : d.isAssignable e c = true) : e.isPrimitive = false := by
  cases e with
  | named _ | array _ => rfl
  | primitive p => cases c <;> simp [isAssignable, Class.isPrimitive] at h hc

theorem isAssignable_trans (htops : d.TopsPlain) : ∀ {a b c : Class},
    d.isAssignable b a = true → d.isAssignable c b = true →
      d.isAssignable c a = true
  | .primitive p, b, c, hab, hbc => by
      obtain rfl : b = .primitive p := by simpa [isAssignable] using hab
      exact hbc
  | .named a, .named b, .named c, hab, hbc => by
      rw [isAssignable_named_named] at hab hbc ⊢
      rcases hbc with hbc | hbc
      · exact .inl hbc
      · rcases hab with rfl | hab
        · exact .inl (htops.reached_object hbc)
        · exact .inr (hab.trans hbc)
  | .array a, .named b, .named c, hab, hbc => by
      rw [isAssignable_named_array] at hab ⊢
      rcases isAssignable_named_named.1 hbc with rfl | hbc
      · exact List.mem_cons_self
      · rcases htops.reached hab hbc with rfl | rfl
        · exact hab
        · exact List.mem_cons_self
  | .array a, .array b, .named c, hab, hbc => by
      rw [isAssignable_named_array] at hbc ⊢
      exact hbc
  | .array a, .array b, .array c, hab, hbc => by
      rw [isAssignable_array_array] at hab hbc ⊢
      rcases hab with rfl | ⟨hb, ha, hab⟩
      · exact hbc
      · rcases hbc with rfl | ⟨hc, -, hbc⟩
        · exact .inr ⟨hb, ha, hab⟩
        · exact .inr ⟨hc, ha, isAssignable_trans htops hab hbc⟩
  | .named _, .primitive _, _, hab, _ => by simp [isAssignable] at hab
  | .named _, .array _, _, hab, _ => by simp [isAssignable] at hab
  | .array _, .primitive _, _, hab, _ => by simp [isAssignable] at hab
  | .named _, .named _, .primitive _, _, hbc => by simp [isAssignable] at hbc
  | .named _, .named _, .array _, _, hbc => by simp [isAssignable] at hbc
  | .array _, .named _, .primitive _, _, hbc => by simp [isAssignable] at hbc
  | .array _, .named _, .array _, _, hbc => by simp [isAssignable] at hbc
  | .array _, .array _, .primitive _, _, hbc => by simp [isAssignable] at hbc

/-! ## The test and the relation -/

theorem Below.of_reached {s t : ClassId} (h : ReflTransGen d.Extends s t) :
    d.Below (.named s) (.named t) := by
  induction h with
  | refl => exact .refl _
  | tail _ hext ih => exact .trans ih (.declared hext)

theorem below_of_isAssignable :
    ∀ {c e : Class}, d.isAssignable e c = true → d.Below c e
  | .primitive p, e, h => by
      obtain rfl : e = .primitive p := by simpa [isAssignable] using h
      exact .refl _
  | .named s, .named t, h => by
      rcases isAssignable_named_named.1 h with rfl | h
      · exact .object s
      · exact .of_reached h
  | .array c, .named t, h => .aboveArrays c (isAssignable_named_array.1 h)
  | .array c, .array e, h => by
      rcases isAssignable_array_array.1 h with rfl | ⟨-, hc, h⟩
      · exact .refl _
      · exact .covariant hc (below_of_isAssignable h)
  | .named _, .primitive _, h => by simp [isAssignable] at h
  | .named _, .array _, h => by simp [isAssignable] at h
  | .array _, .primitive _, h => by simp [isAssignable] at h

theorem isAssignable_of_below (htops : d.TopsPlain) {c e : Class}
    (h : d.Below c e) : d.isAssignable e c = true := by
  induction h with
  | refl c => exact isAssignable_refl c
  | trans _ _ ihab ihbc => exact isAssignable_trans htops ihab ihbc
  | declared hext => exact isAssignable_named_named.2 (.inr (.single hext))
  | object _ => exact isAssignable_named_named.2 (.inl rfl)
  | aboveArrays _ hid => exact isAssignable_named_array.2 hid
  | covariant hc _ ih =>
      exact isAssignable_array_array.2
        (.inr ⟨isPrimitive_of_isAssignable hc ih, hc, ih⟩)

/-- Assignability by the declared hierarchy is the closure of what is declared,
circles or not. The one loop in it, the walk from a named class, comes to its
end. -/
theorem isAssignable_iff_below (htops : d.TopsPlain) (target source : Class) :
    (d.isAssignable target source = true ↔ d.Below source target) ∧
    (WellFounded fun after before : Walk => d.Turn before after) ∧
    ∀ id, ReflTransGen d.Turn ⟨[], [id]⟩ ⟨d.ancestors id, []⟩ :=
  ⟨⟨below_of_isAssignable, isAssignable_of_below htops⟩, turn_wellFounded d,
    ancestors_runs d⟩

/-- The classes that every declaration refers to, and two declared under each
other, the second also under a class that is not defined. -/
def circle : Declarations where
  classes :=
    let declared (name : String) (above : List Nat) : Option ClassDecl :=
      some ⟨name, .interface, [], none, above.map fun i => .named ⟨i⟩,
        none, [], []⟩
    #[declared "Object" [], declared "Cloneable" [0],
      declared "Serializable" [],
      declared "Egg" [4], declared "Hen" [3, 9]]
  typeParams := #[]
  wellKnown := ⟨⟨0⟩, ⟨1⟩, ⟨2⟩, ⟨0⟩, ⟨0⟩, ⟨0⟩⟩

theorem egg_below_undefined : circle.TopsPlain ∧
    circle.Below (.array (.named ⟨3⟩)) (.array (.named ⟨9⟩)) ∧
    ¬ circle.Below (.named ⟨4⟩) (.named ⟨1⟩) := by
  have htops : circle.TopsPlain := by
    change ∀ id ∈ circle.wellKnown.aboveArrays,
        ∀ parent ∈ circle.superclasses id,
      parent = circle.wellKnown.object
    decide
  refine ⟨htops, (isAssignable_iff_below htops _ _).1.1 (by decide),
    fun h => ?_⟩
  exact absurd ((isAssignable_iff_below htops _ _).1.2 h) (by decide)

end Declarations

end GenericTypes
