import GenericTypes.Proofs.Parts

/-!
# Unbound variables, and what an answer mentions

A substitution has an answer for a type exactly if it binds every variable in
it, and otherwise names the first that it does not bind. An answer has no
variable but those of the values put in, which are not substituted into again.
Captures are leaves: the type keeps its own, and those of the values come in.

In both directions only plain classes need care. An array around one takes it
in, so a part of a value need not be a part of the answer; but a variable or a
capture is no class and stays (`Ty.part_mem_subst`).
-/

namespace GenericTypes

namespace Ty

/-- The capture that the type is itself, if it is one. -/
def capture? : Ty → Option CaptureId
  | .capture i => some i
  | .nominal _ | .parameterized _ _ _ | .var _ | .wildcard _ _
  | .genericArray _ => none

/-- The captures of a type, in the order of its parts and as often as they
occur. -/
def captures (t : Ty) : List CaptureId := t.parts.filterMap capture?

variable {φ : TypeVarId → Ty} {t : Ty} {v : TypeVarId} {i : CaptureId}

theorem mem_captures : i ∈ t.captures ↔ .capture i ∈ t.parts := by
  rw [captures, List.mem_filterMap]
  constructor
  · rintro ⟨x, hx, hi⟩
    cases x with
    | capture j =>
        obtain rfl := Option.some.inj hi
        exact hx
    | nominal _ | parameterized _ _ _ | var _ | wildcard _ _ | genericArray _ =>
        cases hi
  · exact fun hi => ⟨.capture i, hi, rfl⟩

/-! ## What is in a type with values put in -/

/-- The variables of a type with values put in are those of the values. -/
theorem mem_vars_subst :
    v ∈ (t.subst φ).vars ↔ ∃ w ∈ t.vars, v ∈ (φ w).vars := by
  simp only [mem_vars]
  constructor
  · exact var_mem_parts_subst
  · rintro ⟨w, hw, hv⟩
    exact part_mem_subst (fun _ => Ty.noConfusion) hw hv

/-- The captures of a type with values put in are its own and those of the
values. -/
theorem mem_captures_subst :
    i ∈ (t.subst φ).captures ↔ i ∈ t.captures ∨
      ∃ w ∈ t.vars, i ∈ (φ w).captures := by
  simp only [mem_captures, mem_vars]
  constructor
  · intro hi
    rcases mem_parts_subst hi with ⟨y, hy, hvar, heq⟩ | hvalue
    · cases y with
      | capture j =>
          obtain rfl := Ty.capture.inj heq
          exact .inl hy
      | genericArray s =>
          exact absurd heq (by rw [subst]; cases s.subst φ <;>
            exact Ty.noConfusion)
      | var _ => cases hvar
      | nominal _ | parameterized _ _ _ | wildcard _ _ => cases heq
    · exact .inr hvalue
  · rintro (hi | ⟨w, hw, hi⟩)
    · exact part_mem_subst (fun _ => Ty.noConfusion) hi (mem_parts_self _)
    · exact part_mem_subst (fun _ => Ty.noConfusion) hw hi

end Ty

namespace Substitution

variable {σ : Substitution} {t : Ty} {v : TypeVarId}

/-- What is put in for a bound variable is its value. -/
theorem apply_iff {P : Ty → Prop} (h : (σ.get? v).isSome) :
    P (σ.apply v) ↔ ∃ x, σ.get? v = some x ∧ P x := by
  obtain ⟨x, hx⟩ := Option.isSome_iff_exists.1 h
  simp [apply, hx]

/-- Resolving a type succeeds exactly if every variable that occurs in it is
bound. It fails with no other error than the one that names the first unbound
variable on the way through the type, owners before arguments, upper bounds
before lower ones and left to right. The variables of an answer are those of the
values of the type's variables, and its captures are the type's own and those of
these values. -/
theorem resolve_fails_on_unbound (σ : Substitution) (t : Ty) :
    ((∃ u, σ.resolve t = .ok u) ↔ ∀ v ∈ t.vars, (σ.get? v).isSome) ∧
      (∀ e, σ.resolve t = .error e ↔
        ∃ v, σ.firstUnbound t.vars = some v ∧ e = .unboundVariable v) ∧
      ∀ u, σ.resolve t = .ok u →
        (∀ w, w ∈ u.vars ↔ ∃ v ∈ t.vars, ∃ x, σ.get? v = some x ∧ w ∈ x.vars) ∧
          ∀ i, i ∈ u.captures ↔
            i ∈ t.captures ∨ ∃ v ∈ t.vars, ∃ x, σ.get? v = some x ∧
            i ∈ x.captures := by
  refine ⟨exists_resolve_iff, fun e => resolve_eq_error_iff, fun u hu => ?_⟩
  have hbound := exists_resolve_iff.1 ⟨u, hu⟩
  obtain rfl := eq_subst_of_resolve hu
  constructor
  · intro w
    rw [Ty.mem_vars_subst]
    exact exists_congr fun v => and_congr_right fun hv =>
      apply_iff (P := fun x => w ∈ x.vars) (hbound v hv)
  · intro i
    rw [Ty.mem_captures_subst]
    exact or_congr_right (exists_congr fun v => and_congr_right fun hv =>
      apply_iff (P := fun x => i ∈ x.captures) (hbound v hv))

/-- A lower bound in the owner is reported before an argument, and after the
upper bound once that is bound; with every variable bound their values are in
the answer. -/
theorem owner_bound_reported :
    let t := Ty.parameterized ⟨1⟩ [.var ⟨3⟩, .capture ⟨0⟩]
      (some (.parameterized ⟨0⟩ [.wildcard [.var ⟨1⟩] [.var ⟨2⟩]] none))
    let σ := empty.bind ⟨1⟩ (.genericArray (.var ⟨7⟩))
    let ρ := (σ.bind ⟨2⟩ (.capture ⟨4⟩)).bind ⟨3⟩ (.named ⟨5⟩)
    σ.resolve t = .error (.unboundVariable ⟨2⟩) ∧
      ∃ u, ρ.resolve t = .ok u ∧ (⟨7⟩ : TypeVarId) ∈ u.vars ∧
        (⟨0⟩ : CaptureId) ∈ u.captures ∧ (⟨4⟩ : CaptureId) ∈ u.captures := by
  intro t σ ρ
  obtain ⟨hok, -, hanswer⟩ := resolve_fails_on_unbound ρ t
  obtain ⟨u, hu⟩ := hok.2 (by decide)
  obtain ⟨hvars, hcaptures⟩ := hanswer u hu
  refine ⟨?_, u, hu, ?_, ?_, ?_⟩
  · obtain ⟨-, herror, -⟩ := resolve_fails_on_unbound σ t
    exact (herror _).2 ⟨⟨2⟩, by decide, rfl⟩
  · exact (hvars _).2 ⟨⟨1⟩, by decide, _, rfl, by decide⟩
  · exact (hcaptures _).2 (.inl (by decide))
  · exact (hcaptures _).2 (.inr ⟨⟨2⟩, by decide, _, rfl, by decide⟩)

end Substitution

end GenericTypes
