import GenericTypes.Proofs.ArraySpelling

/-!
# Laws of substitution

Two substitutions can be done in one pass. The one pass gives each variable the
value that the first gives it, resolved by the second (`Substitution.andThen`),
and it has an answer exactly where the two passes have one. The first pass may
turn an array of a variable into a nominal array, or leave it to the second to
do so, depending on what the variable was bound to; `arrayOf` commutes with
substitution, so both come to the same.

The substitution that binds each variable to itself is not quite the identity.
What it does is rewriting: an array of a plain class becomes a nominal array,
wherever one stands, as long as there are any (`Ty.Respells`). The order does
not matter, as no step changes what the type looks like in the end
(`Ty.Respells.normalForm_eq`).
-/

namespace GenericTypes

open Relation

namespace Ty

/-- One array of a plain class, somewhere in the type, is spelled anew. -/
inductive Respells : Ty → Ty → Prop
  | array (c : Class) : Respells (.genericArray (.nominal c))
    (.nominal (.array c))
  | component {s t : Ty} (h : Respells s t) : Respells (.genericArray s)
    (.genericArray t)
  | argument {id : ClassId} {front back : List Ty}
      {owner : Option Ty} {s t : Ty} (h : Respells s t) :
      Respells (.parameterized id (front ++ s :: back) owner)
        (.parameterized id (front ++ t :: back) owner)
  | owner {id : ClassId} {args : List Ty} {s t : Ty} (h : Respells s t) :
      Respells (.parameterized id args (some s))
      (.parameterized id args (some t))
  | upper {front back lower : List Ty} {s t : Ty} (h : Respells s t) :
      Respells (.wildcard (front ++ s :: back) lower)
      (.wildcard (front ++ t :: back) lower)
  | lower {upper front back : List Ty} {s t : Ty} (h : Respells s t) :
      Respells (.wildcard upper (front ++ s :: back))
      (.wildcard upper (front ++ t :: back))

variable {φ : TypeVarId → Ty} {s t : Ty}

/-- No step changes the normal form. -/
theorem Respells.normalForm_eq (h : Respells s t) :
    s.normalForm = t.normalForm := by
  unfold normalForm
  induction h with
  | array c => rfl
  | component _ ih => rw [subst, subst, ih]
  | argument _ ih =>
      simp only [subst, substList_eq_map, List.map_append, List.map_cons, ih]
  | owner _ ih => simp only [subst, substOwner_eq_map, Option.map_some, ih]
  | upper _ ih =>
      simp only [subst, substList_eq_map, List.map_append, List.map_cons, ih]
  | lower _ ih =>
      simp only [subst, substList_eq_map, List.map_append, List.map_cons, ih]

/-- Where a step in a part is a step of the whole, so are several. -/
theorem respells_within {f : Ty → Ty}
    (hstep : ∀ {s t : Ty}, Respells s t → Respells (f s) (f t))
    (h : ReflTransGen Respells s t) : ReflTransGen Respells (f s) (f t) :=
  ReflTransGen.lift f (fun _ _ => hstep) _ _ h

/-- Where steps in one of several types are steps of the whole, all of them can
be rewritten in turn. -/
theorem respells_each {C : List Ty → Ty} {f : Ty → Ty}
    (hstep : ∀ {front back : List Ty} {s t : Ty}, Respells s t →
      Respells (C (front ++ s :: back)) (C (front ++ t :: back))) :
    ∀ {ts : List Ty} (front : List Ty),
      (∀ t ∈ ts, ReflTransGen Respells t (f t)) →
      ReflTransGen Respells (C (front ++ ts)) (C (front ++ ts.map f))
  | [], _, _ => .refl
  | t :: ts, front, hts => by
      have hfirst := respells_within (f := fun s => C (front ++ s :: ts)) hstep
        (hts t List.mem_cons_self)
      have hrest := respells_each hstep (front ++ [f t]) fun s hs =>
        hts s (List.mem_cons_of_mem t hs)
      rw [List.append_assoc, List.append_assoc] at hrest
      exact hfirst.trans hrest

theorem respells_arrayOf (t : Ty) :
    ReflTransGen Respells (.genericArray t) t.arrayOf := by
  cases t with
  | nominal c => exact .single (.array c)
  | parameterized _ _ _ | var _ | wildcard _ _ | genericArray _ | capture _ =>
      exact .refl

/-- Every type can be rewritten to its normal form, from the inside out. -/
theorem respells_normalForm (t : Ty) :
    ReflTransGen Respells t t.normalForm := by
  unfold normalForm
  induction t using induct with
  | nominal _ | var _ | capture _ => exact .refl
  | parameterized id args owner ihargs ihowner =>
      rw [subst, substList_eq_map, substOwner_eq_map]
      refine (respells_each (C := (.parameterized id · owner)) .argument
        [] ihargs).trans ?_
      cases owner with
      | none => exact .refl
      | some o =>
          exact respells_within (f := (.parameterized id _ <| some ·)) .owner
            (ihowner o rfl)
  | wildcard upper lower ihupper ihlower =>
      rw [subst, substList_eq_map, substList_eq_map]
      exact (respells_each (C := (.wildcard · lower)) .upper [] ihupper).trans
        (respells_each (C := .wildcard _) .lower [] ihlower)
  | genericArray t ih =>
      exact (respells_within .component ih).trans (respells_arrayOf _)

/-- What a type is rewritten to in the end is its normal form. -/
theorem eq_normalForm_of_respells (h : ReflTransGen Respells t s)
    (hs : s.Normal) : s = t.normalForm := by
  have hsame : s.normalForm = t.normalForm := by
    clear hs
    induction h with
    | refl => rfl
    | tail _ hstep ih => exact hstep.normalForm_eq.symm.trans ih
  rw [← hsame, normalForm_of_normal hs]

end Ty

namespace Substitution

variable {σ ρ κ : Substitution} {t u w x : Ty} {v : TypeVarId}

/-- Each binding counts, since no variable is bound twice. -/
theorem get?_eq_some_iff : σ.get? v = some x ↔ (v, x) ∈ σ.bindings := by
  refine ⟨mem_of_lookup, fun hmem => ?_⟩
  have hsome : (σ.get? v).isSome :=
    List.lookup_isSome_iff.2 ⟨(v, x), hmem, beq_self_eq_true v⟩
  obtain ⟨y, hy⟩ := Option.isSome_iff_exists.1 hsome
  have hsame := List.inj_on_of_nodup_map σ.distinct (mem_of_lookup hy) hmem rfl
  rw [hy, (Prod.mk.inj hsame).2]

/-- Substitutions that agree on the variables of a type resolve it alike. -/
theorem resolve_congr (h : ∀ v, .var v ∈ t.parts → κ.get? v = σ.get? v)
    (hσ : σ.resolve t = .ok u) : κ.resolve t = .ok u := by
  rw [eq_subst_of_resolve hσ]
  refine resolve_eq_subst fun v hv => ?_
  obtain ⟨x, hx⟩ := Option.isSome_iff_exists.1 (isSome_of_resolve hσ v hv)
  rw [h v hv, apply, hx, Option.getD_some]

/-! ## One pass for two -/

theorem keys_sublist (f : Ty → Option Ty) : ∀ bs : List (TypeVarId × Ty),
    ((bs.filterMap fun b => (f b.2).map (b.1, ·)).map Prod.fst).Sublist
      (bs.map Prod.fst)
  | [] => .slnil
  | b :: bs => by
      have ih := keys_sublist f bs
      rw [List.filterMap_cons]
      cases f b.2 with
      | none => exact ih.cons b.1
      | some t => exact ih.cons_cons b.1

/-- The value of a variable, resolved by another substitution; none where there
is no value, or none that resolves. -/
def andThen (σ ρ : Substitution) : Substitution where
  bindings := σ.bindings.filterMap fun b =>
    (ρ.resolve b.2).toOption.map (b.1, ·)
  distinct :=
    σ.distinct.sublist
      (keys_sublist (fun t => (ρ.resolve t).toOption) σ.bindings)

theorem get?_andThen_eq_some_iff :
    (σ.andThen ρ).get? v = some w ↔ ∃ x, σ.get? v = some x ∧
      ρ.resolve x = .ok w := by
  have hvalue : ∀ x : Ty, (ρ.resolve x).toOption = some w ↔
      ρ.resolve x = .ok w := by
    intro x
    cases ρ.resolve x <;> simp [Except.toOption]
  simp [get?_eq_some_iff, andThen, hvalue]

/-- Where two passes succeed, the value that the first gives to a variable of
the type can be passed on to the second. -/
theorem exists_values (hσ : σ.resolve t = .ok u) (hρ : ρ.resolve u = .ok w)
    (hv : .var v ∈ t.parts) :
    ∃ x, σ.get? v = some x ∧ ρ.resolve x = .ok (x.subst ρ.apply) := by
  obtain ⟨x, hx⟩ := Option.isSome_iff_exists.1 (isSome_of_resolve hσ v hv)
  have hvalue : σ.apply v = x := by rw [apply, hx, Option.getD_some]
  refine ⟨x, hx, resolve_ok fun w hw => isSome_of_resolve hρ w ?_⟩
  rw [eq_subst_of_resolve hσ]
  refine Ty.part_mem_subst (fun _ => Ty.noConfusion) hv ?_
  rw [Ty.subst, hvalue]
  exact hw

/-- One pass has an answer exactly where two have one, and it is the same. -/
theorem resolve_andThen_iff :
    (σ.andThen ρ).resolve t = .ok w ↔ ∃ u, σ.resolve t = .ok u ∧
      ρ.resolve u = .ok w := by
  have honce : ∀ {u w}, σ.resolve t = .ok u → ρ.resolve u = .ok w →
      (σ.andThen ρ).resolve t = .ok w := by
    intro u w hσ hρ
    rw [eq_subst_of_resolve hρ, eq_subst_of_resolve hσ, Ty.subst_subst]
    refine resolve_eq_subst fun v hv => ?_
    obtain ⟨x, hx, hpassed⟩ := exists_values hσ hρ hv
    rw [get?_andThen_eq_some_iff.2 ⟨x, hx, hpassed⟩, apply, hx,
      Option.getD_some]
  constructor
  case mpr =>
    rintro ⟨u, hσ, hρ⟩
    exact honce hσ hρ
  intro h
  have hbound : ∀ v, .var v ∈ t.parts → ∃ x y, σ.get? v = some x ∧
      ρ.resolve x = .ok y := by
    intro v hv
    obtain ⟨y, hy⟩ := Option.isSome_iff_exists.1 (isSome_of_resolve h v hv)
    obtain ⟨x, hx, hpassed⟩ := get?_andThen_eq_some_iff.1 hy
    exact ⟨x, y, hx, hpassed⟩
  have hσ : σ.resolve t = .ok (t.subst σ.apply) := resolve_ok fun v hv => by
    obtain ⟨x, -, hx, -⟩ := hbound v hv
    rw [hx, Option.isSome_some]
  have hρ :
      ρ.resolve (t.subst σ.apply) = .ok ((t.subst σ.apply).subst ρ.apply) :=
    resolve_ok fun v hv => by
      obtain ⟨z, hz, hv⟩ := Ty.var_mem_parts_subst hv
      obtain ⟨x, y, hx, hpassed⟩ := hbound z hz
      rw [apply, hx, Option.getD_some] at hv
      exact isSome_of_resolve hpassed v hv
  have hsame := Except.ok.inj (h.symm.trans (honce hσ hρ))
  exact ⟨_, hσ, hsame ▸ hρ⟩

/-! ## Each variable for itself -/

/-- To put each variable in its own place is to spell every array anew. -/
theorem resolve_self (h : ∀ v, .var v ∈ t.parts → σ.get? v = some (.var v)) :
    σ.resolve t = .ok t.normalForm :=
  resolve_eq_subst h

/-- Two substitutions in turn do what one does that gives each variable of the
type its value under the first, resolved by the second. It has an answer exactly
where they have one, the same, and then a value for every variable of the type.
A substitution that gives each variable of the type itself answers with the
normal form, the one type without arrays left to spell anew that rewriting comes
to; that is the type itself exactly if it is normal. -/
theorem substitutions_compose :
    (∀ (σ ρ κ : Substitution) (t w : Ty),
      (∀ v, .var v ∈ t.parts → κ.get? v = (σ.andThen ρ).get? v) →
        ((∃ u, σ.resolve t = .ok u ∧ ρ.resolve u = .ok w) ↔
          κ.resolve t = .ok w) ∧
        (κ.resolve t = .ok w → ∀ v, .var v ∈ t.parts → ∃ x y,
          σ.get? v = some x ∧ ρ.resolve x = .ok y ∧ κ.get? v = some y)) ∧
    ∀ (ι : Substitution) (t : Ty),
      (∀ v, .var v ∈ t.parts → ι.get? v = some (.var v)) →
      ∃ n, ι.resolve t = .ok n ∧
        (∀ m, ReflTransGen Ty.Respells t m ∧ m.Normal ↔ m = n) ∧
        (ι.resolve t = .ok t ↔ t.Normal) := by
  refine ⟨fun σ ρ κ t w hκ => ⟨?_, fun h v hv => ?_⟩, fun ι t hι => ?_⟩
  · rw [← resolve_andThen_iff]
    exact ⟨resolve_congr hκ, resolve_congr fun v hv => (hκ v hv).symm⟩
  · obtain ⟨y, hy⟩ := Option.isSome_iff_exists.1 (isSome_of_resolve h v hv)
    obtain ⟨x, hx, hpassed⟩ :=
      get?_andThen_eq_some_iff.1 ((hκ v hv).symm.trans hy)
    exact ⟨x, y, hx, hpassed, hy⟩
  · refine ⟨t.normalForm, resolve_self hι,
      fun m => ⟨fun ⟨hm, hnormal⟩ => ?_, ?_⟩, ?_⟩
    · exact Ty.eq_normalForm_of_respells hm hnormal
    · rintro rfl
      exact ⟨Ty.respells_normalForm t, Ty.normal_normalForm t⟩
    · rw [resolve_self hι, Except.ok.injEq, Ty.normalForm_eq_self_iff]

open TypeStore in
/-- The array of a variable becomes nominal in the second pass of two, and in
the one pass at once. -/
theorem array_of_var_composed :
    let σ := empty.bind ⟨0⟩ (.var ⟨1⟩)
    let ρ := empty.bind ⟨1⟩ (.named Seed.string)
    let κ := (empty.bind ⟨1⟩ (Seed.tv 0)).bind ⟨0⟩ (.named Seed.string)
    (∃ u, σ.resolve (.genericArray (Seed.tv 0)) = .ok u ∧
        ρ.resolve u = .ok (.nominal (.array (.named Seed.string)))) ∧
      κ.resolve (.genericArray (Seed.tv 0)) =
        .ok (.nominal (.array (.named Seed.string))) ∧
      (empty.bind ⟨0⟩ (Seed.tv 0)).resolve (.genericArray (Seed.tv 0)) =
        .ok (.genericArray (Seed.tv 0)) := by
  intro σ ρ κ
  have honly : ∀ v,
      .var v ∈ (Ty.genericArray (Seed.tv 0)).parts → v = ⟨0⟩ := fun v hv =>
    Ty.var.inj (List.mem_singleton.1
      ((Ty.mem_parts_genericArray.1 hv).resolve_left nofun))
  have htwo : ∃ u, σ.resolve (.genericArray (Seed.tv 0)) = .ok u ∧
      ρ.resolve u = .ok (.nominal (.array (.named Seed.string))) :=
    ⟨_, rfl, rfl⟩
  obtain ⟨hcompose, hself⟩ := substitutions_compose
  refine ⟨htwo, ((hcompose σ ρ κ _ _ fun v hv => ?_).1.1 htwo), ?_⟩
  · rw [honly v hv]
    rfl
  · obtain ⟨n, -, -, hnormal⟩ :=
      hself (empty.bind ⟨0⟩ (Seed.tv 0)) (.genericArray (Seed.tv 0))
        fun v hv => by rw [honly v hv]; rfl
    exact hnormal.2 (by decide)

end Substitution

end GenericTypes
