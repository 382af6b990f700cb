import GenericTypes.Proofs.Verdict
import GenericTypes.Proofs.Admission
import GenericTypes.Proofs.Ancestors

/-!
# What erasures allow is found

A search cuts branches off by their erasures, and a comparison with a left side
without arguments trusts the erasures altogether. Both rely on the erasures
being right: where that of a type allows a class, some direct supertype still
allows it and is nearer (`exists_nearer`), so the search finds a view
(`find_of_assignable`). For a variable the nearer one is its first bound, which
it erases by.

With that a comparison has one rule, whether erasures settle it or not: its
verdict is that of the view found, and no where none is (`verdict_found`).
-/

namespace GenericTypes

open Relation

/-- By the component of an array, whichever way it is spelled. -/
@[elab_as_elim] theorem Ty.component_induct {P : Ty → Prop}
    (plain : ∀ t : Ty, t.component? = none → P t)
    (array : ∀ t k : Ty, t.component? = some k → P k → P t) (t : Ty) : P t := by
  induction t using induct with
  | nominal c =>
      induction c with
      | named _ | primitive _ => exact plain _ rfl
      | array c ih => exact array _ (.nominal c) rfl ih
  | genericArray k ih => exact array _ k rfl ih
  | parameterized _ _ _ _ _ | var _ | wildcard _ _ _ _ | capture _ =>
      exact plain _ rfl

/-! ## Erasing by more fuel -/

theorem Ty.eraseWith_mono {f g : TypeVarId → Outcome Class}
    (hfg : ∀ v c, f v = .ok c → g v = .ok c) : ∀ {t : Ty} {c : Class},
    t.eraseWith f = .ok c → t.eraseWith g = .ok c
  | .nominal _, _, h | .parameterized _ _ _, _, h => h
  | .var v, c, h => hfg v c h
  | .genericArray t, _, h => by
      obtain ⟨a, ha, hc⟩ := Outcome.bind_eq_ok h
      rw [eraseWith, eraseWith_mono hfg ha]
      exact hc

namespace Declarations

variable {d : Declarations} {v : TypeVarId} {p : TypeParamDecl} {a : Class}

theorem typeParam?_of_eraseVar : ∀ {n : Nat}, d.eraseVar n v = .ok a →
    ∃ p, d.typeParam? v = some p
  | n + 1, h => by
      obtain ⟨p, hp, -⟩ := Outcome.bind_eq_ok h
      exact ⟨p, typeParam?_of_getTypeParam hp⟩

theorem eraseVar_succ : ∀ (n : Nat) (v : TypeVarId) (c : Class),
    d.eraseVar n v = .ok c → d.eraseVar (n + 1) v = .ok c
  | n + 1, v, c, h => by
      obtain ⟨p, hp⟩ := typeParam?_of_eraseVar h
      rw [eraseVar_eq hp] at h ⊢
      split at h
      · exact h
      · exact Ty.eraseWith_mono (eraseVar_succ n) h

end Declarations

namespace Resolver

open Resolve Declarations

variable {r : Resolver} {arena : Array CaptureDef} {s t g : Ty} {a c : Class}
  {id : ClassId} {b : Bool} {n : Nat}

/-- Without a test of the host's own, arrays of classes are assignable as the
classes are. -/
theorem assignable_arrays (hhost : r.env.hostTest = none) (c a : Class) :
    r.env.assignable (.array c) (.array a) = r.env.assignable c a := by
  by_cases hsame : c = a
  · rw [hsame, assignable_refl hhost, assignable_refl hhost]
  cases hassign : r.env.assignable c a with
  | true => exact assignable_array hassign hsame hhost
  | false =>
      rw [Environment.assignable, hhost] at hassign ⊢
      show (decide _ || _) = false
      rw [decide_eq_false hsame, Bool.false_or]
      show (_ && r.env.isAssignable c a) = false
      rw [show r.env.isAssignable c a = false from hassign, Bool.and_false]

theorem eq_of_assignable_primitive (hhost : r.env.hostTest = none)
    {p : Primitive} (hassign : r.env.assignable c (.primitive p) = true) :
    c = .primitive p := by
  rw [Environment.assignable, hhost] at hassign
  cases c with
  | named _ | primitive _ | array _ => exact of_decide_eq_true hassign

/-- What arrays are assignable to: a class above all arrays, or an array class
as the components are. -/
theorem cases_of_assignable_array (hhost : r.env.hostTest = none)
    (hassign : r.env.assignable c (.array a) = true) :
    (∃ top ∈ r.env.wellKnown.aboveArrays, c = .named top) ∨
      ∃ e, c = .array e ∧ r.env.assignable e a = true := by
  cases c with
  | named top =>
      rw [Environment.assignable, hhost] at hassign
      exact .inl ⟨top, List.contains_iff_mem.1 hassign, rfl⟩
  | array e =>
      exact .inr ⟨e, rfl, (assignable_arrays hhost e a).symm.trans hassign⟩
  | primitive _ =>
      rw [Environment.assignable, hhost] at hassign
      cases hassign

theorem assignable_array_named (hhost : r.env.hostTest = none) (c : Class)
    (id : ClassId) : r.env.assignable (.array c) (.named id) = false := by
  rw [Environment.assignable, hhost]
  rfl

/-! ## Nearer and nearer -/

/-- Some direct supertype erases to what the class `c` is assignable from. -/
def Nearer (r : Resolver) (arena : Array CaptureDef) (t : Ty)
    (c : Class) : Prop :=
  ∃ s a, r.Directly arena t s ∧ r.env.erase s = .ok a ∧
    r.env.assignable c a = true

/-- What is nearer to a class for a component is nearer to its array class. -/
theorem Nearer.array {k : Ty} (hhost : r.env.hostTest = none)
    (hk : t.component? = some k) (hnear : r.Nearer arena k c) :
    r.Nearer arena t (.array c) := by
  obtain ⟨s, a, ⟨ts, hts, hs⟩, ha, hassign⟩ := hnear
  have habove : r.above arena t = .ok (r.arraySupertypes ts) := by
    rw [above_component hk, hts]
    rfl
  refine ⟨s.arrayOf, .array a, ⟨_, habove, ?_⟩, ?_, ?_⟩
  · exact List.mem_append_left _ (List.mem_map_of_mem hs)
  · rw [erase_component (Ty.component?_arrayOf s), ha]
    rfl
  · exact (assignable_arrays hhost c a).trans hassign

theorem isUnknown_of_component? {k : Ty} (hk : t.component? = some k) :
    t.isUnknown = false := by
  rcases Ty.component?_eq_some_iff.1 hk with ⟨c, rfl, rfl⟩ | rfl <;> rfl

theorem exists_var_of_erase (hkind : t.isUnknown = true)
    (ha : r.env.erase t = .ok a) : ∃ v, t = .var v := by
  cases t with
  | var v => exact ⟨v, rfl⟩
  | wildcard _ _ | capture _ => cases ha
  | nominal _ | parameterized _ _ _ | genericArray _ => cases hkind

/-- A variable erases like the first of its direct supertypes, and has no more
of them than bounds, or else one. -/
theorem above_var {v : TypeVarId} (ha : r.env.erase (.var v) = .ok a) :
    ∃ s rest, r.above arena (.var v) = .ok (s :: rest) ∧ r.env.erase s = .ok a ∧
      rest.length ≤ (r.env.boundsOf v).length - 1 := by
  obtain ⟨p, hp⟩ := typeParam?_of_eraseVar ha
  have ha : r.env.eraseVar (r.env.typeParams.size + 1) v = .ok a := ha
  have habove := above_bounds arena hp
  rw [eraseVar_eq hp] at ha
  rw [boundsOf_eq hp]
  cases hbounds : p.upperBounds with
  | nil =>
      rw [hbounds] at ha habove
      exact ⟨_, [], habove, ha, Nat.zero_le _⟩
  | cons b bs =>
      rw [hbounds] at ha habove
      exact ⟨b, bs, habove, Ty.eraseWith_mono (eraseVar_succ _) ha,
        Nat.le_refl _⟩

section

variable (h : r.Covered)

include h

theorem nearer_class (ht : r.env.Supplies id t)
    (hassign : r.env.assignable c (.named id) = true) (hne : c ≠ .named id) :
    r.Nearer arena t c := by
  obtain ⟨decl, hdecl, habove⟩ := exists_above_eq arena h.topped.wellFormed ht
  obtain ⟨target, rfl, htarget⟩ := named_of_assignable h.noHostTest hassign
  by_cases htop : target = r.env.wellKnown.object
  · -- everything is below the top type, so any direct supertype will do
    have hid : id ≠ r.env.wellKnown.object := fun hid => hne (by rw [htop, hid])
    obtain ⟨s, hs⟩ :=
      List.exists_mem_of_ne_nil _ (h.seenSupertypes_ne_nil hdecl hid t)
    have hs : r.Directly arena t s := ⟨_, habove, hs⟩
    rcases directly_of_class h.topped.wellFormed ht hs with
        rfl | ⟨parent, hparent, -⟩
    · exact ⟨_, _, hs, rfl, (assignable_named h.noHostTest _ _).2 (.inl htop)⟩
    · exact ⟨s, _, hs, erase_supplies hparent,
        (assignable_named h.noHostTest _ _).2 (.inl htop)⟩
  · obtain rfl | ⟨next, hnext, hup⟩ :=
      ReflTransGen.cases_head (htarget.resolve_left htop)
    · exact absurd rfl hne
    · obtain ⟨s, hs, hparent⟩ :=
        exists_mem_seenSupertypes t h.topped.wellFormed hdecl hnext
      exact ⟨s, _, ⟨_, habove, hs⟩, erase_supplies hparent,
        (assignable_named h.noHostTest _ _).2 (.inr hup)⟩

omit h in
/-- The classes above all arrays are direct supertypes of each array. -/
theorem nearer_aboveArrays (hhost : r.env.hostTest = none) {k : Ty}
    {ts : List Ty} (hk : t.component? = some k) (hts : r.above arena k = .ok ts)
    (hid : id ∈ r.env.wellKnown.aboveArrays) :
    r.Nearer arena t (.named id) := by
  have habove : r.above arena t = .ok (r.arraySupertypes ts) := by
    rw [above_component hk, hts]
    rfl
  exact ⟨.named id, .named id,
    ⟨_, habove, List.mem_append_right _ (List.mem_map_of_mem hid)⟩, rfl,
    assignable_refl hhost _⟩

/-- Where the erasure of a type allows a class, and is another or not looked at,
that of some direct supertype allows it as well. -/
theorem exists_nearer {ts : List Ty} (ht : r.env.Complete n t)
    (hprim : t.isPrimitive = false) (habove : r.above arena t = .ok ts)
    (ha : r.env.erase t = .ok a) (hassign : r.env.assignable c a = true)
    (hfar : c ≠ a ∨ t.isUnknown = true) : r.Nearer arena t c := by
  induction t using Ty.component_induct generalizing a c ts with
  | plain t hplain =>
      cases t with
      | nominal e =>
          cases e with
          | named id =>
              obtain rfl := Outcome.ok.inj ha
              exact nearer_class h (ht.supplies rfl) hassign
                (hfar.resolve_right Bool.noConfusion)
          | primitive _ => cases hprim
          | array _ => cases hplain
      | parameterized id _ _ =>
          obtain rfl := Outcome.ok.inj ha
          exact nearer_class h (ht.supplies rfl) hassign
            (hfar.resolve_right Bool.noConfusion)
      | var v =>
          obtain ⟨s, rest, habove, hs, -⟩ := above_var ha
          exact ⟨s, a, ⟨_, habove, List.mem_cons_self⟩, hs, hassign⟩
      | genericArray _ => cases hplain
      | wildcard _ _ | capture _ => cases ha
  | array t k hk ih =>
      obtain ⟨e, he, rfl⟩ := erase_array hk ha
      rw [above_component hk] at habove
      obtain ⟨ks, hks, -⟩ := Outcome.bind_eq_ok habove
      have hne : c ≠ .array e :=
        hfar.resolve_right
          (by rw [isUnknown_of_component? hk]; exact Bool.noConfusion)
      cases c with
      | array c =>
          rw [assignable_arrays h.noHostTest] at hassign
          have hne : c ≠ e := fun heq => hne (congrArg Class.array heq)
          have hprim' : k.isPrimitive = false := by
            cases hkprim : k.isPrimitive with
            | false => rfl
            | true =>
                match k with
                | .nominal (.primitive p) =>
                    obtain rfl := Outcome.ok.inj he
                    exact absurd
                      (eq_of_assignable_primitive h.noHostTest hassign) hne
          exact (ih (ht.component? hk) hprim' hks he hassign (.inl hne)).array
            h.noHostTest hk
      | named id =>
          rw [Environment.assignable, h.noHostTest] at hassign
          exact nearer_aboveArrays h.noHostTest hk hks
            (List.contains_iff_mem.1 hassign)
      | primitive _ =>
          rw [Environment.assignable, h.noHostTest] at hassign
          cases hassign

/-! ## Found in the end -/

/-- What the erasure of a type allows, the search finds, if all that is above
the type is complete. -/
theorem find_of_complete {I : Ty → Prop}
    (hcomplete : ∀ {t}, I t → r.env.Complete n t)
    (hdirectly : ∀ {t s}, I t → r.Directly arena t s → I s) (ht : I t)
    (hclimbs : t.isPrimitive = false → r.Climbs arena t)
    (ha : r.env.erase t = .ok a) (hassign : r.env.assignable c a = true) :
    ∃ n g, r.find arena n t c = .ok (some g) := by
  cases hprim : t.isPrimitive with
  | true =>
      match t with
      | .nominal (.primitive p) =>
          obtain rfl := Outcome.ok.inj ha
          obtain rfl := eq_of_assignable_primitive h.noHostTest hassign
          exact ⟨1, _, find_self rfl 0⟩
  | false =>
      replace hclimbs := hclimbs hprim
      induction hclimbs generalizing a with
      | @intro t ts habove herase hprim hts ih =>
          by_cases hhere : t.isUnknown = false ∧ c = a
          · obtain ⟨hkind, rfl⟩ := hhere
            exact ⟨1, t, find_self (erasure?_known hkind ha) 0⟩
          have hfar : c ≠ a ∨ t.isUnknown = true := by
            cases hkind : t.isUnknown with
            | true => exact .inr rfl
            | false => exact .inl fun heq => hhere ⟨hkind, heq⟩
          have hsettled : r.settledBy t c = .ok none := by
            cases hkind : t.isUnknown with
            | true => exact settledBy_unknown hkind c
            | false =>
                have hne : a ≠ c := fun heq => hhere ⟨hkind, heq.symm⟩
                exact settledBy_allowed (erasure?_known hkind ha) hne hassign
          obtain ⟨s, b, hs, hb, hassign'⟩ :=
            exists_nearer h (hcomplete ht) hprim habove ha hassign hfar
          have hmem : s ∈ ts := by
            obtain ⟨ts', habove', hmem⟩ := hs
            obtain rfl := Outcome.ok.inj (habove.symm.trans habove')
            exact hmem
          obtain ⟨n, g, hg⟩ :=
            ih s hmem (hdirectly ht hs) hb hassign' (hts s hmem).isPrimitive
          exact find_through (.intro habove herase hprim hts) hsettled
            habove hmem hg

end

/-- What the erasure of a type excludes, the search does not look for. -/
theorem find_of_refused (hhost : r.env.hostTest = none)
    (ha : r.env.erasure? t = .ok (some a))
    (hassign : r.env.assignable c a = false) (n : Nat) :
    r.find arena (n + 1) t c = .ok none := by
  have hne : a ≠ c := by
    rintro rfl
    rw [assignable_refl hhost] at hassign
    cases hassign
  rw [find, settledBy_eq ha, settle, if_neg hne,
    if_neg (by rw [hassign]; exact Bool.false_ne_true)]
  rfl

section

variable (h : r.Standard) (harena : r.Sound arena)

include h harena

theorem find_of_assignable (ht : r.env.Regular arena.size t)
    (ha : r.env.erase t = .ok a) (hassign : r.env.assignable c a = true) :
    ∃ n g, r.find arena n t c = .ok (some g) :=
  find_of_complete h.covered Regular.complete (harena.directly h.founded) ht
    (harena.climbs h.founded ht) ha hassign

omit h harena in
/-- Where no variable has two bounds, the search finds only what the erasure
allows. -/
theorem assignable_of_find (hhost : r.env.hostTest = none)
    (hsingle : ∀ v, (r.env.boundsOf v).length ≤ 1) :
    ∀ {n : Nat} {t : Ty}, r.env.erase t = .ok a →
    r.find arena n t c = .ok (some g) → r.env.assignable c a = true
  | n + 1, t, ha, hg => by
      cases hkind : t.isUnknown with
      | false =>
          by_cases hsame : a = c
          · rw [hsame]
            exact assignable_refl hhost c
          · rw [find, settledBy_eq (erasure?_known hkind ha), settle,
              if_neg hsame] at hg
            by_cases hassign : r.env.assignable c a = true
            · exact hassign
            · rw [if_neg hassign] at hg
              cases hg
      | true =>
          obtain ⟨v, rfl⟩ := exists_var_of_erase hkind ha
          obtain ⟨s, rest, habove, hs, hlen⟩ := @above_var r arena a v ha
          have hnil : rest = [] :=
            List.length_eq_zero_iff.1 (by have := hsingle v; omega)
          rw [find_succ rfl habove, hnil] at hg
          obtain ⟨s', hs', hg'⟩ := mem_of_firstFound hg
          obtain rfl := List.mem_singleton.1 hs'
          exact assignable_of_find hhost hsingle hs hg'

/-! ## One rule for a comparison -/

variable (hplain : r.config.memoizeSupertypes = false)
  (ht : r.env.Regular arena.size t) (hconverted : t.Converted)
  (hkind : s.isUnknown = false) (herase : r.env.erase s = .ok c)

include hplain ht hconverted hkind herase

/-- The verdict is that of the view that the search finds, and no where it finds
none. That erasures may settle it first makes no difference. -/
theorem verdict_found {found : Option Ty}
    (hfound : r.find arena n t c = .ok found) : r.Verdict arena s t b ↔
      match found with
      | some g => r.ViewVerdict arena s g b
      | none => b = false := by
  obtain ⟨o, ho⟩ := harena.erasure? h.founded ht
  cases o with
  | none =>
      have hsettled := @settledByErasure_unknown r s t c ho
      cases found with
      | some g =>
          exact verdict_of_view h.wellFormed hplain ht.complete.counted
            hconverted hkind herase hsettled hfound
      | none =>
          exact verdict_of_absent hplain ht.complete.counted hconverted hkind
            herase hsettled hfound
  | some a =>
      cases hassign : r.env.assignable c a with
      | false =>
          obtain rfl :=
            find_unique hfound (find_of_refused h.noHostTest ho hassign 0)
          exact verdict_of_settled hkind herase
            (settledByErasure_refused ho hassign)
      | true =>
          obtain ⟨m, g, hg⟩ :=
            find_of_assignable h harena ht (erase_of_erasure? ho) hassign
          obtain rfl := find_unique hfound hg
          exact verdict_of_allowed h.wellFormed hplain ht.complete.counted
            hconverted hkind herase ho hassign hg

end

end Resolver

end GenericTypes
