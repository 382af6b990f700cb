import GenericTypes.Proofs.Completeness
import GenericTypes.Proofs.DirectSupertypes
import GenericTypes.Proofs.Pruning

/-!
# Arrays and their components

Above an array are the arrays of what is above its component, so a search from
the array ought to find the array of what a search from the component finds. It
does so, with one difference (`find_lifts`): an array of a variable has an
erasure, and a variable is passed over. The search from the array may end at the
array of a variable, where the search from the component goes on, and it is cut
off where the first bound of a variable does not lead to the class
(`Fronted`).

What two arrays come to is then read off the view found (`verdict_arrays`). An
array of a plain class is taken for a raw type and accepted as it is; any other
has its component compared, and captured. That is the comparison of the
components themselves as far as `Liftable` goes.
-/

namespace GenericTypes

open Relation

namespace Ty

theorem isUnknown_arrayOf (t : Ty) : t.arrayOf.isUnknown = false := by
  cases t <;> rfl

theorem converted_arrayOf (t : Ty) : t.arrayOf.Converted := by
  cases t <;> trivial

theorem isErasable_arrayOf (t : Ty) : t.arrayOf.isErasable = t.isErasable := by
  cases t <;> rfl

end Ty

namespace Resolver

open Resolve Declarations

variable {r : Resolver} {arena : Array CaptureDef} {s t g : Ty} {a c : Class}
  {b : Bool} {n m : Nat}

/-! ## Above what is known -/

section

variable (h : r.Standard)

include h

/-- Direct supertypes of types of classes and of arrays are of these forms, and
no wildcards come up in them. -/
theorem known_directly (ht : r.env.Regular arena.size t)
    (hkind : t.isUnknown = false) (hs : r.Directly arena t s) :
    s.isUnknown = false ∧
      (r.env.DeclaresConverted → t.Converted → s.Converted) := by
  have hclass : ∀ {id}, t.head? = some id →
      s.isUnknown = false ∧
      (r.env.DeclaresConverted → t.Converted → s.Converted) := by
    intro id hid
    refine ⟨?_, fun hdeclared hconverted => ?_⟩
    · obtain ⟨id', hid', -⟩ :=
        ancestor_of_class h.wellFormed h.founded.topped.topmost
          (ht.complete.supplies hid) (.single hs)
      cases hid' <;> rfl
    · have hrigid := Ty.rigid_of_head? hid hconverted
      exact (rigid_directly h.wellFormed hdeclared hrigid.1 hrigid
        ht.complete hs).converted
  have harray : ∀ {k}, t.component? = some k →
      s.isUnknown = false ∧
      (r.env.DeclaresConverted → t.Converted → s.Converted) := by
    intro k hk
    rcases of_directly_array hk hs with ⟨y, -, rfl⟩ | ⟨top, -, rfl⟩
    · exact ⟨y.isUnknown_arrayOf, fun _ _ => y.converted_arrayOf⟩
    · exact ⟨rfl, fun _ _ => trivial⟩
  cases t with
  | nominal e =>
      cases e with
      | named id => exact hclass rfl
      | primitive p =>
          exact absurd (isPrimitive_of_directly hs) Bool.noConfusion
      | array e => exact harray rfl
  | parameterized id _ _ => exact hclass rfl
  | genericArray k => exact harray rfl
  | var _ | wildcard _ _ | capture _ => cases hkind

theorem isUnknown_above (harena : r.Sound arena)
    (ht : r.env.Regular arena.size t) (hkind : t.isUnknown = false)
    (hg : ReflTransGen (r.Directly arena) t g) : g.isUnknown = false := by
  induction hg using ReflTransGen.head_induction_on with
  | refl => exact hkind
  | head hs _ ih =>
      exact ih (harena.directly h.founded ht hs)
        (known_directly h ht hkind hs).1

theorem converted_above (harena : r.Sound arena)
    (hdeclared : r.env.DeclaresConverted) (ht : r.env.Regular arena.size t)
    (hkind : t.isUnknown = false) (hconverted : t.Converted)
    (hg : ReflTransGen (r.Directly arena) t g) : g.Converted := by
  induction hg using ReflTransGen.head_induction_on with
  | refl => exact hconverted
  | head hs _ ih =>
      obtain ⟨hkind', hconverted'⟩ := known_directly h ht hkind hs
      exact ih (harena.directly h.founded ht hs) hkind'
        (hconverted' hdeclared hconverted)

/-- What a variable leads to, all below it lead to. -/
theorem find_of_var_above (harena : r.Sound arena) {v : TypeVarId}
    (ht : r.env.Regular arena.size t)
    (hv : ReflTransGen (r.Directly arena) t (.var v))
    (hg : r.find arena n (.var v) c = .ok (some g)) :
    ∃ m g', r.find arena m t c = .ok (some g') := by
  induction hv using ReflTransGen.head_induction_on with
  | refl => exact ⟨n, g, hg⟩
  | @head t s hs hup ih =>
      obtain ⟨m, g', hg'⟩ := ih (harena.directly h.founded ht hs)
      have hkind : t.isUnknown = true := by
        cases hkind : t.isUnknown with
        | true => rfl
        | false => cases isUnknown_above h harena ht hkind (.head hs hup)
      obtain ⟨ts, habove, hmem⟩ := hs
      exact find_through
        (harena.climbs h.founded ht (isPrimitive_unknown hkind))
        (settledBy_unknown hkind c) habove hmem hg'

end

/-! ## Searches from arrays -/

/-- A variable at or above `t` that leads to the class `c` does so by its first
bound, as far as erasures tell. -/
def Fronted (r : Resolver) (arena : Array CaptureDef) (t : Ty)
    (c : Class) : Prop :=
  ∀ v a, ReflTransGen (r.Directly arena) t (.var v) →
    r.env.erase (.var v) = .ok a →
    (∃ n g, r.find arena n (.var v) c = .ok (some g)) →
    r.env.assignable c a = true

theorem Fronted.directly (hfront : r.Fronted arena t c)
    (hs : r.Directly arena t s) : r.Fronted arena s c :=
  fun v a hv => hfront v a (.head hs hv)

/-- What a search for `c` finds, and what the search for arrays of `c` finds
from the array: the array of that, or of a variable that leads there. -/
inductive Lifts (r : Resolver) (arena : Array CaptureDef) (c : Class) :
    Option Ty → Option Ty → Prop where
  | absent : Lifts r arena c none none
  | view (g : Ty) : Lifts r arena c (some g) (some g.arrayOf)
  | ofVar {v : TypeVarId} {g : Ty} {n : Nat}
      (hv : r.env.Regular arena.size (.var v))
      (hfind : r.find arena n (.var v) c = .ok (some g)) :
      Lifts r arena c (some g) (some (.genericArray (.var v)))

/-- At some depth the searches from `t` and from its array both end, and one is
the other lifted. -/
def LiftsFrom (r : Resolver) (arena : Array CaptureDef) (c : Class) (n : Nat)
    (t : Ty) : Prop :=
  ∃ found found', r.find arena n t c = .ok found ∧
    r.find arena n t.arrayOf (.array c) = .ok found' ∧
    r.Lifts arena c found found'

theorem LiftsFrom.mono (hlift : r.LiftsFrom arena c n t) (hle : n ≤ m) :
    r.LiftsFrom arena c m t := by
  obtain ⟨found, found', hfound, hfound', hlifts⟩ := hlift
  exact ⟨found, found', find_mono hle hfound, find_mono hle hfound', hlifts⟩

/-- The types above all arrays, which a search from an array asks last, lead to
no array. -/
theorem firstFound_aboveArrays (hhost : r.env.hostTest = none) :
    ∀ ids : List ClassId,
      firstFound (fun s => r.find arena (n + 1) s (.array c))
        (ids.map .named) = .ok none
  | [] => rfl
  | id :: ids => by
      have hnone : r.find arena (n + 1) (.named id) (.array c) = .ok none := by
        have hne : Class.named id ≠ .array c := Class.noConfusion
        have hrefused := assignable_array_named hhost c id
        rw [find, settledBy_eq (erasure?_head rfl), settle,
          if_neg hne, hrefused]
        rfl
      rw [List.map_cons, firstFound, hnone]
      exact firstFound_aboveArrays hhost ids

theorem firstFound_lifts (hhost : r.env.hostTest = none) : ∀ {ts : List Ty},
    (∀ s ∈ ts, r.LiftsFrom arena c (n + 1) s) → ∃ found found',
      firstFound (fun s => r.find arena (n + 1) s c) ts = .ok found ∧
      firstFound (fun s => r.find arena (n + 1) s (.array c))
        (r.arraySupertypes ts) = .ok found' ∧
      r.Lifts arena c found found'
  | [], _ => ⟨none, none, rfl, firstFound_aboveArrays hhost _, .absent⟩
  | t :: ts, hts => by
      obtain ⟨found, found', hfound, hfound', hlifts⟩ :=
        hts t List.mem_cons_self
      have hcons : r.arraySupertypes (t :: ts) =
          t.arrayOf :: r.arraySupertypes ts := rfl
      rw [hcons, firstFound, firstFound, hfound, hfound', Outcome.ok_bind,
        Outcome.ok_bind]
      cases hlifts with
      | absent =>
          exact firstFound_lifts hhost fun s hs =>
            hts s (List.mem_cons_of_mem t hs)
      | view g => exact ⟨_, _, rfl, rfl, .view g⟩
      | ofVar hv hfind => exact ⟨_, _, rfl, rfl, .ofVar hv hfind⟩

/-- Where neither search is settled, one lifts the other if it does so from the
direct supertypes. -/
theorem liftsFrom_through (hhost : r.env.hostTest = none) {ts : List Ty}
    (habove : r.above arena t = .ok ts) (hsettled : r.settledBy t c = .ok none)
    (hsettled' : r.settledBy t.arrayOf (.array c) = .ok none)
    (hts : ∀ s ∈ ts, ∃ n, r.LiftsFrom arena c n s) :
    ∃ n, r.LiftsFrom arena c n t := by
  obtain ⟨n, hn⟩ := exists_common_depth (fun hle hn => hn.mono hle) hts
  obtain ⟨found, found', hfound, hfound', hlifts⟩ :=
    firstFound_lifts hhost fun s hs => (hn s hs).mono (Nat.le_succ n)
  have habove' : r.above arena t.arrayOf = .ok (r.arraySupertypes ts) := by
    rw [above_component (Ty.component?_arrayOf t), habove]
    rfl
  exact ⟨n + 2, found, found', (find_succ hsettled habove _).trans hfound,
    (find_succ hsettled' habove' _).trans hfound', hlifts⟩

theorem erase_arrayOf (ha : r.env.erase t = .ok a) :
    r.env.erase t.arrayOf = .ok (.array a) := by
  rw [erase_component (Ty.component?_arrayOf t), ha]
  rfl

theorem erasure?_arrayOf (ha : r.env.erase t = .ok a) :
    r.env.erasure? t.arrayOf = .ok (some (.array a)) :=
  erasure?_known t.isUnknown_arrayOf (erase_arrayOf ha)

section

variable (h : r.Standard) (harena : r.Sound arena)

include h harena

omit harena in
/-- Where the erasure excludes the class, neither search finds anything. -/
theorem lifts_of_refused (hclimbs : r.Climbs arena t)
    (hfront : r.Fronted arena t c) (ha : r.env.erase t = .ok a)
    (hassign : r.env.assignable c a = false) :
    ∃ n, r.LiftsFrom arena c n t := by
  have hassign' := (assignable_arrays h.noHostTest c a).trans hassign
  have hnone' : r.find arena 1 t.arrayOf (.array c) = .ok none :=
    find_of_refused h.noHostTest (erasure?_arrayOf ha) hassign' 0
  cases hkind : t.isUnknown with
  | false =>
      have hnone : r.find arena 1 t c = .ok none :=
        find_of_refused h.noHostTest (erasure?_known hkind ha) hassign 0
      exact ⟨1, none, none, hnone, hnone', .absent⟩
  | true =>
      -- the search from a variable goes on, and in vain
      obtain ⟨v, rfl⟩ := exists_var_of_erase hkind ha
      obtain ⟨n, found, hfound⟩ := find_ok hclimbs c
      cases found with
      | none =>
          exact ⟨n + 1, none, none, find_mono (Nat.le_succ n) hfound,
            find_mono (Nat.le_add_left 1 n) hnone', .absent⟩
      | some g =>
          have hleads := hfront v a .refl ha ⟨n, g, hfound⟩
          rw [hassign] at hleads
          cases hleads

/-- Where the erasure is the class, the search from the array is at its end. -/
theorem lifts_of_same (ht : r.env.Regular arena.size t)
    (hc : r.env.erase t = .ok c) : ∃ n, r.LiftsFrom arena c n t := by
  have hfound' : r.find arena 1 t.arrayOf (.array c) = .ok (some t.arrayOf) :=
    find_self (erasure?_arrayOf hc) 0
  cases hkind : t.isUnknown with
  | false =>
      exact ⟨1, _, _, find_self (erasure?_known hkind hc) 0, hfound', .view t⟩
  | true =>
      obtain ⟨v, rfl⟩ := exists_var_of_erase hkind hc
      obtain ⟨n, g, hg⟩ :=
        find_of_assignable h harena ht hc (assignable_refl h.noHostTest c)
      exact ⟨n + 1, some g, _, find_mono (Nat.le_succ n) hg,
        find_mono (Nat.le_add_left 1 n) hfound', .ofVar ht hg⟩

/-- The search from an array lifts the search from its component. -/
theorem find_lifts (ht : r.env.Regular arena.size t)
    (hprim : t.isPrimitive = false) (hfront : r.Fronted arena t c) :
    ∃ n, r.LiftsFrom arena c n t := by
  have hclimbs := harena.climbs h.founded ht hprim
  induction hclimbs with
  | @intro t ts habove herase hprim' hts ih =>
      have hnext : ∀ s ∈ ts, ∃ n, r.LiftsFrom arena c n s := fun s hs =>
        ih s hs (harena.above h.founded ht habove s hs) (hts s hs).isPrimitive
          (hfront.directly ⟨ts, habove, hs⟩)
      cases hready : t.isErasable with
      | false =>
          -- neither erases, and both searches go on
          refine liftsFrom_through h.noHostTest habove ?_ ?_ hnext
          · rw [settledBy_eq (erasure?_refused hready), settle]
          · rw [settledBy_eq (erasure?_refused
              (t.isErasable_arrayOf.trans hready)), settle]
      | true =>
          obtain ⟨a, ha⟩ := herase hready
          cases hassign : r.env.assignable c a with
          | false =>
              exact lifts_of_refused h (.intro habove herase hprim' hts)
                hfront ha hassign
          | true =>
              by_cases hsame : a = c
              · exact lifts_of_same h harena ht (hsame ▸ ha)
              refine liftsFrom_through h.noHostTest habove ?_ ?_ hnext
              · cases hkind : t.isUnknown with
                | true => exact settledBy_unknown hkind c
                | false =>
                    exact settledBy_allowed
                      (erasure?_known hkind ha) hsame hassign
              · have hne : Class.array a ≠ .array c :=
                  fun heq => hsame (Class.array.inj heq)
                exact settledBy_allowed (erasure?_arrayOf ha) hne
                  ((assignable_arrays h.noHostTest c a).trans hassign)

theorem find_lifts_regular (ht : r.env.Regular arena.size t)
    (hfront : r.Fronted arena t c) : ∃ n, r.LiftsFrom arena c n t := by
  cases hprim : t.isPrimitive with
  | false => exact find_lifts h harena ht hprim hfront
  | true =>
      match t with
      | .nominal (.primitive p) =>
          have ha : r.env.erase (.nominal (.primitive p)) =
              .ok (.primitive p) := rfl
          cases hassign : r.env.assignable c (.primitive p) with
          | true =>
              obtain rfl := eq_of_assignable_primitive h.noHostTest hassign
              exact ⟨1, _, _, find_self rfl 0,
                find_self (erasure?_arrayOf ha) 0, .view _⟩
          | false =>
              have hassign' :=
                (assignable_arrays h.noHostTest c _).trans hassign
              exact ⟨1, _, _, find_of_refused h.noHostTest rfl hassign 0,
                find_of_refused h.noHostTest (erasure?_arrayOf ha) hassign' 0,
                .absent⟩

end

/-! ## What two arrays come to -/

/-- The verdict on arrays of `s`, given the view that a search has found of the
array on the right side. `verdict` is that of other types. -/
def ArrayVerdict (verdict : Ty → Ty → Bool → Prop) (s : Ty)
    (found : Option Ty) (b : Bool) : Prop :=
  match s, found with
  | _, none => b = false
  | .nominal _, some _ => b = true
  | _, some (.genericArray x) => verdict s x b
  | _, some _ => b = true

section

variable (h : r.Standard) (hplain : r.config.memoizeSupertypes = false)
  (harena : r.Sound arena)

include h hplain harena

/-- Of arrays the components are compared, where the view found has one that is
more than a class. -/
theorem verdict_arrays (hs : r.env.erase s = .ok c)
    (ht : r.env.Regular arena.size t) {found : Option Ty}
    (hfound : r.find arena n t.arrayOf (.array c) = .ok found) :
    r.Verdict arena s.arrayOf t.arrayOf b ↔
      ArrayVerdict (r.Verdict arena) s found b := by
  rw [verdict_found h harena hplain ht.arrayOf t.converted_arrayOf
    s.isUnknown_arrayOf (erase_arrayOf hs) hfound]
  cases found with
  | none => cases s <;> rfl
  | some g =>
      have hgc := (find_ancestor hfound).2
      cases s with
      | nominal e => exact viewVerdict_nominal (.inl rfl)
      | parameterized _ _ _ | var _ | wildcard _ _ | genericArray _
      | capture _ =>
          cases g with
          | nominal e => exact viewVerdict_nominal (.inr rfl)
          | genericArray x => exact Iff.rfl
          | parameterized _ _ _ => cases Outcome.ok.inj hgc
          | var _ | wildcard _ _ | capture _ => cases hgc

omit h hplain harena in
/-- Arrays of a capture, or of an array of one, are not compared at all. -/
theorem not_verdict_arrays (hs : s.isErasable = false) :
    ¬ r.Verdict arena s.arrayOf t.arrayOf b := by
  obtain ⟨k, hk⟩ :=
    erase_refused (d := r.env.toDeclarations) (s.isErasable_arrayOf.trans hs)
  exact not_verdict_of_unerasable s.isUnknown_arrayOf hk

/-- Where the search from the array lifts the search from the component, and
what that finds has nothing more to capture, the verdicts agree. -/
theorem verdict_of_lifts (hs : s.isUnknown = false)
    (hsc : r.env.erase s = .ok c) (ht : r.env.Regular arena.size t)
    (hconverted : t.Converted) (hfront : r.Fronted arena t c)
    (hviews : (∃ e, s = .nominal e) ∨ ∀ n g, r.find arena n t c = .ok (some g) →
      g.Converted) :
    r.Verdict arena s.arrayOf t.arrayOf b ↔ r.Verdict arena s t b := by
  obtain ⟨n, found, found', hfound, hfound', hlifts⟩ :=
    find_lifts_regular h harena ht hfront
  rw [verdict_arrays h hplain harena hsc ht hfound',
    verdict_found h harena hplain ht hconverted hs hsc hfound]
  cases hlifts with
  | absent => cases s <;> rfl
  | view g =>
      cases s with
      | nominal e => exact (viewVerdict_nominal (.inl rfl)).symm
      | parameterized _ _ _ | genericArray _ =>
          cases g with
          | nominal e => exact (viewVerdict_nominal (.inr rfl)).symm
          | parameterized _ _ _ | var _ | wildcard _ _ | genericArray _
          | capture _ =>
              have hg :=
                hviews.resolve_left (fun ⟨_, he⟩ => nomatch he) n _ hfound
              exact verdict_found h harena hplain
                (harena.find h.founded ht hfound) hg rfl hsc
                (find_self (find_ancestor hfound).2 0)
      | var _ | wildcard _ _ | capture _ => cases hs
  | ofVar hv hfind =>
      cases s with
      | nominal e => exact (viewVerdict_nominal (.inl rfl)).symm
      | parameterized _ _ _ | genericArray _ =>
          exact verdict_found h harena hplain hv trivial rfl hsc hfind
      | var _ | wildcard _ _ | capture _ => cases hs

/-- Types that erase alike compare as their arrays do, unless a variable is
compared with a plain class. -/
theorem verdict_of_alike (hs : r.env.erase s = .ok c)
    (htc : r.env.erase t = .ok c) (ht : r.env.Regular arena.size t)
    (hvar : s.isUnknown = false ∨ ∀ e, t ≠ .nominal e) :
    r.Verdict arena s.arrayOf t.arrayOf b ↔ r.Verdict arena s t b := by
  rw [verdict_arrays h hplain harena hs ht (find_self (erasure?_arrayOf htc) 0)]
  have hrefl := assignable_refl h.noHostTest c
  cases s with
  | nominal e =>
      show b = true ↔ _
      cases hkind : t.isUnknown with
      | false =>
          have hsettled :=
            settledByErasure_nominal (b := e) (erasure?_known hkind htc) hrefl
          exact (verdict_of_settled rfl hs hsettled).symm
      | true =>
          obtain ⟨n, g, hg⟩ := find_of_assignable h harena ht htc hrefl
          rw [verdict_found h harena hplain ht
            (converted_unknown hkind) rfl hs hg]
          exact (viewVerdict_nominal (.inl rfl)).symm
  | parameterized _ _ _ | genericArray _ | var _ =>
      cases t with
      | nominal e =>
          have hkind := hvar.resolve_right fun hne => hne e rfl
          rw [verdict_found h harena hplain ht trivial hkind hs
            (find_self (erasure?_known rfl htc) 0)]
          exact (viewVerdict_nominal (.inr rfl)).symm
      | parameterized _ _ _ | var _ | genericArray _ => exact Iff.rfl
      | wildcard _ _ | capture _ => cases htc
  | wildcard _ _ | capture _ => cases hs

omit hplain harena in
/-- Erasures that exclude each other, or a left side without arguments, settle
either comparison alike. -/
theorem verdict_of_erasures (hs : s.isUnknown = false)
    (hsc : r.env.erase s = .ok c) (ht : t.isUnknown = false)
    (hta : r.env.erase t = .ok a)
    (hsettled : (∃ e, s = .nominal e) ∨ r.env.assignable c a = false) :
    r.Verdict arena s.arrayOf t.arrayOf b ↔ r.Verdict arena s t b := by
  have hc := erase_arrayOf hsc
  have ha := erasure?_arrayOf hta
  have hassign' := assignable_arrays h.noHostTest c a
  cases hassign : r.env.assignable c a with
  | false =>
      rw [verdict_of_settled hs hsc
          (settledByErasure_refused (erasure?_known ht hta) hassign),
        verdict_of_settled s.isUnknown_arrayOf hc
          (settledByErasure_refused ha (hassign'.trans hassign))]
  | true =>
      obtain ⟨e, rfl⟩ :=
        hsettled.resolve_right (by rw [hassign]; exact Bool.noConfusion)
      rw [verdict_of_settled hs hsc
        (settledByErasure_nominal (erasure?_known ht hta) hassign)]
      exact verdict_of_settled (s := .nominal (.array e)) rfl hc
        (settledByErasure_nominal ha (hassign'.trans hassign))

/-- Of types that are neither variables nor captures the verdicts agree, unless
an argument of the left side is compared with what is captured on the right. -/
theorem verdict_of_known (hdeclared : r.env.DeclaresConverted)
    (hs : s.isUnknown = false) (hsc : r.env.erase s = .ok c)
    (ht : r.env.Regular arena.size t) (htKind : t.isUnknown = false)
    (hclass : (∃ e, s = .nominal e) ∨ t.Converted ∨
      ∀ a, r.env.erase t = .ok a → r.env.assignable c a = false) :
    r.Verdict arena s.arrayOf t.arrayOf b ↔ r.Verdict arena s t b := by
  by_cases hconverted : t.Converted
  · refine verdict_of_lifts h hplain harena hs hsc ht hconverted
      (fun v a hv => ?_) (.inr fun n g hg => ?_)
    · cases isUnknown_above h harena ht htKind hv
    · exact converted_above h harena hdeclared ht htKind hconverted
        (find_ancestor hg).1
  · -- what is left to capture is an argument of a type of a class
    have hready : t.isErasable = true := by
      cases t with
      | parameterized _ _ _ => rfl
      | nominal _ | var _ | wildcard _ _ | genericArray _ | capture _ =>
          exact absurd trivial hconverted
    obtain ⟨a, ha⟩ := h.wellFormed.erase_ok ht.complete hready
    refine verdict_of_erasures h hs hsc htKind ha ?_
    rcases hclass with hnominal | hconv | hno
    · exact .inl hnominal
    · exact absurd hconv hconverted
    · exact .inr (hno a ha)

omit h hplain harena in
theorem verdict_var_known {v : TypeVarId} (ht : t.isUnknown = false) :
    r.Verdict arena (.var v) t b ↔ b = false := by
  have hrun : ∀ n, r.isSupertype (n + 1) (.var v) t = pure false := by
    intro n
    cases t with
    | nominal _ | parameterized _ _ _ | genericArray _ => rfl
    | var _ | wildcard _ _ | capture _ => cases ht
  have hno : r.Verdict arena (.var v) t false := ⟨1, by rw [hrun]; rfl⟩
  exact ⟨fun hverdict => hverdict.unique hno, fun hb => hb ▸ hno⟩

/-- A variable is above nothing that does not lead to its class. -/
theorem verdict_var_absent {v : TypeVarId}
    (hv : r.env.Regular arena.size (.var v))
    (hvc : r.env.erase (.var v) = .ok c) (ht : r.env.Regular arena.size t)
    (hprim : t.isPrimitive = false)
    (habsent : ∀ n g, r.find arena n t c ≠ .ok (some g)) :
    r.Verdict arena (.var v) t b ↔ b = false := by
  obtain ⟨n, b', hanswers, hup⟩ :=
    var_answers hplain v (harena.climbs h.founded ht hprim)
  have hb' : b' = false := by
    cases b' with
    | false => rfl
    | true =>
        obtain ⟨m, g, hg⟩ :=
          find_of_assignable h harena hv hvc (assignable_refl h.noHostTest c)
        obtain ⟨m', g', hg'⟩ := find_of_var_above h harena ht (hup rfl) hg
        exact absurd hg' (habsent m' g')
  subst hb'
  have hno : r.Verdict arena (.var v) t false := by
    obtain ⟨ctx', hrun, -⟩ := hanswers ⟨arena, [], #[]⟩ rfl
    exact ⟨n, by rw [hrun]⟩
  exact ⟨fun hverdict => hverdict.unique hno, fun hb => hb ▸ hno⟩

/-- Where the search from a component finds nothing, neither does that from its
array. -/
theorem verdict_arrays_absent (hs : r.env.erase s = .ok c)
    (ht : r.env.Regular arena.size t)
    (habsent : ∀ n g, r.find arena n t c ≠ .ok (some g)) :
    r.Verdict arena s.arrayOf t.arrayOf b ↔ b = false := by
  have hfront : r.Fronted arena t c := by
    rintro v a hv - ⟨n, g, hg⟩
    obtain ⟨m, g', hg'⟩ := find_of_var_above h harena ht hv hg
    exact absurd hg' (habsent m g')
  obtain ⟨n, found, found', hfound, hfound', hlifts⟩ :=
    find_lifts_regular h harena ht hfront
  rw [verdict_arrays h hplain harena hs ht hfound']
  cases hlifts with
  | absent => cases s <;> rfl
  | view g | ofVar _ _ => exact absurd hfound (habsent n _)

end

/-- Where arrays of `s` and `t` compare as `s` and `t` themselves do. -/
inductive Liftable (r : Resolver) (arena : Array CaptureDef)
    (s t : Ty) : Prop where
  /-- They erase alike; only a variable is not to meet a plain class. -/
  | alike {c : Class} (hs : r.env.erase s = .ok c) (ht : r.env.erase t = .ok c)
      (hvar : s.isUnknown = false ∨ ∀ e, t ≠ .nominal e)
  /-- Neither is a variable or a capture, and nothing is to be captured that an
  argument of `s` is compared with. -/
  | known (hs : s.isUnknown = false) (ht : t.isUnknown = false)
      (hclass : (∃ e, s = .nominal e) ∨ t.Converted ∨
        ∀ c a, r.env.erase s = .ok c → r.env.erase t = .ok a →
          r.env.assignable c a = false)
  /-- The right side is known by its bounds. First bounds lead wherever any do,
  and the view found of them has no wildcards that `s` could ask about. -/
  | bounded (hs : s.isUnknown = false) (ht : t.isUnknown = true)
      (hfront : ∀ c, r.env.erase s = .ok c → r.Fronted arena t c)
      (hviews : (∃ e, s = .nominal e) ∨
        ∀ c n g, r.env.erase s = .ok c →
          r.find arena n t c = .ok (some g) → g.Converted)
  /-- A variable on the left, and no array of a plain class to meet it. -/
  | ofVar (hs : s.isVar = true) (ht : t.isUnknown = false)
      (hview : ∀ c n e, r.env.erase s = .ok c →
        r.find arena n t.arrayOf (.array c) ≠ .ok (some (.nominal e)))
  /-- A variable on the left, to whose class the right side does not lead. -/
  | apart (hs : s.isVar = true) (ht : t.isUnknown = true)
      (habsent : ∀ c n g, r.env.erase s = .ok c →
        r.find arena n t c ≠ .ok (some g))

section

variable (h : r.Standard) (hplain : r.config.memoizeSupertypes = false)
  (harena : r.Sound arena)

include h hplain harena

theorem verdict_var_array {v : TypeVarId} (hvc : r.env.erase (.var v) = .ok c)
    (ht : r.env.Regular arena.size t) (hkind : t.isUnknown = false)
    (hview : ∀ n e,
      r.find arena n t.arrayOf (.array c) ≠ .ok (some (.nominal e))) :
    r.Verdict arena (Ty.var v).arrayOf t.arrayOf b ↔ b = false := by
  obtain ⟨n, found, hfound⟩ := find_ok
    (harena.climbs h.founded ht.arrayOf t.isPrimitive_arrayOf) (.array c)
  rw [verdict_arrays h hplain harena hvc ht hfound]
  match found with
  | none => exact Iff.rfl
  | some g =>
      obtain ⟨hup, hgc⟩ := find_ancestor hfound
      -- a component of what is found is no variable
      cases g with
      | nominal e => exact absurd hfound (hview n e)
      | genericArray x =>
          refine verdict_var_known ?_
          rcases reflTransGen_iff_eq_or_transGen.1 hup with heq | hup
          · have hx := t.component?_arrayOf
            rw [← heq] at hx
            exact Option.some.inj hx ▸ hkind
          · obtain ⟨y, hy, heq⟩ | ⟨id, hid⟩ :=
              ancestor_array h.wellFormed t.component?_arrayOf hup
            · have hx := y.component?_arrayOf
              rw [← heq] at hx
              exact Option.some.inj hx ▸ isUnknown_above h harena ht hkind
                hy.to_reflTransGen
            · cases hid
      | parameterized _ _ _ => cases Outcome.ok.inj hgc
      | var _ | wildcard _ _ | capture _ => cases hgc

/-- Arrays are covariant: their verdict is that of the components. -/
theorem verdict_arrayOf_iff (hdeclared : r.env.DeclaresConverted)
    (hs : r.env.Regular arena.size s) (ht : r.env.Regular arena.size t)
    (hlift : r.Liftable arena s t) :
    r.Verdict arena s.arrayOf t.arrayOf b ↔ r.Verdict arena s t b := by
  have hrefused : s.isUnknown = false → s.isErasable = false →
      (r.Verdict arena s.arrayOf t.arrayOf b ↔ r.Verdict arena s t b) := by
    intro hkind hready
    obtain ⟨k, hk⟩ := erase_refused (d := r.env.toDeclarations) hready
    exact iff_of_false (not_verdict_arrays hready)
      (not_verdict_of_unerasable hkind hk)
  cases hlift with
  | alike hsc htc hvar => exact verdict_of_alike h hplain harena hsc htc ht hvar
  | known hsKind htKind hclass =>
      cases hready : s.isErasable with
      | false => exact hrefused hsKind hready
      | true =>
          obtain ⟨c, hc⟩ := h.wellFormed.erase_ok hs.complete hready
          exact verdict_of_known h hplain harena hdeclared hsKind hc ht htKind
            (hclass.imp_right fun hclass => hclass.imp_right
              fun hno a => hno c a hc)
  | bounded hsKind htKind hfront hviews =>
      cases hready : s.isErasable with
      | false => exact hrefused hsKind hready
      | true =>
          obtain ⟨c, hc⟩ := h.wellFormed.erase_ok hs.complete hready
          exact verdict_of_lifts h hplain harena hsKind hc ht
            (converted_unknown htKind) (hfront c hc)
            (hviews.imp_right fun hviews n g => hviews c n g hc)
  | ofVar hsVar htKind hview =>
      match s with
      | .var v =>
          obtain ⟨c, hc⟩ := h.wellFormed.erase_ok hs.complete (t := .var v) rfl
          rw [verdict_var_array h hplain harena hc ht htKind
              fun n e => hview c n e hc,
            verdict_var_known htKind]
  | apart hsVar htKind habsent =>
      match s with
      | .var v =>
          obtain ⟨c, hc⟩ := h.wellFormed.erase_ok hs.complete (t := .var v) rfl
          rw [verdict_var_absent h hplain harena hs hc ht
            (isPrimitive_unknown htKind) fun n g => habsent c n g hc]
          exact verdict_arrays_absent h hplain harena hc ht
            fun n g => habsent c n g hc

end

/-! ## The answers of a resolver -/

theorem fronted_of_single (hhost : r.env.hostTest = none)
    (hsingle : ∀ v, (r.env.boundsOf v).length ≤ 1) : r.Fronted arena t c :=
  fun _ _ _ ha ⟨_, _, hg⟩ => assignable_of_find hhost hsingle ha hg

theorem Fronted.forgetting (hfront : r.Fronted arena t c) :
    r.forgetting.Fronted arena t c := by
  intro v a hv ha ⟨n, g, hg⟩
  rw [r.forgetting_alike.directly] at hv
  rw [find_forgetting] at hg
  exact hfront v a hv ha ⟨n, g, hg⟩

theorem Liftable.forgetting (hlift : r.Liftable arena s t) :
    r.forgetting.Liftable arena s t := by
  have hfind : ∀ n t c, r.forgetting.find arena n t c = r.find arena n t c :=
    fun n t c => find_forgetting r arena c n t
  cases hlift with
  | alike hs ht hvar => exact .alike hs ht hvar
  | known hs ht hclass => exact .known hs ht hclass
  | bounded hs ht hfront hviews =>
      refine .bounded hs ht (fun c hc => (hfront c hc).forgetting)
        (hviews.imp_right ?_)
      exact fun hviews c n g hc hg => hviews c n g hc (hfind n t c ▸ hg)
  | ofVar hs ht hview =>
      exact .ofVar hs ht fun c n e hc => hfind n _ _ ▸ hview c n e hc
  | apart hs ht habsent =>
      exact .apart hs ht fun c n g hc => hfind n t c ▸ habsent c n g hc

/-- Wherever requests on regular types lead, arrays of two types compare as the
types do where the one can be lifted to the other. In any case what arrays
come to is read off the exact supertype of the array on the right, and arrays
that do not erase are not compared. -/
theorem isSupertype_arrayOf_iff (h : r.Standard)
    (hdeclared : r.env.DeclaresConverted) {ctx : Context}
    (hctx : r.RegularlyReachable ctx) (hs : r.env.Regular ctx.captures.size s)
    (ht : r.env.Regular ctx.captures.size t) : (r.Liftable ctx.captures s t →
      ∀ b, r.Says ctx s.arrayOf t.arrayOf b ↔ r.Says ctx s t b) ∧
    (∀ c, r.env.erase s = .ok c → ∃ depth found,
      (r.exactSupertype depth t.arrayOf (.array c) ctx).1 = .ok found ∧
        ∀ b, r.Says ctx s.arrayOf t.arrayOf b ↔
          ArrayVerdict (r.Says ctx) s found b) ∧
    (s.isErasable = false → ∀ b, ¬ r.Says ctx s.arrayOf t.arrayOf b) := by
  obtain ⟨hsound, hsame⟩ := hctx.sound h.founded
  have hsound' := sound_forgetting.2 hsound
  have hverdict : ∀ {s t b}, r.Says ctx s t b ↔
      r.forgetting.Verdict ctx.captures s t b :=
    verdict_iff h.wellFormed.captureFree hsame
  refine ⟨fun hlift b => ?_, fun c hc => ?_, fun hready b hsays => ?_⟩
  · rw [hverdict, hverdict]
    exact verdict_arrayOf_iff h.forgetting rfl hsound' hdeclared hs ht
      hlift.forgetting
  · obtain ⟨n, found, hfound⟩ := find_ok
      (hsound.climbs h.founded ht.arrayOf t.isPrimitive_arrayOf) (.array c)
    refine ⟨n, found, (exactSupertype_eq_find hsame n _ _).trans hfound,
      fun b => ?_⟩
    have hverdicts : r.Says ctx = r.forgetting.Verdict ctx.captures :=
      funext fun s => funext fun t => funext fun b => propext hverdict
    rw [← find_forgetting] at hfound
    rw [hverdicts]
    exact verdict_arrays h.forgetting rfl hsound' hc ht hfound
  · exact not_verdict_arrays hready (hverdict.1 hsays)

section

open TypeStore

theorem core_singlyBounded (v : TypeVarId) :
    (core.toDeclarations.boundsOf v).length ≤ 1 := by
  have hslots : ∀ i < core.toDeclarations.typeParams.size,
      ∀ p ∈ core.toDeclarations.typeParam? ⟨i⟩, p.upperBounds.length ≤ 1 := by
        decide
  cases hp : core.toDeclarations.typeParam? v with
  | none => simp [boundsOf, hp]
  | some p =>
      rw [boundsOf_eq hp]
      exact hslots v.index (Array.getElem?_eq_some_iff.1 hp).1 p hp

/-- `E` is comparable to itself, where `E extends Enum<E>`, and so `E[]` is
below `Comparable<E>[]`. -/
theorem comparableArray_above_enumArray :
    ∃ depth,
      (coreResolver.isSupertype depth
        (Seed.applied Seed.comparable [Seed.tv 1]).arrayOf
          (Seed.tv 1).arrayOf .empty).1 = .ok true := by
  have hview : coreResolver.find #[] 8 (Seed.tv 1) (.named Seed.comparable) =
      .ok (some (Seed.applied Seed.comparable [Seed.tv 1])) := rfl
  have hlift : coreResolver.Liftable Context.empty.captures
      (Seed.applied Seed.comparable [Seed.tv 1]) (Seed.tv 1) := by
    refine .bounded rfl rfl
      (fun c _ => fronted_of_single rfl core_singlyBounded)
      (.inr fun c n g hc hg => ?_)
    obtain rfl := Outcome.ok.inj hc
    obtain rfl := Option.some.inj (find_unique hview hg)
    decide
  refine ((isSupertype_arrayOf_iff coreResolver_standard core_declaresConverted
    .start (by decide) (by decide)).1 hlift true).2 ⟨8, rfl⟩

/-- `Number[]` is taken to be below `T[]`, where
`T extends Number & Comparable<T>`, though `Number` is not below `T`: an array
of a plain class counts as raw. -/
theorem numberArray_below_variableArray :
    knotted.toDeclarations.WellFormed ∧
      knotted.toDeclarations.DeclaresConverted ∧
      knotted.toDeclarations.Proper 0 (Seed.tv 2) ∧
      knotted.toDeclarations.Proper 0 (.named Seed.number) ∧
      (∃ depth, (knottedResolver.isSupertype depth (Seed.tv 2).arrayOf
        (Ty.named Seed.number).arrayOf .empty).1 = .ok true) ∧
      ∃ depth, (knottedResolver.isSupertype depth (Seed.tv 2)
        (.named Seed.number) .empty).1 = .ok false :=
  ⟨knotted_wellFormed, knotted_declaresConverted, by decide, by decide,
    ⟨8, rfl⟩, 8, rfl⟩

end

end Resolver

end GenericTypes
