import GenericTypes.Proofs.Regular

/-!
# Every search comes to its end

A search ends if every path of direct supertypes does, and over an arena that is
a matter of the types alone. `Climbs` says it of a type: its direct supertypes
are known and climb themselves. It holds of types of classes by the rank of the
hierarchy, of variables by that of their bounds, of wildcards and arrays because
their parts are smaller, and of captures as far as the arena says so. From a
type that climbs, a search has an outcome at every depth from some on
(`find_ok`).
-/

namespace GenericTypes

open Relation

namespace Ty

/-- Whether a type stands for something else: its supertypes are its bounds. -/
def isUnknown : Ty → Bool
  | .var _ | .wildcard _ _ | .capture _ => true
  | .nominal _ | .parameterized _ _ _ | .genericArray _ => false

end Ty

/-- An element with no capture in it that stands for something else is a
declared variable. -/
theorem Declarations.Proper.element_var {d : Declarations} {t : Ty}
    (h : d.Proper 0 t) (hunknown : t.element.isUnknown = true) :
    ∃ v, t.element = .var v ∧ ∃ p, d.typeParam? v = some p := by
  have helem := h.element
  cases he : t.element with
  | var v =>
      rw [he] at helem
      exact ⟨v, rfl, helem.complete.fits⟩
  | wildcard _ _ => exact absurd (he ▸ helem.notWildcard) Bool.noConfusion
  | capture i =>
      rw [he] at helem
      exact absurd helem.complete.fits (Nat.not_lt_zero _)
  | nominal _ | parameterized _ _ _ | genericArray _ =>
      rw [he] at hunknown
      cases hunknown

namespace Resolver

open Declarations

/-- Every path of direct supertypes ends. -/
inductive Climbs (r : Resolver) (arena : Array CaptureDef) : Ty → Prop where
  | intro {t : Ty} {ts : List Ty} (habove : r.above arena t = .ok ts)
      (herase : t.isErasable = true → ∃ c, r.env.erase t = .ok c)
      (hprim : t.isPrimitive = false)
      (h : ∀ s ∈ ts, Climbs r arena s) : Climbs r arena t

variable {r : Resolver} {arena : Array CaptureDef}
  {t : Ty} {id : ClassId} {n : Nat}

theorem Climbs.isPrimitive (h : r.Climbs arena t) : t.isPrimitive = false := by
  cases h with
  | intro _ _ hprim _ => exact hprim

theorem erase_supplies (ht : r.env.Supplies id t) :
    r.env.erase t = .ok (.named id) :=
  erase_head ht.head?

section

variable (h : r.env.Topped)

include h

/-! ## Types of classes -/

theorem above_top (ht : r.env.Supplies r.env.wellKnown.object t) :
    r.above arena t = .ok [] := by
  obtain ⟨c, hc, hkind, hsup⟩ := h.top
  rw [above_eq h.wellFormed ht hc, seenSupertypes, hsup, hkind]
  rfl

theorem climbs_top (ht : r.env.Supplies r.env.wellKnown.object t) :
    r.Climbs arena t := by
  refine .intro (above_top h ht) (fun _ => ⟨_, erase_supplies ht⟩) ?_
    fun s hs => absurd hs List.not_mem_nil
  cases ht <;> rfl

theorem climbs_class (ht : r.env.Supplies id t) : r.Climbs arena t := by
  obtain ⟨rank, -, hrank⟩ := exists_rank_extends h.wellFormed.hierarchy
  induction id using (wellFounded_of_rank hrank).induction generalizing t with
  | h id ih =>
      obtain ⟨c, hc, habove⟩ := exists_above_eq arena h.wellFormed ht
      have hprim : t.isPrimitive = false := by
        cases ht <;> rfl
      refine .intro habove (fun _ => ⟨_, erase_supplies ht⟩) hprim
        fun s hs => ?_
      obtain ⟨⟨parent, hext, hparent⟩ | ⟨rfl, -⟩, -⟩ :=
        of_mem_seenSupertypes h.wellFormed ht hc hs
      · exact ih parent hext hparent
      · exact climbs_top h (.plain (h.wellFormed.known _ List.mem_cons_self))

/-! ## Arrays -/

theorem climbs_arraySupertypes {ts : List Ty}
    (hts : ∀ s ∈ ts, r.Climbs arena s.arrayOf) :
    ∀ s ∈ r.arraySupertypes ts, r.Climbs arena s := by
  intro s hs
  rcases List.mem_append.1 hs with hs | hs
  · obtain ⟨t, ht, rfl⟩ := List.mem_map.1 hs
    exact hts t ht
  · obtain ⟨id, hid, rfl⟩ := List.mem_map.1 hs
    exact climbs_class h (.plain (h.wellFormed.known id hid))

/-- An array climbs where the arrays of its component's supertypes do, in either
spelling. -/
theorem climbs_arrays {ts : List Ty} (habove : r.above arena t = .ok ts)
    (herase : t.isErasable = true → ∃ c, r.env.erase t = .ok c)
    (hts : ∀ s ∈ ts, r.Climbs arena s.arrayOf) :
    r.Climbs arena (.genericArray t) ∧ r.Climbs arena t.arrayOf := by
  have hsup := climbs_arraySupertypes h hts
  have hgeneric : r.Climbs arena (.genericArray t) := by
    have habove' : r.above arena (.genericArray t) =
        .ok (r.arraySupertypes ts) := by
      rw [above, habove]
      rfl
    refine .intro habove' (fun hready => ?_) rfl hsup
    obtain ⟨c, hc⟩ := herase hready
    refine ⟨.array c, ?_⟩
    rw [Declarations.erase] at hc ⊢
    rw [Ty.eraseWith, hc]
    rfl
  refine ⟨hgeneric, ?_⟩
  cases t with
  | nominal c =>
      have habove' : r.above arena (.nominal (.array c)) =
          .ok (r.arraySupertypes ts) := by
        rw [above] at habove
        rw [above, classAbove, habove]
        rfl
      exact .intro habove' (fun _ => ⟨_, rfl⟩) rfl hsup
  | parameterized _ _ _ | var _ | wildcard _ _ | genericArray _ | capture _ =>
      exact hgeneric

theorem Climbs.array (ht : r.Climbs arena t) :
    r.Climbs arena (.genericArray t) ∧ r.Climbs arena t.arrayOf := by
  induction ht with
  | intro habove herase _ _ ih =>
      exact climbs_arrays h habove herase fun s hs => (ih s hs).2

theorem climbs_array_primitive (p : Primitive) :
    r.Climbs arena (.genericArray (.primitive p)) ∧
      r.Climbs arena (Ty.primitive p).arrayOf :=
  @climbs_arrays r arena _ h [] rfl (fun _ => ⟨_, rfl⟩)
    fun _ hs => absurd hs List.not_mem_nil

/-- Arrays climb if their component does or is primitive. -/
theorem climbs_array (ht : t.isPrimitive = false → r.Climbs arena t) :
    r.Climbs arena (.genericArray t) ∧ r.Climbs arena t.arrayOf := by
  cases hprim : t.isPrimitive with
  | false => exact (ht hprim).array h
  | true =>
      match t with
      | .nominal (.primitive p) => exact climbs_array_primitive h p

theorem climbs_nominal :
    ∀ {c : Class}, r.env.Defines c → (Ty.nominal c).isPrimitive = false →
    r.Climbs arena (.nominal c)
  | .named _, hdef, _ => climbs_class h (.plain hdef)
  | .array c, hdef, _ =>
      (climbs_array h fun hprim => climbs_nominal (c := c) hdef hprim).2

/-! ## What stands for something else -/

/-- A type climbs if what its brackets enclose does, where that stands for
something else. -/
theorem climbs_of_element (ht : r.env.Complete n t)
    (hprim : t.isPrimitive = false)
    (helem : t.element.isUnknown = true → r.Climbs arena t.element) :
    r.Climbs arena t := by
  induction t using Ty.induct with
  | nominal c => exact climbs_nominal h ht.fits hprim
  | parameterized id args owner _ _ => exact climbs_class h (ht.supplies rfl)
  | var _ | capture _ | wildcard _ _ _ _ => exact helem rfl
  | genericArray t ih =>
      exact (climbs_array h fun hprim => ih (ht.component? rfl) hprim helem).1

theorem climbs_of_known (ht : r.env.Complete n t)
    (hprim : t.isPrimitive = false) (hknown : t.element.isUnknown = false) :
    r.Climbs arena t :=
  climbs_of_element h ht hprim fun hunknown => by
    rw [hknown] at hunknown
    cases hunknown

/-- The same of a declared type with values put in. -/
theorem climbs_subst {φ : TypeVarId → Ty} (ht : r.env.Proper 0 t)
    (hprim : t.isPrimitive = false)
    (helem : ∀ v, t.element = .var v → r.Climbs arena (φ v)) :
    r.Climbs arena (t.subst φ) := by
  induction t using Ty.induct with
  | nominal c => exact climbs_nominal h ht.complete.fits hprim
  | parameterized id args owner _ _ =>
      exact climbs_class h (ht.complete.supplies_subst rfl φ)
  | var v => exact helem v rfl
  | capture i => exact absurd ht.complete.fits (Nat.not_lt_zero _)
  | wildcard _ _ _ _ => exact absurd ht.notWildcard Bool.noConfusion
  | genericArray t ih =>
      refine (climbs_array h fun hprim' => ih (ht.component? rfl) ?_ helem).2
      match t with
      | .nominal _ => exact hprim'
      | .parameterized _ _ _ | .var _ | .wildcard _ _ | .genericArray _
      | .capture _ => rfl

end

section

/-- Above a declared variable are its bounds, or else the top type. -/
theorem above_declared (arena : Array CaptureDef) {v : TypeVarId}
    (hv : ∃ p, r.env.typeParam? v = some p) :
    ∃ s rest, r.above arena (.var v) = .ok (s :: rest) ∧
      ∀ x ∈ s :: rest, x = r.env.top ∨ x ∈ r.env.boundsOf v := by
  obtain ⟨p, hp⟩ := hv
  have habove := above_bounds arena hp
  rw [boundsOf_eq hp]
  cases hbounds : p.upperBounds with
  | nil =>
      rw [hbounds] at habove
      exact ⟨_, [], habove, fun x hx => .inl (List.mem_singleton.1 hx)⟩
  | cons b bs =>
      rw [hbounds] at habove
      exact ⟨b, bs, habove, fun x hx => .inr hx⟩

variable (h : r.env.Founded)

include h

/-- Declared variables climb: of two variables that bound each other, one comes
first. -/
theorem climbs_var {v : TypeVarId} (hv : ∃ p, r.env.typeParam? v = some p) :
    r.Climbs arena (.var v) := by
  induction v using (wellFounded_boundedBy h.wellFormed.bounding).induction with
  | h v ih =>
      obtain ⟨_, _, habove, hmem⟩ := above_declared arena hv
      refine .intro habove
        (fun hready => h.wellFormed.erase_ok (regular_var hv).complete
          (n := 0) hready) rfl fun s hs => ?_
      rcases hmem s hs with rfl | hs
      · exact climbs_top h.topped
          (.plain (h.wellFormed.known _ List.mem_cons_self))
      · have hs' := h.wellFormed.bounds v s hs
        have hprim := (h.grounded.bounds v s hs).2
        refine climbs_of_element h.topped hs'.complete hprim fun hunknown => ?_
        obtain ⟨w, he, hw⟩ := hs'.element_var hunknown
        rw [he]
        exact ih w ⟨s, hs, he⟩ hw

/-- Regular types climb in an arena whose bounds do. -/
theorem climbs_regular (harena : ∀ (i : Nat) c, arena[i]? = some c →
      ∀ u ∈ c.upper, r.Climbs arena u) (ht : r.env.Regular arena.size t)
    (hprim : t.isPrimitive = false) : r.Climbs arena t := by
  induction t using Ty.induct with
  | nominal c => exact climbs_nominal h.topped ht.complete.fits hprim
  | parameterized id args owner _ _ =>
      exact climbs_class h.topped (ht.complete.supplies rfl)
  | var v => exact climbs_var h ht.complete.fits
  | wildcard upper lower ihupper _ =>
      refine .intro (t := .wildcard upper lower) rfl
        (fun hready => by cases hready) rfl fun u hu => ?_
      obtain ⟨hreg, hprim⟩ := ht.bound (List.mem_append_left lower hu)
      exact ihupper u hu hreg hprim
  | genericArray t ih =>
      exact (climbs_array h.topped fun hprim => ih ht.component hprim).1
  | capture i =>
      have hi : i.index < arena.size := ht.complete.fits
      have hc := Array.getElem?_eq_getElem hi
      have hupper := harena i.index arena[i.index] hc
      have habove : r.above arena (.capture i) = .ok arena[i.index].upper := by
        rw [above, hc]
        rfl
      exact .intro habove (fun hready => by cases hready) rfl hupper

end

/-! ## Searches -/

theorem firstFound_none {ask : Ty → Outcome (Option Ty)} : ∀ {ts : List Ty},
    firstFound ask ts = .ok none → ∀ s ∈ ts, ask s = .ok none
  | [], _, _, hs => absurd hs List.not_mem_nil
  | t :: ts, h, s, hs => by
      obtain ⟨found, hfound, hrest⟩ := Outcome.bind_eq_ok h
      cases found with
      | some _ => cases hrest
      | none =>
          rcases List.mem_cons.1 hs with rfl | hs
          · exact hfound
          · exact firstFound_none hrest s hs

theorem firstFound_mono {ask ask' : Ty → Outcome (Option Ty)} :
    ∀ {ts : List Ty}, (∀ s ∈ ts, ∀ found, ask s = .ok found →
      ask' s = .ok found) → ∀ {found : Option Ty},
    firstFound ask ts = .ok found → firstFound ask' ts = .ok found
  | [], _, _, hfound => hfound
  | t :: ts, hmono, found, hfound => by
      obtain ⟨first, hfirst, hrest⟩ := Outcome.bind_eq_ok hfound
      rw [firstFound, hmono t List.mem_cons_self first hfirst, Outcome.ok_bind]
      cases first with
      | some g => exact hrest
      | none =>
          exact firstFound_mono
            (fun s hs => hmono s (List.mem_cons_of_mem t hs)) hrest

/-- A search that has an outcome has the same one at every greater depth. -/
theorem find_mono {target : Class} :
    ∀ {n m : Nat} {t : Ty} {found : Option Ty}, n ≤ m →
    r.find arena n t target = .ok found → r.find arena m t target = .ok found
  | n + 1, m + 1, t, found, hle, hfound => by
      obtain ⟨settled, hsettled, hrest⟩ := Outcome.bind_eq_ok hfound
      rw [find, hsettled, Outcome.ok_bind]
      cases settled with
      | some _ => exact hrest
      | none =>
          obtain ⟨ts, hts, hrest⟩ := Outcome.bind_eq_ok hrest
          dsimp only
          rw [hts, Outcome.ok_bind]
          exact firstFound_mono
            (fun s _ found hs => find_mono (Nat.le_of_succ_le_succ hle) hs)
            hrest

/-- Two searches that have outcomes have the same one. -/
theorem find_unique {n m : Nat} {target : Class} {found found' : Option Ty}
    (h : r.find arena n t target = .ok found)
    (h' : r.find arena m t target = .ok found') : found = found' := by
  have hn := find_mono (Nat.le_max_left n m) h
  have hm := find_mono (Nat.le_max_right n m) h'
  exact Outcome.ok.inj (hn.symm.trans hm)

/-- Several searches that have outcomes have them at one depth. -/
theorem exists_depth {target : Class} {ts : List Ty}
    (h : ∀ s ∈ ts, ∃ n found, r.find arena n s target = .ok found) :
    ∃ n, ∀ s ∈ ts, ∃ found, r.find arena n s target = .ok found :=
  exists_common_depth
    (fun hle ⟨found, hfound⟩ => ⟨found, find_mono hle hfound⟩) h

theorem erasure?_unknown (h : t.isUnknown = true) :
    r.env.erasure? t = .ok none := by
  cases t with
  | var _ | wildcard _ _ | capture _ => rfl
  | nominal _ | parameterized _ _ _ | genericArray _ => cases h

theorem erasure?_known {c : Class} (h : t.isUnknown = false)
    (hc : r.env.erase t = .ok c) : r.env.erasure? t = .ok (some c) := by
  cases t with
  | var _ | wildcard _ _ | capture _ => cases h
  | nominal _ | parameterized _ _ _ | genericArray _ =>
      rw [Declarations.erasure?, hc]

theorem erasure?_refused (h : t.isErasable = false) :
    r.env.erasure? t = .ok none := by
  cases t with
  | var _ | wildcard _ _ | capture _ => rfl
  | nominal _ | parameterized _ _ _ => cases h
  | genericArray t =>
      obtain ⟨k, hk⟩ := erase_refused (d := r.env.toDeclarations) h
      rw [Declarations.erasure?, hk]

/-- A type that erases if it can has an erasure or is passed over. -/
theorem erasure?_ok
    (herase : t.isErasable = true → ∃ c, r.env.erase t = .ok c) :
    ∃ o, r.env.erasure? t = .ok o := by
  cases hunknown : t.isUnknown with
  | true => exact ⟨none, erasure?_unknown hunknown⟩
  | false =>
      cases hready : t.isErasable with
      | false => exact ⟨none, erasure?_refused hready⟩
      | true =>
          obtain ⟨c, hc⟩ := herase hready
          exact ⟨some c, erasure?_known hunknown hc⟩

theorem Climbs.erasure? (h : r.Climbs arena t) :
    ∃ o, r.env.erasure? t = .ok o := by
  cases h with
  | intro _ herase _ _ => exact erasure?_ok herase

theorem erasure?_head (h : t.head? = some id) :
    r.env.erasure? t = .ok (some (.named id)) := by
  refine erasure?_known ?_ (erase_head h)
  cases t with
  | nominal _ | parameterized _ _ _ => rfl
  | var _ | wildcard _ _ | genericArray _ | capture _ => cases h

/-- What the erasure of a type, if it has one, says of a search at that type. -/
def settle (r : Resolver) (t : Ty) (target : Class) :
    Option Class → Option (Option Ty)
  | some c =>
      if c = target then some (some t)
      else if r.env.assignable target c then none else some none
  | none => none

theorem settledBy_eq {o : Option Class} (h : r.env.erasure? t = .ok o)
    (target : Class) : r.settledBy t target = .ok (r.settle t target o) := by
  rw [settledBy, h, Outcome.ok_bind]
  cases o with
  | none => rfl
  | some c =>
      rw [settle]
      dsimp only
      by_cases hc : c = target
      · rw [if_pos hc, if_pos hc]
        rfl
      · rw [if_neg hc, if_neg hc]
        split <;> rfl

/-- A search goes on from what stands for something else. -/
theorem settledBy_unknown (h : t.isUnknown = true) (target : Class) :
    r.settledBy t target = .ok none := by
  rw [settledBy_eq (erasure?_unknown h), settle]

/-- It goes on where the erasure is another class and allows the target. -/
theorem settledBy_allowed {c target : Class}
    (h : r.env.erasure? t = .ok (some c)) (hne : c ≠ target)
    (hassign : r.env.assignable target c = true) :
    r.settledBy t target = .ok none := by
  rw [settledBy_eq h, settle, if_neg hne, if_pos hassign]

theorem find_self {c : Class} (h : r.env.erasure? t = .ok (some c)) (n : Nat) :
    r.find arena (n + 1) t c = .ok (some t) := by
  rw [find, settledBy_eq h, settle, if_pos rfl]
  rfl

/-- From a type that climbs, every search has an outcome. -/
theorem find_ok (h : r.Climbs arena t) (target : Class) :
    ∃ n found, r.find arena n t target = .ok found := by
  induction h with
  | @intro t ts habove herase hprim hts ih =>
      obtain ⟨o, ho⟩ := (Climbs.intro habove herase hprim hts).erasure?
      obtain ⟨n, hn⟩ := exists_depth ih
      obtain ⟨found, hfound, -⟩ := firstFound_ok hn
      cases hsettled : r.settle t target o with
      | some result =>
          exact ⟨1, result, by rw [find, settledBy_eq ho, hsettled]; rfl⟩
      | none =>
          refine ⟨n + 1, found, ?_⟩
          rw [find, settledBy_eq ho, hsettled, Outcome.ok_bind]
          dsimp only
          rw [habove, Outcome.ok_bind]
          exact hfound

/-- A search that is not settled at once asks the direct supertypes. -/
theorem find_succ {ts : List Ty} {target : Class}
    (hsettled : r.settledBy t target = .ok none)
    (habove : r.above arena t = .ok ts) (n : Nat) :
    r.find arena (n + 1) t target =
      firstFound (fun s => r.find arena n s target) ts := by
  rw [find, hsettled, Outcome.ok_bind]
  dsimp only
  rw [habove, Outcome.ok_bind]

theorem erase_of_erasure? {c : Class} (h : r.env.erasure? t = .ok (some c)) :
    r.env.erase t = .ok c := by
  cases t with
  | nominal _ | parameterized _ _ _ | genericArray _ =>
      rw [Declarations.erasure?] at h
      cases herase : r.env.erase _ with
      | ok c' =>
          rw [herase] at h
          obtain rfl := Option.some.inj (Outcome.ok.inj h)
          rfl
      | error e => rw [herase] at h; cases e <;> cases h
      | exhausted => rw [herase] at h; cases h
  | var _ | wildcard _ _ | capture _ => cases h

theorem isPrimitive_of_erasure? {p : Primitive}
    (h : r.env.erasure? t = .ok (some (.primitive p))) :
    t.isPrimitive = true := by
  have herase := erase_of_erasure? h
  cases t with
  | nominal c =>
      obtain rfl := Outcome.ok.inj herase
      rfl
  | genericArray t =>
      obtain ⟨c, -, hc⟩ := Outcome.bind_eq_ok herase
      cases Outcome.ok.inj hc
  | parameterized _ _ _ => cases Outcome.ok.inj herase
  | var _ | wildcard _ _ | capture _ => cases h

/-! ## The top class -/

/-- Everything but a primitive class may stand where the top class is asked
for. -/
theorem assignable_top (hhost : r.env.hostTest = none) {a : Class}
    (ha : ∀ p, a ≠ .primitive p) :
    r.env.assignable (.named r.env.wellKnown.object) a = true := by
  rw [Environment.assignable, hhost]
  cases a with
  | named id => simp [Declarations.isAssignable]
  | primitive p => exact absurd rfl (ha p)
  | array c => simp [Declarations.isAssignable, WellKnown.aboveArrays]

theorem not_primitive_of_erasure? {a : Class} (ht : t.isPrimitive = false)
    (ha : r.env.erasure? t = .ok (some a)) (p : Primitive) :
    a ≠ .primitive p := by
  rintro rfl
  rw [isPrimitive_of_erasure? ha] at ht
  cases ht

/-- A search for the top class goes on from everything else. -/
theorem settledBy_top (hhost : r.env.hostTest = none)
    (ht : t.isPrimitive = false) {o : Option Class}
    (ho : r.env.erasure? t = .ok o)
    (hne : o ≠ some (.named r.env.wellKnown.object)) :
    r.settledBy t (.named r.env.wellKnown.object) = .ok none := by
  cases o with
  | none => exact settledBy_eq ho _
  | some a =>
      exact settledBy_allowed ho (fun heq => hne (congrArg some heq))
        (assignable_top hhost (not_primitive_of_erasure? ht ho))

end Resolver

end GenericTypes
