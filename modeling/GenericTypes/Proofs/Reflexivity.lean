import GenericTypes.Proofs.Admission
import GenericTypes.Proofs.Checking

/-!
# Which types are supertypes of themselves

A comparison of a type with itself looks at every part of it: at lower bounds
and owners in the same way, at upper bounds as bounds of the captures opened for
their wildcards. So the two comparisons that a type may be put to are taken
together, and are shown for every part of a type at once (`compares`).

A type is not always a supertype of itself. An upper bound may have a wildcard
with a lower bound among its arguments, and that one is not captured when the
search has found it.
-/

namespace GenericTypes

namespace Resolver

open Resolve Declarations

variable {r : Resolver} {arena later : Array CaptureDef}
  {t u x : Ty} {ts : List Ty}

/-- The two comparisons of a type, with itself or what it was captured to, and
with what it bounds. -/
structure Compares (r : Resolver) (t : Ty) : Prop where
  itself : ∀ arena t', r.Sound arena → r.env.Regular arena.size t →
    r.Untangled arena t →
    r.env.Regular arena.size t' → (t' = t ∨ r.Opened arena t t') →
    r.Decides arena (fun n => r.isSupertype n t t') (t.admits .itself = true)
  bounded : ∀ arena x ts, r.Sound arena → r.env.Regular arena.size t →
    r.Untangled arena t →
    r.env.Regular arena.size x → x.isUnknown = true →
    (x.isWildcard = true → t.isVar = false) →
    r.above arena x = .ok ts → (t ∈ ts ∨ t = r.env.top) → r.Clear arena x t →
    r.Decides arena (fun n => r.isSupertype n t x) (t.admits .bounded = true)

theorem OpenedArg.grows (h : r.Standard) (harena : r.Sound arena)
    (hgrows : Grows arena later) {a a' : Ty} (ha : r.env.Regular arena.size a)
    (hopened : r.OpenedArg arena a a') : r.OpenedArg later a a' := by
  cases hopened with
  | same hwild => exact .same hwild
  | @opened w i c hc hlower hupper hclear =>
      refine .opened (hgrows _ _ hc) hlower hupper fun u hu => ?_
      have hclimbs := harena.climbs h.founded
        (regular_capture (Array.getElem?_eq_some_iff.1 hc).1 :
          r.env.Regular arena.size (.capture i)) rfl
      exact (hclear u hu).grows hgrows hclimbs
        (ha.bound (List.mem_append_left w.lower hu)).1

theorem Opened.grows (h : r.Standard) (harena : r.Sound arena)
    (hgrows : Grows arena later) {t' : Ty} (hopened : r.Opened arena t t')
    (ht : r.env.Regular arena.size t) : r.Opened later t t' := by
  induction hopened with
  | plain hplain => exact .plain hplain
  | outermost hlen hargs =>
      refine .outermost hlen fun pair hpair => ?_
      have ha := (ht.arg (List.of_mem_zip hpair).1).1
      exact (hargs pair hpair).grows h harena hgrows ha
  | member hlen hargs _ ih =>
      refine .member hlen (fun pair hpair => ?_) (ih ht.owner)
      have ha := (ht.arg (List.of_mem_zip hpair).1).1
      exact (hargs pair hpair).grows h harena hgrows ha

/-! ## Arguments -/

theorem forall_pairs_iff {args args' : List Ty}
    (hlen : args.length = args'.length) {P : List Ty → List Ty → Prop} :
    (∀ pair ∈ args.zip args', ∀ upper lower, pair.1 = .wildcard upper lower →
        P upper lower) ↔
      ∀ upper lower, .wildcard upper lower ∈ args → P upper lower := by
  constructor
  · intro h upper lower hmem
    have hmap : (args.zip args').map Prod.fst = args :=
      List.map_fst_zip (Nat.le_of_eq hlen)
    rw [← hmap] at hmem
    obtain ⟨pair, hpair, heq⟩ := List.mem_map.1 hmem
    exact h pair hpair upper lower heq
  · intro h pair hpair upper lower heq
    exact h upper lower (heq ▸ (List.of_mem_zip hpair).1)

theorem eq_of_mem_zip_self {args : List Ty} {pair : Ty × Ty}
    (hpair : pair ∈ args.zip args) : pair.1 = pair.2 := by
  obtain ⟨i, hi⟩ := List.getElem?_of_mem hpair
  obtain ⟨hfst, hsnd⟩ := List.getElem?_zip_eq_some.1 hi
  exact Option.some.inj (hfst.symm.trans hsnd)

section

variable (h : r.Standard) (hplain : r.config.memoizeSupertypes = false)

include h hplain

/-- An argument contains what it was captured to. -/
theorem decides_openedArg (harena : r.Sound arena) {a a' : Ty}
    (hopened : r.OpenedArg arena a a') (ha : r.env.Regular arena.size a)
    (huntangled : r.Untangled arena a) (ha' : r.env.Regular arena.size a')
    (hparts : ∀ y ∈ a.parts, r.Compares y) :
    r.Decides arena (fun n => containsBy (r.isSupertype n) a a')
      (∀ upper lower, a = .wildcard upper lower →
        Ty.AdmitsWildcard upper lower .itself) := by
  cases hopened with
  | same hwild =>
      refine (decides_containsBy_self hwild).congr (iff_of_true trivial ?_)
      rintro upper lower rfl
      cases hwild
  | @opened w i c hc hlower hupper hclear =>
      have hbound : ∀ b ∈ w.upper ++ w.lower, b ∈ w.toTy.parts :=
        fun b hb => Ty.bound_mem_parts hb
      have habove : r.above arena (.capture i) = .ok c.upper := by
        rw [above, hc]
        rfl
      have hcontains : r.Decides arena
          (fun n => containsBy (r.isSupertype n) (.wildcard w.upper w.lower)
            (.capture i))
          ((∀ u ∈ w.upper, u.admits .bounded = true) ∧
            ∀ l ∈ w.lower, l.admits .itself = true) := by
        refine decides_containsBy (fun u hu => ?_) fun l hl => ?_
        · have hmem := List.mem_append_left w.lower hu
          exact (hparts u (hbound u hmem)).bounded arena
            (.capture i) c.upper harena (ha.bound hmem).1
            (huntangled.part (hbound u hmem)) ha' rfl (by rintro ⟨⟩) habove
            (hupper u hu) (hclear u hu)
        · have hself : ∀ b ∈ w.lower,
              r.Decides arena (fun n => r.isSupertype n b b)
                (b.admits .itself = true) := by
            intro b hb
            have hmem := List.mem_append_right w.upper hb
            exact (hparts b (hbound b hmem)).itself arena b harena
              (ha.bound hmem).1 (huntangled.part (hbound b hmem))
              (ha.bound hmem).1 (.inl rfl)
          by_cases heq : Ty.capture i = l
          · have hl' := hself l hl
            rw [← heq] at hl' ⊢
            exact hl'
          · have hlen : w.lower.length ≤ 1 :=
              (ha.documented _ (Ty.mem_parts_self _)).2.1
            have hone : ∀ b ∈ w.lower, b = l := by
              intro b hb
              obtain ⟨only, honly⟩ :=
                List.length_eq_one_iff.1
                  (hlen.antisymm (List.length_pos_of_mem hl))
              rw [honly, List.mem_singleton] at hb hl
              rw [hb, hl]
            have hreg := (ha.bound (List.mem_append_right w.upper hl)).1
            refine (decides_capture h.founded hplain ha' hreg heq hc
              (hlower ▸ hlen) (P := fun b => b.admits .itself = true)
              fun b hb => ?_).congr ?_
            · rw [hlower] at hb
              obtain rfl := hone b hb
              exact hself b hb
            · rw [hlower]
              constructor
              · rintro ⟨b, hb, hadmits⟩
                exact hone b hb ▸ hadmits
              · exact fun hadmits => ⟨l, hl, hadmits⟩
      refine hcontains.congr ⟨?_, fun hall => hall _ _ rfl⟩
      rintro hall upper lower heq
      obtain ⟨rfl, rfl⟩ := Ty.wildcard.inj heq
      exact hall

/-- An argument contains itself, wildcards not being captured. -/
theorem decides_sameArg (harena : r.Sound arena) {a : Ty}
    (ha : r.env.Regular arena.size a) (huntangled : r.Untangled arena a)
    (hparts : ∀ y ∈ a.parts, r.Compares y) :
    r.Decides arena (fun n => containsBy (r.isSupertype n) a a)
      (∀ upper lower, a = .wildcard upper lower →
        Ty.AdmitsWildcard upper lower .bounded) := by
  cases hwild : a.isWildcard with
  | false =>
      refine (decides_containsBy_self hwild).congr (iff_of_true trivial ?_)
      rintro upper lower rfl
      cases hwild
  | true =>
      cases a with
      | nominal _ | parameterized _ _ _ | var _ | genericArray _ | capture _ =>
          cases hwild
      | wildcard upper lower =>
          have hcontains : r.Decides arena
              (fun n => containsBy (r.isSupertype n) (.wildcard upper lower)
                (.wildcard upper lower))
              ((∀ u ∈ upper, u.isVar = false ∧ u.admits .bounded = true) ∧
                ∀ l ∈ lower, False) := by
            refine decides_containsBy (fun u hu => ?_) fun l hl => ?_
            · have hreg := (ha.bound (List.mem_append_left lower hu)).1
              have hmem : u ∈ (Ty.wildcard upper lower).parts :=
                Ty.upper_mem_parts hu
              cases hvar : u.isVar with
              | true =>
                  cases u with
                  | var v =>
                      exact (decides_var_wildcard h.founded hplain hreg
                        ha).congr (by simp)
                  | nominal _ | parameterized _ _ _ | wildcard _ _
                  | genericArray _ | capture _ =>
                      cases hvar
              | false =>
                  have hclear :=
                    (huntangled arena harena (.refl _) _
                        (Ty.mem_parts_self _)).1
                      upper lower rfl u hu
                  refine ((hparts u hmem).bounded arena _ upper harena hreg
                    (huntangled.part hmem) ha rfl (fun _ => hvar) rfl
                    (.inl hu) hclear).congr ?_
                  simp
            · have hreg := (ha.bound (List.mem_append_right upper hl)).1
              exact decides_wildcard h.founded hplain ha hreg
          refine hcontains.congr ⟨?_, fun hall => ?_⟩
          · rintro ⟨hall, hnone⟩ us ls heq
            obtain ⟨rfl, rfl⟩ := Ty.wildcard.inj heq
            exact ⟨hall, List.eq_nil_iff_forall_not_mem.2 hnone⟩
          · obtain ⟨hall, hnil⟩ := hall upper lower rfl
            exact ⟨hall, fun l hl => List.not_mem_nil (hnil ▸ hl)⟩

/-! ## Views -/

/-- A parameterized type is compared with what it was captured to. -/
theorem decides_openedView (harena : r.Sound arena) {id : ClassId}
    {args : List Ty} {owner : Option Ty} {t' : Ty}
    (hopened : r.Opened arena (.parameterized id args owner) t')
    (ht : r.env.Regular arena.size (.parameterized id args owner))
    (huntangled : r.Untangled arena (.parameterized id args owner))
    (ht' : r.env.Regular arena.size t')
    (hargs : ∀ a ∈ args, ∀ y ∈ a.parts, r.Compares y)
    (howner : ∀ o, owner = some o → r.Compares o) :
    r.Decides arena
      (fun n => matchesView (r.isSupertype n) (.parameterized id args owner) t')
        ((Ty.parameterized id args owner).admits .itself = true) := by
  have hpairs : ∀ args' owner', t' = .parameterized id args' owner' →
      (∀ pair ∈ args.zip args', r.OpenedArg arena pair.1 pair.2) →
      ∀ pair ∈ args.zip args',
      r.Decides arena (fun n => containsBy (r.isSupertype n) pair.1 pair.2)
        (∀ upper lower, pair.1 = .wildcard upper lower →
          Ty.AdmitsWildcard upper lower .itself) := by
    rintro args' owner' rfl hopened pair hpair
    obtain ⟨hleft, hright⟩ := List.of_mem_zip hpair
    have hunt := huntangled.part (Ty.arg_mem_parts hleft)
    exact decides_openedArg h hplain harena (hopened pair hpair)
      (ht.arg hleft).1 hunt (ht'.arg hright).1 (hargs _ hleft)
  cases hopened with
  | plain hne => exact absurd rfl (hne id args owner)
  | outermost hlen hzip =>
      have hown : r.Decides arena
          (fun n => ownersMatch (r.isSupertype n) none none) (true = true) :=
        Decides.const true
      have hmatch :=
        decides_argumentsMatch id hlen (hpairs _ none rfl hzip) hown
      refine hmatch.congr ?_
      rw [forall_pairs_iff hlen, Ty.admits_parameterized]
      simp
  | @member _ _ args' o o' hlen hzip hown =>
      have hunt := huntangled.part Ty.owner_mem_parts
      have hown' : r.Decides arena
          (fun n => ownersMatch (r.isSupertype n) (some o) (some o'))
          (o.admits .itself = true) :=
        (howner o rfl).itself arena o' harena ht.owner hunt ht'.owner
          (.inr hown)
      have hmatch :=
        decides_argumentsMatch id hlen (hpairs _ (some o') rfl hzip) hown'
      refine hmatch.congr ?_
      rw [forall_pairs_iff hlen, Ty.admits_parameterized]
      simp

/-- A parameterized type is compared with itself as the search found it. -/
theorem decides_sameView (harena : r.Sound arena) {id : ClassId}
    {args : List Ty} {owner : Option Ty}
    (ht : r.env.Regular arena.size (.parameterized id args owner))
    (huntangled : r.Untangled arena (.parameterized id args owner))
    (hargs : ∀ a ∈ args, ∀ y ∈ a.parts, r.Compares y)
    (howner : ∀ o, owner = some o → r.Compares o) :
    r.Decides arena
      (fun n => matchesView (r.isSupertype n) (.parameterized id args owner)
        (.parameterized id args owner))
      ((Ty.parameterized id args owner).admits .bounded = true) := by
  have hpairs : ∀ pair ∈ args.zip args,
      r.Decides arena (fun n => containsBy (r.isSupertype n) pair.1 pair.2)
        (∀ upper lower, pair.1 = .wildcard upper lower →
          Ty.AdmitsWildcard upper lower .bounded) := by
    rintro pair hpair
    have hleft := (List.of_mem_zip hpair).1
    rw [← eq_of_mem_zip_self hpair]
    exact decides_sameArg h hplain harena (ht.arg hleft).1 (huntangled.part
      (Ty.arg_mem_parts hleft)) (hargs _ hleft)
  have hown : r.Decides arena
      (fun n => ownersMatch (r.isSupertype n) owner owner)
      (∀ o, owner = some o → o.admits .itself = true) := by
    cases owner with
    | none => exact (Decides.const true).congr (by simp)
    | some o =>
        have hunt := huntangled.part Ty.owner_mem_parts
        exact ((howner o rfl).itself arena o harena ht.owner hunt ht.owner
            (.inl rfl)).congr
          (by simp)
  refine (decides_argumentsMatch id rfl hpairs hown).congr ?_
  rw [forall_pairs_iff rfl, Ty.admits_parameterized]

/-! ## The comparisons of each form -/

omit h hplain in
theorem isPrimitive_unknown (hx : x.isUnknown = true) :
    x.isPrimitive = false := by
  cases x with
  | var _ | wildcard _ _ | capture _ => rfl
  | nominal _ | parameterized _ _ _ | genericArray _ => cases hx

omit h hplain in
theorem converted_unknown (hx : x.isUnknown = true) : x.Converted := by
  cases x with
  | var _ | wildcard _ _ | capture _ => trivial
  | nominal _ | parameterized _ _ _ | genericArray _ => cases hx

omit hplain in
/-- Something is found above a type for each of its bounds. -/
theorem find_bound (harena : r.Sound arena) (hreg : r.env.Regular arena.size x)
    (hx : x.isUnknown = true) (habove : r.above arena x = .ok ts)
    (hu : u ∈ ts ∨ u = r.env.top) {c : Class}
    (hc : r.env.erasure? u = .ok (some c)) :
    ∃ n g, r.find arena n x c = .ok (some g) := by
  have hprim := isPrimitive_unknown hx
  have hclimbs := harena.climbs h.founded hreg hprim
  rcases hu with hu | rfl
  · exact find_direct hclimbs (settledBy_unknown hx c) habove hu hc
  · obtain rfl := Option.some.inj (Outcome.ok.inj hc)
    exact harena.find_top h hreg hprim

omit h hplain in
/-- A search that is open from the start, as far as the comparison of erasures
goes, is not settled at the right side either. -/
theorem settledBy_of_settledByErasure {c : Class}
    (hsettled : r.settledByErasure u x c = .ok none)
    (hne : r.env.erasure? x ≠ .ok (some c)) : r.settledBy x c = .ok none := by
  unfold settledByErasure at hsettled
  obtain ⟨o, ho, hrest⟩ := Outcome.bind_eq_ok hsettled
  rw [settledBy_eq ho]
  cases o with
  | none => rfl
  | some a =>
      dsimp only at hrest
      split at hrest
      · next hassign =>
          rw [settle, if_neg (fun heq : a = c => hne (heq ▸ ho)),
            if_pos hassign]
      · cases hrest

/-- A type that erases is compared with the view of it that is found above the
right side. -/
theorem decides_found {P : Prop} {c : Class} (hu : r.env.Regular arena.size u)
    (hx : r.env.Regular arena.size x) (hconverted : x.Converted)
    (huKind : u.isUnknown = false) (herase : r.env.erase u = .ok c)
    (hsettled : r.settledByErasure u x c = .ok none)
    (hfound : ∃ n g, r.find arena n x c = .ok (some g))
    (hview : ∀ now n g, r.Sound now → Grows arena now →
      r.find now n x c = .ok (some g) →
      r.Decides now (fun n => matchesView (r.isSupertype n) u g) P) :
    r.Decides arena (fun n => r.isSupertype n u x) P := by
  refine decides_search h.founded hplain huKind hu hx herase hsettled
    fun now later hnow hgrows hlater _ => ?_
  rw [captured_of_converted _ hconverted] at hlater ⊢
  obtain rfl : later = now :=
    Array.toList_inj.1 (hlater.trans (List.append_nil _))
  obtain ⟨n, g, hfind⟩ := hfound
  have hfind' := find_grows hgrows hfind
  exact ⟨n, g, hfind', hview later n g hnow hgrows hfind'⟩

/-- A bound that erases is compared with the view that is found of it. -/
theorem decides_bound {P : Prop} {c : Class} (harena : r.Sound arena)
    (hu : r.env.Regular arena.size u) (hx : r.env.Regular arena.size x)
    (hxKind : x.isUnknown = true) (huKind : u.isUnknown = false)
    (herase : r.env.erase u = .ok c) (habove : r.above arena x = .ok ts)
    (hmem : u ∈ ts ∨ u = r.env.top) (hclear : r.Clear arena x u)
    (hview : ∀ now g, r.Sound now → Grows arena now →
      ((∃ b, u = .nominal b) ∨ g = u) →
      r.Decides now (fun n => matchesView (r.isSupertype n) u g) P) :
    r.Decides arena (fun n => r.isSupertype n u x) P := by
  have hclimbs := harena.climbs h.founded hx (isPrimitive_unknown hxKind)
  have hc := erasure?_known (r := r) huKind herase
  have hunknown : r.env.erasure? x = .ok none := erasure?_unknown hxKind
  refine decides_found h hplain hu hx (converted_unknown hxKind) huKind herase
    (settledByErasure_unknown c hunknown)
    (find_bound h harena hx hxKind habove hmem hc)
    fun now n g hnow hgrows hfind => hview now g hnow hgrows ?_
  refine (hclear.grows hgrows hclimbs hu).found c n g hc ?_ hfind
  rw [hunknown]
  exact nofun

/-- Variables and captures are above themselves. -/
theorem decides_same (ht : r.env.Regular arena.size t)
    (hsame : t.isVar = true ∨ ∃ i, t = .capture i) :
    r.Decides arena (fun n => r.isSupertype n t t) True := by
  refine ⟨fun hle => isSupertype_mono t t hle,
    fun n => Upkeep.isSupertype_keeps (soundness_allows h.founded) hplain n
      arena.size t t ht ht,
    fun ctx _ _ => iff_of_true ⟨1, ?_⟩ trivial⟩
  have hrun : r.isSupertype 1 t t = pure true := by
    rcases hsame with hvar | ⟨i, rfl⟩
    · cases t with
      | var v => exact isSupertype_var_self 0 v
      | nominal _ | parameterized _ _ _ | wildcard _ _ | genericArray _
      | capture _ => cases hvar
    · exact if_pos rfl
  rw [hrun]
  rfl

omit h hplain in
theorem Opened.eq_of_plain {t' : Ty} (hsame : t' = t ∨ r.Opened arena t t')
    (hne : ∀ id args owner, t ≠ .parameterized id args owner) : t' = t := by
  rcases hsame with heq | hopened
  · exact heq
  · cases hopened with
    | plain _ => rfl
    | outermost _ _ => exact absurd rfl (hne _ _ _)
    | member _ _ _ => exact absurd rfl (hne _ _ _)

theorem compares_nominal (b : Class) : r.Compares (.nominal b) := by
  constructor
  · intro arena t' harena ht _ _ hsame
    obtain rfl := Opened.eq_of_plain hsame fun _ _ _ => nofun
    exact decides_settled h.founded hplain rfl ht ht rfl
      (settledByErasure_nominal rfl (assignable_refl h.noHostTest b))
  · intro arena x ts harena ht _ hx hxKind _ habove hmem hclear
    refine decides_bound h hplain harena ht hx hxKind rfl rfl habove hmem hclear
      fun now g _ _ _ => ?_
    exact Decides.const true

theorem compares_var (v : TypeVarId) : r.Compares (.var v) := by
  constructor
  · intro arena t' _ ht _ _ hsame
    obtain rfl := Opened.eq_of_plain hsame fun _ _ _ => nofun
    exact (decides_same h hplain ht (.inl rfl)).congr (by simp [Ty.admits])
  · intro arena x ts harena ht _ hx hxKind hwild habove hmem _
    have hmem := hmem.resolve_right (by rintro ⟨⟩)
    have hxVar : x.isVar = true ∨ ∃ i, x = .capture i := by
      cases x with
      | var _ => exact .inl rfl
      | capture i => exact .inr ⟨i, rfl⟩
      | wildcard _ _ => exact absurd (hwild rfl) Bool.noConfusion
      | nominal _ | parameterized _ _ _ | genericArray _ => cases hxKind
    have hprim := isPrimitive_unknown hxKind
    exact (decides_var h.founded hplain ht hx hxVar
        (harena.climbs h.founded hx hprim) habove hmem).congr
      (by simp [Ty.admits])

theorem compares_wildcard (upper lower : List Ty) :
    r.Compares (.wildcard upper lower) := by
  constructor
  · intro arena t' _ ht _ ht' _
    exact (decides_wildcard h.founded hplain ht ht').congr (by simp [Ty.admits])
  · intro arena x ts _ ht _ hx _ _ _ _ _
    exact (decides_wildcard h.founded hplain ht hx).congr (by simp [Ty.admits])

theorem compares_capture (i : CaptureId) : r.Compares (.capture i) := by
  constructor
  · intro arena t' _ ht _ _ hsame
    obtain rfl := Opened.eq_of_plain hsame fun _ _ _ => nofun
    exact (decides_same h hplain ht (.inr ⟨i, rfl⟩)).congr (by simp [Ty.admits])
  · intro arena x ts harena ht _ hx hxKind _ habove hmem hclear
    have hmem := hmem.resolve_right (by rintro ⟨⟩)
    have hprim := isPrimitive_unknown hxKind
    have hne : Ty.capture i ≠ x := by
      rintro rfl
      exact (harena.climbs h.founded hx hprim).not_self habove hmem
    have hc :=
      Array.getElem?_eq_getElem (ht.complete.fits : i.index < arena.size)
    have hnil := hclear.noLower i _ rfl hc
    refine (decides_capture h.founded hplain ht hx hne hc
      (P := fun _ => False) ?_ ?_).congr ?_
    · rw [hnil]
      exact Nat.zero_le 1
    · rw [hnil]
      exact fun l hl => absurd hl List.not_mem_nil
    · rw [hnil]
      simp [Ty.admits]

theorem compares_genericArray (ih : r.Compares t) :
    r.Compares (.genericArray t) := by
  have hpart : t ∈ (Ty.genericArray t).parts := Ty.component_mem_parts t
  have hview : ∀ now side, r.Sound now →
      r.env.Regular now.size (.genericArray t) →
      r.Untangled now (.genericArray t) → t.isErasable = true →
      r.Decides now (fun n => matchesView (r.isSupertype n) (.genericArray t)
        (.genericArray t))
        ((Ty.genericArray t).admits side = true) := by
    intro now side hnow ht huntangled hready
    refine (ih.itself now t hnow ht.component
      (huntangled.part hpart) ht.component (.inl rfl)).congr ?_
    cases side <;> simp [Ty.admits, hready]
  have hrefused : ∀ {arena : Array CaptureDef} {x : Ty} {side},
      r.env.Regular arena.size (.genericArray t) → r.env.Regular arena.size x →
      t.isErasable = false →
        r.Decides arena (fun n => r.isSupertype n (.genericArray t) x)
        ((Ty.genericArray t).admits side = true) := by
    intro arena x side ht hx hready
    obtain ⟨k, hk⟩ :=
      erase_refused (d := r.env.toDeclarations) (t := .genericArray t) hready
    refine (decides_unerasable h.founded hplain rfl ht hx hk).congr ?_
    cases side <;> simp [Ty.admits, hready]
  constructor
  · intro arena t' harena ht huntangled _ hsame
    obtain rfl := Opened.eq_of_plain hsame (by rintro _ _ _ ⟨⟩)
    cases hready : t.isErasable with
    | false => exact hrefused ht ht hready
    | true =>
        obtain ⟨c, hc⟩ :=
          h.wellFormed.erase_ok ht.complete (t := .genericArray t) hready
        have herasure := erasure?_known (r := r) (t := .genericArray t) rfl hc
        refine decides_search h.founded hplain rfl ht ht hc
          (settledByErasure_applied (by rintro _ ⟨⟩) herasure
            (assignable_refl h.noHostTest c))
          fun now later hnow hgrows hlater _ => ?_
        obtain rfl : later = now :=
          Array.toList_inj.1 (hlater.trans (List.append_nil _))
        exact ⟨1, _, find_self herasure 0,
          hview later .itself hnow (ht.mono hgrows.size_le)
            (huntangled.grows hgrows) hready⟩
  · intro arena x ts harena ht huntangled hx hxKind _ habove hmem hclear
    cases hready : t.isErasable with
    | false => exact hrefused ht hx hready
    | true =>
        obtain ⟨c, hc⟩ :=
          h.wellFormed.erase_ok ht.complete (t := .genericArray t) hready
        refine decides_bound h hplain harena ht hx hxKind rfl hc
          habove hmem hclear fun now g hnow hgrows hg => ?_
        obtain rfl := hg.resolve_left (by rintro ⟨_, ⟨⟩⟩)
        exact hview now .bounded hnow (ht.mono hgrows.size_le)
          (huntangled.grows hgrows) hready

theorem compares_parameterized {id : ClassId} {args : List Ty}
    {owner : Option Ty} (hargs : ∀ a ∈ args, ∀ y ∈ a.parts, r.Compares y)
    (howner : ∀ o, owner = some o → r.Compares o) :
    r.Compares (.parameterized id args owner) := by
  constructor
  · intro arena t' harena ht huntangled ht' hsame
    have hhead : t'.head? = some id := by
      rcases hsame with rfl | hopened
      · rfl
      · cases hopened with
        | plain hne => exact absurd rfl (hne id args owner)
        | outermost _ _ => rfl
        | member _ _ _ => rfl
    refine decides_search h.founded hplain rfl ht ht' rfl
      (settledByErasure_applied (fun _ => nofun) (erasure?_head hhead)
        (assignable_refl h.noHostTest _))
      fun now later hnow hgrows hlater hsound => ?_
    have htnow := ht.mono hgrows.size_le
    obtain ⟨hhead', -, -⟩ :=
      captured_chain (r := r) now.size ht'.complete.counted
    have hlaterGrows := grows_of_append hlater
    have hopened : r.Opened later (.parameterized id args owner)
        (r.captured now.size t').1 := by
      rcases hsame with rfl | hopened
      · exact captured_opened h.founded hnow htnow hlater (.refl _)
          fun i c hi hc u hu =>
            (huntangled now hnow hgrows _ (Ty.mem_parts_self _)).2 later hlater
              i c hi hc u hu
      · rw [captured_of_converted _ hopened.converted]
        exact hopened.grows h harena (hgrows.trans hlaterGrows) ht
    obtain ⟨-, hregular⟩ :=
      captured_sound h.founded hnow (ht'.mono hgrows.size_le) hlater
    refine ⟨1, _, find_self (erasure?_head (hhead'.trans hhead)) 0, ?_⟩
    exact decides_openedView h hplain hsound hopened
      (htnow.mono hlaterGrows.size_le)
      (huntangled.grows (hgrows.trans hlaterGrows)) hregular hargs howner
  · intro arena x ts harena ht huntangled hx hxKind _ habove hmem hclear
    refine decides_bound h hplain harena ht hx hxKind rfl rfl habove hmem hclear
      fun now g hnow hgrows hg => ?_
    obtain rfl := hg.resolve_left fun ⟨_, hb⟩ => nomatch hb
    exact decides_sameView h hplain hnow (ht.mono hgrows.size_le)
      (huntangled.grows hgrows) hargs howner

/-- Every part of a type passes its comparisons exactly where it admits them. -/
theorem compares (t : Ty) : ∀ y ∈ t.parts, r.Compares y := by
  induction t using Ty.byChildren with
  | node t ih =>
      intro y hy
      rcases Ty.mem_parts_iff.1 hy with rfl | ⟨c, hc, hy⟩
      · cases y with
        | nominal b => exact compares_nominal h hplain b
        | var v => exact compares_var h hplain v
        | capture i => exact compares_capture h hplain i
        | wildcard upper lower => exact compares_wildcard h hplain upper lower
        | genericArray t =>
            exact compares_genericArray h hplain
              (ih t List.mem_cons_self t (Ty.mem_parts_self t))
        | parameterized id args owner =>
            obtain ⟨howner, hargs⟩ := Ty.forall_children_parameterized.1 ih
            exact compares_parameterized h hplain hargs fun o ho =>
              howner o ho o (Ty.mem_parts_self o)
      · exact ih c hc y hy

end

theorem clear_forgetting :
    r.forgetting.Clear arena x u ↔ r.Clear arena x u := by
  have hfind : ∀ n c g, r.forgetting.find arena n x c = .ok (some g) ↔
      r.find arena n x c = .ok (some g) := fun n c g => by
    rw [find_forgetting]
  constructor
  · exact fun h =>
      ⟨fun c n g hc hne hg => h.found c n g hc hne ((hfind n c g).2 hg),
        h.noLower⟩
  · exact fun h =>
      ⟨fun c n g hc hne hg => h.found c n g hc hne ((hfind n c g).1 hg),
        h.noLower⟩

theorem Untangled.forgetting (h : r.Untangled arena t) :
    r.forgetting.Untangled arena t := by
  intro now hnow hgrows y hy
  obtain ⟨hwild, hcaptured⟩ := h now (sound_forgetting.1 hnow) hgrows y hy
  refine ⟨fun upper lower heq u hu =>
    clear_forgetting.2 (hwild upper lower heq u hu), ?_⟩
  intro later hlater i c hi hc u hu
  rw [captured_forgetting] at hlater
  exact clear_forgetting.2 (hcaptured later hlater i c hi hc u hu)

/-- Wherever requests on regular types lead, a regular type whose bounds are
clear of each other is accepted as its own supertype exactly where it admits
itself. -/
theorem isSupertype_self_iff (h : r.Standard) {ctx : Context}
    (hctx : r.RegularlyReachable ctx) (ht : r.env.Regular ctx.captures.size t)
    (huntangled : r.Untangled ctx.captures t) :
    (∃ depth, (r.isSupertype depth t t ctx).1 = .ok true) ↔
      t.admits .itself = true := by
  obtain ⟨hsound, hsame⟩ := hctx.sound h.founded
  have hdecides :=
    (compares h.forgetting rfl t t (Ty.mem_parts_self t)).itself ctx.captures t
      (sound_forgetting.2 hsound) ht huntangled.forgetting ht (.inl rfl)
  rw [← hdecides.iff ctx (sound_forgetting.2 hsound) (.refl _)]
  refine exists_congr fun depth => ?_
  rw [(isSupertype_simulates r depth t t ctx ctx hsame).1]

section

open TypeStore

/-- `Comparable<? extends Comparable<?>>`. -/
def comparableOfComparable : Ty :=
  Seed.applied Seed.comparable [(Wildcard.below (Seed.applied Seed.comparable
    [(Wildcard.unbounded Seed.object).toTy])).toTy]

theorem comparableOfComparable_self :
    ∃ depth,
      (coreResolver.isSupertype depth comparableOfComparable
        comparableOfComparable .empty).1 = .ok true := by
  have huntangled :
      coreResolver.Untangled Context.empty.captures comparableOfComparable :=
    untangled_of_simplyBounded (by decide)
  exact (isSupertype_self_iff coreResolver_standard .start
    (by decide) huntangled).2 (by decide)

/-- `Comparable<? extends Comparable<? super String>>`. -/
def comparableOfConsumer : Ty :=
  Seed.applied Seed.comparable [(Wildcard.below (Seed.applied Seed.comparable
    [(Wildcard.above Seed.object (.named Seed.string)).toTy])).toTy]

/-- The type is in order, and still it is no supertype of itself: the bound
found for its capture has a wildcard with a lower bound. -/
theorem comparableOfConsumer_not_self :
    core.toDeclarations.Proper 0 comparableOfConsumer ∧
      core.toDeclarations.Regular 0 comparableOfConsumer ∧
      ∀ depth,
        (coreResolver.isSupertype depth comparableOfConsumer
          comparableOfConsumer .empty).1 ≠ .ok true := by
  have hend : (coreResolver.isSupertype 8 comparableOfConsumer
        comparableOfConsumer .empty).1 =
      .error .unexpectedWildcard := by rfl
  exact ⟨by decide, by decide,
    fun depth => isSupertype_ne_true hend nofun nofun⟩

end

end Resolver

end GenericTypes
