import GenericTypes.Proofs.Ancestors
import GenericTypes.Proofs.Reflexivity

/-!
# Whether direct supertypes are supertypes

Two algorithms speak of what is above a type. One lists its direct supertypes,
the other compares. They agree on rigid types, those made of a class whose
arguments are no wildcards: such a supertype is rigid again, so it is its own
supertype, and the search comes upon it and not upon another of its class
(`decides_rigid_directly`).

On bounds of variables and captures they need not agree. A bound is compared
with what the search finds for its class, as it was written, and has to admit
that comparison; and a variable erases to its first bound, so that arrays of its
other bounds may be cut off before the search begins. `shows` says which direct
supertypes pass (`decides_shows`).
-/

namespace GenericTypes

open Relation

namespace Ty

/-- Made of a class, whose arguments along its chain of owners are no
wildcards. -/
def Rigid (t : Ty) : Prop := t.element.isUnknown = false ∧ t.element.Converted

variable {d : Declarations} {n : Nat} {t k : Ty} {φ : TypeVarId → Ty}

theorem Rigid.arrayOf (h : t.Rigid) : t.arrayOf.Rigid := by
  cases t with
  | nominal _ => exact ⟨rfl, trivial⟩
  | parameterized _ _ _ | var _ | wildcard _ _ | genericArray _ | capture _ =>
      exact h

theorem Rigid.component? (h : t.Rigid)
    (hk : t.component? = some k) : k.Rigid := by
  rcases component?_eq_some_iff.1 hk with ⟨c, rfl, rfl⟩ | rfl
  · exact ⟨rfl, trivial⟩
  · exact h

theorem rigid_of_head? {id : ClassId} (hid : t.head? = some id)
    (h : t.Converted) : t.Rigid := by
  cases t with
  | nominal _ | parameterized _ _ _ => exact ⟨rfl, h⟩
  | var _ | wildcard _ _ | genericArray _ | capture _ => cases hid

theorem Rigid.isUnknown (h : t.Rigid) : t.isUnknown = false := by
  cases t with
  | nominal _ | parameterized _ _ _ | genericArray _ => rfl
  | var _ | wildcard _ _ | capture _ => exact h.1

theorem Rigid.converted (h : t.Rigid) : t.Converted := by
  cases t with
  | nominal _ | var _ | wildcard _ _ | genericArray _ | capture _ => trivial
  | parameterized _ _ _ => exact h.2

theorem Converted.subst (hφ : ∀ v, (φ v).isWildcard = false) :
    ∀ {t : Ty}, d.Complete n t →
    t.head?.isSome → t.Converted → (t.subst φ).Converted
  | .parameterized id args (some owner), hcomplete, _, ⟨hargs, howner⟩ => by
      have hcomplete' := hcomplete.part owner_mem_parts
      simp only [Ty.subst, substOwner, substList_eq_map]
      refine ⟨fun a ha => ?_,
        Converted.subst hφ hcomplete' (hcomplete.fits.2.2 owner rfl) howner⟩
      obtain ⟨a₀, ha₀, rfl⟩ := List.mem_map.1 ha
      exact isWildcard_subst (hargs a₀ ha₀) fun v _ => hφ v
  | .parameterized id args none, _, _, hargs => by
      simp only [Ty.subst, substOwner, substList_eq_map]
      intro a ha
      obtain ⟨a₀, ha₀, rfl⟩ := List.mem_map.1 ha
      exact isWildcard_subst (hargs a₀ ha₀) fun v _ => hφ v
  | .nominal _, _, _, _ => trivial

end Ty

/-- Whether the comparison accepts `s` above `t`, a variable, a capture or an
array, of which it is a direct supertype. The erasure of an array has to allow
it. An array of the same class is compared component by component, every other
bound with itself as it was written. -/
def Environment.shows (env : Environment) : Ty → Ty → Bool
  | .genericArray k, .genericArray b =>
      match env.erase (.genericArray k), env.erase (.genericArray b) with
      | .ok a, .ok c =>
          env.assignable c a &&
            if c = a then env.shows k b else b.admits .itself
      | _, _ => (Ty.genericArray b).admits .bounded
  | t, .nominal b =>
      match env.erasure? t with
      | .ok (some a) => env.assignable b a
      | _ => true
  | _, s => s.admits .bounded

namespace Resolver

open Resolve Declarations

variable {r : Resolver} {arena later : Array CaptureDef}
  {t s k b : Ty} {n : Nat}

/-! ## Rigid types -/

/-- No wildcard comes up where a declared supertype is seen through a type
without any. -/
theorem converted_seen (h : r.env.WellFormed)
    (hdeclared : r.env.DeclaresConverted) {id : ClassId} {c : ClassDecl}
    {via s₀ : Ty} (hvia : via.Converted) (hc : r.env.class? id = some c)
    (hs₀ : s₀ ∈ c.supertypes) :
    (seen r.env.toDeclarations via s₀).Converted := by
  obtain ⟨hhead, hproper⟩ := h.supertypes hc s₀ hs₀
  obtain ⟨parent, hparent⟩ := Option.isSome_iff_exists.1 hhead
  unfold seen
  split
  · rw [erase_head hparent]
    trivial
  · exact .subst (isWildcard_chainSubst hvia) hproper.complete hhead
      (hdeclared _ c hc s₀ hs₀)

/-- Direct supertypes of rigid types are rigid. -/
theorem rigid_directly (h : r.env.WellFormed)
    (hdeclared : r.env.DeclaresConverted) (ht : t.element.isUnknown = false) :
    t.Rigid → r.env.Complete n t → ∀ {s}, r.Directly arena t s → s.Rigid := by
  induction t, ht using Ty.known_induct with
  | primitive p _ =>
      intro _ _ s hs
      exact absurd (isPrimitive_of_directly hs) Bool.noConfusion
  | ofClass t id _ hid =>
      intro hrigid ht s hs
      rw [Ty.Rigid, Ty.element_of_head? hid] at hrigid
      rcases of_directly_class h (ht.supplies hid) hs with
          rfl | ⟨c, s₀, hc, hs₀, rfl⟩
      · exact ⟨rfl, trivial⟩
      obtain ⟨hhead, hproper⟩ := h.supertypes hc s₀ hs₀
      obtain ⟨parent, hparent⟩ := Option.isSome_iff_exists.1 hhead
      exact Ty.rigid_of_head? (supplies_seen hproper.complete hparent).head?
        (converted_seen h hdeclared hrigid.2 hc hs₀)
  | array t k _ _ hk ih =>
      intro hrigid ht s hs
      rcases of_directly_array hk hs with ⟨y, hy, rfl⟩ | ⟨top, -, rfl⟩
      · exact (ih (hrigid.component? hk) (ht.component? hk) hy).arrayOf
      · exact ⟨rfl, trivial⟩

section

variable (h : r.Standard)

include h

omit h in
theorem matchesView_nominal (isSup : Ty → Ty → Resolve Bool)
    (s : Ty) (b : Class) : matchesView isSup s (.nominal b) = pure true := by
  cases s <;> rfl

variable (hplain : r.config.memoizeSupertypes = false)

include hplain

/-- Where a rigid type passes the comparison with itself as a view, it is its
own supertype. -/
theorem decides_itself (hrigid : t.Rigid) (ht : r.env.Regular arena.size t)
    (hview : ∀ now, Grows arena now →
      r.Decides now (fun n => matchesView (r.isSupertype n) t t) True) :
    r.Decides arena (fun n => r.isSupertype n t t) True := by
  obtain ⟨c, hc⟩ :=
    h.wellFormed.erase_ok ht.complete (Ty.isErasable_of_element hrigid.1)
  have herasure := erasure?_known (r := r) hrigid.isUnknown hc
  have hassign := assignable_refl h.noHostTest c
  by_cases hnominal : ∃ b, t = .nominal b
  · obtain ⟨b, rfl⟩ := hnominal
    obtain rfl := Outcome.ok.inj hc
    exact (decides_settled h.founded hplain rfl ht ht rfl
      (settledByErasure_nominal rfl hassign)).congr (iff_of_true rfl trivial)
  · have hsettled :=
      settledByErasure_applied (fun b hb => hnominal ⟨b, hb⟩) herasure hassign
    refine decides_found h hplain ht ht hrigid.converted
      hrigid.isUnknown hc hsettled ⟨1, t, find_self herasure 0⟩
      fun now n g _ hgrows hfind => ?_
    obtain rfl := Option.some.inj (find_unique (find_self herasure 0) hfind)
    exact hview now hgrows

/-- A rigid type passes the comparison with itself as a view: its arguments are
the same, none of them being a wildcard. -/
theorem decides_rigidView (hrigid : t.Rigid) (ht : r.env.Regular arena.size t) :
    r.Decides arena (fun n => matchesView (r.isSupertype n) t t) True := by
  induction t using Ty.induct generalizing arena with
  | nominal b => exact (Decides.const true).congr (iff_of_true rfl trivial)
  | genericArray t ih =>
      refine decides_itself h hplain (t := t) hrigid ht.component
        fun now hgrows => ?_
      exact ih hrigid (ht.component.mono hgrows.size_le)
  | parameterized id args owner _ ihowner =>
      have hargs : ∀ a ∈ args, a.isWildcard = false := by
        cases owner with
        | none => exact hrigid.2
        | some o => exact hrigid.2.1
      have howner : r.Decides arena
          (fun n => ownersMatch (r.isSupertype n) owner owner) True := by
        cases owner with
        | none => exact (Decides.const true).congr (iff_of_true rfl trivial)
        | some o =>
            obtain ⟨oid, hoid⟩ :=
              Option.isSome_iff_exists.1 (ht.complete.fits.2.2 o rfl)
            have ho := Ty.rigid_of_head? hoid hrigid.2.2
            exact decides_itself h hplain ho ht.owner fun now hgrows =>
              ihowner o rfl ho (ht.owner.mono hgrows.size_le)
      refine (decides_argumentsMatch id (P := fun _ => True) rfl
        (fun pair hpair => ?_) howner).congr (by simp)
      rw [← eq_of_mem_zip_self hpair]
      exact decides_containsBy_self (hargs _ (List.of_mem_zip hpair).1)
  | var _ | wildcard _ _ _ _ | capture _ =>
      exact absurd hrigid.1 Bool.noConfusion

/-- A rigid type is below each of its direct supertypes. -/
theorem decides_rigid_directly (honce : r.env.InheritsOnce)
    (hdeclared : r.env.DeclaresConverted) (harena : r.Sound arena)
    (hrigid : t.Rigid) (ht : r.env.Regular arena.size t)
    (hs : r.Directly arena t s) :
    r.Decides arena (fun n => r.isSupertype n s t) True := by
  have hsrigid :=
    rigid_directly h.wellFormed hdeclared hrigid.1 hrigid ht.complete hs
  have hsregular := harena.directly h.founded ht hs
  obtain ⟨a, c, ha, hc, hassign, hne⟩ :=
    erasures_directly h.founded h.noHostTest hrigid.1 ht hs
  have hta := erasure?_known (r := r) hrigid.isUnknown ha
  have hsc := erasure?_known (r := r) hsrigid.isUnknown hc
  by_cases hnominal : ∃ b, s = .nominal b
  · obtain ⟨b, rfl⟩ := hnominal
    obtain rfl := Outcome.ok.inj hc
    exact (decides_settled h.founded hplain rfl hsregular ht rfl
      (settledByErasure_nominal hta hassign)).congr (iff_of_true rfl trivial)
  have hsettled :=
    settledByErasure_applied (fun b hb => hnominal ⟨b, hb⟩) hta hassign
  have hne' : r.env.erasure? t ≠ .ok (some c) := by
    rw [hta]
    exact fun heq => hne (Option.some.inj (Outcome.ok.inj heq)).symm
  have hfound : ∃ n g, r.find arena n t c = .ok (some g) := by
    have hprim := isPrimitive_of_directly hs
    obtain ⟨ts, hts, hmem⟩ := hs
    exact find_direct (harena.climbs h.founded ht hprim)
      (settledBy_of_settledByErasure hsettled hne') hts hmem hsc
  refine decides_found h hplain hsregular ht hrigid.converted hsrigid.isUnknown
    hc hsettled hfound fun now n g _ hgrows hfind => ?_
  obtain ⟨hup, hgc⟩ := find_ancestor hfind
  -- the search has not ended where it began, as the classes differ
  rcases (reflTransGen_iff_eq_or_transGen.1 hup) with rfl | hup
  · exact absurd hgc hne'
  rcases only_ancestor h.founded honce hrigid.1 ht (hs.grows hgrows) hup hc
      (erase_of_erasure? hgc) with
    hs | ⟨b, rfl⟩ | rfl
  · exact absurd hs hnominal
  · simp only [matchesView_nominal]
    exact (Decides.const true).congr (iff_of_true rfl trivial)
  · exact decides_rigidView h hplain hsrigid (hsregular.mono hgrows.size_le)

end

/-! ## Bounds, and arrays of them -/

/-- The direct supertype `s` of `t` is clear, and so are the components where
both are arrays. -/
def Orderly (r : Resolver) (arena : Array CaptureDef) : Ty → Ty → Prop
  | .genericArray k, .genericArray b =>
      r.Clear arena (.genericArray k) (.genericArray b) ∧ r.Orderly arena k b
  | t, s => r.Clear arena t s

theorem Orderly.clear (hs : r.Orderly arena t s) : r.Clear arena t s := by
  cases t with
  | genericArray k =>
      cases s with
      | genericArray b => exact hs.1
      | nominal _ | parameterized _ _ _ | var _ | wildcard _ _ | capture _ =>
          exact hs
  | nominal _ | parameterized _ _ _ | var _ | wildcard _ _ | capture _ =>
      exact hs

theorem shows_unknown {env : Environment} (ht : t.isUnknown = true) :
    env.shows t s = s.admits .bounded := by
  cases t with
  | var _ | wildcard _ _ | capture _ => cases s <;> rfl
  | nominal _ | parameterized _ _ _ | genericArray _ => cases ht

theorem shows_erased {env : Environment} {a c : Class}
    (ha : env.erase (.genericArray k) = .ok a)
    (hc : env.erase (.genericArray b) = .ok c) :
    env.shows (.genericArray k) (.genericArray b) =
      (env.assignable c a &&
        if c = a then env.shows k b else b.admits .itself) := by
  rw [Environment.shows, ha, hc]

theorem shows_refused {env : Environment}
    (hrefused : (Ty.genericArray k).isErasable = false ∨
      (Ty.genericArray b).isErasable = false) :
    env.shows (.genericArray k) (.genericArray b) =
      (b.isErasable && b.admits .itself) := by
  rw [Environment.shows, Ty.admits]
  rcases hrefused with hk | hb
  · obtain ⟨e, he⟩ := erase_refused (d := env.toDeclarations) hk
    rw [he]
  · obtain ⟨e, he⟩ := erase_refused (d := env.toDeclarations) hb
    rw [he]
    cases env.erase (.genericArray k) <;> rfl

theorem of_directly_genericArray (hs : r.Directly arena (.genericArray k) s) :
    (∃ c, s = .nominal c) ∨ ∃ b, s = .genericArray b ∧
      r.Directly arena k b := by
  rcases of_directly_array rfl hs with ⟨y, hy, rfl⟩ | ⟨top, -, rfl⟩
  · cases y with
    | nominal c => exact .inl ⟨_, rfl⟩
    | parameterized _ _ _ | var _ | wildcard _ _ | genericArray _ | capture _ =>
        exact .inr ⟨_, rfl, hy⟩
  · exact .inl ⟨_, rfl⟩

section

variable (h : r.Standard)

include h

theorem Orderly.grows (harena : r.Sound arena) (hgrows : Grows arena later)
    (ht : r.env.Regular arena.size t) (hs : r.Directly arena t s)
    (horderly : r.Orderly arena t s) : r.Orderly later t s := by
  induction t using Ty.induct generalizing s with
  | nominal _ | parameterized _ _ _ _ _ | var _ | wildcard _ _ _ _
  | capture _ =>
      exact horderly.clear.grows hgrows
        (harena.climbs h.founded ht (isPrimitive_of_directly hs))
        (harena.directly h.founded ht hs)
  | genericArray k ih =>
      have hclear := horderly.clear.grows hgrows
        (harena.climbs h.founded ht rfl) (harena.directly h.founded ht hs)
      rcases of_directly_genericArray hs with ⟨c, rfl⟩ | ⟨b, rfl, hb⟩
      · exact hclear
      · exact ⟨hclear, ih ht.component hb horderly.2⟩

/-- Only a variable or a capture, or an array, may be of the class of its direct
supertype. -/
theorem unknown_of_same_class {c : Class}
    (ht : r.env.Regular n (.genericArray k)) (hb : r.Directly arena k b)
    (ha : r.env.erase (.genericArray k) = .ok c)
    (hc : r.env.erase (.genericArray b) = .ok c) :
    k.isUnknown = true ∨ ∃ k', k = .genericArray k' := by
  have hclass : k.element.isUnknown = true := by
    by_contra hknown
    obtain ⟨a', c', ha', hc', -, hne⟩ :=
      erasures_directly h.founded h.noHostTest
        (Bool.eq_false_iff.2 hknown) ht.component hb
    obtain ⟨a, hka, rfl⟩ := erase_array rfl ha
    obtain ⟨c, hbc, heq⟩ := erase_array rfl hc
    obtain rfl := Class.array.inj heq
    obtain rfl := Outcome.ok.inj (ha'.symm.trans hka)
    exact hne (Outcome.ok.inj (hc'.symm.trans hbc))
  cases k with
  | genericArray k' => exact .inr ⟨k', rfl⟩
  | nominal _ | parameterized _ _ _ | var _ | wildcard _ _ | capture _ =>
      exact .inl hclass

variable (hplain : r.config.memoizeSupertypes = false)

include hplain

/-- A class above an array: the erasure of the array decides, if it has one. -/
theorem decides_class_array {c : Class} (harena : r.Sound arena)
    (ht : r.env.Regular arena.size (.genericArray k))
    (hs : r.Directly arena (.genericArray k) (.nominal c)) :
    r.Decides arena (fun n => r.isSupertype n (.nominal c) (.genericArray k))
      (r.env.shows (.genericArray k) (.nominal c) = true) := by
  have hsregular := harena.directly h.founded ht hs
  cases hready : (Ty.genericArray k).isErasable with
  | true =>
      obtain ⟨a, ha⟩ := h.wellFormed.erase_ok ht.complete hready
      have hta := erasure?_known (r := r) (t := .genericArray k) rfl ha
      have hshows : r.env.shows (.genericArray k) (.nominal c) =
          r.env.assignable c a := by
        unfold Environment.shows
        rw [hta]
      rw [hshows]
      cases hassign : r.env.assignable c a with
      | true =>
          exact decides_settled h.founded hplain rfl hsregular ht rfl
            (settledByErasure_nominal hta hassign)
      | false =>
          exact decides_settled h.founded hplain rfl hsregular ht rfl
            (settledByErasure_refused hta hassign)
  | false =>
      have hta := erasure?_refused (r := r) hready
      have hsettled :
          r.settledByErasure (.nominal c) (.genericArray k) c = .ok none :=
        settledByErasure_unknown c hta
      have hne : r.env.erasure? (.genericArray k) ≠ .ok (some c) := by
        rw [hta]
        exact nofun
      have hshows : r.env.shows (.genericArray k) (.nominal c) = true := by
        unfold Environment.shows
        rw [hta]
      rw [hshows]
      obtain ⟨ts, hts, hmem⟩ := hs
      have hfound := find_direct (harena.climbs h.founded ht rfl)
        (settledBy_of_settledByErasure hsettled hne) hts hmem rfl
      exact decides_found h hplain hsregular ht trivial rfl rfl hsettled hfound
        fun now n g _ _ _ => Decides.const true

/-- An array that the search has to find is compared with itself. -/
theorem decides_array_found {c : Class} (harena : r.Sound arena)
    (ht : r.env.Regular arena.size (.genericArray k))
    (hs : r.Directly arena (.genericArray k) (.genericArray b))
    (hclear : r.Clear arena (.genericArray k) (.genericArray b))
    (huntangled : r.Untangled arena (.genericArray b))
    (hc : r.env.erase (.genericArray b) = .ok c)
    (hsettled : r.settledByErasure (.genericArray b) (.genericArray k) c =
      .ok none) (hne : r.env.erasure? (.genericArray k) ≠ .ok (some c)) :
    r.Decides arena (fun n => r.isSupertype n (.genericArray b)
        (.genericArray k))
      (b.admits .itself = true) := by
  have hsregular := harena.directly h.founded ht hs
  have hclimbs := harena.climbs h.founded ht rfl
  have hsc := erasure?_known (r := r) (t := .genericArray b) rfl hc
  obtain ⟨ts, hts, hmem⟩ := hs
  have hfound := find_direct hclimbs
    (settledBy_of_settledByErasure hsettled hne) hts hmem hsc
  refine decides_found h hplain hsregular ht trivial rfl hc hsettled hfound
    fun now n g hnow hgrows hfind => ?_
  have hfound :=
    (hclear.grows hgrows hclimbs hsregular).found c n g hsc hne hfind
  obtain rfl := hfound.resolve_left fun ⟨_, heq⟩ => nomatch heq
  have hb := hsregular.component.mono hgrows.size_le
  have hpart : b ∈ (Ty.genericArray b).parts := Ty.component_mem_parts b
  exact (compares h hplain b b (Ty.mem_parts_self b)).itself now b hnow hb
    ((huntangled.part hpart).grows hgrows) hb (.inl rfl)

/-- Of the direct supertypes of a variable, a capture or an array, the
comparison accepts those that `shows` says. -/
theorem decides_shows (helement : t.element.isWildcard = false)
    (hkind : t.isUnknown = true ∨ ∃ k, t = .genericArray k)
    (harena : r.Sound arena) (ht : r.env.Regular arena.size t)
    (hs : r.Directly arena t s) (horderly : r.Orderly arena t s)
    (huntangled : r.Untangled arena s) :
    r.Decides arena (fun n => r.isSupertype n s t)
      (r.env.shows t s = true) := by
  induction t using Ty.induct generalizing arena s with
  | nominal _ | parameterized _ _ _ _ _ =>
      rcases hkind with hkind | ⟨k, hk⟩
      · cases hkind
      · cases hk
  | wildcard _ _ _ _ => cases helement
  | var _ | capture _ =>
      obtain ⟨ts, hts, hmem⟩ := hs
      rw [shows_unknown rfl]
      exact (compares h hplain s s (Ty.mem_parts_self s)).bounded
        arena _ ts harena (harena.above h.founded ht hts s hmem) huntangled ht
        rfl nofun hts (.inl hmem) horderly.clear
  | genericArray k ih =>
      rcases of_directly_genericArray hs with ⟨c, rfl⟩ | ⟨b, rfl, hb⟩
      · exact decides_class_array h hplain harena ht hs
      have hsregular := harena.directly h.founded ht hs
      cases hbready : (Ty.genericArray b).isErasable with
      | false =>
          obtain ⟨e, he⟩ := erase_refused (d := r.env.toDeclarations) hbready
          rw [shows_refused (.inr hbready),
            show b.isErasable = false from hbready]
          exact (decides_unerasable h.founded hplain rfl hsregular ht he).congr
            (by simp)
      | true =>
          obtain ⟨c, hc⟩ := h.wellFormed.erase_ok hsregular.complete hbready
          have hfound := decides_array_found h hplain harena ht hs
            horderly.clear huntangled hc
          cases hready : (Ty.genericArray k).isErasable with
          | false =>
              have hta := erasure?_refused (r := r) hready
              rw [shows_refused (.inl hready),
                show b.isErasable = true from hbready, Bool.true_and]
              exact hfound (settledByErasure_unknown c hta)
                (by rw [hta]; exact nofun)
          | true =>
              obtain ⟨a, ha⟩ := h.wellFormed.erase_ok ht.complete hready
              have hta := erasure?_known (r := r) (t := .genericArray k) rfl ha
              rw [shows_erased ha hc]
              cases hassign : r.env.assignable c a with
              | false =>
                  refine (decides_settled h.founded hplain rfl hsregular ht hc
                    (settledByErasure_refused hta hassign)).congr ?_
                  simp
              | true =>
                  have hsettled :=
                    @settledByErasure_applied r (.genericArray b) _ _ _
                      (fun _ => nofun) hta hassign
                  by_cases heq : c = a
                  · subst heq
                    rw [if_pos rfl, Bool.true_and]
                    refine decides_found h hplain hsregular ht trivial
                      rfl hc hsettled ⟨1, _, find_self hta 0⟩
                      fun now n g hnow hgrows hfind => ?_
                    obtain rfl :=
                      Option.some.inj (find_unique (find_self hta 0) hfind)
                    have hk := unknown_of_same_class h ht hb ha hc
                    have horderly' := horderly.grows h harena hgrows ht hs
                    exact ih helement hk hnow (ht.component.mono hgrows.size_le)
                      (hb.grows hgrows) horderly'.2
                      ((huntangled.part (Ty.mem_parts_genericArray.2
                        (.inr (Ty.mem_parts_self b)))).grows hgrows)
                  · rw [if_neg heq, Bool.true_and]
                    refine hfound hsettled ?_
                    rw [hta]
                    exact fun h => heq (Option.some.inj (Outcome.ok.inj h)).symm

end

theorem orderly_forgetting (hs : r.Orderly arena t s) :
    r.forgetting.Orderly arena t s := by
  induction t using Ty.induct generalizing s with
  | genericArray k ih =>
      cases s with
      | genericArray b => exact ⟨clear_forgetting.2 hs.1, ih hs.2⟩
      | nominal _ | parameterized _ _ _ | var _ | wildcard _ _ | capture _ =>
          exact clear_forgetting.2 hs
  | nominal _ | parameterized _ _ _ _ _ | var _ | wildcard _ _ _ _
  | capture _ =>
      exact clear_forgetting.2 hs

theorem above_ok (h : r.Standard) (harena : r.Sound arena)
    (ht : r.env.Regular arena.size t) : ∃ ts, r.above arena t = .ok ts := by
  cases hprim : t.isPrimitive with
  | false =>
      cases harena.climbs h.founded ht hprim with
      | intro habove _ _ _ => exact ⟨_, habove⟩
  | true =>
      match t with
      | .nominal (.primitive _) => exact ⟨[], rfl⟩

/-- Wherever requests on regular types lead, a type that is its own capture has
direct supertypes. A rigid one is accepted below each of them. For any other the
comparison accepts those that `shows` says, where they are clear of each
other. -/
theorem isSupertype_directSupertypes_iff (h : r.Standard)
    (honce : r.env.InheritsOnce) (hdeclared : r.env.DeclaresConverted)
    {ctx : Context} (hctx : r.RegularlyReachable ctx)
    (ht : r.env.Regular ctx.captures.size t)
    (hproper : r.env.Proper ctx.captures.size t) (hconverted : t.Converted) :
    ∃ ts ctx', r.directSupertypes t ctx = (.ok ts, ctx') ∧ ∀ s ∈ ts,
      (t.Rigid ∨ r.Orderly ctx.captures t s ∧ r.Untangled ctx.captures s) →
      ((∃ depth, (r.isSupertype depth s t ctx').1 = .ok true) ↔
        t.Rigid ∨ r.env.shows t s = true) := by
  obtain ⟨hsound, hsame⟩ := hctx.sound h.founded
  obtain ⟨ts, hts⟩ := above_ok h hsound ht
  obtain ⟨houtcome, hafter⟩ := directSupertypes_simulates r t ctx ctx hsame
  obtain ⟨hreads, hcaptures⟩ :=
    directSupertypes_reads (r := r.forgetting) rfl t ctx
  have hplain := (r.forgetting_alike.above ctx.captures t).trans hts
  refine ⟨ts, (r.directSupertypes t ctx).2,
    Prod.ext (houtcome.trans (hreads.trans hplain)) rfl,
    fun s hs hbounds => ?_⟩
  have hdirectly : r.forgetting.Directly ctx.captures t s := ⟨ts, hplain, hs⟩
  have hsound' := sound_forgetting.2 hsound
  have hdecides : r.forgetting.Decides ctx.captures
      (fun n => r.forgetting.isSupertype n s t)
      (t.Rigid ∨ r.env.shows t s = true) := by
    by_cases hrigid : t.Rigid
    · exact (decides_rigid_directly h.forgetting rfl honce hdeclared
        hsound' hrigid ht hdirectly).congr (iff_of_true trivial (.inl hrigid))
    · obtain ⟨horderly, huntangled⟩ := hbounds.resolve_left hrigid
      have hkind : t.isUnknown = true ∨ ∃ k, t = .genericArray k := by
        cases t with
        | nominal _ | parameterized _ _ _ =>
            exact absurd ⟨rfl, hconverted⟩ hrigid
        | genericArray k => exact .inr ⟨k, rfl⟩
        | var _ | wildcard _ _ | capture _ => exact .inl rfl
      exact (decides_shows h.forgetting rfl hproper.element.notWildcard hkind
        hsound' ht hdirectly
        (orderly_forgetting horderly) huntangled.forgetting).congr
        (or_iff_right hrigid).symm
  rw [← hdecides.iff (r.forgetting.directSupertypes t ctx).2
    (hcaptures.symm ▸ hsound') (hcaptures.symm ▸ .refl _)]
  exact exists_congr fun depth => by
    rw [(isSupertype_simulates r depth s t _ _ hafter).1]

section

open TypeStore

/-- The bound `Enum<E>` of the variable `E`. -/
def enumOfItself : Ty := Seed.applied Seed.enum [Seed.tv 1]

theorem enumOfItself_accepted :
    coreResolver.directSupertypes (Seed.tv 1) .empty =
        (.ok [enumOfItself], .empty) ∧
      ∃ depth,
        (coreResolver.isSupertype depth enumOfItself (Seed.tv 1) .empty).1 =
          .ok true := by
  have hrun : coreResolver.directSupertypes (Seed.tv 1) .empty =
      (.ok [enumOfItself], .empty) := rfl
  obtain ⟨ts, ctx', hdirect, haccepted⟩ :=
    isSupertype_directSupertypes_iff coreResolver_standard
      core_inheritsOnce core_declaresConverted .start (t := Seed.tv 1)
      (by decide) (by decide) trivial
  obtain ⟨hts, rfl⟩ := Prod.mk.inj (hdirect.symm.trans hrun)
  obtain rfl := Outcome.ok.inj hts
  have horderly : coreResolver.Orderly Context.empty.captures
      (Seed.tv 1) enumOfItself :=
    clear_of_only rfl rfl fun _ => nofun
  have huntangled :
      coreResolver.Untangled Context.empty.captures enumOfItself :=
    untangled_of_simplyBounded (by decide)
  exact ⟨hrun, (haccepted enumOfItself List.mem_cons_self
      (.inr ⟨horderly, huntangled⟩)).2
    (.inr (by decide))⟩

/-- `Comparable<? super Integer>`. -/
def comparableToInteger : Ty :=
  Seed.applied Seed.comparable
    [(Wildcard.above Seed.object (.named Seed.integer)).toTy]

/-- What is left when `Comparable<? extends Comparable<? super Integer>>` has
been captured. -/
def afterCapture : Context :=
  (coreResolver.answer 0 (.capture (Seed.applied Seed.comparable
    [(Wildcard.below comparableToInteger).toTy])) .empty).2

/-- The only bound of the capture is its only direct supertype, and is not
accepted above it: the bound has a wildcard with a lower bound. -/
theorem comparableToInteger_refused :
    coreResolver.RegularlyReachable afterCapture ∧
      core.toDeclarations.Regular afterCapture.captures.size (.capture ⟨0⟩) ∧
      core.toDeclarations.Proper afterCapture.captures.size (.capture ⟨0⟩) ∧
      coreResolver.directSupertypes (.capture ⟨0⟩) afterCapture =
        (.ok [comparableToInteger], afterCapture) ∧
      ∀ depth, (coreResolver.isSupertype depth comparableToInteger
        (.capture ⟨0⟩) afterCapture).1 ≠ .ok true := by
  have hrun : coreResolver.directSupertypes (.capture ⟨0⟩) afterCapture =
      (.ok [comparableToInteger], afterCapture) := by
    have hdef : afterCapture.captures[0]?.map (·.upper) =
        some [comparableToInteger] := by
      decide +kernel
    obtain ⟨c, hc, hupper⟩ := Option.map_eq_some_iff.1 hdef
    show (captureDef ⟨0⟩ >>= fun c => pure c.upper : Resolve (List Ty))
      afterCapture = _
    rw [bind_ok (by rw [captureDef_eq hc]), captureDef_eq hc, hupper]
    rfl
  have hend : (coreResolver.isSupertype 4 comparableToInteger
        (.capture ⟨0⟩) afterCapture).1 =
      .error .unexpectedWildcard := by decide +kernel
  exact ⟨.step .start 0 (by decide), by decide, by decide, hrun,
    fun depth => isSupertype_ne_true hend nofun nofun⟩

end

end Resolver

end GenericTypes
