import GenericTypes.Proofs.Ancestors
import GenericTypes.Proofs.History

/-!
# What cutting branches off costs a search

A search cuts a branch off where the erasure of the type shows that the target
cannot be above it. The plain search is that of a host to which every class is
assignable to every other: it looks at everything above a type, so it finds
something exactly where something there erases to the target (`find_unpruned`).

For the two to agree, what erases to the target must not be hidden behind a type
whose erasure excludes it. `Spans` says that it is not. Types of classes always
span, since the erasures follow the declared hierarchy (`spans_of_head`), and so
do arrays of them (`spans_of_known`). A variable and a capture are never cut
off. What is left are the arrays of variables: such an array erases by the first
bound alone, but the arrays of all the bounds are above it.
-/

namespace GenericTypes

open Relation

theorem Ty.isVar_of_isUnknown {t : Ty} (h : t.isUnknown = false) :
    t.isVar = false := by
  cases t with
  | var _ => cases h
  | nominal _ | parameterized _ _ _ | wildcard _ _ | genericArray _
  | capture _ => rfl

namespace Declarations

/-- Nothing but one another is declared above the types above all arrays. -/
def Capped (d : Declarations) : Prop :=
  ∀ id ∈ d.wellKnown.aboveArrays, ∀ parent ∈ d.superclasses id,
    parent ∈ d.wellKnown.aboveArrays

theorem Capped.closed {d : Declarations} (h : d.Capped) {top id : ClassId}
    (htop : top ∈ d.wellKnown.aboveArrays)
    (hup : ReflTransGen d.Extends top id) : id ∈ d.wellKnown.aboveArrays := by
  induction hup with
  | refl => exact htop
  | tail _ hext ih => exact h _ ih _ hext

end Declarations

namespace Resolver

open Declarations

/-- The resolver of a host to which every class is assignable to every other, so
that no search cuts anything off. -/
def unpruned (r : Resolver) : Resolver :=
  { r with env := { r.env with hostTest := some fun _ _ => true } }

variable {r : Resolver} {arena : Array CaptureDef}
  {ctx : Context} {t s g k : Ty} {target : Class} {id : ClassId} {n : Nat}

/-- The two searches come to the same. -/
def SearchesAlike (r : Resolver) (arena : Array CaptureDef) (t : Ty)
    (target : Class) : Prop :=
  ∃ n found, r.find arena n t target = .ok found ∧
    r.unpruned.find arena n t target = .ok found

/-- What is above `t` and erases to the target is not excluded by the erasure of
`t`. -/
def Spans (r : Resolver) (arena : Array CaptureDef) (t : Ty)
    (target : Class) : Prop :=
  ∀ c, r.env.erasure? t = .ok (some c) →
    ∀ g, ReflTransGen (r.Directly arena) t g →
    r.env.erasure? g = .ok (some target) → r.env.assignable target c = true

/-! ## The plain search -/

theorem unpruned_alike (r : Resolver) : r.Alike r.unpruned := ⟨rfl, rfl⟩

theorem directly_unpruned :
    r.unpruned.Directly arena t s ↔ r.Directly arena t s := by
  unfold Directly
  rw [r.unpruned_alike.above]

theorem settle_unpruned (c : Class) :
    r.unpruned.settle t target (some c) = if c = target then some
      (some t) else none := rfl

/-- The plain search finds something exactly where something above the type, or
the type itself, erases to the target. -/
theorem find_unpruned (h : r.Climbs arena t) (target : Class) :
    ∃ n found, r.unpruned.find arena n t target = .ok found ∧
      (found = none → ∀ g, ReflTransGen (r.Directly arena) t g →
        r.env.erasure? g ≠ .ok (some target)) := by
  obtain ⟨n, found, hfound⟩ := find_ok (r.unpruned_alike.climbs h) target
  refine ⟨n, found, hfound, ?_⟩
  rintro rfl g hg hgc
  induction hg using ReflTransGen.head_induction_on generalizing n with
  | refl =>
      exact absurd (find_unique hfound (find_self (r := r.unpruned) hgc 0))
        nofun
  | @head t s hs _ ih =>
      obtain ⟨ts, hts, hmem⟩ := hs
      cases h with
      | @intro _ ts' habove herase hprim hclimbs =>
          obtain rfl := Outcome.ok.inj (hts.symm.trans habove)
          cases n with
          | zero => cases hfound
          | succ n =>
              obtain ⟨o, ho⟩ :=
                (Climbs.intro habove herase hprim hclimbs).erasure?
              have hsettled : r.unpruned.settledBy t target = .ok none := by
                rw [settledBy_eq (r := r.unpruned) ho]
                cases o with
                | none => rfl
                | some c =>
                    rw [settle_unpruned]
                    by_cases hc : c = target
                    · subst hc
                      exact absurd (find_unique hfound
                        (find_self (r := r.unpruned) ho 0)) nofun
                    · rw [if_neg hc]
              rw [find_succ hsettled
                ((r.unpruned_alike.above arena t).trans hts)] at hfound
              exact ih (hclimbs s hmem) n (firstFound_none hfound s hmem)

/-! ## Where the searches agree -/

theorem firstFound_congr {ask ask' : Ty → Outcome (Option Ty)} :
    ∀ {ts : List Ty}, (∀ s ∈ ts, ask s = ask' s) →
      firstFound ask ts = firstFound ask' ts
  | [], _ => rfl
  | t :: ts, h => by
      rw [firstFound, firstFound, h t List.mem_cons_self,
        firstFound_congr fun s hs => h s (List.mem_cons_of_mem t hs)]

theorem exists_depth_alike {ts : List Ty}
    (h : ∀ s ∈ ts, r.SearchesAlike arena s target) :
    ∃ n, ∀ s ∈ ts, ∃ found, r.find arena n s target = .ok found ∧
      r.unpruned.find arena n s target = .ok found :=
  exists_common_depth (fun hle ⟨found, hpruned, hplain⟩ =>
    ⟨found, find_mono hle hpruned, find_mono hle hplain⟩) h

/-- Where the search goes on to the direct supertypes, it agrees with the plain
one if those do. -/
theorem searchesAlike_step {ts : List Ty}
    (hsettled : r.settledBy t target = .ok none)
    (hplain : r.unpruned.settledBy t target = .ok none)
    (habove : r.above arena t = .ok ts)
    (hts : ∀ s ∈ ts, r.SearchesAlike arena s target) :
    r.SearchesAlike arena t target := by
  obtain ⟨n, hn⟩ := exists_depth_alike hts
  obtain ⟨found, hfound, -⟩ := firstFound_ok fun s hs => (hn s hs).imp
    fun _ h => h.1
  refine ⟨n + 1, found, ?_, ?_⟩
  · rw [find_succ hsettled habove]
    exact hfound
  · rw [find_succ hplain ((r.unpruned_alike.above arena t).trans habove),
      ← hfound]
    refine firstFound_congr fun s hs => ?_
    obtain ⟨found', hpruned', hplain'⟩ := hn s hs
    rw [hpruned', hplain']

/-- The searches agree from a type if it and all above it span. -/
theorem searchesAlike_of_spans (h : r.Climbs arena t)
    (hspans : ∀ s, ReflTransGen (r.Directly arena) t s →
      r.Spans arena s target) :
    r.SearchesAlike arena t target := by
  induction h with
  | @intro t ts habove herase hprim hts ih =>
      have hclimbs := Climbs.intro habove herase hprim hts
      obtain ⟨o, ho⟩ := hclimbs.erasure?
      have hpruned := settledBy_eq ho target
      have hplain : r.unpruned.settledBy t target =
          .ok (r.unpruned.settle t target o) :=
        settledBy_eq (r := r.unpruned) ho target
      have hgoOn := fun hsettled hplain =>
        searchesAlike_step hsettled hplain habove fun s hs =>
          ih s hs fun g hg => hspans g (.head ⟨ts, habove, hs⟩ hg)
      cases o with
      | none => exact hgoOn hpruned hplain
      | some c =>
          by_cases hc : c = target
          · subst hc
            exact ⟨1, some t, find_self ho 0, find_self (r := r.unpruned) ho 0⟩
          rw [settle_unpruned, if_neg hc] at hplain
          rw [settle, if_neg hc] at hpruned
          cases hassign : r.env.assignable target c with
          | true =>
              rw [hassign] at hpruned
              exact hgoOn hpruned hplain
          | false =>
              -- the branch is cut off, and there is nothing in it
              have hcut : r.find arena 1 t target = .ok none := by
                rw [hassign] at hpruned
                rw [find, hpruned]
                rfl
              obtain ⟨n, found, hfound, -⟩ := find_unpruned hclimbs target
              cases found with
              | none =>
                  refine ⟨max 1 n, none,
                    find_mono (Nat.le_max_left 1 n) hcut, ?_⟩
                  exact find_mono (Nat.le_max_right 1 n) hfound
              | some g =>
                  obtain ⟨hup, hg⟩ := find_ancestor hfound
                  have hup' :=
                    ReflTransGen.mono (fun _ _ => directly_unpruned.1) _ _ hup
                  rw [hspans t .refl c ho g hup' hg] at hassign
                  cases hassign

theorem SearchesAlike.spans (h : r.SearchesAlike arena t target)
    (hclimbs : r.Climbs arena t) (hhost : r.env.hostTest = none) :
    r.Spans arena t target := by
  intro c hc g hg hgc
  cases hassign : r.env.assignable target c with
  | true => rfl
  | false =>
      have hne : c ≠ target := by
        rintro rfl
        rw [assignable_refl hhost] at hassign
        cases hassign
      have hcut : r.find arena 1 t target = .ok none := by
        rw [find, settledBy_eq hc, settle, if_neg hne, hassign]
        rfl
      obtain ⟨n, found, hpruned, hplain⟩ := h
      obtain rfl := find_unique hpruned hcut
      obtain ⟨m, found', hfound', hnone⟩ := find_unpruned hclimbs target
      obtain rfl := find_unique hplain hfound'
      exact absurd hgc (hnone rfl g hg)

/-! ## Classes, and arrays of them -/

/-- Above an array are the arrays of what is above its component, and what is
above the types above all arrays. -/
theorem above_array (hk : t.component? = some k)
    (hg : ReflTransGen (r.Directly arena) t g) :
    (∃ y, ReflTransGen (r.Directly arena) k y ∧ g.component? = some y) ∨
      ∃ top ∈ r.env.wellKnown.aboveArrays, ReflTransGen (r.Directly arena)
        (.named top) g := by
  induction hg with
  | refl => exact .inl ⟨k, .refl, hk⟩
  | tail _ hs ih =>
      rcases ih with ⟨y, hy, hcomponent⟩ | ⟨top, htop, hup⟩
      · rcases of_directly_array hcomponent hs with
            ⟨y', hy', rfl⟩ | ⟨top, htop, rfl⟩
        · exact .inl ⟨y', hy.tail hy', Ty.component?_arrayOf y'⟩
        · exact .inr ⟨top, htop, .refl⟩
      · exact .inr ⟨top, htop, hup.tail hs⟩

section

variable (h : r.env.Founded) (hhost : r.env.hostTest = none)

include h hhost

theorem assignable_above (ht : r.env.Supplies id t)
    (hg : ReflTransGen (r.Directly arena) t g) :
    ∃ id', r.env.erase g = .ok (.named id') ∧
      r.env.assignable (.named id') (.named id) = true := by
  obtain ⟨id', hid', hup⟩ :=
    ancestor_of_class h.wellFormed h.topped.topmost ht hg
  exact ⟨id', erase_supplies hid', (assignable_named hhost id' id).2 hup⟩

theorem spans_of_head (ht : r.env.Regular n t) (hid : t.head? = some id) :
    r.Spans arena t target := by
  intro c hc g hg hgc
  obtain ⟨id', hid', hassign⟩ :=
    assignable_above h hhost (ht.complete.supplies hid) hg
  obtain rfl :=
    Option.some.inj (Outcome.ok.inj ((erasure?_head hid).symm.trans hc))
  obtain rfl := Outcome.ok.inj (hid'.symm.trans (erase_of_erasure? hgc))
  exact hassign

theorem assignable_above_known (hcapped : r.env.Capped)
    (ht : t.element.isUnknown = false) :
    r.env.Regular n t → ∀ {g}, ReflTransGen (r.Directly arena) t g →
      ∃ a c, r.env.erase t = .ok a ∧ r.env.erase g = .ok c ∧
        r.env.assignable c a = true := by
  induction t, ht using Ty.known_induct with
  | primitive p _ =>
      intro _ g hg
      obtain rfl | ⟨s, hs, -⟩ := ReflTransGen.cases_head hg
      · exact ⟨_, _, rfl, rfl, assignable_refl hhost _⟩
      · exact absurd (isPrimitive_of_directly hs) Bool.noConfusion
  | ofClass t id _ hid =>
      intro ht g hg
      obtain ⟨id', hid', hassign⟩ :=
        assignable_above h hhost (ht.complete.supplies hid) hg
      exact ⟨_, _, erase_head hid, hid', hassign⟩
  | array t k _ hknown hk ih =>
      intro ht g hg
      rcases above_array hk hg with ⟨y, hy, hcomponent⟩ | ⟨top, htop, hup⟩
      · obtain ⟨a, c, ha, hc, hassign⟩ := ih (ht.component? hk) hy
        refine ⟨.array a, .array c, ?_, ?_, ?_⟩
        · rw [erase_component hk, ha]
          rfl
        · rw [erase_component hcomponent, hc]
          rfl
        · by_cases hsame : c = a
          · rw [hsame]
            exact assignable_refl hhost _
          · exact assignable_array hassign hsame hhost
      · obtain ⟨a, ha⟩ := h.wellFormed.erase_ok (ht.component? hk).complete
          (Ty.isErasable_of_element hknown)
        obtain ⟨id, hid, hclass⟩ :=
          ancestor_of_class h.wellFormed h.topped.topmost
            (.plain (h.wellFormed.known top htop)) hup
        have habove : id ∈ r.env.wellKnown.aboveArrays := by
          rcases hclass with rfl | hclass
          · exact List.mem_cons_self
          · exact hcapped.closed htop hclass
        refine ⟨.array a, .named id, ?_, erase_supplies hid, ?_⟩
        · rw [erase_component hk, ha]
          rfl
        · rw [Environment.assignable, hhost]
          exact List.contains_iff_mem.2 habove

omit hhost in
/-- Above classes and arrays of them are nothing but these. -/
theorem known_above (ht : t.element.isUnknown = false)
    (hreg : r.env.Regular n t) (hg : ReflTransGen (r.Directly arena) t g) :
    g.element.isUnknown = false := by
  have hboth : g.element.isUnknown = false ∧ r.env.Complete n g := by
    induction hg with
    | refl => exact ⟨ht, hreg.complete⟩
    | tail _ hs ih => exact ⟨known_directly_of_known h.wellFormed ih.1 ih.2 hs,
        complete_directly h.wellFormed ih.1 ih.2 hs⟩
  exact hboth.1

/-- Of arrays, those of variables alone may fail to span. -/
theorem spans_of_known (hcapped : r.env.Capped) (ht : r.env.Regular n t)
    (hknown : t.element.isVar = false) : r.Spans arena t target := by
  intro c hc g hg hgc
  have helement : t.element.isUnknown = false := by
    have hready : t.isErasable = true := by
      cases hready : t.isErasable with
      | true => rfl
      | false => rw [erasure?_refused hready] at hc; cases hc
    rw [Ty.isErasable] at hready
    cases he : t.element with
    | nominal _ | parameterized _ _ _ | genericArray _ => rfl
    | var _ => rw [he] at hknown; cases hknown
    | wildcard _ _ | capture _ => rw [he] at hready; cases hready
  obtain ⟨a, c', ha, hc', hassign⟩ :=
    assignable_above_known h hhost hcapped helement ht hg
  obtain rfl := Outcome.ok.inj (ha.symm.trans (erase_of_erasure? hc))
  obtain rfl := Outcome.ok.inj (hc'.symm.trans (erase_of_erasure? hgc))
  exact hassign

end

/-! ## Searches of a resolver -/

theorem Alike.memoSound {r' : Resolver} (halike : r.Alike r')
    {memo : List (Ty × List Ty)} (h : r.MemoSound memo) :
    r'.MemoSound memo := by
  intro t supertypes hlook
  obtain ⟨hcap, hfresh⟩ := h t supertypes hlook
  exact ⟨hcap, fun id hid => (halike.freshSupertypes id t).trans
    (hfresh id hid)⟩

/-- What a resolver with a sound memo answers is what the search over its arena
finds. -/
theorem exactSupertype_eq_find (hsame : r.SameButMemo ctx ctx)
    (n : Nat) (t : Ty) (target : Class) :
    (r.exactSupertype n t target ctx).1 = r.find ctx.captures n t target := by
  rw [(exactSupertype_simulates r target n t ctx ctx hsame).1,
    ← find_forgetting]
  exact (exactSupertype_reads rfl target n t ctx).1

theorem searchesAlike_primitive (hhost : r.env.hostTest = none) (p : Primitive)
    (target : Class) : r.SearchesAlike arena (.primitive p) target := by
  by_cases htarget : Class.primitive p = target
  · subst htarget
    exact ⟨1, _, find_self rfl 0, find_self (r := r.unpruned) rfl 0⟩
  · have hassign : r.env.assignable target (.primitive p) = false := by
      rw [Environment.assignable, hhost]
      show r.env.isAssignable target (.primitive p) = false
      rw [isAssignable]
      exact decide_eq_false (Ne.symm htarget)
    have hcut : r.find arena 1 (.primitive p) target = .ok none := by
      rw [find, settledBy_eq (o := some (.primitive p)) rfl, settle,
        if_neg htarget, hassign]
      rfl
    have hplain : r.unpruned.settledBy (.primitive p) target = .ok none := by
      rw [settledBy_eq (o := some (.primitive p)) rfl, settle_unpruned,
        if_neg htarget]
    have hnone : r.unpruned.above arena (.primitive p) = .ok [] := rfl
    refine ⟨2, none, find_mono (Nat.le_succ 1) hcut, ?_⟩
    rw [find_succ hplain hnone]
    rfl

/-- Wherever requests on regular types lead, cutting branches off makes no
difference to a search for the target, from a type or from any above it, exactly
if every array among these types spans. Arrays of anything but variables do. -/
theorem exactSupertype_unpruned_iff (h : r.env.Founded)
    (hhost : r.env.hostTest = none) (hctx : r.RegularlyReachable ctx)
    (ht : r.env.Regular ctx.captures.size t) (target : Class) :
    ((∀ s, ReflTransGen (r.Directly ctx.captures) t s → ∃ depth found,
        (r.exactSupertype depth s target ctx).1 = .ok found ∧
          (r.unpruned.exactSupertype depth s target ctx).1 = .ok found) ↔
      ∀ s, ReflTransGen (r.Directly ctx.captures) t s → s.component?.isSome →
        r.Spans ctx.captures s target) ∧
    (r.env.Capped → ∀ s, ReflTransGen (r.Directly ctx.captures) t s →
      s.element.isVar = false →
      r.Spans ctx.captures s target) := by
  obtain ⟨harena, hsame⟩ := hctx.sound h
  have hsame' : r.unpruned.SameButMemo ctx ctx :=
    ⟨rfl, rfl, r.unpruned_alike.memoSound hsame.memo⟩
  have hregular : ∀ s, ReflTransGen (r.Directly ctx.captures) t s →
      r.env.Regular ctx.captures.size s := by
    intro s hs
    induction hs with
    | refl => exact ht
    | tail _ hs ih => exact harena.directly h ih hs
  refine ⟨?_, fun hcapped s hs hvar => spans_of_known h hhost hcapped
    (hregular s hs) hvar⟩
  simp only [exactSupertype_eq_find hsame, exactSupertype_eq_find hsame']
  constructor
  · intro hagree s hs harray
    have hprim : s.isPrimitive = false := by
      cases s with
      | nominal c => cases c <;> first | rfl | cases harray
      | genericArray _ => rfl
      | parameterized _ _ _ | var _ | wildcard _ _ | capture _ => cases harray
    exact SearchesAlike.spans (hagree s hs)
      (harena.climbs h (hregular s hs) hprim) hhost
  · intro harrays s hs
    cases hprim : s.isPrimitive with
    | true =>
        match s with
        | .nominal (.primitive p) =>
            exact searchesAlike_primitive hhost p target
    | false =>
        refine searchesAlike_of_spans (harena.climbs h (hregular s hs) hprim)
          fun g hg => ?_
        have hg := hs.trans hg
        have hunknown : r.env.erasure? g = .ok none →
            r.Spans ctx.captures g target :=
          fun hnone c hc => nomatch hnone.symm.trans hc
        cases g with
        | nominal c =>
            cases c with
            | named id => exact spans_of_head h hhost (hregular _ hg) rfl
            | primitive p =>
                intro c hc g' hg' hgc
                obtain rfl | ⟨s', hs', -⟩ := ReflTransGen.cases_head hg'
                · obtain rfl :=
                    Option.some.inj (Outcome.ok.inj (hc.symm.trans hgc))
                  exact assignable_refl hhost _
                · exact absurd (isPrimitive_of_directly hs') Bool.noConfusion
            | array c => exact harrays _ hg rfl
        | parameterized id args owner =>
            exact spans_of_head h hhost (hregular _ hg) rfl
        | genericArray k => exact harrays _ hg rfl
        | var _ | wildcard _ _ | capture _ => exact hunknown rfl

section

open TypeStore

/-- From `E[]`, where `E extends Enum<E>`, the view as an array of `Comparable`
is found either way: every enumeration is comparable. -/
theorem enumArray_alike :
    ∃ depth found,
      (coreResolver.exactSupertype depth (.genericArray (Seed.tv 1))
        (.array (.named Seed.comparable)) .empty).1 = .ok found ∧
      (coreResolver.unpruned.exactSupertype depth (.genericArray (Seed.tv 1))
        (.array (.named Seed.comparable)) .empty).1 = .ok found := by
  have habove : ∀ b ∈ [.genericArray (Seed.applied Seed.enum [Seed.tv 1]),
        .named Seed.object, .named Seed.cloneable, .named Seed.serializable],
      b.element.isUnknown = false ∧ core.toDeclarations.Regular 0 b := by decide
  have hcapped : core.toDeclarations.Capped := by
    unfold Capped
    decide
  have hiff :=
    exactSupertype_unpruned_iff coreResolver_standard.founded rfl .start
      (t := .genericArray (Seed.tv 1)) (by decide)
      (.array (.named Seed.comparable))
  refine hiff.1.2 (fun s hs _ => ?_) _ .refl
  obtain rfl | ⟨b, ⟨ts, hts, hmem⟩, hs'⟩ := ReflTransGen.cases_head hs
  · -- `E[]` erases by its bound, which is below `Comparable`
    intro c hc _ _ _
    obtain rfl : Class.array (.named Seed.enum) = c :=
      Option.some.inj (Outcome.ok.inj hc)
    decide
  · obtain rfl := Outcome.ok.inj hts
    obtain ⟨hb, hreg⟩ := habove b hmem
    have hknown := known_above coreResolver_standard.founded hb hreg hs'
    exact hiff.2 hcapped s hs (Ty.isVar_of_isUnknown hknown)

/-- `Comparable<T>[]` is above `T[]`, where `T extends Number & Comparable<T>`,
and is not found: `T[]` erases to `Number[]`. -/
theorem comparableArray_hidden :
    knotted.toDeclarations.WellFormed ∧
      knotted.toDeclarations.DeclaresConverted ∧
      knotted.toDeclarations.Regular 0 (.genericArray (Seed.tv 2)) ∧
      (∃ depth, (knottedResolver.exactSupertype depth
        (.genericArray (Seed.tv 2)) (.array (.named Seed.comparable))
        .empty).1 = .ok none) ∧
      ∃ depth, (knottedResolver.unpruned.exactSupertype depth
        (.genericArray (Seed.tv 2)) (.array (.named Seed.comparable))
        .empty).1 =
          .ok (some
            (.genericArray (Seed.applied Seed.comparable [Seed.tv 2]))) :=
  ⟨knotted_wellFormed, knotted_declaresConverted, by decide, ⟨1, rfl⟩, 8, rfl⟩

end

end Resolver

end GenericTypes
