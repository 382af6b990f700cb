import GenericTypes.Proofs.Climb
import GenericTypes.Proofs.Conversion

/-!
# The arena of captures

An arena is sound if the bounds of its captures are regular and the upper ones
climb. The arena only grows, and nothing in it changes once it is settled, so
whatever a search found in an arena it finds in every later one (`find_grows`).

Capturing a regular type keeps an arena sound. That the new bounds climb is the
one thing to see: they may mention the new captures. A capture is bounded by
the variable it was opened for, so the rank of variables bounding variables puts
the siblings in order, and each climbs because those before it do
(`captureLevel_sound`).
-/

namespace GenericTypes

open Relation Substitution

namespace Resolver

open Declarations

/-- Every capture of the one arena is in the other, as it is. -/
def Grows (arena later : Array CaptureDef) : Prop :=
  ∀ (i : Nat) c, arena[i]? = some c → later[i]? = some c

theorem Grows.refl (arena : Array CaptureDef) : Grows arena arena :=
  fun _ _ h => h

theorem Grows.trans {a b c : Array CaptureDef} (hab : Grows a b)
    (hbc : Grows b c) : Grows a c :=
  fun i d h => hbc i d (hab i d h)

theorem Grows.size_le {arena later : Array CaptureDef} (h : Grows arena later) :
    arena.size ≤ later.size := by
  by_cases hsize : arena.size = 0
  · omega
  · have hlast := h (arena.size - 1) _ (Array.getElem?_eq_getElem (by omega))
    have := (Array.getElem?_eq_some_iff.1 hlast).1
    omega

theorem grows_of_append {arena later : Array CaptureDef}
    {added : List CaptureDef} (h : later.toList = arena.toList ++ added) :
    Grows arena later := by
  intro i c hc
  rw [← Array.getElem?_toList] at hc ⊢
  rw [h, List.getElem?_append_left (List.getElem?_eq_some_iff.1 hc).1]
  exact hc

variable {r : Resolver} {arena later : Array CaptureDef} {t : Ty} {id : ClassId}

/-! ## Searches in a larger arena -/

theorem above_grows (hgrows : Grows arena later) : ∀ {t : Ty} {ts : List Ty},
    r.above arena t = .ok ts → r.above later t = .ok ts
  | .nominal _, _, h | .parameterized _ _ _, _, h | .var _, _, h
  | .wildcard _ _, _, h => h
  | .genericArray t, ts, h => by
      obtain ⟨ts', hts', heq⟩ := Outcome.bind_eq_ok h
      rw [above, above_grows hgrows hts']
      exact heq
  | .capture i, ts, h => by
      rw [above] at h ⊢
      cases hc : arena[i.index]? with
      | some c =>
          rw [hc] at h
          rw [hgrows i.index c hc]
          exact h
      | none => rw [hc] at h; cases h

theorem find_grows (hgrows : Grows arena later) {target : Class} :
    ∀ {n : Nat} {t : Ty}
    {found : Option Ty}, r.find arena n t target = .ok found →
      r.find later n t target = .ok found
  | n + 1, t, found, h => by
      obtain ⟨settled, hsettled, hrest⟩ := Outcome.bind_eq_ok h
      rw [find, hsettled, Outcome.ok_bind]
      cases settled with
      | some _ => exact hrest
      | none =>
          obtain ⟨ts, hts, hrest⟩ := Outcome.bind_eq_ok hrest
          dsimp only
          rw [above_grows hgrows hts, Outcome.ok_bind]
          exact firstFound_mono (fun s _ found hs => find_grows hgrows hs) hrest

theorem Climbs.grows (hgrows : Grows arena later) (h : r.Climbs arena t) :
    r.Climbs later t := by
  induction h with
  | intro habove herase hprim _ ih =>
      exact .intro (above_grows hgrows habove) herase hprim ih

/-! ## Sound arenas -/

/-- The bounds of every capture are regular, and there are upper ones, which
climb. -/
structure Sound (r : Resolver) (arena : Array CaptureDef) : Prop where
  upper : ∀ (i : Nat) c, arena[i]? = some c → c.upper ≠ [] ∧
    ∀ u ∈ c.upper, r.env.Regular arena.size u ∧ r.Climbs arena u
  lower : ∀ (i : Nat) c, arena[i]? = some c →
    ∀ l ∈ c.lower, r.env.Regular arena.size l

theorem sound_empty (r : Resolver) : r.Sound #[] := by
  constructor
  · intro i c hc
    simp at hc
  · intro i c hc
    simp at hc

theorem Sound.climbs (harena : r.Sound arena) (h : r.env.Founded)
    (ht : r.env.Regular arena.size t) (hprim : t.isPrimitive = false) :
    r.Climbs arena t :=
  climbs_regular h (fun i c hc u hu => ((harena.upper i c hc).2 u hu).2)
    ht hprim

/-- A regular type either has an erasure or is passed over. -/
theorem Sound.erasure? (harena : r.Sound arena) (h : r.env.Founded)
    (ht : r.env.Regular arena.size t) : ∃ o, r.env.erasure? t = .ok o := by
  cases hprim : t.isPrimitive with
  | false => exact (harena.climbs h ht hprim).erasure?
  | true =>
      match t with
      | .nominal (.primitive p) => exact ⟨some (.primitive p), rfl⟩

theorem Sound.above (harena : r.Sound arena) (h : r.env.Founded) {ts : List Ty}
    (ht : r.env.Regular arena.size t) (hts : r.above arena t = .ok ts) :
    ∀ s ∈ ts, r.env.Regular arena.size s :=
  regular_above h.wellFormed h.grounded
    (fun i c hc u hu => ((harena.upper i c hc).2 u hu).1) ht hts

theorem arraySupertypes_ne_nil (r : Resolver) (ts : List Ty) :
    r.arraySupertypes ts ≠ [] := by
  simp [arraySupertypes, typesAboveArrays, WellKnown.aboveArrays]

/-- Only the top type is below nothing. -/
theorem Sound.head_of_above_nil (harena : r.Sound arena) (h : r.Standard)
    (ht : r.env.Regular arena.size t) (hprim : t.isPrimitive = false)
    (habove : r.above arena t = .ok []) :
    t.head? = some r.env.wellKnown.object := by
  have hclass : ∀ {id}, r.env.Supplies id t →
      t.head? = some r.env.wellKnown.object := by
    intro id hsupplies
    obtain ⟨c, hc, habove'⟩ := exists_above_eq arena h.wellFormed hsupplies
    rw [habove'] at habove
    by_cases htop : id = r.env.wellKnown.object
    · exact htop ▸ hsupplies.head?
    · exact absurd (Outcome.ok.inj habove)
        (h.covered.seenSupertypes_ne_nil hc htop t)
  cases t with
  | nominal c =>
      cases c with
      | named id => exact hclass (.plain ht.complete.fits)
      | primitive _ => cases hprim
      | array c =>
          obtain ⟨ts, -, hts⟩ := Outcome.bind_eq_ok habove
          exact absurd (Outcome.ok.inj hts) (arraySupertypes_ne_nil r ts)
  | parameterized id args owner => exact hclass (ht.complete.supplies rfl)
  | var v =>
      obtain ⟨p, -, hp⟩ := Outcome.bind_eq_ok habove
      have hnil := Outcome.ok.inj hp
      split at hnil
      · cases hnil
      · next hne => exact absurd (List.isEmpty_iff.2 hnil) hne
  | wildcard upper lower =>
      exact absurd (Outcome.ok.inj habove)
        (ht.documented _ (Ty.mem_parts_self _)).1
  | genericArray t =>
      obtain ⟨ts, -, hts⟩ := Outcome.bind_eq_ok habove
      exact absurd (Outcome.ok.inj hts) (arraySupertypes_ne_nil r ts)
  | capture i =>
      have hc :=
        Array.getElem?_eq_getElem (ht.complete.fits : i.index < arena.size)
      rw [Resolver.above, hc] at habove
      exact absurd (Outcome.ok.inj habove) (harena.upper i.index _ hc).1

/-- Every path of direct supertypes ends at the top type, so a search for that
type succeeds. -/
theorem Sound.find_top (harena : r.Sound arena) (h : r.Standard)
    (ht : r.env.Regular arena.size t) (hprim : t.isPrimitive = false) :
    ∃ n g, r.find arena n t (.named r.env.wellKnown.object) = .ok (some g) := by
  have hclimbs := harena.climbs h.founded ht hprim
  induction hclimbs with
  | @intro t ts habove herase hprim hts ih =>
      obtain ⟨o, ho⟩ := (Climbs.intro habove herase hprim hts).erasure?
      by_cases hfound : o = some (.named r.env.wellKnown.object)
      · exact ⟨1, t, find_self (hfound ▸ ho) 0⟩
      have hsettled := settledBy_top h.noHostTest hprim ho hfound
      cases ts with
      | nil =>
          have hhead :=
            erasure?_head (r := r) (harena.head_of_above_nil h ht hprim habove)
          exact absurd (Outcome.ok.inj (ho.symm.trans hhead)) hfound
      | cons s ts =>
          have hs := harena.above h.founded ht habove s List.mem_cons_self
          obtain ⟨n, g, hg⟩ :=
            ih s List.mem_cons_self hs (hts s List.mem_cons_self).isPrimitive
          refine ⟨n + 1, g, ?_⟩
          rw [find_succ hsettled habove, firstFound, hg]
          rfl

theorem mem_of_firstFound {ask : Ty → Outcome (Option Ty)} {g : Ty} :
    ∀ {ts : List Ty}, firstFound ask ts = .ok (some g) →
      ∃ s ∈ ts, ask s = .ok (some g)
  | t :: ts, h => by
      obtain ⟨first, hfirst, hrest⟩ := Outcome.bind_eq_ok h
      cases first with
      | some g' =>
          obtain rfl := Option.some.inj (Outcome.ok.inj hrest)
          exact ⟨t, List.mem_cons_self, hfirst⟩
      | none =>
          obtain ⟨s, hs, hask⟩ := mem_of_firstFound hrest
          exact ⟨s, List.mem_cons_of_mem t hs, hask⟩

/-- `s` is a direct supertype of `t`. -/
def Directly (r : Resolver) (arena : Array CaptureDef) (t s : Ty) : Prop :=
  ∃ ts, r.above arena t = .ok ts ∧ s ∈ ts

theorem isPrimitive_of_directly {s : Ty} (hs : r.Directly arena t s) :
    t.isPrimitive = false := by
  obtain ⟨ts, hts, hs⟩ := hs
  cases t with
  | nominal c =>
      cases c with
      | primitive p =>
          obtain rfl := Outcome.ok.inj hts
          cases hs
      | named _ | array _ => rfl
  | parameterized _ _ _ | var _ | wildcard _ _ | genericArray _ | capture _ =>
      rfl

theorem mem_of_directly {id : ClassId} {s : Ty} (h : r.env.WellFormed)
    (ht : r.env.Supplies id t) (hs : r.Directly arena t s) :
    ∃ c, r.env.class? id = some c ∧ s ∈ r.seenSupertypes c t := by
  obtain ⟨ts, hts, hs⟩ := hs
  obtain ⟨c, hc, habove⟩ := exists_above_eq arena h ht
  obtain rfl := Outcome.ok.inj (habove.symm.trans hts)
  exact ⟨c, hc, hs⟩

theorem Directly.grows {s : Ty} (hgrows : Grows arena later)
    (hs : r.Directly arena t s) : r.Directly later t s := by
  obtain ⟨ts, hts, hs⟩ := hs
  exact ⟨ts, above_grows hgrows hts, hs⟩

/-- A search stays above the type it starts from, and finds what erases to its
target. -/
theorem find_ancestor {c : Class} {g : Ty} :
    ∀ {n : Nat} {t : Ty}, r.find arena n t c = .ok (some g) →
    ReflTransGen (r.Directly arena) t g ∧ r.env.erasure? g = .ok (some c)
  | n + 1, t, hg => by
      obtain ⟨settled, hsettled, hrest⟩ := Outcome.bind_eq_ok hg
      cases settled with
      | some found =>
          obtain rfl := Outcome.ok.inj hrest
          obtain ⟨o, ho, hsettle⟩ := Outcome.bind_eq_ok hsettled
          cases o with
          | none => cases hsettle
          | some a =>
              dsimp only at hsettle
              split at hsettle
              · next heq =>
                  obtain rfl :=
                    Option.some.inj (Option.some.inj (Outcome.ok.inj hsettle))
                  exact ⟨.refl, heq ▸ ho⟩
              · split at hsettle <;> cases hsettle
      | none =>
          obtain ⟨ts, hts, hrest⟩ := Outcome.bind_eq_ok hrest
          obtain ⟨s, hs, hfind⟩ := mem_of_firstFound hrest
          obtain ⟨hup, hc⟩ := find_ancestor hfind
          exact ⟨.head ⟨ts, hts, hs⟩ hup, hc⟩

theorem Sound.directly (harena : r.Sound arena) (h : r.env.Founded) {s : Ty}
    (ht : r.env.Regular arena.size t) (hs : r.Directly arena t s) :
    r.env.Regular arena.size s := by
  obtain ⟨ts, hts, hs⟩ := hs
  exact harena.above h ht hts s hs

/-- What a search finds from a regular type is regular. -/
theorem Sound.find (harena : r.Sound arena) (h : r.env.Founded)
    {target : Class} {g : Ty} (ht : r.env.Regular arena.size t)
    (hg : r.find arena n t target = .ok (some g)) :
    r.env.Regular arena.size g := by
  have hup := (find_ancestor hg).1
  clear hg
  induction hup with
  | refl => exact ht
  | tail _ hs ih => exact harena.directly h ih hs

/-! ## Capturing -/

theorem mem_mergeBounds {declared wildcard : List Ty} {u : Ty}
    (hu : u ∈ r.mergeBounds declared wildcard) :
    u ∈ declared ∨ u ∈ wildcard ∨ u = r.env.top := by
  unfold mergeBounds at hu
  split at hu
  · split at hu
    · exact .inr (.inr (List.mem_singleton.1 hu))
    · exact .inl hu
  · split at hu
    · exact .inr (.inl hu)
    · rcases List.mem_append.1 hu with hu | hu
      · exact .inl hu
      · exact .inr (.inl hu)

theorem mergeBounds_ne_nil (declared wildcard : List Ty) :
    r.mergeBounds declared wildcard ≠ [] := by
  unfold mergeBounds
  split
  · split
    · exact List.cons_ne_nil _ _
    · next hne => exact fun hnil => hne (List.isEmpty_iff.2 hnil)
  · next htop =>
      have hne : wildcard ≠ [] := fun hnil => htop (by simp [isTop, hnil])
      split
      · exact hne
      · exact List.append_ne_nil_of_right_ne_nil _ hne

/-- An argument that is no wildcard stays as it is, and a wildcard becomes the
capture that is added for it. -/
theorem getElem?_numberWildcards {v : TypeVarId} {a : Ty} :
    ∀ {n i : Nat} {vs : List TypeVarId}
    {args : List Ty}, vs[i]? = some v → args[i]? = some a →
    a.isWildcard = false ∧ (numberWildcards n args)[i]? = some a ∨
      ∃ j w, a = w.toTy ∧
        (numberWildcards n args)[i]? = some (.capture ⟨n + j⟩) ∧
        (wildcardsFor vs args)[j]? = some (v, w)
  | n, 0, u :: vs, arg :: args, hv, ha => by
      obtain rfl := Option.some.inj hv
      obtain rfl := Option.some.inj ha
      cases arg with
      | wildcard upper lower => exact .inr ⟨0, ⟨upper, lower⟩, rfl, rfl, rfl⟩
      | nominal _ | parameterized _ _ _ | var _ | genericArray _ | capture _ =>
          exact .inl ⟨rfl, rfl⟩
  | n, i + 1, u :: vs, arg :: args, hv, ha => by
      rw [List.getElem?_cons_succ] at hv ha
      cases arg with
      | wildcard upper lower =>
          rcases getElem?_numberWildcards (n := n + 1) hv ha with
              hsame | ⟨j, w, hw, hnum, hj⟩
          · exact .inl hsame
          · refine .inr ⟨j + 1, w, hw, ?_, hj⟩
            rw [Nat.add_comm j 1, ← Nat.add_assoc]
            exact hnum
      | nominal _ | parameterized _ _ _ | var _ | genericArray _ | capture _ =>
          exact @getElem?_numberWildcards v a n i vs args hv ha

/-- What is numbered is an argument, or one of the captures that are added. -/
theorem origin_of_mem_numberWildcards {n : Nat} {vs : List TypeVarId}
    {args : List Ty} {a : Ty} (hlen : vs.length = args.length)
    (ha : a ∈ numberWildcards n args) :
    a ∈ args ∨ ∃ j < (wildcardsFor vs args).length, a = .capture ⟨n + j⟩ := by
  obtain ⟨i, hi⟩ := List.getElem?_of_mem ha
  have hlt : i < args.length := by
    rw [← length_numberWildcards n args]
    exact (List.getElem?_eq_some_iff.1 hi).1
  rcases getElem?_numberWildcards
    (n := n) (List.getElem?_eq_getElem (hlen ▸ hlt))
    (List.getElem?_eq_getElem hlt) with ⟨-, heq⟩ | ⟨j, w, -, heq, hj⟩
  · exact .inl (Option.some.inj (hi.symm.trans heq) ▸ List.getElem_mem hlt)
  · exact .inr ⟨j, (List.getElem?_eq_some_iff.1 hj).1,
      Option.some.inj (hi.symm.trans heq)⟩

/-- A parameter is given an argument that is no wildcard, or the capture opened
for it. -/
theorem lastValue_origin {n : Nat} {vs : List TypeVarId} {args : List Ty}
    {v : TypeVarId} {a : Ty}
    (h : lastValue vs (numberWildcards n args) v = some a) :
    a ∈ args ∧ a.isWildcard = false ∨
      ∃ j w, a = .capture ⟨n + j⟩ ∧
        (wildcardsFor vs args)[j]? = some (v, w) := by
  obtain ⟨i, hi⟩ := List.getElem?_of_mem (List.mem_reverse.1 (mem_of_lookup h))
  obtain ⟨hvar, hnum⟩ := List.getElem?_zip_eq_some.1 hi
  have hlt : i < args.length := by
    rw [← length_numberWildcards n args]
    exact (List.getElem?_eq_some_iff.1 hnum).1
  have harg := List.getElem?_eq_getElem hlt
  rcases getElem?_numberWildcards (n := n) hvar harg with
      ⟨hwild, heq⟩ | ⟨j, w, -, heq, hj⟩
  · obtain rfl := Option.some.inj (hnum.symm.trans heq)
    exact .inl ⟨List.getElem_mem hlt, hwild⟩
  · exact .inr ⟨j, w, Option.some.inj (hnum.symm.trans heq), hj⟩

/-- Where a value comes from that is looked for at a level first and then
elsewhere: an argument that is no wildcard, the capture opened for it, that
other place, or nowhere. -/
theorem orElse_origin (n : Nat) (vs : List TypeVarId) (args : List Ty)
    (rest : Option Ty) (v : TypeVarId) :
    let value :=
      ((lastValue vs (numberWildcards n args) v).or rest).getD (.var v)
    (value ∈ args ∧ value.isWildcard = false) ∨
      (∃ j w, value = .capture ⟨n + j⟩ ∧
        (wildcardsFor vs args)[j]? = some (v, w)) ∨
      rest = some value ∨ value = .var v := by
  cases hown : lastValue vs (numberWildcards n args) v with
  | some a =>
      rcases lastValue_origin hown with harg | ⟨j, w, ha, hj⟩
      · exact .inl harg
      · exact .inr (.inl ⟨j, w, ha, hj⟩)
  | none =>
      cases rest with
      | some a => exact .inr (.inr (.inl rfl))
      | none => exact .inr (.inr (.inr rfl))

/-- The value of a variable at a level comes from there or from the owner. -/
theorem levelSubst_origin (d : Declarations) (n : Nat) (id : ClassId)
    (args : List Ty) (owner : Option Ty) (v : TypeVarId) :
    let value := d.levelSubst id (numberWildcards n args) owner v
    (value ∈ args ∧ value.isWildcard = false) ∨
      (∃ j w, value = .capture ⟨n + j⟩ ∧
        (wildcardsFor (d.paramsOf id) args)[j]? = some (v, w)) ∨
      (∃ o, owner = some o ∧ d.chainValue o v = some value) ∨
      value = .var v := by
  intro value
  rw [← Option.bind_eq_some_iff]
  exact orElse_origin n (d.paramsOf id) args (owner.bind (d.chainValue · v)) v

/-- The same where the owner is bound already. -/
theorem apply_origin (σ : Substitution) (n : Nat) (vs : List TypeVarId)
    (args : List Ty) (v : TypeVarId) :
    let value := (σ.bindZip vs (numberWildcards n args)).apply v
    (value ∈ args ∧ value.isWildcard = false) ∨
      (∃ j w, value = .capture ⟨n + j⟩ ∧
        (wildcardsFor vs args)[j]? = some (v, w)) ∨
      σ.get? v = some value ∨ value = .var v := by
  rw [apply, get?_bindZip]
  exact orElse_origin n vs args (σ.get? v) v

/-- The entries that are added stand behind those that are there. -/
theorem getElem?_added {added : List CaptureDef}
    (hadded : later.toList = arena.toList ++ added) (j : Nat) :
    later[arena.size + j]? = added[j]? := by
  rw [← Array.getElem?_toList, hadded,
    List.getElem?_append_right (by rw [Array.length_toList]; omega),
    Array.length_toList,
    Nat.add_sub_cancel_left]

/-- The arguments of a level whose owner has been seen to, and the arena with
the captures that the level adds. -/
structure Level (r : Resolver) (arena later : Array CaptureDef) (id : ClassId)
    (args : List Ty) (owner : Option Ty) : Prop where
  regularArgs : ∀ a ∈ args, r.env.Regular arena.size a ∧ a.isPrimitive = false
  regularOwner : ∀ o, owner = some o → r.env.Regular arena.size o
  added : later.toList = arena.toList ++
    (wildcardsFor (r.env.paramsOf id) args).map
    (r.settled (r.env.levelSubst id (numberWildcards arena.size args) owner))

namespace Level

variable {args : List Ty} {owner : Option Ty}
  (hlevel : r.Level arena later id args owner)

include hlevel

theorem grows : Grows arena later := grows_of_append hlevel.added

theorem later_eq (j : Nat) :
    later[arena.size + j]? = (wildcardsFor (r.env.paramsOf id) args)[j]?.map
      (r.settled
        (r.env.levelSubst id (numberWildcards arena.size args) owner)) :=
  (getElem?_added hlevel.added j).trans List.getElem?_map

/-- What a level gives a variable: something old, the capture added for it, or
nothing. -/
theorem levelSubst_cases (v : TypeVarId) :
    let value := r.env.levelSubst id (numberWildcards arena.size args) owner v
    (r.env.Regular arena.size value ∧ value.isPrimitive = false) ∨
      (∃ j w, value = .capture ⟨arena.size + j⟩ ∧
        (wildcardsFor (r.env.paramsOf id) args)[j]? = some (v, w)) ∨
        value = .var v := by
  rcases levelSubst_origin r.env.toDeclarations arena.size id args owner v with
    ⟨hmem, -⟩ | hcapture | ⟨o, ho, hchain⟩ | hvar
  · exact .inl (hlevel.regularArgs _ hmem)
  · exact .inr (.inl hcapture)
  · exact .inl ((hlevel.regularOwner o ho).chainValue hchain)
  · exact .inr (.inr hvar)

theorem regular_levelSubst {v : TypeVarId}
    (hv : ∃ p, r.env.typeParam? v = some p) :
    r.env.Regular later.size
        (r.env.levelSubst id (numberWildcards arena.size args) owner v) ∧
      (r.env.levelSubst id (numberWildcards arena.size args) owner
        v).isPrimitive = false := by
  rcases hlevel.levelSubst_cases v with ⟨hreg, hprim⟩ | ⟨j, w, heq, hj⟩ | heq
  · exact ⟨hreg.mono hlevel.grows.size_le, hprim⟩
  · rw [heq]
    have hnew := hlevel.later_eq j
    rw [hj] at hnew
    exact ⟨regular_capture (Array.getElem?_eq_some_iff.1 hnew).1, rfl⟩
  · rw [heq]
    exact ⟨regular_var hv, rfl⟩

theorem regular_settled (h : r.env.Founded) {w : TypeVarId × Wildcard}
    (hw : w ∈ wildcardsFor (r.env.paramsOf id) args) {u : Ty}
    (hu : u ∈ (r.settled
      (r.env.levelSubst id (numberWildcards arena.size args) owner) w).upper) :
    r.env.Regular later.size u := by
  rcases mem_mergeBounds hu with hu | hu | rfl
  · obtain ⟨b, hb, rfl⟩ := List.mem_map.1 hu
    have hb' : r.env.Regular 0 b :=
      ⟨(h.wellFormed.bounds w.1 b hb).complete, (h.grounded.bounds w.1 b hb).1⟩
    exact hb'.subst (Nat.zero_le _) fun v hv =>
      hlevel.regular_levelSubst (hb'.complete _ hv)
  · obtain ⟨-, hmem⟩ := mem_wildcardsFor hw
    have hreg := (hlevel.regularArgs w.2.toTy hmem).1
    exact (hreg.bound (List.mem_append_left w.2.lower hu)).1.mono
      hlevel.grows.size_le
  · exact regular_named (h.wellFormed.known _ List.mem_cons_self)

/-- A capture climbs if the variables that bound its own are given what
climbs. -/
theorem climbs_settled (h : r.env.Founded) (harena : r.Sound arena)
    {w : TypeVarId × Wildcard} (hw : w ∈ wildcardsFor (r.env.paramsOf id) args)
    (hbelow : ∀ v, r.env.BoundedBy w.1 v → (∃ p, r.env.typeParam? v = some p) →
      r.Climbs later (r.env.levelSubst id (numberWildcards arena.size args)
        owner v)) {u : Ty}
    (hu : u ∈ (r.settled
      (r.env.levelSubst id (numberWildcards arena.size args) owner) w).upper) :
    r.Climbs later u := by
  rcases mem_mergeBounds hu with hu | hu | rfl
  · obtain ⟨b, hb, rfl⟩ := List.mem_map.1 hu
    have hb' := h.wellFormed.bounds w.1 b hb
    refine climbs_subst h.topped hb' (h.grounded.bounds w.1 b hb).2
      fun v hv => ?_
    have helem := hb'.element.complete.fits
    rw [hv] at helem
    exact hbelow v ⟨b, hb, hv⟩ helem
  · obtain ⟨-, hmem⟩ := mem_wildcardsFor hw
    obtain ⟨hreg, hprim⟩ := (hlevel.regularArgs w.2.toTy hmem).1.bound
      (List.mem_append_left w.2.lower hu)
    exact (harena.climbs h hreg hprim).grows hlevel.grows
  · exact climbs_top h.topped (.plain (h.wellFormed.known _ List.mem_cons_self))

theorem climbs_levelSubst (h : r.env.Founded) (harena : r.Sound arena)
    {v : TypeVarId} (hv : ∃ p, r.env.typeParam? v = some p) :
    r.Climbs later
      (r.env.levelSubst id (numberWildcards arena.size args) owner v) := by
  induction v using (wellFounded_boundedBy h.wellFormed.bounding).induction with
  | h v ih =>
      rcases hlevel.levelSubst_cases v with
          ⟨hreg, hprim⟩ | ⟨j, w, heq, hj⟩ | heq
      · exact (harena.climbs h hreg hprim).grows hlevel.grows
      · rw [heq]
        have hnew := hlevel.later_eq j
        rw [hj] at hnew
        have habove : r.above later (.capture ⟨arena.size + j⟩) = .ok (r.settled
            (r.env.levelSubst id (numberWildcards arena.size args) owner)
            (v, w)).upper := by
          rw [above, hnew]
          rfl
        refine .intro habove (fun hready => by cases hready) rfl fun u hu => ?_
        exact hlevel.climbs_settled h harena (List.mem_of_getElem? hj)
          (ih) hu
      · rw [heq]
        exact climbs_var h hv

theorem mem_later {i : Nat} {c : CaptureDef} (hc : later[i]? = some c) :
    arena[i]? = some c ∨ ∃ w ∈ wildcardsFor (r.env.paramsOf id) args,
      c = r.settled
        (r.env.levelSubst id (numberWildcards arena.size args) owner) w := by
  by_cases hi : i < arena.size
  · have hold := Array.getElem?_eq_getElem hi
    rw [hlevel.grows i _ hold] at hc
    exact .inl (hold.trans hc)
  · have hsplit := hlevel.later_eq (i - arena.size)
    rw [show arena.size + (i - arena.size) = i by omega, hc] at hsplit
    obtain ⟨w, hw, heq⟩ := Option.map_eq_some_iff.1 hsplit.symm
    exact .inr ⟨w, List.mem_of_getElem? hw, heq.symm⟩

theorem sound (h : r.env.Founded) (harena : r.Sound arena) : r.Sound later := by
  constructor
  · intro i c hc
    rcases hlevel.mem_later hc with hold | ⟨w, hw, rfl⟩
    · obtain ⟨hne, hupper⟩ := harena.upper i c hold
      refine ⟨hne, fun u hu => ⟨(hupper u hu).1.mono hlevel.grows.size_le, ?_⟩⟩
      exact (hupper u hu).2.grows hlevel.grows
    · refine ⟨mergeBounds_ne_nil _ _,
        fun u hu => ⟨hlevel.regular_settled h hw hu, ?_⟩⟩
      exact hlevel.climbs_settled h harena hw
        (fun v _ hdecl => hlevel.climbs_levelSubst h harena hdecl) hu
  · intro i c hc
    rcases hlevel.mem_later hc with hold | ⟨w, hw, rfl⟩
    · exact fun l hl => (harena.lower i c hold l hl).mono hlevel.grows.size_le
    · intro l hl
      obtain ⟨-, hmem⟩ := mem_wildcardsFor hw
      have hreg := (hlevel.regularArgs w.2.toTy hmem).1
      exact (hreg.bound (List.mem_append_right w.2.upper hl)).1.mono
        hlevel.grows.size_le

/-- The level itself, captured, is regular. -/
theorem regular
    (hlevel' : r.env.Fits arena.size (.parameterized id args owner)) :
    r.env.Regular later.size
      (.parameterized id (numberWildcards arena.size args) owner) := by
  have hle := hlevel.grows.size_le
  obtain ⟨⟨c, hc, hlen⟩, hused, hhead⟩ := hlevel'
  have hargs : ∀ a ∈ numberWildcards arena.size args,
      r.env.Regular later.size a ∧ a.isPrimitive = false := by
    intro a ha
    obtain ⟨i, hi⟩ := List.getElem?_of_mem ha
    have hlt : i < args.length := by
      rw [← length_numberWildcards arena.size args]
      exact (List.getElem?_eq_some_iff.1 hi).1
    have hparams : i < (r.env.paramsOf id).length := by
      rw [paramsOf_eq hc, hlen]
      exact hlt
    rcases getElem?_numberWildcards
      (n := arena.size) (List.getElem?_eq_getElem hparams)
      (List.getElem?_eq_getElem hlt) with ⟨-, heq⟩ | ⟨j, w, -, heq, hj⟩
    · obtain rfl := Option.some.inj (hi.symm.trans heq)
      obtain ⟨hreg, hprim⟩ := hlevel.regularArgs _ (List.getElem_mem hlt)
      exact ⟨hreg.mono hle, hprim⟩
    · obtain rfl := Option.some.inj (hi.symm.trans heq)
      have hnew := hlevel.later_eq j
      rw [hj] at hnew
      exact ⟨regular_capture (Array.getElem?_eq_some_iff.1 hnew).1, rfl⟩
  refine .of_parts ⟨⟨c, hc, by rw [hlen, length_numberWildcards]⟩,
      fun v hv => ?_, hhead⟩
    (fun a ha => (hargs a ha).2) fun x hx => ?_
  · have hvars : r.env.chainVars
          (.parameterized id (numberWildcards arena.size args) owner) =
        r.env.chainVars (.parameterized id args owner) := by
      cases owner <;> rfl
    rw [hvars]
    exact hused v hv
  · rcases Ty.mem_parts_parameterized.1 hx with rfl | ⟨o, ho, hx⟩ | ⟨a, ha, hx⟩
    · exact .inl rfl
    · exact .inr (((hlevel.regularOwner o ho).mono hle).part hx)
    · exact .inr ((hargs a ha).1.part hx)

end Level

/-- Once the owner of a type is captured, capturing the type captures its
arguments. -/
theorem captured_member {between : Array CaptureDef}
    {args : List Ty} {owner : Ty}
    (hbetween : between.toList = arena.toList ++
      (r.captured arena.size owner).2)
    (hlater : later.toList = arena.toList ++
      (r.captured arena.size (.parameterized id args (some owner))).2) :
    later.toList = between.toList ++ (wildcardsFor (r.env.paramsOf id) args).map
        (r.settled (r.env.levelSubst id (numberWildcards between.size args)
          (some (r.captured arena.size owner).1))) ∧
      (r.captured arena.size (.parameterized id args (some owner))).1 =
        .parameterized id (numberWildcards between.size args)
          (some (r.captured arena.size owner).1) := by
  have hsize :
      between.size = arena.size + (r.captured arena.size owner).2.length :=
    size_of_append hbetween
  refine ⟨?_, ?_⟩
  · rw [hbetween, hsize, hlater, List.append_assoc]
    rfl
  · rw [hsize]
    rfl

/-- Of a regular type that is a level. -/
theorem level_of_member {between : Array CaptureDef}
    {args : List Ty} {owner : Ty}
    (ht : r.env.Regular arena.size (.parameterized id args (some owner)))
    (hbetween : between.toList = arena.toList ++
      (r.captured arena.size owner).2)
      (howner : r.env.Regular between.size (r.captured arena.size owner).1)
    (hlater : later.toList =
      arena.toList ++ (r.captured arena.size
        (.parameterized id args (some owner))).2) :
    r.Level between later id args (some (r.captured arena.size owner).1) ∧
      (r.captured arena.size (.parameterized id args (some owner))).1 =
        .parameterized id (numberWildcards between.size args)
          (some (r.captured arena.size owner).1) := by
  obtain ⟨hadded, heq⟩ := captured_member hbetween hlater
  have hle := (grows_of_append hbetween).size_le
  exact ⟨⟨fun a ha => ⟨(ht.arg ha).1.mono hle, (ht.arg ha).2⟩,
    fun o ho => Option.some.inj ho ▸ howner, hadded⟩, heq⟩

/-- A member still fits where its owner is captured. -/
theorem fits_captured {n m k : Nat} {args : List Ty} {owner : Ty}
    (howner : r.env.Counted owner)
    (ht : r.env.Fits n (.parameterized id args (some owner))) :
    r.env.Fits m (.parameterized id args (some (r.captured k owner).1)) := by
  obtain ⟨hhead, -, hvars⟩ := captured_chain (r := r) k howner
  obtain ⟨hcounts, hused, hisSome⟩ := ht
  refine ⟨hcounts, fun v hv => ?_, fun o ho => ?_⟩
  · rw [chainVars, hvars]
    exact hused v hv
  · obtain rfl := Option.some.inj ho
    rw [hhead]
    exact hisSome owner rfl

/-- Capturing a regular type keeps the arena sound, and the captured type is
regular. -/
theorem captured_sound (h : r.env.Founded) :
    ∀ {t : Ty} {arena later : Array CaptureDef}, r.Sound arena →
    r.env.Regular arena.size t →
    later.toList = arena.toList ++ (r.captured arena.size t).2 →
    r.Sound later ∧ r.env.Regular later.size (r.captured arena.size t).1
  | .parameterized id args (some owner), arena, later, harena, ht, hlater => by
      -- the arena between: the owner is captured, the arguments are not
      let between := (arena.toList ++ (r.captured arena.size owner).2).toArray
      obtain ⟨hsound, howner⟩ : r.Sound between ∧
          r.env.Regular between.size (r.captured arena.size owner).1 :=
        captured_sound h harena ht.owner rfl
      obtain ⟨hlevel, heq⟩ := level_of_member ht rfl howner hlater
      rw [heq]
      exact ⟨hlevel.sound h hsound,
        hlevel.regular (fits_captured ht.owner.complete.counted
          ht.complete.fits)⟩
  | .parameterized id args none, arena, later, harena, ht, hlater => by
      have hlevel : r.Level arena later id args none :=
        ⟨fun a ha => ht.arg ha, (by rintro o ⟨⟩), hlater⟩
      exact ⟨hlevel.sound h harena, hlevel.regular ht.complete.fits⟩
  | .nominal _, arena, later, harena, ht, hlater
  | .var _, arena, later, harena, ht, hlater | .wildcard _ _, arena, later,
    harena, ht, hlater
  | .genericArray _, arena, later, harena, ht, hlater
  | .capture _, arena, later, harena, ht, hlater => by
      obtain rfl : later = arena :=
        Array.toList_inj.1 (hlater.trans (List.append_nil _))
      exact ⟨harena, ht⟩

/-- Capture conversion of a regular type succeeds, and does what `captured`
says. -/
theorem capture_ok (h : r.env.Founded) {ctx : Context}
    (harena : r.Sound ctx.captures) (ht : r.env.Regular ctx.captures.size t) :
    ∃ ctx', r.capture t ctx = (.ok (r.captured ctx.captures.size t).1, ctx') ∧
      ctx'.captures.toList = ctx.captures.toList ++
        (r.captured ctx.captures.size t).2 ∧
      r.Sound ctx'.captures ∧
      r.env.Regular ctx'.captures.size (r.captured ctx.captures.size t).1 := by
  obtain ⟨ctx', hcapture, hlater⟩ :=
    capture_eq h.wellFormed ctx ht.complete.counted ht.complete.bounded
  obtain ⟨hsound, hregular⟩ := captured_sound h harena ht hlater
  exact ⟨ctx', hcapture, hlater, hsound, hregular⟩

/-! ## How arenas come about -/

/-- The later arena comes of the other by capturing regular types. -/
inductive Builds (r : Resolver) (arena : Array CaptureDef) :
    Array CaptureDef → Prop where
  | refl : Builds r arena arena
  | capture {between later : Array CaptureDef}
      {t : Ty} (h : Builds r arena between) (ht : r.env.Regular between.size t)
      (hlater : later.toList = between.toList ++
        (r.captured between.size t).2) :
      Builds r arena later

theorem Builds.trans {a b c : Array CaptureDef} (hab : r.Builds a b)
    (hbc : r.Builds b c) : r.Builds a c := by
  induction hbc with
  | refl => exact hab
  | capture _ ht hlater ih => exact .capture ih ht hlater

theorem Builds.grows (h : r.Builds arena later) : Grows arena later := by
  induction h with
  | refl => exact .refl arena
  | capture _ _ hlater ih => exact ih.trans (grows_of_append hlater)

theorem Builds.sound (h : r.env.Founded) (harena : r.Sound arena)
    (hbuilds : r.Builds arena later) : r.Sound later := by
  induction hbuilds with
  | refl => exact harena
  | capture _ ht hlater ih => exact (captured_sound h ih ht hlater).1

end Resolver

end GenericTypes
