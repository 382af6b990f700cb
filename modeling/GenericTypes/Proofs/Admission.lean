import GenericTypes.Proofs.Comparison

/-!
# What a type admits

Two comparisons carry the subtyping of a type with wildcards in it. The type is
compared with its own capture, where each wildcard has to contain the capture
opened for it; and a bound is compared with what it bounds, a variable, a
wildcard or a capture. `Ty.admits` says of a type whether it passes either.

The two differ because only the right side is captured. What a search finds
among the bounds is one of them as it was written, with its wildcards in place,
so there a wildcard is compared with itself: it may say nothing about lower
bounds, and no capture has been opened whose bounds would help
(`admits_parameterized`).

A search returns its first match, so a bound is found by its class only where
nothing above it, and before it, is of the same class; `Clear` says so.
-/

namespace GenericTypes

namespace Ty

/-- What a type is compared with: its own capture, or what it bounds. -/
inductive Counterpart where
  | itself
  | bounded
deriving DecidableEq

/-- Whether the type is a capture itself. -/
def isCapture : Ty → Bool
  | .capture _ => true
  | .nominal _ | .parameterized _ _ _ | .var _ | .wildcard _ _
  | .genericArray _ => false

mutual

/-- Whether a comparison with the counterpart says yes. -/
def admits : Counterpart → Ty → Bool
  | _, .nominal _ => true
  | side, .parameterized _ args owner =>
      admitsArgs side args && admitsOwner owner
  | _, .var _ => true
  | _, .wildcard _ _ => false
  | _, .genericArray t => t.isErasable && admits .itself t
  | .itself, .capture _ => true
  | .bounded, .capture _ => false

/-- Whether each wildcard among the arguments contains its counterpart. -/
def admitsArgs : Counterpart → List Ty → Bool
  | _, [] => true
  | side, .wildcard upper lower :: args =>
      admitsAll .bounded upper &&
        (match side with
          | .itself => admitsAll .itself lower
          | .bounded => upper.all (!·.isVar) && lower.isEmpty) &&
        admitsArgs side args
  | side, _ :: args => admitsArgs side args

/-- Whether several comparisons all say yes. -/
def admitsAll : Counterpart → List Ty → Bool
  | _, [] => true
  | side, t :: ts => admits side t && admitsAll side ts

/-- Whether the owner, if there is one, is above its own capture. -/
def admitsOwner : Option Ty → Bool
  | none => true
  | some t => admits .itself t

end

/-- What is asked of a wildcard argument. -/
def AdmitsWildcard (upper lower : List Ty) : Counterpart → Prop
  | .itself =>
      (∀ u ∈ upper, u.admits .bounded = true) ∧
        ∀ l ∈ lower, l.admits .itself = true
  | .bounded =>
      (∀ u ∈ upper, u.isVar = false ∧ u.admits .bounded = true) ∧ lower = []

theorem admitsAll_iff {side : Counterpart} : ∀ {ts : List Ty},
    admitsAll side ts = true ↔ ∀ t ∈ ts, t.admits side = true
  | [] => by simp [admitsAll]
  | t :: ts => by simp [admitsAll, admitsAll_iff]

theorem admitsArgs_iff {side : Counterpart} : ∀ {args : List Ty},
    admitsArgs side args = true ↔
      ∀ upper lower, .wildcard upper lower ∈ args →
        AdmitsWildcard upper lower side
  | [] => by simp [admitsArgs]
  | .wildcard upper lower :: args => by
      have hhead : (admitsAll .bounded upper && match side with
          | .itself => admitsAll .itself lower
          | .bounded => upper.all (!·.isVar) && lower.isEmpty) = true ↔
          AdmitsWildcard upper lower side := by
        cases side with
        | itself => simp only [AdmitsWildcard, Bool.and_eq_true, admitsAll_iff]
        | bounded =>
            simp only [AdmitsWildcard, Bool.and_eq_true, admitsAll_iff,
              List.all_eq_true,
              Bool.not_eq_true', List.isEmpty_iff, forall_and, ← and_assoc]
            tauto
      unfold admitsArgs
      rw [Bool.and_eq_true, hhead, admitsArgs_iff]
      constructor
      · rintro ⟨hwild, hargs⟩ us ls hmem
        rcases List.mem_cons.1 hmem with heq | hmem
        · obtain ⟨rfl, rfl⟩ := Ty.wildcard.inj heq
          exact hwild
        · exact hargs us ls hmem
      · intro h
        exact ⟨h upper lower List.mem_cons_self,
          fun us ls hmem => h us ls (List.mem_cons_of_mem _ hmem)⟩
  | .nominal _ :: args | .parameterized _ _ _ :: args | .var _ :: args
  | .genericArray _ :: args | .capture _ :: args => by
      have ih := @admitsArgs_iff side args
      simpa [admitsArgs] using ih

theorem admits_parameterized {side : Counterpart} {id : ClassId}
    {args : List Ty} {owner : Option Ty} :
    (Ty.parameterized id args owner).admits side = true ↔
      (∀ upper lower, .wildcard upper lower ∈ args →
          AdmitsWildcard upper lower side) ∧
        ∀ o, owner = some o → o.admits .itself = true := by
  rw [admits, Bool.and_eq_true, admitsArgs_iff]
  cases owner <;> simp [admitsOwner]

end Ty

/-- What keeps the bounds of a part of a type from being tangled: a wildcard has
one upper bound, which is no capture, and parameters that are given wildcards
declare none that says anything. -/
def Declarations.simplyBounded (d : Declarations) : Ty → Bool
  | .wildcard upper _ => upper.length = 1 && upper.all fun u => !u.isCapture
  | .parameterized id args _ => args.all (!·.isWildcard) ||
      (d.paramsOf id).all fun v => d.isTop (d.boundsOf v)
  | .nominal _ | .var _ | .genericArray _ | .capture _ => true

namespace Resolver

open Resolve Declarations

variable {r : Resolver} {arena later : Array CaptureDef}
  {t u x : Ty} {ts : List Ty}

/-! ## Bounds that a search finds -/

/-- Nothing stands between a type and its bound `u`: what a search finds for the
class of `u`, be it not the class of the type itself, is `u` as written, or `u`
is plain and any view will do. Should `u` be a capture, it has no lower bounds
to go by. -/
structure Clear (r : Resolver) (arena : Array CaptureDef)
    (x u : Ty) : Prop where
  found : ∀ c n g, r.env.erasure? u = .ok (some c) →
    r.env.erasure? x ≠ .ok (some c) →
    r.find arena n x c = .ok (some g) → (∃ b, u = .nominal b) ∨ g = u
  noLower : ∀ i c, u = .capture i → arena[i.index]? = some c → c.lower = []

theorem clear_nominal {b : Class} : r.Clear arena x (.nominal b) :=
  ⟨fun _ _ _ _ _ _ => .inl ⟨b, rfl⟩, fun _ _ hu => nomatch hu⟩

theorem Clear.grows (hclear : r.Clear arena x u) (hgrows : Grows arena later)
    (hx : r.Climbs arena x) (hu : r.env.Regular arena.size u) :
    r.Clear later x u := by
  constructor
  · intro c n g hc hne hg
    obtain ⟨m, found, hfound⟩ := find_ok hx c
    obtain rfl := find_unique (find_grows hgrows hfound) hg
    exact hclear.found c m g hc hne hfound
  · rintro i c rfl hc
    have hi : i.index < arena.size := hu.complete.fits
    have hold := Array.getElem?_eq_getElem hi
    obtain rfl := Option.some.inj ((hgrows _ _ hold).symm.trans hc)
    exact hclear.noLower i _ rfl hold

/-- A search that goes on to the direct supertypes finds something if one from
any of them does. -/
theorem find_through {s g : Ty} {c : Class} {m : Nat} (hx : r.Climbs arena x)
    (hsettled : r.settledBy x c = .ok none) (habove : r.above arena x = .ok ts)
    (hs : s ∈ ts) (hg : r.find arena m s c = .ok (some g)) :
    ∃ n g', r.find arena n x c = .ok (some g') := by
  obtain ⟨n, found, hfound⟩ := find_ok hx c
  cases found with
  | some g' => exact ⟨n, g', hfound⟩
  | none =>
      cases n with
      | zero => cases hfound
      | succ n =>
          rw [find_succ hsettled habove] at hfound
          have hnone := firstFound_none hfound s hs
          exact absurd (find_unique hnone hg) nofun

theorem find_direct {c : Class} (hx : r.Climbs arena x)
    (hsettled : r.settledBy x c = .ok none) (habove : r.above arena x = .ok ts)
    (hu : u ∈ ts) (hc : r.env.erasure? u = .ok (some c)) :
    ∃ n g, r.find arena n x c = .ok (some g) :=
  find_through hx hsettled habove hu (find_self hc 0)

theorem Climbs.not_self (hx : r.Climbs arena x)
    (habove : r.above arena x = .ok ts) : x ∉ ts := by
  induction hx generalizing ts with
  | @intro x ts' habove' _ _ _ ih =>
      obtain rfl := Outcome.ok.inj (habove'.symm.trans habove)
      exact fun hmem => ih x hmem habove hmem

/-! ## A type and its capture -/

/-- An argument as captured: itself, or for a wildcard a capture that has its
lower bounds and has its upper bounds among its own, clear of each other. -/
inductive OpenedArg (r : Resolver) (arena : Array CaptureDef) :
    Ty → Ty → Prop where
  | same {a : Ty} (h : a.isWildcard = false) : OpenedArg r arena a a
  | opened {w : Wildcard} {i : CaptureId} {c : CaptureDef}
      (hc : arena[i.index]? = some c) (hlower : c.lower = w.lower)
      (hupper : ∀ u ∈ w.upper, u ∈ c.upper ∨
        u = r.env.top) (hclear : ∀ u ∈ w.upper, r.Clear arena (.capture i) u) :
      OpenedArg r arena w.toTy (.capture i)

/-- A type as captured, along its chain of owners. -/
inductive Opened (r : Resolver) (arena : Array CaptureDef) :
    Ty → Ty → Prop where
  | plain {t : Ty} (h : ∀ id args owner, t ≠ .parameterized id args owner) :
    Opened r arena t t
  | outermost {id : ClassId} {args args' : List Ty}
      (hlen : args.length = args'.length) (hargs : ∀ pair ∈ args.zip args',
        r.OpenedArg arena pair.1 pair.2) :
      Opened r arena (.parameterized id args none)
        (.parameterized id args' none)
  | member {id : ClassId} {args args' : List Ty}
      {o o' : Ty} (hlen : args.length = args'.length)
      (hargs : ∀ pair ∈ args.zip args', r.OpenedArg arena pair.1 pair.2)
      (howner : Opened r arena o o') :
      Opened r arena (.parameterized id args (some o))
      (.parameterized id args' (some o'))

theorem OpenedArg.notWildcard {a a' : Ty} (h : r.OpenedArg arena a a') :
    a'.isWildcard = false := by
  cases h with
  | same h => exact h
  | opened _ _ _ _ => rfl

theorem forall_snd_of_zip {args args' : List Ty} {P : Ty → Prop}
    (hlen : args.length = args'.length)
    (h : ∀ pair ∈ args.zip args', P pair.2) : ∀ a ∈ args', P a := by
  intro a ha
  have hmap : (args.zip args').map Prod.snd = args' :=
    List.map_snd_zip (Nat.le_of_eq hlen.symm)
  rw [← hmap] at ha
  obtain ⟨pair, hpair, rfl⟩ := List.mem_map.1 ha
  exact h pair hpair

theorem Opened.converted {t' : Ty} (h : r.Opened arena t t') :
    t'.Converted := by
  induction h with
  | @plain t h =>
      cases t with
      | parameterized id args owner => exact absurd rfl (h id args owner)
      | nominal _ | var _ | wildcard _ _ | genericArray _ | capture _ => trivial
  | outermost hlen hargs =>
      exact forall_snd_of_zip hlen fun pair hpair =>
        (hargs pair hpair).notWildcard
  | member hlen hargs _ ih =>
      exact ⟨forall_snd_of_zip hlen fun pair hpair =>
        (hargs pair hpair).notWildcard, ih⟩

/-- Wherever a part of the type is captured from now on, the bounds of its
wildcards are clear of each other and of the bounds that the parameters
declare. -/
def Untangled (r : Resolver) (arena : Array CaptureDef) (t : Ty) : Prop :=
  ∀ now : Array CaptureDef, r.Sound now → Grows arena now → ∀ x ∈ t.parts,
    (∀ upper lower, x = .wildcard upper lower → ∀ u ∈ upper, r.Clear now x u) ∧
    ∀ later : Array CaptureDef, later.toList = now.toList ++
      (r.captured now.size x).2 →
      ∀ i c, now.size ≤ i → later[i]? = some c →
        ∀ u ∈ c.wildcard.upper, r.Clear later (.capture ⟨i⟩) u

theorem Untangled.part (h : r.Untangled arena t) (hx : x ∈ t.parts) :
    r.Untangled arena x :=
  fun now hnow hgrows y hy => h now hnow hgrows y (Ty.mem_parts_trans hy hx)

theorem Untangled.grows (h : r.Untangled arena t) (hgrows : Grows arena later) :
    r.Untangled later t :=
  fun now hnow hlater => h now hnow (hgrows.trans hlater)

/-- The only bound of a type is clear. -/
theorem clear_of_only (hx : x.isUnknown = true)
    (habove : r.above arena x = .ok [u]) (hu : ∀ i, u ≠ .capture i) :
    r.Clear arena x u := by
  refine ⟨fun c n g hc _ hg => .inr ?_, fun i _ heq => absurd heq (hu i)⟩
  cases n with
  | zero => cases hg
  | succ n =>
      rw [find_succ (settledBy_unknown hx c) habove] at hg
      obtain ⟨s, hs, hfind⟩ := mem_of_firstFound hg
      obtain rfl := List.mem_singleton.1 hs
      exact Option.some.inj (find_unique hfind (find_self hc 0))

/-- A capture that a type opens is settled for a wildcard among the arguments of
one of its parts. -/
theorem mem_captured {n : Nat} {c : CaptureDef} :
    ∀ {t : Ty}, c ∈ (r.captured n t).2 →
    ∃ id args owner φ v w, .parameterized id args owner ∈ t.parts ∧
      v ∈ r.env.paramsOf id ∧
      w.toTy ∈ args ∧ c = r.settled φ (v, w)
  | .parameterized id args (some owner), hc => by
      rcases List.mem_append.1 hc with hc | hc
      · obtain ⟨id', args', owner', φ, v, w, hmem, hrest⟩ := mem_captured hc
        exact ⟨id', args', owner', φ, v, w,
          Ty.mem_parts_parameterized.2 (.inr (.inl ⟨owner, rfl, hmem⟩)), hrest⟩
      · obtain ⟨⟨v, w⟩, hw, rfl⟩ := List.mem_map.1 hc
        obtain ⟨hv, hargs⟩ := mem_wildcardsFor hw
        exact ⟨id, args, _, _, v, w, Ty.mem_parts_self _, hv, hargs, rfl⟩
  | .parameterized id args none, hc => by
      obtain ⟨⟨v, w⟩, hw, rfl⟩ := List.mem_map.1 hc
      obtain ⟨hv, hargs⟩ := mem_wildcardsFor hw
      exact ⟨id, args, _, _, v, w, Ty.mem_parts_self _, hv, hargs, rfl⟩
  | .nominal _, hc | .var _, hc | .wildcard _ _, hc | .genericArray _, hc
  | .capture _, hc =>
      nomatch hc

/-- Wildcards with one upper bound, no capture, for parameters without bounds of
their own have nothing to be tangled with. -/
theorem untangled_of_simplyBounded
    (hsimple : ∀ x ∈ t.parts, r.env.simplyBounded x = true) :
    r.Untangled arena t := by
  have hone : ∀ {upper lower}, .wildcard upper lower ∈ t.parts →
      ∃ u, upper = [u] ∧ ∀ i, u ≠ .capture i := by
    intro upper lower hx
    have h := hsimple _ hx
    rw [simplyBounded, Bool.and_eq_true, decide_eq_true_eq] at h
    obtain ⟨u, rfl⟩ := List.length_eq_one_iff.1 h.1
    refine ⟨u, rfl, ?_⟩
    rintro i rfl
    cases h.2
  intro now _ _ x hx
  constructor
  · rintro upper lower rfl u hu
    obtain ⟨b, rfl, hb⟩ := hone hx
    obtain rfl := List.mem_singleton.1 hu
    exact clear_of_only rfl rfl hb
  · intro later hlater i c hi hc u hu
    have hnew : c ∈ (r.captured now.size x).2 := by
      rw [← Array.getElem?_toList, hlater, List.getElem?_append_right (by
        rw [Array.length_toList]
        exact hi)] at hc
      exact List.mem_of_getElem? hc
    obtain ⟨id, args, owner, φ, v, w, hmem, hv, hw, rfl⟩ := mem_captured hnew
    have hmem' := Ty.mem_parts_trans hmem hx
    have hwild : w.toTy ∈ (Ty.parameterized id args owner).parts :=
      Ty.arg_mem_parts hw
    obtain ⟨b, hb, hne⟩ := hone (Ty.mem_parts_trans hwild hmem')
    have htop : r.env.isTop ((r.env.boundsOf v).map (·.subst φ)) = true := by
      have h := hsimple _ hmem'
      rw [simplyBounded, Bool.or_eq_true, List.all_eq_true,
        List.all_eq_true] at h
      replace h :=
        h.resolve_left (fun hnone => absurd (hnone _ hw) Bool.noConfusion) v hv
      rw [isTop, Bool.or_eq_true, List.isEmpty_iff, decide_eq_true_eq] at h
      rcases h with hnil | hobject
      · rw [hnil]
        rfl
      · rw [hobject]
        exact decide_eq_true rfl
    have hu' : u ∈ w.upper := hu
    rw [hb] at hu'
    obtain rfl := List.mem_singleton.1 hu'
    by_cases hobject : u = r.env.top
    · rw [hobject]
      exact clear_nominal
    · refine clear_of_only rfl ?_ hne
      have hbare : r.env.isTop [u] = false := by
        simp [isTop, hobject]
      have hupper : (r.settled φ (v, w)).upper = [u] := by
        rw [settled, hb]
        dsimp only
        rw [mergeBounds, hbare, htop]
        rfl
      rw [above, hc]
      exact congrArg Outcome.ok hupper

theorem mem_mergeBounds_of_wildcard {declared wildcard : List Ty}
    (hu : u ∈ wildcard) :
    u ∈ r.mergeBounds declared wildcard ∨ u = r.env.top := by
  unfold mergeBounds
  split
  · next htop =>
      rw [isTop, Bool.or_eq_true, List.isEmpty_iff, decide_eq_true_eq] at htop
      rcases htop with rfl | rfl
      · cases hu
      · exact .inr (List.mem_singleton.1 hu)
  · split
    · exact .inl hu
    · exact .inl (List.mem_append_right _ hu)

/-- The arguments of one level as captured. -/
theorem Level.opened {id : ClassId} {args : List Ty} {owner : Option Ty}
    (hlevel : r.Level arena later id args owner) {final : Array CaptureDef}
    (hgrows : Grows later final)
    (hlen : (r.env.paramsOf id).length = args.length)
    (hclear : ∀ i c, arena.size ≤ i → final[i]? = some c →
      ∀ u ∈ c.wildcard.upper, r.Clear final (.capture ⟨i⟩) u) :
    ∀ pair ∈ args.zip (numberWildcards arena.size args),
      r.OpenedArg final pair.1 pair.2 := by
  rintro ⟨a, a'⟩ hpair
  obtain ⟨i, hi⟩ := List.getElem?_of_mem hpair
  obtain ⟨ha, ha'⟩ := List.getElem?_zip_eq_some.1 hi
  dsimp only at ha ha' ⊢
  have hlt : i < (r.env.paramsOf id).length := by
    rw [hlen]
    exact (List.getElem?_eq_some_iff.1 ha).1
  rcases getElem?_numberWildcards
      (n := arena.size) (List.getElem?_eq_getElem hlt) ha with
    ⟨hwild, heq⟩ | ⟨j, w, rfl, heq, hj⟩
  · obtain rfl := Option.some.inj (ha'.symm.trans heq)
    exact .same hwild
  · obtain rfl := Option.some.inj (ha'.symm.trans heq)
    have hnew := hlevel.later_eq j
    rw [hj] at hnew
    have hc := hgrows _ _ hnew
    exact .opened hc rfl (fun u hu => mem_mergeBounds_of_wildcard hu)
      (hclear _ _ (Nat.le_add_right _ _) hc)

/-- A regular type whose bounds stay clear is opened by its capture. -/
theorem captured_opened (h : r.env.Founded) :
    ∀ {t : Ty} {arena later final : Array CaptureDef}, r.Sound arena →
    r.env.Regular arena.size t →
    later.toList = arena.toList ++ (r.captured arena.size t).2 →
    Grows later final →
    (∀ i c, arena.size ≤ i → final[i]? = some c → ∀ u ∈ c.wildcard.upper,
      r.Clear final (.capture ⟨i⟩) u) →
    r.Opened final t (r.captured arena.size t).1
  | .parameterized id args (some owner), arena, later, final, harena, ht,
      hlater, hgrows, hclear => by
      let between := (arena.toList ++ (r.captured arena.size owner).2).toArray
      have hbetween : between.toList = arena.toList ++
          (r.captured arena.size owner).2 := rfl
      obtain ⟨-, howner⟩ := captured_sound h harena ht.owner hbetween
      obtain ⟨hlevel, heq⟩ := level_of_member ht hbetween howner hlater
      obtain ⟨⟨c, hc, hlen⟩, -, -⟩ := ht.complete.fits
      have hargs := hlevel.opened hgrows (by rw [paramsOf_eq hc, hlen])
        fun i c hi =>
          hclear i c (Nat.le_trans (grows_of_append hbetween).size_le hi)
      rw [heq]
      exact .member (length_numberWildcards _ _).symm hargs
        (captured_opened h harena ht.owner hbetween
          (hlevel.grows.trans hgrows) hclear)
  | .parameterized id args none, arena, later, final, harena, ht, hlater,
    hgrows, hclear => by
      have hlevel : r.Level arena later id args none :=
        ⟨fun a ha => ht.arg ha, (fun o ho => nomatch ho), hlater⟩
      obtain ⟨⟨c, hc, hlen⟩, -, -⟩ := ht.complete.fits
      exact .outermost (length_numberWildcards _ _).symm
        (hlevel.opened hgrows (by rw [paramsOf_eq hc, hlen]) hclear)
  | .nominal _, _, _, _, _, _, _, _, _ | .var _, _, _, _, _, _, _, _, _
  | .wildcard _ _, _, _, _, _, _, _, _, _
  | .genericArray _, _, _, _, _, _, _, _, _
  | .capture _, _, _, _, _, _, _, _, _ => .plain fun _ _ _ => nofun

end Resolver

end GenericTypes
