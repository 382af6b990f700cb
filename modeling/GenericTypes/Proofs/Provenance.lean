import GenericTypes.Proofs.Hereditary

/-!
# Where the types of a resolver come from

A property that is handed on by every way of making types (`Hereditary`) holds
of all that a resolver returns and of all that it puts in the arena, as long as
it holds of what is declared and of what is asked about. No other condition
comes into it: the declarations may be as circular or incomplete as they like,
and a request may fail or be cut short at any point. Captures, searches and
comparisons are gone through here, members and whole requests after them.

`Yields` says so of a step. The arena is followed through a step with its
answer, since the property may speak of how many captures there are. It is only
ever added to by capturing a level of a type, whose arguments have the property
at that moment (`Layered`), and what a level adds is known entry by entry,
whether it succeeds or not (`captureLevel_cases`). A failure leaves what it had
stored by then, and may carry a type itself.
-/

namespace GenericTypes

/-- The types stored with a capture. -/
def CaptureDef.types (c : CaptureDef) : List Ty :=
  c.wildcard.upper ++ c.wildcard.lower ++ c.upper ++ c.lower

/-- Every type in the arena has the property, given how many captures there
are. -/
def Stored (P : Nat → Ty → Prop) (arena : Array CaptureDef) : Prop :=
  ∀ c ∈ arena, ∀ t ∈ c.types, P arena.size t

instance decidableStored (P : Nat → Ty → Prop) [∀ n t, Decidable (P n t)]
    (arena : Array CaptureDef) : Decidable (Stored P arena) :=
  inferInstanceAs (Decidable (∀ c ∈ arena, ∀ t ∈ c.types, P arena.size t))

theorem CaptureDef.forall_types {T : Ty → Prop} {c : CaptureDef} :
    (∀ t ∈ c.types, T t) ↔
    (∀ t ∈ c.wildcard.upper, T t) ∧ (∀ t ∈ c.wildcard.lower, T t) ∧
      (∀ t ∈ c.upper, T t) ∧
      ∀ t ∈ c.lower, T t := by
  simp only [types, List.forall_mem_append, and_assoc]

namespace Resolver

open Resolve Declarations

variable {α β : Type} {r : Resolver} {P : Nat → Ty → Prop} {n : Nat} {t : Ty}

/-- The types in the arena have the property, and what is remembered is as good
as worked out afresh. -/
structure Holds (r : Resolver) (P : Nat → Ty → Prop)
    (ctx : Context) : Prop where
  stored : Stored P ctx.captures
  memo : r.MemoSound ctx.memo

theorem holds_empty (r : Resolver) (P : Nat → Ty → Prop) : r.Holds P .empty :=
  ⟨fun c hc => absurd hc (Array.not_mem_empty c), memoSound_nil r⟩

/-- The later arena comes of the other by capturing levels of types, the
arguments and the owner of each having the property when it is captured. -/
inductive Layered (r : Resolver) (P : Nat → Ty → Prop)
    (arena : Array CaptureDef) : Array CaptureDef → Prop
  | refl : Layered r P arena arena
  | level {ctx : Context} {id : ClassId} {args : List Ty} {owner : Option Ty}
      (h : Layered r P arena ctx.captures)
      (hargs : ∀ a ∈ args, P ctx.captures.size a)
      (howner : ∀ o ∈ owner, P ctx.captures.size o) :
      Layered r P arena (r.captureLevel id args owner ctx).2.captures

theorem Layered.trans {a b c : Array CaptureDef} (hab : r.Layered P a b)
    (hbc : r.Layered P b c) : r.Layered P a c := by
  induction hbc with
  | refl => exact hab
  | level _ hargs howner ih => exact ih.level hargs howner

theorem Layered.size_le {arena later : Array CaptureDef}
    (h : r.Layered P arena later) : arena.size ≤ later.size := by
  induction h with
  | refl => exact Nat.le_refl _
  | @level ctx id args owner _ _ _ ih =>
      obtain ⟨o, ctx', added, hrun, harena, -⟩ :=
        captureLevel_settles (r := r) id args owner ctx
      rw [hrun]
      exact Nat.le_trans ih (grows_of_append harena).size_le

/-- From a context whose types have the property, and that has `n` captures at
least, the step leads to another such context, by levels of types with the
property, and it comes to an answer as in `S` or to a failure that carries no
other types. -/
def Yields (r : Resolver) (P : Nat → Ty → Prop) (n : Nat) (S : Nat → α → Prop)
    (x : Resolve α) : Prop :=
  ∀ ctx : Context, n ≤ ctx.captures.size → r.Holds P ctx →
    r.Layered P ctx.captures (x ctx).2.captures ∧ r.Holds P (x ctx).2 ∧
      (x ctx).1.Satisfies (P (x ctx).2.captures.size)
      (S (x ctx).2.captures.size)

theorem Yields.bind {S : Nat → α → Prop} {S' : Nat → β → Prop} {x : Resolve α}
    {f : α → Resolve β} (hx : r.Yields P n S x)
    (hf : ∀ m a, n ≤ m → S m a → r.Yields P m S' (f a)) :
    r.Yields P n S' (x >>= f) := by
  intro ctx hn hctx
  obtain ⟨hlayered, hctx₁, houtcome⟩ := hx ctx hn hctx
  rw [bind_apply]
  match hxc : x ctx with
  | (.ok a, ctx') =>
      rw [hxc] at hlayered hctx₁ houtcome
      obtain ⟨hlayered', hctx', houtcome'⟩ :=
        hf _ a (Nat.le_trans hn hlayered.size_le) houtcome ctx'
          (Nat.le_refl _) hctx₁
      exact ⟨hlayered.trans hlayered', hctx', houtcome'⟩
  | (.error e, ctx') =>
      rw [hxc] at hlayered hctx₁ houtcome
      exact ⟨hlayered, hctx₁, houtcome⟩
  | (.exhausted, ctx') =>
      rw [hxc] at hlayered hctx₁
      exact ⟨hlayered, hctx₁, trivial⟩

/-- An outcome worked out without the context. It may be known to be right for
the captures there are at the moment, so it has to stay so for more. -/
theorem Yields.outcome {S : Nat → α → Prop} {o : Outcome α}
    (ho : ∀ m, n ≤ m → o.Satisfies (P m) (S m)) :
    r.Yields P n S (ofOutcome o) :=
  fun ctx hn hctx => ⟨.refl, hctx, ho ctx.captures.size hn⟩

theorem Yields.pure {S : Nat → α → Prop} {a : α} (ha : ∀ m, n ≤ m → S m a) :
    r.Yields P n S (Pure.pure a) :=
  .outcome ha

theorem Yields.fail {S : Nat → α → Prop} {e : Error} (he : e.types = []) :
    r.Yields P n S (ofOutcome (.error e)) :=
  .outcome fun _ _ => .of_bare he

/-- A truth value, or a list of classes, holds no types. -/
abbrev YieldsBare (r : Resolver) (P : Nat → Ty → Prop) (n : Nat)
    (x : Resolve α) : Prop :=
  r.Yields P n (fun _ _ => True) x

theorem Yields.bare (a : α) : r.YieldsBare P n (Pure.pure a) :=
  .pure fun _ _ => trivial

theorem emit_yields (e : Event) : r.YieldsBare P n (emit e) :=
  fun _ _ hctx => ⟨.refl, ⟨hctx.stored, hctx.memo⟩, trivial⟩

theorem captureDef_yields {i : CaptureId} (hi : ∀ m, n ≤ m → P m (.capture i)) :
    r.Yields P n (fun m c => ∀ t ∈ c.types, P m t) (captureDef i) := by
  intro ctx hn hctx
  unfold captureDef
  rw [bind_apply]
  simp only [Resolve.read]
  cases hc : ctx.capture? i with
  | some c => exact ⟨.refl, hctx, hctx.stored c (Array.mem_of_getElem? hc)⟩
  | none => exact ⟨.refl, hctx, fun t ht => List.mem_singleton.1 ht ▸ hi _ hn⟩

/-! ## Captures -/

/-- The later arena has an entry more for each of the wildcards, settled with
the given values as far as that went, and as opened from there on. -/
def AddsLevel (r : Resolver) (φ : TypeVarId → Ty)
    (ws : List (TypeVarId × Wildcard))
    (arena later : Array CaptureDef) : Prop :=
  ∃ front rest, ws = front ++ rest ∧
    later.toList = arena.toList ++
    (front.map (r.settled φ) ++ rest.map r.opened)

namespace AddsLevel

variable {φ : TypeVarId → Ty} {ws : List (TypeVarId × Wildcard)}
  {arena later : Array CaptureDef}

theorem grows (h : r.AddsLevel φ ws arena later) : Grows arena later := by
  obtain ⟨front, rest, -, hlater⟩ := h
  exact grows_of_append hlater

theorem size_eq (h : r.AddsLevel φ ws arena later) :
    later.size = arena.size + ws.length := by
  obtain ⟨front, rest, rfl, hlater⟩ := h
  rw [size_of_append hlater]
  simp

/-- The entry for a wildcard stands at its number from the end of the arena. -/
theorem entry (h : r.AddsLevel φ ws arena later) {j : Nat}
    {w : TypeVarId × Wildcard} (hj : ws[j]? = some w) :
    later[arena.size + j]? = some (r.settled φ w) ∨
      later[arena.size + j]? = some (r.opened w) := by
  obtain ⟨front, rest, rfl, hlater⟩ := h
  rw [getElem?_added hlater]
  rcases Nat.lt_or_ge j front.length with hlt | hge
  · rw [List.getElem?_append_left hlt] at hj
    rw [List.getElem?_append_left (by rwa [List.length_map]),
      List.getElem?_map, hj]
    exact .inl rfl
  · rw [List.getElem?_append_right hge] at hj
    rw [List.getElem?_append_right (by rwa [List.length_map]), List.length_map,
      List.getElem?_map, hj]
    exact .inr rfl

/-- What is in the arena afterwards was there, or is the entry of a wildcard. -/
theorem of_mem (h : r.AddsLevel φ ws arena later) {c : CaptureDef}
    (hc : c ∈ later) :
    c ∈ arena ∨ ∃ w ∈ ws, c = r.settled φ w ∨ c = r.opened w := by
  obtain ⟨front, rest, rfl, hlater⟩ := h
  rw [← Array.mem_toList_iff, hlater, List.mem_append, List.mem_append] at hc
  rcases hc with hc | hc | hc
  · exact .inl (Array.mem_toList_iff.1 hc)
  · obtain ⟨w, hw, rfl⟩ := List.mem_map.1 hc
    exact .inr ⟨w, List.mem_append_left _ hw, .inl rfl⟩
  · obtain ⟨w, hw, rfl⟩ := List.mem_map.1 hc
    exact .inr ⟨w, List.mem_append_right _ hw, .inr rfl⟩

end AddsLevel

section

variable (h : Hereditary P)

include h


/-- Capturing a level adds entries for the wildcards among its arguments, or for
none, and the values of its owner have the property. -/
theorem captureLevel_adds {ctx : Context} {id : ClassId} {args : List Ty}
    {owner : Option Ty} (howner : ∀ o ∈ owner, P ctx.captures.size o) :
    ∃ (vs : List TypeVarId) (σ : Substitution), σ.Within (P ctx.captures.size) ∧
      r.AddsLevel (σ.bindZip vs (numberWildcards ctx.captures.size args)).apply
        (wildcardsFor vs args) ctx.captures
          (r.captureLevel id args owner ctx).2.captures := by
  rcases captureLevel_begins (r := r) id args owner with
      ⟨e, hfail, -⟩ | ⟨c, σ, hc, hlen, hbind⟩
  · rw [hfail]
    exact ⟨[], .empty, nofun, [], [], rfl, (List.append_nil _).symm⟩
  · obtain ⟨o, ctx', front, rest, hrun, hparts, harena, -⟩ :=
      captureLevel_cases ctx hc hlen hbind
    have hσ :=
      h.bindOwner (T := P ctx.captures.size) r.env.toDeclarations howner
    rw [hbind] at hσ
    rw [hrun]
    exact ⟨c.typeParams, σ, hσ, front, rest, hparts, harena⟩

/-- A level gives the variables values with the property. -/
theorem within_level {σ : Substitution} (hσ : σ.Within (P n))
    {vs : List TypeVarId} {args : List Ty} (hargs : ∀ a ∈ args, P n a) {m : Nat}
    (hm : n + (wildcardsFor vs args).length ≤ m) (v : TypeVarId) :
    P m ((σ.bindZip vs (numberWildcards n args)).apply v) := by
  have hle : n ≤ m := by omega
  rcases apply_origin σ n vs args v with
      ⟨harg, -⟩ | ⟨j, w, heq, hj⟩ | hvalue | heq
  · exact h.mono hle (hargs _ harg)
  · have := (List.getElem?_eq_some_iff.1 hj).1
    rw [heq]
    exact h.capture (show n + j < m by omega)
  · exact h.mono hle (hσ v _ hvalue)
  · rw [heq]
    exact h.var m v

variable (hdecl : r.env.toDeclarations.Throughout (P 0))

include hdecl

theorem boundsOf_throughout {m : Nat} {v : TypeVarId} :
    ∀ b ∈ r.env.boundsOf v, P m b := by
  intro b hb
  obtain ⟨p, hp, hb⟩ := mem_boundsOf_iff.1 hb
  exact h.mono (Nat.zero_le _) (hdecl.bounds hp b hb)

/-- The entries of a level, settled or as opened, have types with the
property. -/
theorem stored_level {arena later : Array CaptureDef} {args : List Ty}
    {vs : List TypeVarId} {φ : TypeVarId → Ty}
    (hadds : r.AddsLevel φ (wildcardsFor vs args) arena later)
    (hstored : Stored P arena) (hargs : ∀ a ∈ args, P arena.size a)
    (hφ : ∀ v, P later.size (φ v)) : Stored P later := by
  have hle := hadds.grows.size_le
  intro c hc
  rcases hadds.of_mem hc with hc | ⟨w, hw, hentry⟩
  · exact fun t ht => h.mono hle (hstored c hc t ht)
  · obtain ⟨-, hmem⟩ := mem_wildcardsFor (v := w.1) (w := w.2) hw
    obtain ⟨hupper, hlower⟩ := h.wildcard.1 (h.mono hle (hargs _ hmem))
    rcases hentry with rfl | rfl
    · refine CaptureDef.forall_types.2
        ⟨hupper, hlower, h.mergeBounds (fun t ht => ?_) hupper, hlower⟩
      obtain ⟨b, hb, rfl⟩ := List.mem_map.1 ht
      exact h.subst (boundsOf_throughout h hdecl b hb) hφ
    · exact CaptureDef.forall_types.2 ⟨hupper, hlower,
        fun b hb => List.mem_singleton.1 hb ▸ h.nominal _ _,
        fun b hb => nomatch hb⟩

theorem captureLevel_yields {id : ClassId} {args : List Ty} {owner : Option Ty}
    (hargs : ∀ a ∈ args, P n a) (howner : ∀ o ∈ owner, P n o) :
    r.Yields P n P (r.captureLevel id args owner) := by
  intro ctx hn hctx
  have hargs : ∀ a ∈ args, P ctx.captures.size a :=
    fun a ha => h.mono hn (hargs a ha)
  have howner : ∀ o ∈ owner, P ctx.captures.size o :=
    fun o ho => h.mono hn (howner o ho)
  have hlayered :
      r.Layered P ctx.captures (r.captureLevel id args owner ctx).2.captures :=
    .level .refl hargs howner
  have hmemo :=
    (captureLevel_simulates r id args owner ctx ctx
      ⟨rfl, rfl, hctx.memo⟩).2.memo
  have hσ := h.bindOwner (T := P ctx.captures.size) r.env.toDeclarations howner
  rcases captureLevel_begins (r := r) id args owner with
      ⟨e, hfail, he⟩ | ⟨c, σ, hc, hlen, hbind⟩
  · rw [hfail]
    refine ⟨.refl, hctx, ?_⟩
    rcases he with rfl | ⟨_, _, rfl⟩ | he
    · exact .of_bare rfl
    · exact .of_bare rfl
    · rw [he] at hσ
      exact hσ
  · rw [hbind] at hσ
    obtain ⟨o, ctx', front, rest, hrun, hparts, harena, hend⟩ :=
      captureLevel_cases ctx hc hlen hbind
    rw [hrun] at hlayered hmemo ⊢
    have hadds : r.AddsLevel _ _ ctx.captures ctx'.captures :=
      ⟨front, rest, hparts, harena⟩
    have hsize := hadds.size_eq
    have hstored := stored_level h hdecl hadds hctx.stored hargs
      (within_level h hσ hargs (Nat.le_of_eq hsize.symm))
    refine ⟨hlayered, ⟨hstored, hmemo⟩, ?_⟩
    rcases hend with ⟨rfl, -⟩ | ⟨⟨e, rfl, he⟩, -⟩
    · refine h.parameterized.2
        ⟨fun o ho => h.mono hlayered.size_le (howner o ho), fun a ha => ?_⟩
      rcases origin_of_mem_numberWildcards hlen ha with ha | ⟨j, hj, rfl⟩
      · exact h.mono hlayered.size_le (hargs a ha)
      · exact h.capture (show ctx.captures.size + j <
          ctx'.captures.size by omega)
    · exact .of_bare he.types_eq_nil

theorem capture_yields : ∀ {t : Ty}, P n t → r.Yields P n P (r.capture t)
  | .parameterized id args (some owner), ht => by
      obtain ⟨howner, hargs⟩ := h.parameterized.1 ht
      refine (capture_yields (howner owner rfl)).bind fun m o hle ho => ?_
      exact captureLevel_yields h hdecl (fun a ha => h.mono hle (hargs a ha))
        fun o' ho' => Option.some.inj ho' ▸ ho
  | .parameterized id args none, ht =>
      captureLevel_yields h hdecl (h.parameterized.1 ht).2 nofun
  | .nominal _, ht | .var _, ht | .wildcard _ _, ht | .genericArray _, ht
  | .capture _, ht =>
      .pure fun _ hle => h.mono hle ht

/-! ## Supertypes -/

/-- What is remembered is as good as worked out afresh, so both ways of coming
by the supertypes are one. -/
theorem declaredSupertypes_yields {id : ClassId} (hid : t.head? = some id)
    (ht : P n t) :
    r.Yields P n (fun m ts => ∀ s ∈ ts, P m s) (r.declaredSupertypes id t) := by
  intro ctx hn hctx
  obtain ⟨houtcome, hafter⟩ :=
    declaredSupertypes_simulates r hid ctx ctx ⟨rfl, rfl, hctx.memo⟩
  rw [declaredSupertypes_forgetting] at houtcome hafter
  have hcaptures : (r.declaredSupertypes id t ctx).2.captures = ctx.captures :=
    hafter.captures
  rw [houtcome, hcaptures]
  refine ⟨.refl, ⟨?_, hafter.memo⟩, h.freshSupertypes hdecl id (h.mono hn ht)
    fun _ => h.mono hn ht⟩
  rw [hcaptures]
  exact hctx.stored

theorem classSupertypes_yields : ∀ c : Class,
    r.Yields P n (fun m ts => ∀ s ∈ ts, P m s) (r.classSupertypes c)
  | .named _ => declaredSupertypes_yields h hdecl rfl (h.nominal n _)
  | .primitive _ => .pure fun _ _ => nofun
  | .array c =>
      (classSupertypes_yields c).bind fun _ _ _ hts => .pure fun _ hle =>
        h.arraySupertypes fun s hs => h.mono hle (hts s hs)

theorem directSupertypes_yields : ∀ {t : Ty}, P n t →
    r.Yields P n (fun m ts => ∀ s ∈ ts, P m s) (r.directSupertypes t)
  | .nominal c, _ => classSupertypes_yields h hdecl c
  | .parameterized _ _ _, ht => declaredSupertypes_yields h hdecl rfl ht
  | .var v, _ => by
      refine (Yields.outcome fun _ _ =>
        Hereditary.getTypeParam_satisfies r.env.toDeclarations v).bind
          fun m p hle hp => .pure fun m' _ => ?_
      split
      · exact fun s hs => List.mem_singleton.1 hs ▸ h.top
      · exact fun s hs => h.mono (Nat.zero_le _) (hdecl.bounds hp s hs)
  | .wildcard upper lower, ht =>
      .pure fun m hle s hs => h.mono hle ((h.wildcard.1 ht).1 s hs)
  | .genericArray t, ht =>
      (directSupertypes_yields (h.component ht)).bind fun _ _ _ hts =>
        .pure fun _ hle => h.arraySupertypes fun s hs => h.mono hle (hts s hs)
  | .capture i, ht =>
      (captureDef_yields fun _ hle => h.mono hle ht).bind fun _ c _ hc =>
        .pure fun _ hle s hs =>
          h.mono hle ((CaptureDef.forall_types.1 hc).2.2.1 s hs)

omit hdecl in
theorem firstAnswer_yields {ask : Ty → Resolve (Option Ty)} :
    ∀ {n : Nat} {ts : List Ty},
      (∀ t ∈ ts, ∀ m, n ≤ m →
        r.Yields P m (fun m found => ∀ g ∈ found, P m g) (ask t)) →
      r.Yields P n (fun m found => ∀ g ∈ found, P m g) (firstAnswer ask ts)
  | _, [], _ => .pure fun _ _ => nofun
  | n, t :: ts, hask => by
      refine (hask t List.mem_cons_self n (Nat.le_refl n)).bind
        fun m found hle hfound => ?_
      cases found with
      | some g => exact .pure fun _ hle' g' hg' => h.mono hle' (hfound g' hg')
      | none =>
          exact firstAnswer_yields fun u hu m' hle' =>
            hask u (List.mem_cons_of_mem t hu) m' (Nat.le_trans hle hle')

theorem exactSupertype_yields (target : Class) :
    ∀ (depth : Nat) {n : Nat} {t : Ty}, P n t →
    r.Yields P n (fun m found => ∀ g ∈ found, P m g)
      (r.exactSupertype depth t target)
  | 0, _, _, _ => .outcome fun _ _ => trivial
  | depth + 1, n, t, ht => by
      refine (Yields.outcome (S := fun m (settled : Option (Option Ty)) =>
        ∀ found ∈ settled, ∀ g ∈ found, P m g) fun m hle =>
          Hereditary.settledBy (h.mono hle ht) target).bind
            fun m settled hle hsettled => ?_
      cases settled with
      | some found =>
          exact .pure fun _ hle' g hg => h.mono hle' (hsettled found rfl g hg)
      | none =>
          refine (directSupertypes_yields h hdecl (h.mono hle ht)).bind
            fun m ts _ hts => firstAnswer_yields h fun s hs m' hle' => ?_
          exact (emit_yields _).bind fun m'' _ hle'' _ =>
            exactSupertype_yields target depth
              (h.mono (Nat.le_trans hle' hle'') (hts s hs))

theorem typeArgument_yields (depth : Nat) (ht : P n t) (v : TypeVarId) :
    r.Yields P n (fun m found => ∀ g ∈ found, P m g)
      (r.typeArgument depth t v) := by
  refine (Yields.outcome fun _ _ =>
    Hereditary.getTypeParam_satisfies r.env.toDeclarations v).bind
      fun m p hle _ => ?_
  cases p.declaringClass with
  | none => exact .pure fun _ _ => nofun
  | some c =>
      refine (exactSupertype_yields h hdecl (.named c) depth
          (h.mono hle ht)).bind
        fun m' found _ hfound => ?_
      match found, hfound with
      | some (.parameterized id args owner), hfound =>
          obtain ⟨-, hargs⟩ := h.parameterized.1 (hfound _ rfl)
          refine (Yields.outcome fun _ _ =>
            Hereditary.getClass_satisfies r.env.toDeclarations c).bind
              fun m'' decl hle'' _ =>
                .pure fun m₃ hle₃ g hg => ?_
          obtain ⟨place, -, hplace⟩ := Option.bind_eq_some_iff.1 hg
          exact h.mono (Nat.le_trans hle'' hle₃)
            (hargs g (List.mem_of_getElem? hplace))
      | none, _ | some (.nominal _), _ | some (.var _), _
      | some (.wildcard _ _), _ | some (.genericArray _), _
      | some (.capture _), _ => exact .pure fun _ _ => nofun

omit h hdecl in
theorem collectEach_yields {step : Ty → List Class → Resolve (List Class)} :
    ∀ {n : Nat} {ts : List Ty},
      (∀ t ∈ ts, ∀ m, n ≤ m → ∀ found, r.YieldsBare P m (step t found)) →
      ∀ found, r.YieldsBare P n (collectEach step ts found)
  | _, [], _, found => .bare found
  | n, t :: _, hstep, found =>
      (hstep t List.mem_cons_self n (Nat.le_refl n) found).bind
        fun _ found hle _ =>
          collectEach_yields (fun u hu m' hle' =>
            hstep u (List.mem_cons_of_mem t hu) m'
              (Nat.le_trans hle hle')) found

theorem collectBounds_yields : ∀ (depth : Nat) {n : Nat} {t : Ty}, P n t →
    ∀ found, r.YieldsBare P n (r.collectBounds depth t found)
  | 0, _, _, _, _ => .outcome fun _ _ => trivial
  | depth + 1, n, t, ht, found => by
      have hbounds : r.YieldsBare P n (r.directSupertypes t >>= fun ts =>
          collectEach (r.collectBounds depth) ts found) :=
        (directSupertypes_yields h hdecl ht).bind fun m ts _ hts =>
          collectEach_yields (fun s hs m' hle' =>
            collectBounds_yields depth (h.mono hle' (hts s hs))) found
      cases t with
      | nominal _ | parameterized _ _ _ =>
          exact (Yields.outcome fun _ _ =>
              Hereditary.erase_satisfies r.env.toDeclarations _).bind
            fun _ _ _ _ => .bare _
      | var _ | wildcard _ _ | genericArray _ | capture _ => exact hbounds

/-! ## Comparisons -/

omit h hdecl in
theorem anyHolds_yields {test : α → Resolve Bool} : ∀ {n : Nat} {as : List α},
    (∀ a ∈ as, ∀ m, n ≤ m → r.YieldsBare P m (test a)) →
      r.YieldsBare P n (anyHolds test as)
  | _, [], _ => .bare false
  | n, a :: as, htest =>
      (htest a List.mem_cons_self n (Nat.le_refl n)).bind
        fun m holds hle _ => by
          cases holds with
          | true => exact .bare true
          | false =>
              exact anyHolds_yields fun b hb m' hle' =>
                htest b (List.mem_cons_of_mem a hb) m' (Nat.le_trans hle hle')

omit h hdecl in
theorem allHold_yields {test : α → Resolve Bool} : ∀ {n : Nat} {as : List α},
    (∀ a ∈ as, ∀ m, n ≤ m → r.YieldsBare P m (test a)) →
      r.YieldsBare P n (allHold test as)
  | _, [], _ => .bare true
  | n, a :: as, htest =>
      (htest a List.mem_cons_self n (Nat.le_refl n)).bind
        fun m holds hle _ => by
          cases holds with
          | true =>
              exact allHold_yields fun b hb m' hle' =>
                htest b (List.mem_cons_of_mem a hb) m' (Nat.le_trans hle hle')
          | false => exact .bare false

section

variable {isSup : Ty → Ty → Resolve Bool}
  (hsup : ∀ {n s t}, P n s → P n t → r.YieldsBare P n (isSup s t))

omit hdecl

include hsup

theorem containsBy_yields {outer inner : Ty} (houter : P n outer)
    (hinner : P n inner) : r.YieldsBare P n (containsBy isSup outer inner) := by
  cases outer with
  | wildcard upper lower =>
      obtain ⟨hupper, hlower⟩ := h.wildcard.1 houter
      refine (allHold_yields fun b hb m hle =>
        hsup (h.mono hle (hupper b hb)) (h.mono hle hinner)).bind
          fun m holds hle _ => ?_
      cases holds with
      | true =>
          exact allHold_yields fun b hb m' hle' =>
            hsup (h.mono (Nat.le_trans hle hle') hinner)
              (h.mono (Nat.le_trans hle hle') (hlower b hb))
      | false => exact .bare false
  | nominal _ | parameterized _ _ _ | var _ | genericArray _ | capture _ =>
      exact .bare _

theorem argumentsMatch_yields (id : ClassId) {args args' : List Ty}
    {owner owner' : Option Ty} (hargs : ∀ a ∈ args, P n a)
    (howner : ∀ o ∈ owner, P n o) (hargs' : ∀ a ∈ args', P n a)
    (howner' : ∀ o ∈ owner', P n o) :
    r.YieldsBare P n (argumentsMatch isSup id args owner args' owner') := by
  unfold argumentsMatch
  split
  · refine (allHold_yields fun pair hpair m hle => ?_).bind
      fun m holds hle _ => ?_
    · obtain ⟨hleft, hright⟩ := List.of_mem_zip hpair
      exact containsBy_yields h hsup (h.mono hle (hargs _ hleft))
        (h.mono hle (hargs' _ hright))
    · cases holds with
      | false => exact .bare false
      | true =>
          match owner, owner' with
          | some o, some o' =>
              exact hsup (h.mono hle (howner o rfl))
                (h.mono hle (howner' o' rfl))
          | none, _ | some _, none => exact .bare true
  · exact .fail rfl

theorem matchesView_yields {sup found : Ty} (ht : P n sup)
    (hfound : P n found) : r.YieldsBare P n (matchesView isSup sup found) := by
  unfold matchesView
  split
  · exact .bare true
  · exact .bare true
  · split
    · next component hcomponent =>
        refine hsup ?_ (h.component hfound)
        match sup, hcomponent with
        | .nominal (.array c), hcomponent =>
            obtain rfl := Option.some.inj hcomponent
            exact h.nominal n c
        | .genericArray s, hcomponent =>
            obtain rfl := Option.some.inj hcomponent
            exact h.component ht
    · exact .bare false
  · obtain ⟨howner, hargs⟩ := h.parameterized.1 ht
    obtain ⟨howner', hargs'⟩ := h.parameterized.1 hfound
    exact argumentsMatch_yields h hsup _ hargs howner hargs' howner'
  · exact .bare false

end

theorem isSupertype_yields :
    ∀ (depth : Nat) {n : Nat} {sup sub : Ty}, P n sup → P n sub →
    r.YieldsBare P n (r.isSupertype depth sup sub)
  | 0, _, _, _, _, _ => .outcome fun _ _ => trivial
  | depth + 1, n, sup, sub, hsup, hsub => by
      have ih : ∀ {n s t}, P n s → P n t →
          r.YieldsBare P n (r.isSupertype depth s t) :=
        isSupertype_yields depth
      cases sup with
      | nominal _ | parameterized _ _ _ | genericArray _ =>
          refine (Yields.outcome fun _ _ =>
            Hereditary.erase_satisfies r.env.toDeclarations _).bind
              fun m superClass hle _ => ?_
          refine (Yields.outcome fun _ _ =>
            Hereditary.settledByErasure _ sub superClass).bind
              fun m' settled hle' _ => ?_
          cases settled with
          | some answer => exact .bare answer
          | none =>
              have hle := Nat.le_trans hle hle'
              refine (capture_yields h hdecl (h.mono hle hsub)).bind
                fun m₁ captured hle₁ hcaptured => ?_
              refine (exactSupertype_yields h hdecl superClass depth
                  hcaptured).bind
                fun m₂ found hle₂ hfound => ?_
              cases found with
              | some view =>
                  exact matchesView_yields h ih
                    (h.mono (Nat.le_trans hle (Nat.le_trans hle₁ hle₂)) hsup)
                    (hfound view rfl)
              | none => exact .bare false
      | capture i =>
          unfold isSupertype
          dsimp only
          split
          · exact .bare true
          · refine (captureDef_yields fun _ hle => h.mono hle hsup).bind
              fun m c hle hc => ?_
            exact anyHolds_yields fun l hl m' hle' =>
              ih (h.mono hle' ((CaptureDef.forall_types.1 hc).2.2.2 l hl))
                (h.mono (Nat.le_trans hle hle') hsub)
      | var v =>
          have hbounds : r.YieldsBare P n
              (r.directSupertypes sub >>= fun bounds =>
                anyHolds (fun bound => r.isSupertype depth (.var v) bound)
                  bounds) :=
            (directSupertypes_yields h hdecl hsub).bind fun m ts hle hts =>
              anyHolds_yields fun s hs m' hle' =>
                ih (h.mono (Nat.le_trans hle hle') hsup)
                  (h.mono hle' (hts s hs))
          unfold isSupertype
          dsimp only
          split
          · exact .bare true
          · split
            · exact hbounds
            · exact hbounds
            · exact .bare false
      | wildcard _ _ => exact .fail rfl

end

end Resolver

end GenericTypes
