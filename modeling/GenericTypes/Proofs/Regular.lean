import GenericTypes.Proofs.Search

/-!
# Regular types

What a resolver is asked about in practice is more than complete: a wildcard
has an upper bound and at most one lower bound, and primitive types stand
neither as type arguments nor as bounds. Like completeness this is said of each
part, and it survives substitution by values that are regular and not primitive
themselves (`Regular.subst`), so a search that starts from a regular type never
leaves the regular types (`regular_above`).

The declarations have to be of the same forms, with nothing above the top type
(`Grounded`). Where every class is below the top type they are rooted as well;
an interface that declares no supertype is put there by the knob for it.
-/

namespace GenericTypes

open Relation

namespace Ty

/-- Whether the type is a primitive one; an array of primitives is not. -/
def isPrimitive : Ty → Bool
  | .nominal c => c.isPrimitive
  | .parameterized _ _ _ | .var _ | .wildcard _ _ | .genericArray _
  | .capture _ => false

/-- A wildcard has an upper bound and no more than one lower bound, and neither
arguments nor bounds are primitive. -/
def Documented : Ty → Prop
  | .parameterized _ args _ => ∀ a ∈ args, a.isPrimitive = false
  | .wildcard upper lower =>
      upper ≠ [] ∧ lower.length ≤ 1 ∧
        ∀ b ∈ upper ++ lower, b.isPrimitive = false
  | .nominal _ | .var _ | .genericArray _ | .capture _ => True

theorem exists_of_isVar {t : Ty} (ht : t.isVar = true) : ∃ v, t = .var v := by
  cases t with
  | var v => exact ⟨v, rfl⟩
  | nominal _ | parameterized _ _ _ | wildcard _ _ | genericArray _
  | capture _ => cases ht

theorem exists_of_isPrimitive {t : Ty} (ht : t.isPrimitive = true) :
    ∃ p, t = .primitive p := by
  cases t with
  | nominal c =>
      cases c with
      | primitive p => exact ⟨p, rfl⟩
      | named _ | array _ => cases ht
  | parameterized _ _ _ | var _ | wildcard _ _ | genericArray _ | capture _ =>
      cases ht

theorem isPrimitive_arrayOf (t : Ty) : t.arrayOf.isPrimitive = false := by
  cases t <;> rfl

theorem isPrimitive_subst {φ : TypeVarId → Ty} {t : Ty}
    (ht : t.isPrimitive = false)
    (hφ : ∀ v, t = .var v → (φ v).isPrimitive = false) :
    (t.subst φ).isPrimitive = false := by
  cases t with
  | var v => exact hφ v rfl
  | genericArray s => exact isPrimitive_arrayOf _
  | nominal _ | parameterized _ _ _ | wildcard _ _ | capture _ => exact ht

theorem Documented.subst {φ : TypeVarId → Ty} {t : Ty} (ht : t.Documented)
    (hvar : t.isVar = false)
    (hφ : ∀ v, .var v ∈ t.parts → (φ v).isPrimitive = false) :
    (t.subst φ).Documented := by
  have hprim : ∀ {s}, s ∈ t.parts → s.isPrimitive = false →
      (s.subst φ).isPrimitive = false :=
    fun hs hprim => isPrimitive_subst hprim fun v hv => hφ v (hv ▸ hs)
  cases t with
  | nominal _ | capture _ => trivial
  | var _ => cases hvar
  | genericArray s =>
      rw [Ty.subst]
      cases s.subst φ <;> trivial
  | wildcard upper lower =>
      obtain ⟨hne, hlen, hbounds⟩ := ht
      simp only [Ty.subst, substList_eq_map]
      refine ⟨by simpa using hne, by simpa using hlen, fun s hs => ?_⟩
      rw [← List.map_append] at hs
      obtain ⟨b, hb, rfl⟩ := List.mem_map.1 hs
      exact hprim (bound_mem_parts hb) (hbounds b hb)
  | parameterized id args owner =>
      simp only [Ty.subst, substList_eq_map]
      intro s hs
      obtain ⟨a, ha, rfl⟩ := List.mem_map.1 hs
      exact hprim (arg_mem_parts ha) (ht a ha)

end Ty

namespace Declarations

/-- A complete type whose parts are all of the documented forms. -/
structure Regular (d : Declarations) (captures : Nat) (t : Ty) : Prop where
  complete : d.Complete captures t
  documented : ∀ x ∈ t.parts, x.Documented

variable {d : Declarations} {n m : Nat} {t x : Ty} {φ : TypeVarId → Ty}

theorem Regular.part (h : d.Regular n t) (hx : x ∈ t.parts) : d.Regular n x :=
  ⟨h.complete.part hx, fun y hy => h.documented y (Ty.mem_parts_trans hy hx)⟩

theorem Regular.mono (h : d.Regular n t) (hle : n ≤ m) : d.Regular m t :=
  ⟨h.complete.mono hle, h.documented⟩

theorem Regular.owner {id : ClassId} {args : List Ty} {o : Ty}
    (h : d.Regular n (.parameterized id args (some o))) : d.Regular n o :=
  h.part Ty.owner_mem_parts

theorem Regular.arg {id : ClassId} {args : List Ty} {owner : Option Ty}
    (h : d.Regular n (.parameterized id args owner)) {a : Ty} (ha : a ∈ args) :
    d.Regular n a ∧ a.isPrimitive = false :=
  ⟨h.part (Ty.arg_mem_parts ha), h.documented _ (Ty.mem_parts_self _) a ha⟩

theorem Regular.bound {upper lower : List Ty}
    (h : d.Regular n (.wildcard upper lower)) {b : Ty}
    (hb : b ∈ upper ++ lower) : d.Regular n b ∧ b.isPrimitive = false :=
  ⟨h.part (Ty.bound_mem_parts hb),
    (h.documented _ (Ty.mem_parts_self _)).2.2 b hb⟩

theorem Regular.component (h : d.Regular n (.genericArray t)) : d.Regular n t :=
  h.part (Ty.component_mem_parts t)

theorem Regular.of_parts (hfits : d.Fits n t) (hdoc : t.Documented)
    (hparts : ∀ x ∈ t.parts, x = t ∨ d.Regular n x) : d.Regular n t := by
  refine ⟨fun x hx => ?_, fun x hx => ?_⟩
  · rcases hparts x hx with rfl | hx
    · exact hfits
    · exact hx.complete.fits
  · rcases hparts x hx with rfl | hx
    · exact hdoc
    · exact hx.documented x (Ty.mem_parts_self x)

theorem Regular.genericArray (h : d.Regular n t) :
    d.Regular n (.genericArray t) :=
  .of_parts trivial trivial fun _ hx =>
    (Ty.mem_parts_genericArray.1 hx).imp_right h.part

theorem regular_nominal {c : Class} (h : d.Defines c) :
    d.Regular n (.nominal c) :=
  .of_parts h trivial fun _ hx => .inl (List.mem_singleton.1 hx)

theorem regular_var {v : TypeVarId} (h : ∃ p, d.typeParam? v = some p) :
    d.Regular n (.var v) :=
  .of_parts h trivial fun _ hx => .inl (List.mem_singleton.1 hx)

theorem regular_capture {i : CaptureId} (h : i.index < n) :
    d.Regular n (.capture i) :=
  .of_parts h trivial fun _ hx => .inl (List.mem_singleton.1 hx)

theorem Regular.arrayOf (h : d.Regular n t) : d.Regular n t.arrayOf := by
  cases t with
  | nominal c => exact regular_nominal (c := .array c) h.complete.fits
  | parameterized _ _ _ | var _ | wildcard _ _ | genericArray _ | capture _ =>
      exact h.genericArray

theorem Regular.component? {k : Ty} (h : d.Regular n t)
    (hk : t.component? = some k) : d.Regular n k := by
  rcases Ty.component?_eq_some_iff.1 hk with ⟨c, rfl, rfl⟩ | rfl
  · exact regular_nominal h.complete.fits
  · exact h.component

/-- Substitution by regular values keeps a type regular. -/
theorem Regular.subst (h : d.Regular n t) (hle : n ≤ m)
    (hφ : ∀ v, .var v ∈ t.parts → d.Regular m (φ v) ∧
      (φ v).isPrimitive = false) :
    d.Regular m (t.subst φ) := by
  refine ⟨h.complete.subst hle fun v hv => (hφ v hv).1.complete, fun x hx => ?_⟩
  rcases Ty.mem_parts_subst hx with ⟨y, hy, hvar, rfl⟩ | ⟨v, hv, hx⟩
  · exact (h.documented y hy).subst hvar fun v hv =>
      (hφ v (Ty.mem_parts_trans hv hy)).2
  · exact (hφ v hv).1.documented x hx

/-- The values that a regular type gives along its chain are its arguments. -/
theorem Regular.chainValue {v : TypeVarId} {s : Ty} :
    ∀ {t : Ty}, d.Regular n t →
    d.chainValue t v = some s → d.Regular n s ∧ s.isPrimitive = false
  | .parameterized id args (some owner), h, hs => by
      rw [Declarations.chainValue, Option.or_eq_some_iff] at hs
      rcases hs with hs | ⟨-, hs⟩
      · exact Regular.chainValue h.owner hs
      · exact h.arg (Substitution.mem_of_lastValue hs).2
  | .parameterized id args none, h, hs => by
      rw [Declarations.chainValue] at hs
      exact h.arg (Substitution.mem_of_lastValue hs).2

/-- Nothing is declared above the top type. -/
def Topmost (d : Declarations) : Prop :=
  ∀ c, d.class? d.wellKnown.object = some c → c.supertypes = []

theorem Topmost.not_extends {parent : ClassId} (h : d.Topmost) :
    ¬ d.Extends d.wellKnown.object parent := by
  intro hext
  obtain ⟨c, hc⟩ := hext.source
  rw [Extends, superclasses, hc] at hext
  simp [ClassDecl.superclasses, h c hc] at hext

/-- Well-formed declarations in which the top type is an ordinary class with
nothing above it. Then the search among classes and arrays comes to its end. -/
structure Topped (d : Declarations) : Prop where
  wellFormed : d.WellFormed
  top : ∃ c, d.class? d.wellKnown.object = some c ∧ c.kind = .ordinary ∧
    c.supertypes = []

theorem Topped.topmost (h : d.Topped) : d.Topmost := by
  obtain ⟨c, hc, -, hsup⟩ := h.top
  intro c' hc'
  obtain rfl := Option.some.inj (hc.symm.trans hc')
  exact hsup

/-- Nothing is above the top type, and declared types are of the documented
forms. -/
structure Grounded (d : Declarations) : Prop where
  top : ∃ c, d.class? d.wellKnown.object = some c ∧ c.kind = .ordinary ∧
    c.supertypes = []
  supertypes : ∀ {id c}, d.class? id = some c →
    ∀ s ∈ c.supertypes, ∀ x ∈ s.parts, x.Documented
  bounds : ∀ v, ∀ b ∈ d.boundsOf v, (∀ x ∈ b.parts, x.Documented) ∧
    b.isPrimitive = false

/-- Every class is below the top type: the declarations put it there, or else
the knob for lone interfaces does. -/
structure Rooted (d : Declarations) : Prop extends Grounded d where
  superclass : ∀ {id c}, d.class? id = some c → c.kind = .ordinary →
    id ≠ d.wellKnown.object → c.supertypes ≠ []

/-- What a search needs of declarations to come to its end. -/
structure Founded (d : Declarations) : Prop where
  wellFormed : d.WellFormed
  grounded : d.Grounded

theorem Founded.topped (h : d.Founded) : d.Topped :=
  ⟨h.wellFormed, h.grounded.top⟩

end Declarations

namespace Resolver

open Declarations

variable {r : Resolver} {arena : Array CaptureDef}
  {n : Nat} {t via : Ty} {id : ClassId}

theorem regular_chainSubst (hvia : r.env.Regular n via) {v : TypeVarId}
    (hv : ∃ p, r.env.typeParam? v = some p) :
    r.env.Regular n (r.env.chainSubst via v) ∧
      (r.env.chainSubst via v).isPrimitive = false := by
  rw [chainSubst]
  cases hvalue : r.env.chainValue via v with
  | some s => exact hvia.chainValue hvalue
  | none => exact ⟨regular_var hv, rfl⟩

/-- A declared supertype seen through a regular type is regular. -/
theorem regular_seen {parent : ClassId} (hvia : r.env.Regular n via)
    (ht : r.env.Regular 0 t) (hparent : t.head? = some parent) :
    r.env.Regular n (seen r.env.toDeclarations via t) := by
  have hdef := (ht.complete.supplies hparent).isDefined
  unfold seen
  split
  · rw [erase_head hparent]
    exact regular_nominal (c := .named parent) hdef
  · exact ht.subst (Nat.zero_le n) fun v hv => regular_chainSubst hvia
      (ht.complete _ hv)

theorem regular_named (h : r.env.isDefined id) : r.env.Regular n (.named id) :=
  regular_nominal (c := .named id) h

theorem regular_seenSupertypes {c : ClassDecl} (h : r.env.WellFormed)
    (hground : r.env.Grounded) (hvia : r.env.Regular n via)
    (hc : r.env.class? id = some c) :
    ∀ s ∈ r.seenSupertypes c via, r.env.Regular n s := by
  intro s hs
  unfold seenSupertypes at hs
  split at hs
  · obtain rfl := List.mem_singleton.1 hs
    exact regular_named (h.known _ List.mem_cons_self)
  · obtain ⟨t, ht, rfl⟩ := List.mem_map.1 hs
    obtain ⟨hhead, hproper⟩ := h.supertypes hc t ht
    obtain ⟨parent, hparent⟩ := Option.isSome_iff_exists.1 hhead
    exact regular_seen hvia
      ⟨hproper.complete, hground.supertypes hc t ht⟩ hparent

theorem regular_arraySupertypes {ts : List Ty} (h : r.env.WellFormed)
    (hts : ∀ s ∈ ts, r.env.Regular n s) :
    ∀ s ∈ r.arraySupertypes ts, r.env.Regular n s := by
  intro s hs
  rcases List.mem_append.1 hs with hs | hs
  · obtain ⟨t, ht, rfl⟩ := List.mem_map.1 hs
    exact (hts t ht).arrayOf
  · obtain ⟨id, hid, rfl⟩ := List.mem_map.1 hs
    exact regular_named (h.known id hid)

theorem regular_classAbove (h : r.env.WellFormed) (hground : r.env.Grounded) :
    ∀ {c : Class} {ts : List Ty}, r.env.Defines c → r.classAbove c = .ok ts →
      ∀ s ∈ ts, r.env.Regular n s
  | .named id, ts, hdef, hts => by
      have ht := regular_named (n := n) hdef
      obtain ⟨c, hc, habove⟩ := exists_above_eq #[] h (.plain hdef)
      obtain rfl := Outcome.ok.inj (habove.symm.trans hts)
      exact regular_seenSupertypes h hground ht hc
  | .primitive _, ts, _, hts => by
      obtain rfl := Outcome.ok.inj hts
      exact fun s hs => absurd hs List.not_mem_nil
  | .array c, ts, hdef, hts => by
      obtain ⟨ts', hts', heq⟩ := Outcome.bind_eq_ok hts
      obtain rfl := Outcome.ok.inj heq
      exact regular_arraySupertypes h
        (regular_classAbove (c := c) h hground hdef hts')

/-- Supertypes of regular types are regular, in an arena whose bounds are. -/
theorem regular_above (h : r.env.WellFormed) (hground : r.env.Grounded)
    (harena : ∀ (i : Nat) c, arena[i]? = some c →
      ∀ u ∈ c.upper, r.env.Regular arena.size u)
    {ts : List Ty}
    (ht : r.env.Regular arena.size t) (hts : r.above arena t = .ok ts) :
    ∀ s ∈ ts, r.env.Regular arena.size s := by
  induction t using Ty.induct generalizing ts with
  | nominal c => exact regular_classAbove h hground ht.complete.fits hts
  | parameterized id args owner _ _ =>
      obtain ⟨c, hc, habove⟩ :=
        exists_above_eq arena h (ht.complete.supplies rfl)
      obtain rfl := Outcome.ok.inj (habove.symm.trans hts)
      exact regular_seenSupertypes h hground ht hc
  | var v =>
      obtain ⟨p, hp⟩ := ht.complete.fits
      obtain rfl := Outcome.ok.inj ((above_bounds arena hp).symm.trans hts)
      intro s hs
      split at hs
      · obtain rfl := List.mem_singleton.1 hs
        exact regular_named (h.known _ List.mem_cons_self)
      · replace hs := mem_boundsOf_iff.2 ⟨p, hp, hs⟩
        exact ⟨(h.bounds v s hs).complete.mono (Nat.zero_le _),
          (hground.bounds v s hs).1⟩
  | wildcard upper lower _ _ =>
      obtain rfl := Outcome.ok.inj hts
      exact fun s hs => (ht.bound (List.mem_append_left _ hs)).1
  | genericArray t ih =>
      obtain ⟨ts', hts', heq⟩ := Outcome.bind_eq_ok hts
      obtain rfl := Outcome.ok.inj heq
      exact regular_arraySupertypes h (ih ht.component hts')
  | capture i =>
      rw [above] at hts
      cases hc : arena[i.index]? with
      | some c =>
          rw [hc] at hts
          obtain rfl := Outcome.ok.inj hts
          exact harena i.index c hc
      | none => rw [hc] at hts; cases hts

/-- A resolver for which every class is below the top type: the declarations put
it there, or else the knob for lone interfaces does. -/
structure Covered (r : Resolver) : Prop where
  topped : r.env.Topped
  superclass : ∀ {id c}, r.env.class? id = some c → c.kind = .ordinary →
    id ≠ r.env.wellKnown.object → c.supertypes ≠ []
  implicitTop : r.config.implicitObjectSupertype = true
  noHostTest : r.env.hostTest = none

/-- A resolver as it is meant to be used: over well-formed and rooted
declarations, with no test of the host's own, and lone interfaces put below the
top type. -/
structure Standard (r : Resolver) : Prop where
  wellFormed : r.env.WellFormed
  rooted : r.env.Rooted
  implicitTop : r.config.implicitObjectSupertype = true
  noHostTest : r.env.hostTest = none

theorem Standard.covered (h : r.Standard) : r.Covered :=
  ⟨⟨h.wellFormed, h.rooted.top⟩, h.rooted.superclass,
    h.implicitTop, h.noHostTest⟩

/-- Only the top class has no direct supertypes. -/
theorem Covered.seenSupertypes_ne_nil (h : r.Covered) {c : ClassDecl}
    (hc : r.env.class? id = some c) (hne : id ≠ r.env.wellKnown.object)
    (via : Ty) : r.seenSupertypes c via ≠ [] := by
  unfold seenSupertypes
  split
  · exact List.cons_ne_nil _ _
  · next hcond =>
      intro hnil
      have hempty := List.map_eq_nil_iff.1 hnil
      cases hkind : c.kind with
      | ordinary => exact h.superclass hc hkind hne hempty
      | interface => simp [hempty, hkind, h.implicitTop] at hcond

theorem Standard.founded (h : r.Standard) : r.env.Founded :=
  ⟨h.wellFormed, h.rooted.toGrounded⟩

end Resolver

end GenericTypes
