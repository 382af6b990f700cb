import GenericTypes.Proofs.GroundTypes

/-!
# Subtyping of ground types is transitive

Of three ground types let the first be above the second and that above the
third. Assignability of classes is transitive, so the search from the third
finds a view for the first. It is not the view that the second led to: that one
is above the second type, and what the third has in the place of the second need
only match it. But what matches sees the same of what its class inherits, so the
view is above the third type as well (`above_of_matches`), and since that
inherits each generic class in one form, it is the one found
(`matches_of_class`). For arrays this holds of the components
(`matches_of_matches`).

What is declared has to keep the rule for owners that ground types keep. If a
declared supertype has an owner where ground types have none, the bindings of
that owner may hide those of the class, or else stand in for its own, and then a
ground type is no longer above what that supertype is declared for
(`comparable_not_above_leaf`).
-/

namespace GenericTypes

open Relation

namespace Resolver

open Resolve Declarations
open Ty (Chained Matches)

variable {r : Resolver} {arena : Array CaptureDef} {ctx ctx₁ ctx₂ : Context}
  {s t g k : Ty} {a b c : Class} {id : ClassId} {n : Nat}
  {carry : ClassId → Bool}

/-! ## Assignability is transitive -/

theorem assignable_trans (hhost : r.env.hostTest = none) (htop : r.env.Topmost)
    (hcapped : r.env.Capped) (hcb : r.env.assignable c b = true)
    (hba : r.env.assignable b a = true) : r.env.assignable c a = true := by
  induction a generalizing b c with
  | primitive p =>
      obtain rfl := eq_of_assignable_primitive hhost hba
      exact hcb
  | named id =>
      obtain ⟨mid, rfl, hmid⟩ := named_of_assignable hhost hba
      obtain ⟨target, rfl, htarget⟩ := named_of_assignable hhost hcb
      rw [assignable_named hhost]
      rcases htarget with rfl | hup
      · exact .inl rfl
      rcases hmid with rfl | hup'
      · obtain rfl | ⟨next, hnext, -⟩ := ReflTransGen.cases_head hup
        · exact .inl rfl
        · exact absurd hnext htop.not_extends
      · exact .inr (hup'.trans hup)
  | array a ih =>
      rcases cases_of_assignable_array hhost hba with
          ⟨mid, hmid, rfl⟩ | ⟨b, rfl, hba'⟩
      · obtain ⟨target, rfl, htarget⟩ := named_of_assignable hhost hcb
        have habove : target ∈ r.env.wellKnown.aboveArrays := by
          rcases htarget with rfl | hup
          · exact List.mem_cons_self
          · exact hcapped.closed hmid hup
        rw [Environment.assignable, hhost]
        exact List.contains_iff_mem.2 habove
      · rcases cases_of_assignable_array hhost hcb with
            ⟨target, htarget, rfl⟩ | ⟨c, rfl, hcb'⟩
        · rw [Environment.assignable, hhost]
          exact List.contains_iff_mem.2 htarget
        · exact (assignable_arrays hhost c a).trans (ih hcb' hba')

/-! ## Types of classes -/

section

variable (h : r.Lawful)

include h

/-- Chains of declared supertypes follow the declarations. -/
theorem tier_declared {c : ClassDecl} (hc : r.env.class? id = some c)
    (hs : s ∈ c.supertypes) : s.Chained r.env.Tier := by
  have hhoused := h.housed hc s hs
  have hraw : ∀ x ∈ s.parts, r.env.rawly x = false :=
    h.disciplined.neverRaw.classes hc s
      (List.mem_append_left _ (List.mem_append_left _ hs))
  obtain ⟨hhead, -⟩ := h.disciplined.wellFormed.supertypes hc s hs
  exact fun x hx => ⟨rawly_of_mem_chain hhead hhoused hraw x hx, hhoused x hx⟩

omit h in
/-- Nothing is above a type of the top class. -/
theorem not_directly_of_top (htopped : r.env.Topped)
    (ht : r.env.Supplies r.env.wellKnown.object t) :
    ¬ r.Directly arena t s := by
  rintro ⟨ts, hts, hs⟩
  obtain rfl := Outcome.ok.inj ((above_top htopped ht).symm.trans hts)
  cases hs

omit h in
theorem eq_of_above_top (htopped : r.env.Topped)
    (ht : r.env.Supplies r.env.wellKnown.object t)
    (hup : ReflTransGen (r.Directly arena) t s) : s = t := by
  obtain rfl | ⟨next, hnext, -⟩ := ReflTransGen.cases_head hup
  · rfl
  · exact absurd hnext (not_directly_of_top htopped ht)

omit h in
/-- So no type is above another of its class. -/
theorem eq_of_same_head (htopped : r.env.Topped) (ht : r.env.Supplies id t)
    (hg : ReflTransGen (r.Directly arena) t g)
    (hid : g.head? = some id) : g = t := by
  rcases reflTransGen_iff_eq_or_transGen.1 hg with rfl | hup
  · rfl
  obtain rfl :=
    eq_top_of_same_head htopped.wellFormed htopped.topmost ht hup hid
  obtain rfl := Option.some.inj hid
  exact eq_of_above_top htopped ht hg

omit h in
theorem not_inherits_top (htop : r.env.Topmost) :
    ¬ r.env.Inherits r.env.wellKnown.object g := by
  intro hg
  induction hg with
  | declared hc hs =>
      rw [htop _ hc] at hs
      cases hs
  | through _ _ _ _ ih => exact ih

/-- A condition on chains, which no raw class meets, holds of what is above a
type of a class if it holds of that and of what is declared; the top type
apart. -/
theorem chained_above {P : Ty → Prop} (hP : Ty.Stable P)
    (hraw : ∀ x, P x → r.env.rawly x = false)
    (hdeclared : ∀ {id c}, r.env.class? id = some c →
      ∀ s ∈ c.supertypes, s.Chained P)
    (ht : r.env.Supplies id t) (hchained : t.Chained P)
    (hg : ReflTransGen (r.Directly arena) t g) :
    g = r.env.top ∨ g.Chained P := by
  have hwf := h.disciplined.wellFormed
  rcases reflTransGen_iff_eq_or_transGen.1 hg with rfl | hg
  · exact .inr hchained
  have hnot := rawly_of_chained ht.head? (hchained.mono hraw)
  refine (ancestor_class hwf h.covered.topped.topmost ht hnot hg).imp_right ?_
  rintro ⟨g₀, hg₀, rfl⟩
  obtain ⟨hcomplete, parent, hparent⟩ := complete_inherited hwf hg₀
  exact (chained_inherited hwf hP hraw hdeclared hg₀).subst hP hcomplete
    (Option.isSome_iff_exists.2 ⟨parent, hparent⟩)

variable (hcarry : r.env.Uniform carry)

include hcarry

/-- Types of one class that match have the same types above them, of other
classes: what the class inherits is seen alike through both. -/
theorem above_of_matches {m : Ty} (ht : r.env.Ground carry t)
    (hu : r.env.Ground carry k) (hid : t.head? = some id) {last : ClassId}
    (hlast : k.head? = some last) (hm : ReflTransGen (r.Directly arena) k m)
    (hmid : m.head? = some id) (htm : Matches t m) {g₀ : Ty}
    (hg₀ : r.env.Inherits id g₀) :
    ReflTransGen (r.Directly arena) k (g₀.subst (r.env.chainSubst t)) := by
  have hwf := h.disciplined.wellFormed
  have hks := hu.complete.supplies hlast
  have hts := ht.complete.supplies hid
  have hms := (firm_above h hu.firm hm).complete.supplies hmid
  have hne : m ≠ r.env.top := by
    rintro rfl
    obtain rfl := Option.some.inj hmid
    exact not_inherits_top h.covered.topped.topmost hg₀
  have htier : m.Chained r.env.Tier :=
    (chained_above h tier_stable
      (fun _ => Tier.notRaw) (fun hc s hs => tier_declared h hc hs) hks
      (hu.chained.mono fun _ => And.left) hm).resolve_left hne
  have hshape : t.Chained (Carries carry) ∧ m.Chained (Carries carry) ∨
      r.env.Unshadowed := by
    refine hcarry.imp_left fun hcarry =>
      ⟨ht.chained.mono fun _ => And.right, ?_⟩
    have hboth :=
      (chained_above h (P := fun x => r.env.Tier x ∧ Carries carry x)
        (fun x φ hx hP => ⟨tier_stable x φ hx hP.1, carries_stable x φ hx hP.2⟩)
        (fun _ hP => hP.1.notRaw)
        (fun hc s hs x hx => ⟨tier_declared h hc hs x hx, hcarry hc s hs x hx⟩)
        hks hu.chained hm).resolve_left hne
    exact hboth.mono fun _ => And.right
  have hsame : g₀.subst (r.env.chainSubst t) = g₀.subst (r.env.chainSubst m) :=
    Ty.subst_congr fun v hv => chainSubst_of_matches hwf hts hms
      (ht.chained.mono fun _ => And.left) htier hshape htm
      (uses_of_inherited hwf hg₀ hv)
  have hraw := rawly_of_chained hmid (htier.mono fun _ => Tier.notRaw)
  rw [hsame]
  exact hm.trans (inherited_above hwf hms hraw hg₀).to_reflTransGen

/-- Where the view of the second type matches the first, and that of the third
the second, that of the third matches the first, if the class of the first takes
arguments. -/
theorem matches_of_class {u m g' : Ty} {v : TypeVarId} {mid last : ClassId}
    (hs : r.env.Ground carry s) (ht : r.env.Ground carry t)
    (hu : r.env.Ground carry u) (hv : r.env.InScope id v)
    (hid : s.head? = some id) (hmid : t.head? = some mid)
    (hlast : u.head? = some last) (hm : ReflTransGen (r.Directly arena) u m)
    (hmhead : m.head? = some mid) (htm : Matches t m)
    (hg : ReflTransGen (r.Directly arena) t g) (hghead : g.head? = some id)
    (hsg : Matches s g) (hg' : ReflTransGen (r.Directly arena) u g')
    (hghead' : g'.head? = some id) : Matches s g' := by
  have htopped := h.covered.topped
  have hwf := htopped.wellFormed
  have hts := ht.complete.supplies hmid
  have hus := hu.complete.supplies hlast
  have hrawt := rawly_of_chained hmid (ht.chained.mono fun _ hx => hx.1.notRaw)
  have hrawu := rawly_of_chained hlast (hu.chained.mono fun _ hx => hx.1.notRaw)
  have halike := h.disciplined.once hv
  -- types of one class: what the first accepts of the second, and that of the
  -- third
  have htrans : mid = id → g' = m → Matches s g' := by
    rintro rfl rfl
    obtain rfl := eq_of_same_head htopped hts hg hghead
    have hfirm := firm_above h hu.firm hg'
    exact matches_trans hwf hid hmid hghead' hs.complete.counted
      hfirm.complete.counted hs.firm.housed
      (ht.chained.mono fun _ => And.left) hfirm.housed
      (hs.chained.mono fun _ => And.right)
      (ht.chained.mono fun _ => And.right) hsg htm
  by_cases htop : last = r.env.wellKnown.object
  · -- nothing is above the third type
    subst htop
    obtain rfl := eq_of_above_top htopped hus hm
    obtain rfl := eq_of_above_top htopped hus hg'
    exact htrans (Option.some.inj (hmhead.symm.trans hghead')) rfl
  by_cases hsame : mid = id
  · subst hsame
    exact htrans rfl
      (eq_of_above hwf htopped.topmost halike htop hus hrawu hg' hm
        hghead' hmhead)
  have hstrict : TransGen (r.Directly arena) t g := by
    rcases reflTransGen_iff_eq_or_transGen.1 hg with rfl | hg
    · exact absurd (Option.some.inj (hmid.symm.trans hghead)) hsame
    · exact hg
  rcases ancestor_class hwf htopped.topmost hts hrawt hstrict with
      rfl | ⟨g₀, hg₀, rfl⟩
  · -- the first type is of the top class, of which nothing but the raw class
    -- is inherited
    obtain rfl := Option.some.inj hghead
    have hstrict' : TransGen (r.Directly arena) u g' := by
      rcases reflTransGen_iff_eq_or_transGen.1 hg' with rfl | hg'
      · exact absurd (Option.some.inj (hlast.symm.trans hghead')) htop
      · exact hg'
    obtain rfl := eq_top_of_strictly_above hwf htopped.topmost halike hus hrawu
      hstrict' hghead'
    exact .right s _
  · have hup := above_of_matches h hcarry ht hu hmid hlast hm hmhead htm hg₀
    obtain rfl := eq_of_above hwf htopped.topmost halike htop hus hrawu hg' hup
      hghead' hghead
    exact hsg

end

section

variable (h : r.Lawful)

include h

/-- Of a class that takes arguments only raw types are above all arrays. -/
theorem nominal_above_tops {v : TypeVarId} {top : ClassId}
    (htop : top ∈ r.env.wellKnown.aboveArrays) (hv : r.env.InScope id v)
    (hg : ReflTransGen (r.Directly arena) (.named top) g)
    (hid : g.head? = some id) : ∃ e, g = .nominal e := by
  have hwf := h.disciplined.wellFormed
  have htopmost := h.covered.topped.topmost
  have hsupplies : r.env.Supplies top (.named top) :=
    .plain (hwf.known top htop)
  rcases reflTransGen_iff_eq_or_transGen.1 hg with rfl | hg
  · exact ⟨_, rfl⟩
  rcases strictly_above_class hwf htopmost hsupplies hg with
      rfl | ⟨id', hid', hup⟩
  · exact ⟨_, rfl⟩
  obtain rfl := Option.some.inj (hid.symm.trans hid'.head?)
  have hobject : id = r.env.wellKnown.object := by
    obtain ⟨next, hnext, hup⟩ := TransGen.head'_iff.1 hup
    obtain rfl := h.tops top htop next hnext
    obtain rfl | ⟨_, hext, -⟩ := ReflTransGen.cases_head hup
    · rfl
    · exact absurd hext htopmost.not_extends
  subst hobject
  cases hraw : r.env.rawly (.named top) with
  | false =>
      exact ⟨_, eq_top_of_strictly_above hwf htopmost
        (h.disciplined.once hv) hsupplies hraw hg hid⟩
  | true =>
      obtain ⟨s, hs, hup⟩ := TransGen.head'_iff.1 hg
      have hs : s = r.env.top := by
        rcases of_directly_class hwf hsupplies hs with
            rfl | ⟨c, s₀, hc, hs₀, rfl⟩
        · rfl
        obtain ⟨hhead, -⟩ := hwf.supertypes hc s₀ hs₀
        obtain ⟨parent, hparent⟩ := Option.isSome_iff_exists.1 hhead
        have hext : r.env.Extends top parent := by
          rw [Declarations.Extends, superclasses, hc]
          exact List.mem_filterMap.2 ⟨s₀, hs₀, hparent⟩
        obtain rfl := h.tops top htop parent hext
        rw [seen, hraw, if_pos rfl, erase_head hparent]
        rfl
      subst hs
      exact ⟨_, eq_top_of_above hwf htopmost hup⟩

end

section

variable (h : r.Lawful) (hcarry : r.env.Uniform carry)

include h

/-! ## Arrays -/

/-- An array is above arrays only, its component being above theirs. -/
theorem array_above (ht : r.env.Firm n t)
    (hg : ReflTransGen (r.Directly arena) t g)
    (hgc : r.env.erase g = .ok (.array c)) : ∃ k y, t.component? = some k ∧
      g.component? = some y ∧ ReflTransGen (r.Directly arena) k y ∧
      r.env.erase y = .ok c := by
  have hwf := h.disciplined.wellFormed
  have hclass : ∀ {x id}, r.env.Supplies id x →
      ¬ ReflTransGen (r.Directly arena) x g := by
    intro x id hx hup
    obtain ⟨id', hid', -⟩ :=
      ancestor_of_class hwf h.covered.topped.topmost hx hup
    rw [erase_supplies hid'] at hgc
    cases hgc
  rcases ht.cases with ⟨p, rfl⟩ | ⟨id, hid⟩ | ⟨k, hk⟩
  · obtain rfl | ⟨s, hs, -⟩ := ReflTransGen.cases_head hg
    · cases hgc
    · exact absurd (isPrimitive_of_directly hs) Bool.noConfusion
  · exact absurd hg (hclass (ht.complete.supplies hid))
  · rcases above_array hk hg with ⟨y, hy, hcomponent⟩ | ⟨top, htop, hup⟩
    · obtain ⟨a, ha, heq⟩ := erase_array hcomponent hgc
      obtain rfl := Class.array.inj heq
      exact ⟨k, y, hk, hcomponent, hy, ha⟩
    · exact absurd hup (hclass (.plain (hwf.known top htop)))

include hcarry

/-- Of three ground types, where a view of the second matches the first and one
of the third the second, each view of the third that is of the class of the
first matches it. -/
theorem matches_of_matches {u m g' : Ty} (hs : r.env.Ground carry s)
    (ht : r.env.Ground carry t) (hu : r.env.Ground carry u)
    (hsc : r.env.erase s = .ok c) (htb : r.env.erase t = .ok b)
    (hm : ReflTransGen (r.Directly arena) u m) (hmb : r.env.erase m = .ok b)
    (htm : Matches t m) (hg : ReflTransGen (r.Directly arena) t g)
    (hgc : r.env.erase g = .ok c) (hsg : Matches s g)
    (hg' : ReflTransGen (r.Directly arena) u g')
    (hgc' : r.env.erase g' = .ok c) : Matches s g' := by
  induction s using Ty.component_induct generalizing t u m g g' b c with
  | plain s hplain =>
      cases s with
      | nominal e => exact .left e g'
      | parameterized id args owner =>
          obtain rfl := Outcome.ok.inj hsc
          have hfirm := firm_above h hu.firm hg'
          have hid' := hfirm.head? hgc'
          by_cases hv : ∃ v, r.env.InScope id v
          · obtain ⟨v, hv⟩ := hv
            rcases hu.firm.cases with ⟨p, rfl⟩ | ⟨last, hlast⟩ | ⟨k, hk⟩
            · obtain rfl | ⟨y, hy, -⟩ := ReflTransGen.cases_head hg'
              · cases hid'
              · exact absurd (isPrimitive_of_directly hy) Bool.noConfusion
            · -- the view of a type of a class is of a class, and so is what
              -- erases like it
              obtain ⟨mid, hmid, -⟩ :=
                ancestor_of_class h.disciplined.wellFormed
                  h.covered.topped.topmost (hu.complete.supplies hlast) hm
              obtain rfl :=
                Outcome.ok.inj ((erase_supplies hmid).symm.trans hmb)
              exact matches_of_class h hcarry hs ht hu hv rfl
                (ht.firm.head? htb) hlast hm hmid.head? htm hg
                ((firm_above h ht.firm hg).head? hgc) hsg hg' hid'
            · rcases above_array hk hg' with
                  ⟨y, -, hcomponent⟩ | ⟨top, htop, hup⟩
              · rw [Ty.component?_of_head? hid'] at hcomponent
                cases hcomponent
              · obtain ⟨e, rfl⟩ := nominal_above_tops h htop hv hup hid'
                exact .right _ e
          · exact matches_of_plain (fun v hv' => hv ⟨v, hv'⟩) rfl hid'
              hs.complete.counted hfirm.complete.counted
              hs.firm.housed hfirm.housed
      | genericArray _ => cases hplain
      | var _ | wildcard _ _ | capture _ =>
          exact absurd (hs.concrete _ (Ty.mem_parts_self _)) id
  | array s k hk ih =>
      obtain ⟨e, hke, rfl⟩ := erase_array hk hsc
      obtain ⟨j, y, hj, hy, hup, hye⟩ := array_above h ht.firm hg hgc
      obtain ⟨f, hjf, rfl⟩ := erase_array hj htb
      obtain ⟨i, z, hi, hz, hupz, hzf⟩ := array_above h hu.firm hm hmb
      obtain ⟨i', y', hi', hy', hup', hye'⟩ := array_above h hu.firm hg' hgc'
      obtain rfl := Option.some.inj (hi.symm.trans hi')
      refine (Ty.matches_component hk hy').2 ?_
      exact ih (hs.component? hk) (ht.component? hj)
        (hu.component? hi) hke hjf hupz hzf ((Ty.matches_component hj hz).1 htm)
        hup hye ((Ty.matches_component hk hy).1 hsg) hup' hye'

/-! ## The whole comparison -/

/-- Subtyping is transitive on ground types, whenever the three questions are
asked, if declared supertypes keep the rule for owners too: they are of the
classes around (`Lawful.housed`), and they are there for the same classes as in
the three types, unless no class lists a variable of a class around it
(`Uniform`). -/
theorem isSupertype_trans {u : Ty} (hs : r.env.Ground carry s)
    (ht : r.env.Ground carry t) (hu : r.env.Ground carry u)
    (hctx : r.Reachable ctx) (hctx₁ : r.Reachable ctx₁)
    (hctx₂ : r.Reachable ctx₂) (hst : r.Says ctx₁ s t true)
    (htu : r.Says ctx₂ t u true) : r.Says ctx s u true := by
  have hfree := h.disciplined.wellFormed.captureFree
  have h' := h.forgetting
  have hcapped : r.env.Capped := fun id hid parent hparent =>
    h.tops id hid parent hparent ▸ List.mem_cons_self
  -- what was found over another arena is there over this one
  have hmoves : ∀ {arena t g}, r.env.Ground carry t →
      ReflTransGen (r.forgetting.Directly arena) t g →
      ReflTransGen (r.forgetting.Directly ctx.captures) t g := fun ht hg =>
    (above_moves (fun ht => ht.rigid.1) (firm_directly h')
      ctx.captures ht.firm hg).2
  obtain ⟨c, b, hsc, htb, hcb, g, hg, hgc, hsg⟩ :=
    of_verdict h' rfl hs.firm ht.firm
      ((verdict_iff hfree hctx₁.sameButMemo).1 hst)
  obtain ⟨b', a, htb', hua, hba, m, hm, hmb, htm⟩ :=
    of_verdict h' rfl ht.firm hu.firm
      ((verdict_iff hfree hctx₂.sameButMemo).1 htu)
  obtain rfl := Outcome.ok.inj (htb.symm.trans htb')
  have hassign := assignable_trans h.covered.noHostTest h.covered.topped.topmost
    hcapped hcb hba
  refine (verdict_iff hfree hctx.sameButMemo).2
    (verdict_of_matches h' rfl hs.firm hu.firm hsc hua hassign
      fun g' hg' hgc' => ?_)
  exact matches_of_matches h' hcarry hs ht hu hsc htb (hmoves hu hm) hmb htm
    (hmoves ht hg) hgc hsg hg' hgc'

end

end Resolver

namespace TypeStore

open Declarations

namespace Seed

/-- `Outer<String>.Inner`. -/
def innerOfString : Ty :=
  .parameterized (free 1) [] (some (applied (free 0) [.named string]))

/-- `class Outer<T>` with the member class `Inner implements Comparable<T>`, and
`class Leaf extends Outer<String>.Inner`. -/
def leafEdits : List Edit :=
  [ .addTypeParam "T" [],
    .addClass (classDecl "p.Outer" [2] (.named object) [] [] []),
    .addClass
      { classDecl "p.Outer$Inner" [] (.named object) [applied comparable [tv 2]]
          [] [] with
        enclosing := some (free 0) },
    .addClass (classDecl "p.Leaf" [] innerOfString [] [] []) ]

end Seed

/-- The core package and a class below a member class. -/
def leaves : TypeStore := core.applyAll Seed.leafEdits

theorem leaves_disciplined : leaves.toDeclarations.Disciplined :=
  disciplined_of_slots (n := 5) (wellFormed_of_inOrder ClassId.index
    (by decide) (by decide) (by decide)) (by decide) (by decide) (by decide)

theorem leaves_rooted : leaves.toDeclarations.Rooted :=
  rooted_of_slots ⟨_, rfl, rfl, rfl⟩ (by decide) (by decide)

theorem leaves_lawful : leaves.resolver.Lawful where
  covered := Resolver.Standard.covered ⟨leaves_disciplined.wellFormed,
    leaves_rooted, rfl, rfl⟩
  disciplined := leaves_disciplined
  tops := by decide
  housed := fun hc => forall_class (d := leaves.toDeclarations)
    (P := fun _ c => ∀ s ∈ c.supertypes, s.Chained leaves.toDeclarations.Housed)
    (by decide) hc

/-- `Comparable<String>[]` is above `Outer<String>.Inner[]`, and that above
`Leaf[]`. -/
theorem comparableArray_above_leafArray :
    (leaves.resolver.isSupertype 6
      (.genericArray (Seed.applied Seed.comparable [.named Seed.string]))
      (.genericArray Seed.innerOfString) .empty).1 = .ok true ∧
    (leaves.resolver.isSupertype 6 (.genericArray Seed.innerOfString)
      (.nominal (.array (.named (Seed.free 2)))) .empty).1 = .ok true ∧
    ∃ depth, (leaves.resolver.isSupertype depth
      (.genericArray (Seed.applied Seed.comparable [.named Seed.string]))
      (.nominal (.array (.named (Seed.free 2)))) .empty).1 = .ok true := by
  have huniform : leaves.toDeclarations.Uniform fun id => id = Seed.free 1 :=
    .inl fun hc => forall_class (d := leaves.toDeclarations)
      (P := fun _ c => ∀ s ∈ c.supertypes,
        s.Chained (Carries fun id => id = Seed.free 1))
      (by decide) hc
  have hst : (leaves.resolver.isSupertype 6
      (.genericArray (Seed.applied Seed.comparable [.named Seed.string]))
      (.genericArray Seed.innerOfString) .empty).1 = .ok true := rfl
  have htu : (leaves.resolver.isSupertype 6 (.genericArray Seed.innerOfString)
      (.nominal (.array (.named (Seed.free 2)))) .empty).1 = .ok true := rfl
  exact ⟨hst, htu, Resolver.isSupertype_trans leaves_lawful huniform
    (by decide) (by decide) (by decide) .start .start .start ⟨6, hst⟩ ⟨6, htu⟩⟩

namespace Seed

/-- `Comparable<String>`. -/
def comparableOfString : Ty := applied comparable [.named string]

/-- `class Outer<T>` with the member class `Inner<T> implements Comparable<T>`,
which lists the same variable, and
`class Leaf extends Outer<Integer>.Inner<String>`. -/
def relistedEdits : List Edit :=
  [ .addTypeParam "T" [],
    .addClass (classDecl "p.Outer" [2] (.named object) [] [] []),
    .addClass
      { classDecl "p.Outer$Inner" [2] (.named object)
          [applied comparable [tv 2]] [] [] with
        enclosing := some (free 0) },
    .addClass (classDecl "p.Leaf" []
      (.parameterized (free 1) [.named string]
        (some (applied (free 0) [.named integer]))) [] [] []) ]

/-- `P<Integer>.P<String>`, of a class `P` that no class is around. -/
def ownedByItself : Ty :=
  .parameterized (free 0) [.named string]
    (some (applied (free 0) [.named integer]))

/-- `class P<U> implements Comparable<U>` and `class Leaf extends
P<Integer>.P<String>`. -/
def ownedByItselfEdits : List Edit :=
  [ .addTypeParam "U" [],
    .addClass (classDecl "p.P" [2] (.named object)
      [applied comparable [tv 2]] [] []),
    .addClass (classDecl "p.Leaf" [] ownedByItself [] [] []) ]

end Seed

/-- The core package and a member class that lists the variable of its outer
class. -/
def relisted : TypeStore := core.applyAll Seed.relistedEdits

/-- The core package and a class below a type whose owner is of no class
around. -/
def misowned : TypeStore := core.applyAll Seed.ownedByItselfEdits

theorem relisted_disciplined : relisted.toDeclarations.Disciplined :=
  disciplined_of_slots (n := 5) (wellFormed_of_inOrder ClassId.index (by decide)
    (by decide) (by decide)) (by decide) (by decide) (by decide)

theorem misowned_disciplined : misowned.toDeclarations.Disciplined :=
  disciplined_of_slots (n := 5) (wellFormed_of_inOrder ClassId.index (by decide)
    (by decide) (by decide)) (by decide) (by decide) (by decide)

theorem relisted_lawful : relisted.resolver.Lawful where
  covered := Resolver.Standard.covered ⟨relisted_disciplined.wellFormed,
    rooted_of_slots ⟨_, rfl, rfl, rfl⟩ (by decide) (by decide), rfl, rfl⟩
  disciplined := relisted_disciplined
  tops := by decide
  housed := fun hc => forall_class (d := relisted.toDeclarations)
    (P := fun _ c => ∀ s ∈ c.supertypes,
      s.Chained relisted.toDeclarations.Housed)
    (by decide) hc

theorem misowned_covered : misowned.resolver.Covered :=
  Resolver.Standard.covered ⟨misowned_disciplined.wellFormed,
    rooted_of_slots ⟨_, rfl, rfl, rfl⟩ (by decide) (by decide), rfl, rfl⟩

theorem misowned_unshadowed : misowned.toDeclarations.Unshadowed := by
  rintro id outer v ⟨c, hc, henc⟩ - -
  have hnone : c.enclosing = none := forall_class (d := misowned.toDeclarations)
    (P := fun _ c => c.enclosing = none) (by decide) hc
  rw [hnone] at henc
  cases henc

/-- `Comparable<String>` is above `Inner<String>`, and that above `Leaf`, but
`Comparable<String>` is not above `Leaf` where the bindings of an owner that
only the declared supertype has hide those of `Inner`; nor is it where the
declared supertype has an owner that is not of the class around. -/
theorem comparable_not_above_leaf :
    (relisted.resolver.Lawful ∧
      (∀ t ∈ [Seed.comparableOfString,
          Seed.applied (Seed.free 1) [.named Seed.string],
          .named (Seed.free 2)],
        relisted.toDeclarations.Ground (fun _ => false) t) ∧
      relisted.resolver.Says .empty Seed.comparableOfString
        (Seed.applied (Seed.free 1) [.named Seed.string]) true ∧
      relisted.resolver.Says .empty
        (Seed.applied (Seed.free 1) [.named Seed.string])
        (.named (Seed.free 2)) true ∧
      relisted.resolver.Says .empty Seed.comparableOfString
        (.named (Seed.free 2)) false) ∧
    (misowned.resolver.Covered ∧ misowned.toDeclarations.Disciplined ∧
      (∀ id ∈ misowned.toDeclarations.wellKnown.aboveArrays,
        ∀ parent ∈ misowned.toDeclarations.superclasses id,
          parent = Seed.object) ∧
      misowned.toDeclarations.Unshadowed ∧
      (∀ t ∈ [Seed.comparableOfString,
          Seed.applied (Seed.free 0) [.named Seed.string],
          .named (Seed.free 1)],
        misowned.toDeclarations.Ground (fun _ => false) t) ∧
      misowned.resolver.Says .empty Seed.comparableOfString
        (Seed.applied (Seed.free 0) [.named Seed.string]) true ∧
      misowned.resolver.Says .empty
        (Seed.applied (Seed.free 0) [.named Seed.string])
        (.named (Seed.free 1)) true ∧
      misowned.resolver.Says .empty Seed.comparableOfString
        (.named (Seed.free 1)) false) :=
  ⟨⟨relisted_lawful, by decide, ⟨6, rfl⟩, ⟨6, rfl⟩, ⟨6, rfl⟩⟩,
    ⟨misowned_covered, misowned_disciplined, by decide, misowned_unshadowed,
      by decide, ⟨6, rfl⟩, ⟨6, rfl⟩, ⟨6, rfl⟩⟩⟩

end TypeStore

end GenericTypes
