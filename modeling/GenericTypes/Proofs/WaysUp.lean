import GenericTypes.Proofs.ExactSupertypes
import GenericTypes.Proofs.MemberShapes
import GenericTypes.Proofs.Scoping

/-!
# Every way up ends

From a type its direct supertypes lead up, from those theirs, and so on. Nothing
that gets smaller on the way is plain to see. A class leads to its parents, an
array to arrays of what its component leads to, a wildcard to its bounds, a
variable to bounds of any shape, and a capture to bounds that mention what was
put in for other variables, captures opened after it included.

So the ways up are taken kind by kind. Those of classes end since the hierarchy
has no circles, whatever the arguments; the edges from lone interfaces to the
top class, which nobody declares, close none as long as the top class does not
lead to such an interface (`Limited.parent_acyclic`). Those of an array end with
those of its component, and those of a wildcard with those of its bounds, so
that a type comes down to the variables and captures that are left when array
brackets and wildcards are taken off it (`Ty.Core`). Variables end by a rank of
their own.

For captures the order in which they came about matters. An arena is made of
levels (`Layered`), and a level is made of types that mention only what was
there before it. Ways up from old types stay as they were. A new capture leads
to bounds of its wildcard, which are old, and to declared bounds of its
variable, where a variable is given an old type or the new capture opened for
it; and that one belongs to a variable of smaller rank, wherever it stands among
its siblings (`halts_level`).
-/

namespace GenericTypes

open Relation

namespace Ty

/-- The type `x` is `t` itself, or is left when array brackets are taken off `t`
and upper bounds taken for wildcards. -/
inductive Core : Ty → Ty → Prop
  | self (t : Ty) : Core t t
  | component {t x : Ty} : Core t x → Core (.genericArray t) x
  | upper {upper lower : List Ty} {b x : Ty} : b ∈ upper → Core b x →
      Core (.wildcard upper lower) x

theorem Core.mem_parts {t x : Ty} (h : t.Core x) : x ∈ t.parts := by
  induction h with
  | self t => exact mem_parts_self t
  | component _ ih => exact mem_parts_genericArray.2 (.inr ih)
  | upper hb _ ih => exact mem_parts_wildcard.2 (.inr (.inl ⟨_, hb, ih⟩))

theorem Core.element_eq {t x : Ty} (h : t.Core x)
    (ht : t.element.isWildcard = false) : x.element = t.element := by
  induction h with
  | self t => rfl
  | component _ ih => exact ih ht
  | upper _ _ _ => cases ht

theorem core_element : ∀ t : Ty, t.Core t.element
  | .genericArray t => .component (core_element t)
  | .nominal _ | .parameterized _ _ _ | .var _ | .wildcard _ _ | .capture _ =>
      .self _

end Ty

namespace Declarations

variable {d : Declarations}

/-- A bound of the variable `v` leads to the variable `w`, looking through
arrays and wildcards. -/
def LeadsTo (d : Declarations) (v w : TypeVarId) : Prop :=
  ∃ b ∈ d.boundsOf v, b.Core (.var w)

theorem BoundedBy.leadsTo {v w : TypeVarId} (h : d.BoundedBy v w) :
    d.LeadsTo v w := by
  obtain ⟨b, hb, helement⟩ := h
  exact ⟨b, hb, helement ▸ b.core_element⟩

/-- Where no bound is a wildcard, bounds lead to variables by way of arrays
only. -/
theorem WellFormed.boundedBy_of_leadsTo (h : d.WellFormed) {v w : TypeVarId}
    (hvw : d.LeadsTo v w) : d.BoundedBy v w := by
  obtain ⟨b, hb, hcore⟩ := hvw
  exact ⟨b, hb, (hcore.element_eq (h.bounds v b hb).element.notWildcard).symm⟩

/-- The hierarchy leads from the class to an interface that is declared under
nothing. -/
def LeadsToLone (d : Declarations) (id : ClassId) : Prop :=
  ∃ lone c, ReflTransGen d.Extends id lone ∧ d.class? lone = some c ∧
    c.kind = .interface ∧
    c.supertypes = []

theorem LeadsToLone.of_leads {id id' : ClassId} (h : d.LeadsToLone id')
    (hup : ReflTransGen d.Extends id id') : d.LeadsToLone id := by
  obtain ⟨lone, c, hup', hlone⟩ := h
  exact ⟨lone, c, hup.trans hup', hlone⟩

theorem wellFounded_leadsTo (h : ∀ v, ¬ TransGen d.LeadsTo v v) :
    WellFounded fun w v => d.LeadsTo v w := by
  obtain ⟨rank, -, hrank⟩ := exists_rank d.typeVarIds
    (fun _ _ ⟨_, hb, _⟩ => (mem_boundsOf_iff.1 hb).elim fun _ hp =>
      mem_typeVarIds hp.1) h
  exact wellFounded_of_rank hrank

end Declarations

namespace Resolver

open Declarations

variable {r : Resolver} {arena later : Array CaptureDef}
  {t s : Ty} {id : ClassId}

/-- The class `parent` is directly above the class `id` as the resolver sees it:
it is declared so, or the resolver puts interfaces declared under nothing below
the top class. -/
inductive Parent (r : Resolver) (id parent : ClassId) : Prop
  | declared (h : r.env.Extends id parent) : Parent r id parent
  | implicit (htop : r.config.implicitObjectSupertype = true)
    (h : r.env.Under id parent) :
      Parent r id parent

theorem Parent.under {parent : ClassId} (h : r.Parent id parent) :
    r.env.Under id parent := by
  cases h with
  | declared h => exact .declared h
  | implicit _ h => exact h

/-- An edge is declared, or goes from an interface that is declared under
nothing to the top class. -/
theorem Parent.cases {parent : ClassId} (h : r.Parent id parent) :
    r.env.Extends id parent ∨ r.config.implicitObjectSupertype = true ∧
      parent = r.env.wellKnown.object ∧
        ∃ c, r.env.class? id = some c ∧ c.kind = .interface ∧
          c.supertypes = [] := by
  rcases h with hext | ⟨htop, hext | ⟨hc, hkind, hnone⟩⟩
  · exact .inl hext
  · exact .inl hext
  · exact .inr ⟨htop, rfl, _, hc, hkind, hnone⟩

/-- What the declared hierarchy does not lead to is reached from the top class,
by way of an interface that is declared under nothing. -/
theorem parents_iff {id' : ClassId} : ReflTransGen r.Parent id id' ↔
    ReflTransGen r.env.Extends id id' ∨
        r.config.implicitObjectSupertype = true ∧
      r.env.LeadsToLone id ∧
      ReflTransGen r.env.Extends r.env.wellKnown.object id' := by
  constructor
  · intro hup
    induction hup using ReflTransGen.head_induction_on with
    | refl => exact .inl .refl
    | @head id mid hparent _ ih =>
        rcases hparent.cases with hext | ⟨htop, rfl, c, hc⟩
        · exact ih.imp (.head hext) fun ⟨htop, hlone, hup⟩ =>
            ⟨htop, hlone.of_leads (.single hext), hup⟩
        -- the first implicit edge shows the interface, and the last one the way
        -- on
        · exact .inr ⟨htop, ⟨id, c, .refl, hc⟩,
            ih.elim (·) fun ⟨_, _, hup⟩ => hup⟩
  · have hdeclared : ∀ {id id'}, ReflTransGen r.env.Extends id id' →
        ReflTransGen r.Parent id id' := fun hup =>
      ReflTransGen.mono (fun _ _ => .declared) _ _ hup
    rintro (hup | ⟨htop, ⟨lone, c, hlone, hc, hkind, hnone⟩, hup⟩)
    · exact hdeclared hup
    · have himplicit : r.Parent lone r.env.wellKnown.object :=
        .implicit htop (.implicit hc hkind hnone)
      exact ((hdeclared hlone).tail himplicit).trans (hdeclared hup)

/-- Declarations in which no way up goes in a circle: classes are declared under
classes, no class is declared above itself or encloses itself, and no variable
leads back to itself by its bounds. While lone interfaces are put below the top
class, that must not lead up to one, or be one: this edge too would close a
circle. Nothing is said about names that lead nowhere, or about the number and
scope of arguments. -/
structure Limited (r : Resolver) : Prop where
  captureFree : r.env.CaptureFree
  supertypes : ∀ {id c}, r.env.class? id = some c →
    ∀ s ∈ c.supertypes, s.head?.isSome
  hierarchy : ∀ id, ¬ TransGen r.env.Extends id id
  top : r.config.implicitObjectSupertype = true →
    ¬ r.env.LeadsToLone r.env.wellKnown.object
  nesting : ∀ id, ¬ TransGen r.env.EnclosedBy id id
  bounding : ∀ v, ¬ TransGen r.env.LeadsTo v v

/-- So no class is above itself as the resolver sees it: a circle through an
implicit edge would lead from the top class to a lone interface. -/
theorem Limited.parent_acyclic (h : r.Limited) (id : ClassId) :
    ¬ TransGen r.Parent id id := by
  intro hid
  obtain ⟨mid, hparent, hup⟩ := TransGen.head'_iff.1 hid
  rcases hparent.cases with hext | ⟨htop, rfl, c, hc⟩
  · rcases parents_iff.1 hup with hup | ⟨htop, hlone, hup⟩
    · exact h.hierarchy id (.head' hext hup)
    · exact h.top htop (hlone.of_leads (hup.tail hext))
  · rcases parents_iff.1 hup with hup | ⟨-, hlone, -⟩
    · exact h.top htop ⟨id, c, hup, hc⟩
    · exact h.top htop hlone

/-- Declarations in order, with nothing above the top class, are a case of
it. -/
theorem Ascending.limited (h : r.Ascending) : r.Limited where
  captureFree := h.wellFormed.captureFree
  supertypes := fun hc s hs => (h.wellFormed.supertypes hc s hs).1
  hierarchy := h.wellFormed.hierarchy
  top := by
    rintro - ⟨lone, c, hup, hc, hkind, hnone⟩
    have hup' : ReflTransGen r.env.Under r.env.wellKnown.object lone :=
      ReflTransGen.mono (fun _ _ => .declared) _ _ hup
    exact h.acyclic _ (.tail' hup' (.implicit hc hkind hnone))
  nesting := h.wellFormed.nesting
  bounding := fun v hv => h.wellFormed.bounding v
    (TransGen.mono (fun _ _ => h.wellFormed.boundedBy_of_leadsTo) v v hv)

/-- Every way up from the type ends. -/
def Halts (r : Resolver) (arena : Array CaptureDef) (t : Ty) : Prop :=
  Acc (fun s t => r.Directly arena t s) t

/-! ## Classes -/

theorem head?_of_substituteThrough {via : Ty} {own : List TypeVarId}
    (hid : t.head? = some id) (hs : r.substituteThrough t via own = .ok s) :
    s.head? = some id := by
  have hresolve : ∀ σ : Substitution,
        (liftM (σ.resolve t) : Outcome Ty) = .ok s →
      s.head? = some id := by
    intro σ hσ
    cases hres : σ.resolve t with
    | error e => rw [hres] at hσ; cases hσ
    | ok u =>
        rw [hres] at hσ
        obtain rfl := Outcome.ok.inj hσ
        rw [Substitution.eq_subst_of_resolve hres]
        exact Ty.head?_subst hid _
  cases via with
  | nominal c =>
      obtain ⟨raw, -, hrest⟩ := Outcome.bind_eq_ok hs
      cases raw with
      | false => exact hresolve _ hrest
      | true =>
          obtain ⟨c, hc, hrest⟩ := Outcome.bind_eq_ok hrest
          obtain rfl := Outcome.ok.inj ((erase_head hid).symm.trans hc)
          obtain rfl := Outcome.ok.inj hrest
          rfl
  | parameterized _ _ _ =>
      obtain ⟨σ, -, hrest⟩ := Outcome.bind_eq_ok hs
      exact hresolve σ hrest
  | var _ | wildcard _ _ | genericArray _ | capture _ => cases hs

/-- A type of a class leads to types of the classes directly above. -/
theorem exists_parent (h : r.Limited) (hid : t.head? = some id)
    (hs : r.Directly arena t s) :
    ∃ parent, r.Parent id parent ∧ s.head? = some parent := by
  obtain ⟨ts, hts, hs⟩ := hs
  rw [above_of_head hid] at hts
  obtain ⟨c, hget, hrest⟩ := Outcome.bind_eq_ok hts
  obtain ⟨declared, hdeclared, hrest⟩ := Outcome.bind_eq_ok hrest
  have hc : r.env.class? id = some c := class?_of_getClass hget
  split at hrest
  · next hlone =>
      simp only [Bool.and_eq_true, List.isEmpty_iff, decide_eq_true_eq] at hlone
      obtain ⟨⟨rfl, hkind⟩, htop⟩ := hlone
      obtain rfl := Outcome.ok.inj hrest
      have hnone : c.supertypes = [] := by
        cases hsup : c.supertypes with
        | nil => rfl
        | cons u us =>
            rw [hsup] at hdeclared
            obtain ⟨_, -, hdeclared⟩ := Outcome.bind_eq_ok hdeclared
            obtain ⟨_, -, hdeclared⟩ := Outcome.bind_eq_ok hdeclared
            cases hdeclared
      exact ⟨_, .implicit htop (.implicit hc hkind hnone),
        List.mem_singleton.1 hs ▸ rfl⟩
  · obtain rfl := Outcome.ok.inj hrest
    obtain ⟨u, hu, hus⟩ := mem_of_substituteAll hdeclared hs
    obtain ⟨parent, hparent⟩ :=
      Option.isSome_iff_exists.1 (h.supertypes hc u hu)
    refine ⟨parent, .declared ?_, head?_of_substituteThrough hparent hus⟩
    rw [Extends, superclasses, hc]
    exact List.mem_filterMap.2 ⟨u, hu, hparent⟩

theorem halts_class (h : r.Limited) (hid : t.head? = some id) :
    r.Halts arena t := by
  obtain ⟨rank, -, hrank⟩ := exists_rank r.env.classIds
    (fun _ _ hparent => hparent.under.source.elim fun _ => mem_classIds)
    h.parent_acyclic
  induction id using (wellFounded_of_rank hrank).induction generalizing t with
  | h id ih =>
      refine .intro t fun s hs => ?_
      obtain ⟨parent, hparent, hhead⟩ := exists_parent h hid hs
      exact ih parent hparent hhead

theorem halts_top (h : r.Limited) : r.Halts arena r.env.top := halts_class h rfl

/-! ## Arrays, wildcards and variables -/

/-- Ways up from an array end if those from its component do, in both
spellings. -/
theorem Halts.array (h : r.Limited) (ht : r.Halts arena t) :
    r.Halts arena t.arrayOf ∧ r.Halts arena (.genericArray t) := by
  induction ht with
  | @intro t _ ih =>
      have hup : ∀ {ts}, r.above arena t = .ok ts → ∀ s ∈ r.arraySupertypes ts,
          r.Halts arena s := by
        intro ts hts s hs
        rcases List.mem_append.1 hs with hs | hs
        · obtain ⟨u, hu, rfl⟩ := List.mem_map.1 hs
          exact (ih u ⟨ts, hts, hu⟩).1
        · obtain ⟨top, -, rfl⟩ := List.mem_map.1 hs
          exact halts_class h rfl
      have hgeneric : r.Halts arena (.genericArray t) := by
        refine .intro _ fun s ⟨ts, hts, hs⟩ => ?_
        obtain ⟨us, hus, hrest⟩ := Outcome.bind_eq_ok hts
        obtain rfl := Outcome.ok.inj hrest
        exact hup hus s hs
      refine ⟨?_, hgeneric⟩
      cases t with
      | nominal c =>
          refine .intro _ fun s ⟨ts, hts, hs⟩ => ?_
          obtain ⟨us, hus, hrest⟩ := Outcome.bind_eq_ok hts
          obtain rfl := Outcome.ok.inj hrest
          exact hup hus s hs
      | parameterized _ _ _ | var _ | wildcard _ _ | genericArray _
      | capture _ => exact hgeneric

theorem halts_nominal (h : r.Limited) : ∀ c : Class, r.Halts arena (.nominal c)
  | .named _ => halts_class h rfl
  | .primitive _ => .intro _ fun s ⟨ts, hts, hs⟩ => by
      obtain rfl := Outcome.ok.inj hts
      cases hs
  | .array c => ((halts_nominal h c).array h).1

theorem halts_wildcard {upper lower : List Ty}
    (hupper : ∀ b ∈ upper, r.Halts arena b) :
    r.Halts arena (.wildcard upper lower) := by
  refine .intro _ fun s ⟨ts, hts, hs⟩ => ?_
  obtain rfl := Outcome.ok.inj hts
  exact hupper s hs

/-- Ways up from a type end if those from the variables and captures at its core
do. -/
theorem halts_of_core (h : r.Limited)
    (hvar : ∀ v, t.Core (.var v) → r.Halts arena (.var v))
    (hcapture : ∀ i, t.Core (.capture i) → r.Halts arena (.capture i)) :
    r.Halts arena t := by
  induction t using Ty.induct with
  | nominal c => exact halts_nominal h c
  | parameterized _ _ _ _ _ => exact halts_class h rfl
  | var v => exact hvar v (.self _)
  | wildcard upper lower ihupper _ =>
      exact halts_wildcard fun b hb =>
        ihupper b hb (fun v hv => hvar v (.upper hb hv)) fun i hi => hcapture i
          (.upper hb hi)
  | genericArray t ih =>
      exact ((ih (fun v hv => hvar v (.component hv))
        fun i hi => hcapture i (.component hi)).array h).2
  | capture i => exact hcapture i (.self _)

/-- A type without captures ends with values put in, if the values for the
variables at its core do. -/
theorem halts_subst (h : r.Limited) (hplain : t.mentionsCapture = false)
    {φ : TypeVarId → Ty} (hφ : ∀ v, t.Core (.var v) → r.Halts arena (φ v)) :
    r.Halts arena (t.subst φ) := by
  have hcore : ∀ i, ¬ t.Core (.capture i) :=
    fun i hi => Ty.capture_notMem_parts hplain hi.mem_parts
  clear hplain
  induction t using Ty.induct with
  | nominal c => exact halts_nominal h c
  | parameterized _ _ _ _ _ => exact halts_class h rfl
  | var v => exact hφ v (.self _)
  | wildcard upper lower ihupper _ =>
      rw [Ty.subst, Ty.substList_eq_map]
      refine halts_wildcard fun b hb => ?_
      obtain ⟨u, hu, rfl⟩ := List.mem_map.1 hb
      exact ihupper u hu (fun v hv => hφ v (.upper hu hv)) fun i hi => hcore i
        (.upper hu hi)
  | genericArray t ih =>
      exact ((ih (fun v hv => hφ v (.component hv)) fun i hi => hcore i
        (.component hi)).array h).1
  | capture i => exact absurd (.self _) (hcore i)

theorem mentionsCapture_boundsOf (h : r.Limited) {v : TypeVarId} :
    ∀ b ∈ r.env.boundsOf v, b.mentionsCapture = false := by
  intro b hb
  obtain ⟨p, hp, hb⟩ := mem_boundsOf_iff.1 hb
  exact h.captureFree.bounds hp b hb

/-- Bounds lead to variables of smaller rank. -/
theorem halts_var (h : r.Limited) (v : TypeVarId) : r.Halts arena (.var v) := by
  induction v using (wellFounded_leadsTo h.bounding).induction with
  | h v ih =>
      refine .intro _ fun s ⟨ts, hts, hs⟩ => ?_
      obtain ⟨p, hget, hrest⟩ := Outcome.bind_eq_ok hts
      obtain rfl := Outcome.ok.inj hrest
      split at hs
      · exact List.mem_singleton.1 hs ▸ halts_top h
      · have hp : r.env.typeParam? v = some p := typeParam?_of_getTypeParam hget
        have hbound : s ∈ r.env.boundsOf v := mem_boundsOf_iff.2 ⟨p, hp, hs⟩
        refine halts_of_core h (fun w hw => ih w ⟨s, hbound, hw⟩) fun i hi => ?_
        exact absurd hi.mem_parts
          (Ty.capture_notMem_parts (mentionsCapture_boundsOf h s hbound))

/-! ## Types of an arena -/

/-- If ways up from the captures of an arena end, so do those from any type over
it. -/
theorem halts_scoped (h : r.Limited)
    (hcapture : ∀ i < arena.size, r.Halts arena (.capture ⟨i⟩))
    (ht : t.Scoped arena.size) : r.Halts arena t :=
  halts_of_core h (fun v _ => halts_var h v) fun i hi => hcapture i.index
    (ht _ hi.mem_parts)

theorem classAbove_scoped (h : r.Limited) (n : Nat) : ∀ c : Class,
    (r.classAbove c).Satisfies (Ty.Scoped n) fun ts => ∀ s ∈ ts, s.Scoped n
  | .named id =>
      Ty.scoped_hereditary.freshSupertypes h.captureFree.throughout id
        (Ty.scoped_hereditary.nominal n _) nofun
  | .primitive _ => nofun
  | .array c =>
      (classAbove_scoped h n c).bind fun _ hts =>
        Ty.scoped_hereditary.arraySupertypes hts

/-- The types directly above a type over an arena are over the arena. -/
theorem above_scoped (h : r.Limited) (hstored : Stored Ty.Scoped arena) :
    ∀ {t : Ty}, t.Scoped arena.size →
      (r.above arena t).Satisfies (Ty.Scoped arena.size) fun ts => ∀ s ∈ ts,
        s.Scoped arena.size
  | .nominal c, _ => classAbove_scoped h _ c
  | .parameterized id _ _, ht =>
      Ty.scoped_hereditary.freshSupertypes h.captureFree.throughout id ht nofun
  | .var v, _ => by
      refine (Hereditary.getTypeParam_satisfies r.env.toDeclarations v).bind
        fun p hp => ?_
      show ∀ s ∈ (if p.upperBounds.isEmpty then [r.env.top] else p.upperBounds),
        s.Scoped arena.size
      split
      · exact fun s hs => List.mem_singleton.1 hs ▸ Ty.scoped_hereditary.top
      · exact fun s hs => Ty.scoped_of_plain (h.captureFree.bounds hp s hs)
  | .wildcard upper lower, ht => (Ty.scoped_hereditary.wildcard.1 ht).1
  | .genericArray t, ht =>
      (above_scoped h hstored (Ty.scoped_hereditary.component ht)).bind
        fun _ hts => Ty.scoped_hereditary.arraySupertypes hts
  | .capture i, ht => by
      rw [above]
      cases hc : arena[i.index]? with
      | some c =>
          exact (CaptureDef.forall_types.1
            (hstored c (Array.mem_of_getElem? hc))).2.2.1
      | none => exact fun s hs => List.mem_singleton.1 hs ▸ ht

theorem scoped_of_directly (h : r.Limited) (hstored : Stored Ty.Scoped arena)
    (ht : t.Scoped arena.size) (hs : r.Directly arena t s) :
    s.Scoped arena.size := by
  obtain ⟨ts, hts, hs⟩ := hs
  have habove := above_scoped h hstored ht
  rw [hts] at habove
  exact habove s hs

/-- What is directly above a type over an arena stays what it is when captures
are added. -/
theorem above_later (hgrows : Grows arena later) :
    ∀ {t : Ty}, t.Scoped arena.size →
    r.above later t = r.above arena t
  | .nominal _, _ | .parameterized _ _ _, _ | .var _, _ | .wildcard _ _, _ =>
      rfl
  | .genericArray t, ht => by
      rw [above, above, above_later hgrows (Ty.scoped_hereditary.component ht)]
  | .capture i, ht => by
      have hi : i.index < arena.size := ht _ (Ty.mem_parts_self _)
      have hc := Array.getElem?_eq_getElem hi
      rw [above, above, hc, hgrows _ _ hc]

theorem halts_later (h : r.Limited) (hstored : Stored Ty.Scoped arena)
    (hgrows : Grows arena later) (hhalts : r.Halts arena t)
    (ht : t.Scoped arena.size) : r.Halts later t := by
  induction hhalts with
  | @intro t _ ih =>
      refine .intro t fun s hs => ?_
      have hs : r.Directly arena t s := by
        obtain ⟨ts, hts, hs⟩ := hs
        exact ⟨ts, (above_later hgrows ht).symm.trans hts, hs⟩
      exact ih s hs (scoped_of_directly h hstored ht hs)

/-! ## A level, and all levels -/

/-- An entry that a level adds leads to the top type, or to old types and
declared bounds of its variable with values put in. -/
theorem halts_entry (h : r.Limited) {φ : TypeVarId → Ty} {i : Nat}
    {w : TypeVarId × Wildcard}
    (hentry : later[i]? = some (r.settled φ w) ∨ later[i]? = some (r.opened w))
    (hwildcard : ∀ b ∈ w.2.upper, r.Halts later b)
    (hvalue : ∀ v, r.env.LeadsTo w.1 v → r.Halts later (φ v)) :
    r.Halts later (.capture ⟨i⟩) := by
  refine .intro _ fun s ⟨ts, hts, hs⟩ => ?_
  rcases hentry with hentry | hentry
  · rw [above, hentry] at hts
    obtain rfl := Outcome.ok.inj hts
    rcases mem_mergeBounds hs with hs | hs | rfl
    · obtain ⟨b, hb, rfl⟩ := List.mem_map.1 hs
      exact halts_subst h (mentionsCapture_boundsOf h b hb)
        fun v hv => hvalue v ⟨b, hb, hv⟩
    · exact hwildcard s hs
    · exact halts_top h
  · rw [above, hentry] at hts
    obtain rfl := Outcome.ok.inj hts
    exact List.mem_singleton.1 hs ▸ halts_top h

/-- If ways up end over an arena, so they do once a level of types over it is
added. -/
theorem halts_level (h : r.Limited) (hstored : Stored Ty.Scoped arena)
    (hhalts : ∀ t : Ty, t.Scoped arena.size → r.Halts arena t)
    {vs : List TypeVarId} {σ : Substitution} {args : List Ty}
    (hσ : σ.Within (Ty.Scoped arena.size))
    (hargs : ∀ a ∈ args, a.Scoped arena.size)
    (hadds : r.AddsLevel (σ.bindZip vs (numberWildcards arena.size args)).apply
      (wildcardsFor vs args) arena later) :
    ∀ t : Ty, t.Scoped later.size → r.Halts later t := by
  have hold : ∀ t : Ty, t.Scoped arena.size → r.Halts later t := fun t ht =>
    halts_later h hstored hadds.grows (hhalts t ht) ht
  -- on the variable that a capture is opened for
  have hnew : ∀ v j w, (wildcardsFor vs args)[j]? = some (v, w) →
      r.Halts later (.capture ⟨arena.size + j⟩) := by
    intro v
    induction v using (wellFounded_leadsTo h.bounding).induction with
    | h v ih =>
        intro j w hj
        refine halts_entry h (w := (v, w)) (hadds.entry hj) ?_ ?_
        · intro b hb
          obtain ⟨-, hmem⟩ := mem_wildcardsFor (List.mem_of_getElem? hj)
          exact hold b ((Ty.scoped_hereditary.wildcard.1 (hargs _ hmem)).1 b hb)
        · intro u hu
          rcases apply_origin σ arena.size vs args u with
            ⟨harg, -⟩ | ⟨k, w', heq, hk⟩ | hvalue | heq
          · exact hold _ (hargs _ harg)
          · rw [heq]
            exact ih u hu k w' hk
          · exact hold _ (hσ u _ hvalue)
          · rw [heq]
            exact halts_var h u
  refine fun t ht => halts_scoped h (fun i hi => ?_) ht
  by_cases hlt : i < arena.size
  · exact hold _ (Ty.scoped_hereditary.capture hlt)
  · obtain ⟨j, rfl⟩ : ∃ j, i = arena.size + j := ⟨i - arena.size, by omega⟩
    have hlength := hadds.size_eq
    have hj : j < (wildcardsFor vs args).length := by omega
    exact hnew _ j _ (List.getElem?_eq_getElem hj)

/-- The types in the arena mention captures of it only, and all ways up end over
it. -/
structure HaltsOver (r : Resolver) (arena : Array CaptureDef) : Prop where
  stored : Stored Ty.Scoped arena
  halts : ∀ {t : Ty}, t.Scoped arena.size → r.Halts arena t

theorem haltsOver_empty (h : r.Limited) : r.HaltsOver #[] where
  stored := fun c hc => absurd hc (Array.not_mem_empty c)
  halts := halts_scoped h fun i hi => absurd hi (Nat.not_lt_zero i)

/-- It stays so with levels of types over the arena added. -/
theorem HaltsOver.layered (h : r.Limited) (hover : r.HaltsOver arena)
    (hlayered : r.Layered Ty.Scoped arena later) : r.HaltsOver later := by
  induction hlayered with
  | refl => exact hover
  | @level ctx id args owner _ hargs howner ih =>
      obtain ⟨vs, σ, hσ, hadds⟩ :=
        captureLevel_adds Ty.scoped_hereditary (r := r) howner
      exact ⟨stored_level Ty.scoped_hereditary h.captureFree.throughout hadds
        ih.stored hargs (within_level Ty.scoped_hereditary hσ hargs
          (Nat.le_of_eq hadds.size_eq.symm)),
        fun {t} => halts_level h ih.stored (fun _ => ih.halts) hσ hargs hadds t⟩

/-- So it is with a type over the arena captured. -/
theorem HaltsOver.captured (h : r.Limited) (hover : r.HaltsOver arena)
    {ctx' : Context} {q : Ty} (ht : t.Scoped arena.size)
    (hcapture : r.capture t ⟨arena, [], #[]⟩ = (.ok q, ctx')) :
    r.HaltsOver ctx'.captures := by
  obtain ⟨hlayered, -, -⟩ :=
    capture_yields Ty.scoped_hereditary h.captureFree.throughout ht
      ⟨arena, [], #[]⟩ (Nat.le_refl _) ⟨hover.stored, memoSound_nil r⟩
  rw [hcapture] at hlayered
  exact hover.layered h hlayered

/-- So it is wherever requests lead that mention captures of the moment only. -/
theorem ReachedWith.haltsOver (h : r.Limited) {ctx : Context}
    (hctx : r.ReachedWith Ty.Scoped ctx) : r.HaltsOver ctx.captures :=
  (haltsOver_empty h).layered h
    (hctx.layered Ty.scoped_hereditary h.captureFree.throughout)

end Resolver

end GenericTypes
