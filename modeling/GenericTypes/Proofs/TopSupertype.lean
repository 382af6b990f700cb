import GenericTypes.Proofs.CompleteArenas
import GenericTypes.Proofs.SearchEnds

/-!
# What is below the top type

A class, an applied class, a variable or an array is below the top type
outright: from each of them a way leads up to the top class, and a type on it
that is none of the four is passed over. A capture has only its bounds to show,
and a wildcard too, and among bounds there may be primitive types, from where
nothing leads up. So a comparison of the top type with any complete type ends,
and its answer is yes just where some way up meets a type of those four forms
(`isSupertype_top`).

Two things are needed for the search to end without a failure. Every way up
ends, by what bounds what; and wherever it passes, names are known and arguments
are as many as they should be, since the arena holds complete types only.
-/

namespace GenericTypes

open Relation

/-- A class, an applied class, a variable or an array. A wildcard or a capture
is a reference type by way of its bounds only, and a primitive type is none. -/
def Ty.isReference : Ty → Bool
  | .nominal c => !c.isPrimitive
  | .parameterized _ _ _ | .var _ | .genericArray _ => true
  | .wildcard _ _ | .capture _ => false

namespace Resolver

open Resolve Declarations

variable {r : Resolver} {arena : Array CaptureDef}
  {t s : Ty} {n : Nat} {id : ClassId}

theorem isReference_of_supplies {d : Declarations} (ht : d.Supplies id t) :
    t.isReference = true := by
  cases ht <;> rfl

/-- What has an erasure is of a class or an array, or it is primitive. -/
theorem isReference_of_erasure? {a : Class}
    (ha : r.env.erasure? t = .ok (some a)) :
    t.isReference = !t.isPrimitive := by
  cases t with
  | nominal _ | parameterized _ _ _ | genericArray _ => rfl
  | var _ | wildcard _ _ | capture _ => cases ha

theorem isReference_of_proper {d : Declarations} (ht : d.Proper 0 t)
    (hprim : t.isPrimitive = false) : t.isReference = true := by
  cases t with
  | nominal c =>
      rw [Ty.isReference, show c.isPrimitive = false from hprim]
      rfl
  | parameterized _ _ _ | var _ | genericArray _ => rfl
  | wildcard _ _ => exact absurd ht.notWildcard Bool.noConfusion
  | capture _ => exact absurd ht.complete.fits (Nat.not_lt_zero _)

/-! ## Ways up to the top class -/

/-- Some way up from the type meets a reference type, or it is one. -/
def MeetsReference (r : Resolver) (arena : Array CaptureDef) (t : Ty) : Prop :=
  ∃ s, ReflTransGen (r.Directly arena) t s ∧ s.isReference = true

theorem not_meetsReference_primitive (p : Primitive) :
    ¬ r.MeetsReference arena (.primitive p) := by
  rintro ⟨s, hup, href⟩
  rcases ReflTransGen.cases_head hup with rfl | ⟨_, hs, -⟩
  · cases href
  · exact Bool.noConfusion (isPrimitive_of_directly hs)

/-- For a type with an erasure that is to say it is not primitive. -/
theorem meetsReference_erased {a : Class}
    (ht : r.env.erasure? t = .ok (some a)) :
    r.MeetsReference arena t ↔ t.isPrimitive = false := by
  cases hprim : t.isPrimitive with
  | true =>
      obtain ⟨p, rfl⟩ := Ty.exists_of_isPrimitive hprim
      exact iff_of_false (not_meetsReference_primitive p) Bool.noConfusion
  | false =>
      have href : t.isReference = true := by
        rw [isReference_of_erasure? ht, hprim]
        rfl
      exact iff_of_true ⟨t, .refl, href⟩ rfl

section

variable (h : r.Covered)
  (hbounds : ∀ v, ∀ b ∈ r.env.boundsOf v, b.isPrimitive = false)

include h hbounds

/-- Below the top class, a reference type has one directly above it. -/
theorem exists_reference_above {ts : List Ty} (ht : r.env.Complete n t)
    (href : t.isReference = true) (hne : t.head? ≠ some r.env.wellKnown.object)
    (habove : r.above arena t = .ok ts) : ∃ s ∈ ts, s.isReference = true := by
  have hclass : ∀ {id}, t.head? = some id → ∃ s ∈ ts, s.isReference = true := by
    intro id hid
    have hsupplies := ht.supplies hid
    obtain ⟨c, hc, habove'⟩ :=
      exists_above_eq arena h.topped.wellFormed hsupplies
    obtain rfl := Outcome.ok.inj (habove'.symm.trans habove)
    have hfar : id ≠ r.env.wellKnown.object :=
      fun heq => hne (hid.trans (congrArg some heq))
    obtain ⟨s, hs⟩ :=
      List.exists_mem_of_ne_nil _ (h.seenSupertypes_ne_nil hc hfar t)
    refine ⟨s, hs, ?_⟩
    obtain ⟨⟨_, -, hparent⟩ | ⟨rfl, -⟩, -⟩ :=
      of_mem_seenSupertypes h.topped.wellFormed hsupplies hc hs
    · exact isReference_of_supplies hparent
    · rfl
  -- the top type is directly above every array
  have harray : ∀ {k}, t.component? = some k →
      ∃ s ∈ ts, s.isReference = true := by
    intro k hk
    rw [above_component hk] at habove
    obtain ⟨ks, -, heq⟩ := Outcome.bind_eq_ok habove
    obtain rfl := Outcome.ok.inj heq
    exact ⟨r.env.top, List.mem_append_right _
      (List.mem_map_of_mem List.mem_cons_self), rfl⟩
  cases t with
  | nominal c =>
      cases c with
      | named id => exact hclass rfl
      | primitive _ => cases href
      | array _ => exact harray rfl
  | parameterized id _ _ => exact hclass rfl
  | var v =>
      obtain ⟨s, rest, habove', hmem⟩ := above_declared arena ht.fits
      obtain rfl := Outcome.ok.inj (habove'.symm.trans habove)
      refine ⟨s, List.mem_cons_self, ?_⟩
      rcases hmem s List.mem_cons_self with rfl | hs
      · rfl
      · exact isReference_of_proper (h.topped.wellFormed.bounds v s hs)
          (hbounds v s hs)
  | genericArray _ => exact harray rfl
  | wildcard _ _ | capture _ => cases href

/-- Below the top class, some way up meets a reference type just where one from
something directly above does. -/
theorem meetsReference_iff {ts : List Ty} (ht : r.env.Complete n t)
    (hne : t.head? ≠ some r.env.wellKnown.object)
    (habove : r.above arena t = .ok ts) :
    r.MeetsReference arena t ↔ ∃ s ∈ ts, r.MeetsReference arena s := by
  constructor
  · rintro ⟨s', hup, href⟩
    rcases ReflTransGen.cases_head hup with rfl | ⟨s, ⟨ts', habove', hs⟩, hup⟩
    · obtain ⟨s, hs, href'⟩ :=
        exists_reference_above h hbounds ht href hne habove
      exact ⟨s, hs, s, .refl, href'⟩
    · obtain rfl := Outcome.ok.inj (habove'.symm.trans habove)
      exact ⟨s, hs, s', hup, href⟩
  · rintro ⟨s, hs, s', hup, href⟩
    exact ⟨s', .head ⟨ts, habove, hs⟩ hup, href⟩

/-- From a complete type whose ways up end, the search for the top class ends,
and it finds a view just where some way up meets a reference type. -/
theorem find_top_iff (hstored : r.StoredComplete arena)
    (hhalts : r.Halts arena t) (ht : r.env.Complete arena.size t) :
    ∃ depth found, r.find arena depth t
        (.named r.env.wellKnown.object) = .ok found ∧
      (found.isSome = true ↔ r.MeetsReference arena t) := by
  induction hhalts with
  | @intro t _ ih =>
      obtain ⟨o, ho⟩ := erasure?_ok (r := r) fun hready =>
        h.topped.wellFormed.erase_ok ht hready
      cases hprim : t.isPrimitive with
      | true =>
          obtain ⟨p, rfl⟩ := Ty.exists_of_isPrimitive hprim
          exact ⟨1, _, find_primitive h.noHostTest arena p _,
            iff_of_false Bool.noConfusion (not_meetsReference_primitive p)⟩
      | false =>
          by_cases hhere : o = some (.named r.env.wellKnown.object)
          · subst hhere
            exact ⟨1, some t, find_self ho 0,
              iff_of_true rfl ((meetsReference_erased ho).2 hprim)⟩
          have hne : t.head? ≠ some r.env.wellKnown.object := fun hid =>
            hhere (Outcome.ok.inj (ho.symm.trans (erasure?_head hid)))
          obtain ⟨ts, habove, hcomplete⟩ :=
            complete_above h.topped.wellFormed hstored ht
          obtain ⟨depth, hdepth⟩ := exists_common_depth
            (fun hle ⟨found, hfound, hiff⟩ =>
              ⟨found, find_mono hle hfound, hiff⟩)
            fun s hs => ih s ⟨ts, habove, hs⟩ (hcomplete s hs)
          obtain ⟨found, hfirst, hiff⟩ := firstFound_iff hdepth
          have hsettled := settledBy_top h.noHostTest hprim ho hhere
          exact ⟨depth + 1, found,
            (find_succ hsettled habove depth).trans hfirst,
            hiff.trans (meetsReference_iff h hbounds ht hne habove).symm⟩

end

/-! ## The top type as a supertype -/

/-- An arena over which a search from a complete type neither fails nor goes on
for ever: it holds complete types only, and all ways up end. -/
structure Searchable (r : Resolver) (arena : Array CaptureDef) : Prop where
  stored : r.StoredComplete arena
  ends : r.HaltsOver arena

/-- Requests about complete types lead to such arenas. -/
theorem ReachedWith.searchable (h : r.Ascending) {ctx : Context}
    (hctx : r.ReachedWith (fun n t => r.env.Complete n t) ctx) :
    r.Searchable ctx.captures :=
  ⟨(hctx.complete h.wellFormed).1,
    (hctx.mono scoped_of_complete).haltsOver h.limited⟩

theorem Searchable.forgetting (harena : r.Searchable arena) :
    r.forgetting.Searchable arena := by
  refine ⟨harena.stored, harena.ends.stored, fun ht => ?_⟩
  have hhalts : Acc (fun s t => r.Directly arena t s) _ := harena.ends.halts ht
  rwa [← r.forgetting_alike.directly] at hhalts

theorem meetsReference_forgetting :
    r.forgetting.MeetsReference arena t ↔ r.MeetsReference arena t := by
  unfold MeetsReference
  rw [r.forgetting_alike.directly]

/-- Comparing the top type with a complete type has an answer and captures
nothing. The answer is yes just where some way up meets a reference type. -/
theorem answers_top (h : r.Ascending)
    (hbounds : ∀ v, ∀ b ∈ r.env.boundsOf v, b.isPrimitive = false)
    (hplain : r.config.memoizeSupertypes = false) (harena : r.Searchable arena)
    (ht : r.env.Complete arena.size t) :
    ∃ n b, Answers arena (r.isSupertype n r.env.top t) b ∧
      (b = true ↔ r.MeetsReference arena t) := by
  have herase : r.env.erase r.env.top = .ok (.named r.env.wellKnown.object) :=
    rfl
  obtain ⟨o, ho⟩ := erasure?_ok (r := r) fun hready =>
    h.wellFormed.erase_ok ht hready
  cases o with
  | some a =>
      -- what has an erasure is below the top type unless it is primitive
      have hsettled : r.settledByErasure r.env.top t
            (.named r.env.wellKnown.object) =
          .ok (some !t.isPrimitive) := by
        cases hprim : t.isPrimitive with
        | false =>
            exact settledByErasure_nominal ho
              (assignable_top h.noHostTest (not_primitive_of_erasure? hprim ho))
        | true =>
            obtain ⟨p, rfl⟩ := Ty.exists_of_isPrimitive hprim
            obtain rfl := Option.some.inj (Outcome.ok.inj ho)
            refine settledByErasure_refused ho
              (Bool.eq_false_iff.2 fun hassign => ?_)
            cases eq_of_assignable_primitive h.noHostTest hassign
      refine ⟨1, !t.isPrimitive, fun ctx hctx => ⟨ctx, ?_, hctx⟩, ?_⟩
      · exact isSupertype_settled rfl herase hsettled 0 ctx
      · rw [meetsReference_erased ho, Bool.not_eq_true']
  | none =>
      obtain ⟨n, found, hfound, hiff⟩ :=
        find_top_iff h.covered hbounds harena.stored
          (harena.ends.halts (scoped_of_complete ht)) ht
      refine ⟨n + 1, found.isSome, fun ctx hctx => ?_, hiff⟩
      obtain ⟨houtcome, hcaptures⟩ :=
        exactSupertype_reads hplain (.named r.env.wellKnown.object) n t ctx
      have hcapture : r.capture t ctx = (.ok t, ctx) := by
        rw [capture_unerased ho]
        rfl
      refine ⟨_, ?_, hcaptures.trans hctx⟩
      rw [isSupertype_succ rfl herase (settledByErasure_unknown _ ho) hcapture,
        bind_ok (houtcome.trans (hctx ▸ hfound))]
      cases found <;> rfl

/-- Wherever requests about complete types lead, asking whether the top type is
a supertype of a complete type has an answer. It is yes just where the type, or
one that direct supertypes lead to from it, is a class, an applied class, a
variable or an array. Where only types of the documented forms were ever asked
about, it is yes for all of them but the primitive ones. The hierarchy is taken
with lone interfaces below the top class, so this may be no interface itself
(`Ascending`). -/
theorem isSupertype_top (h : r.Ascending)
    (hbounds : ∀ v, ∀ b ∈ r.env.boundsOf v, b.isPrimitive = false)
    {ctx : Context} (hctx : r.ReachedWith (fun n t => r.env.Complete n t) ctx)
    (ht : r.env.Complete ctx.captures.size t) :
    ∃ b, (∃ least, ∀ depth, least ≤ depth →
        (r.isSupertype depth r.env.top t ctx).1 = .ok b) ∧
      (b = true ↔ ∃ s, ReflTransGen (r.Steps ctx) t s ∧ s.isReference = true) ∧
      (r.env.Grounded → r.ReachedWith (fun n t => r.env.Regular n t) ctx →
        r.env.Regular ctx.captures.size t → t.isPrimitive = false →
          b = true) := by
  obtain ⟨-, hsame⟩ := hctx.complete h.wellFormed
  obtain ⟨least, b, hanswers, hiff⟩ :=
    answers_top (r := r.forgetting) h.forgetting hbounds
      rfl (hctx.searchable h).forgetting ht
  rw [meetsReference_forgetting] at hiff
  refine ⟨b, ⟨least, fun depth hle => ?_⟩, ?_,
    fun hground hregular ht' hprim => hiff.2 ?_⟩
  · obtain ⟨_, hrun, -⟩ := hanswers.mono (isSupertype_mono _ _ hle) ctx rfl
    exact (isSupertype_simulates r depth _ t ctx ctx hsame).1.trans
      (congrArg Prod.fst hrun)
  · rw [steps_eq hsame]
    exact hiff
  · have hstandard : r.Standard :=
      ⟨h.wellFormed, ⟨hground, h.superclass⟩, h.implicitTop, h.noHostTest⟩
    have hsound : r.Sound ctx.captures := sound_forgetting.1 (hregular.good
      (sound_empty r.forgetting)
      (soundness_allows (r := r.forgetting) hstandard.founded)).1
    obtain ⟨_, g, hg⟩ := hsound.find_top hstandard ht' hprim
    obtain ⟨hup, herase⟩ := find_ancestor hg
    have hnotPrimitive : g.isPrimitive = false := by
      cases hprim : g.isPrimitive with
      | false => rfl
      | true =>
          obtain ⟨p, rfl⟩ := Ty.exists_of_isPrimitive hprim
          cases herase
    exact ⟨g, hup, by rw [isReference_of_erasure? herase, hnotPrimitive]; rfl⟩

open TypeStore in
/-- The capture of `Enum<?>` is bounded by `Enum` of itself, and it is below the
top type. -/
theorem enumCapture_below_top :
    ∃ least, ∀ depth, least ≤ depth →
      (coreResolver.isSupertype depth coreResolver.env.top (.capture ⟨0⟩)
        (coreResolver.answer 5 (.capture (Seed.applied Seed.enum
          [(Wildcard.unbounded Seed.object).toTy])) .empty).2).1 =
            .ok true := by
  have hbounds : ∀ v, ∀ b ∈ coreResolver.env.boundsOf v,
      b.isPrimitive = false :=
    fun v b hb => (core_rooted.bounds v b hb).2
  obtain ⟨b, hends, -, hdocumented⟩ := isSupertype_top
    coreResolver_standard.covered.ascending hbounds (t := .capture ⟨0⟩)
    (.step .start 5 (q := .capture (Seed.applied Seed.enum
      [(Wildcard.unbounded Seed.object).toTy])) (by decide)) (by decide)
  obtain rfl := hdocumented core_rooted.toGrounded (.step .start 5 (by decide))
    (by decide) rfl
  exact hends

end Resolver

/-! ## A capture that is bounded by a primitive type -/

namespace TypeStore

open Declarations

namespace Seed

def pair : ClassId := ⟨11⟩

/-- `class Pair<T, U extends T>`. -/
def pairEdits : List Edit :=
  [ .addTypeParam "T" [],
    .addTypeParam "U" [tv 2],
    .addClass (classDecl "p.Pair" [2, 3] (.named object) [] [] []) ]

/-- `Pair<int, ?>`. -/
def pairOfInt : Ty :=
  applied pair [.primitive .int, (Wildcard.unbounded object).toTy]

end Seed

/-- A resolver over the core package and a class of pairs. -/
def pairResolver : Resolver :=
  ⟨⟨(core.applyAll Seed.pairEdits).toDeclarations, none⟩, {}⟩

theorem pairResolver_covered : pairResolver.Covered where
  topped :=
    { wellFormed :=
        wellFormed_of_inOrder ClassId.index (by decide) (by decide) (by decide)
      top := ⟨_, rfl, rfl, rfl⟩ }
  superclass := fun {id _} hc hkind hne => forall_class
    (d := pairResolver.env.toDeclarations)
    (P := fun id c => c.kind = .ordinary → id ≠ Seed.object → c.supertypes ≠ [])
    (by decide) hc hkind hne
  implicitTop := rfl
  noHostTest := rfl

/-- In `Pair<int, ?>` the wildcard is captured below `int`, and the capture is
not below the top type. -/
theorem pairCapture_not_below_top :
    pairResolver.Ascending ∧
      (∀ v, ∀ b ∈ pairResolver.env.boundsOf v, b.isPrimitive = false) ∧
      pairResolver.env.Proper 0 Seed.pairOfInt ∧
      ∃ ctx, pairResolver.answer 5 (.capture Seed.pairOfInt) .empty =
          (.ok (.type (Seed.applied Seed.pair [.primitive .int, .capture ⟨0⟩])),
            ctx) ∧
        pairResolver.ReachedWith
          (fun n t => pairResolver.env.Complete n t) ctx ∧
        pairResolver.env.Complete ctx.captures.size (.capture ⟨0⟩) ∧
        ∀ depth, (pairResolver.isSupertype (depth + 3) pairResolver.env.top
          (.capture ⟨0⟩) ctx).1 = .ok false := by
  refine ⟨pairResolver_covered.ascending, fun v b hb => forall_bound
    (d := pairResolver.env.toDeclarations) (P := fun b => b.isPrimitive = false)
    (by decide) hb,
    by decide, (pairResolver.answer 5 (.capture Seed.pairOfInt) .empty).2,
    Prod.ext (by decide) rfl, .step .start 5 (by decide), by decide,
    fun depth => ?_⟩
  have hno : (pairResolver.isSupertype 3 pairResolver.env.top (.capture ⟨0⟩)
      (pairResolver.answer 5 (.capture Seed.pairOfInt) .empty).2).1 =
      .ok false := by decide
  rw [Resolver.isSupertype_mono _ _ (Nat.le_add_left 3 depth) _
    (by rw [hno]; exact nofun), hno]

end TypeStore

end GenericTypes
