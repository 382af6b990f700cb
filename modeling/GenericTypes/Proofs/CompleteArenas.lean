import GenericTypes.Proofs.Answers
import GenericTypes.Proofs.Completeness
import GenericTypes.Proofs.Scoping
import GenericTypes.Proofs.Upkeep

/-!
# Arenas of complete types

A search looks classes and variables up and puts values in, and any of that may
fail. It does not where it starts from a complete type and the arena holds
complete types only: what is above a complete type is there and is complete
again (`complete_above`), and a capture that is opened in such a type is bounded
by complete types (`captured_complete`). Along every history of requests about
complete types the arena therefore holds nothing else (`ReachedWith.complete`).

Nothing is asked of primitive types here, or of where wildcards stand. What
bounds a capture in such an arena may be primitive, and then need not climb.
-/

namespace GenericTypes

namespace Resolver

open Resolve Declarations

variable {r : Resolver} {arena later : Array CaptureDef}
  {t : Ty} {n : Nat} {id : ClassId}

/-- All that the arena holds is complete in it. -/
abbrev StoredComplete (r : Resolver) (arena : Array CaptureDef) : Prop :=
  Stored (fun n t => r.env.Complete n t) arena

theorem storedComplete_empty (r : Resolver) : r.StoredComplete #[] :=
  fun c hc => absurd hc (Array.not_mem_empty c)

theorem complete_known (h : r.env.WellFormed) {top : ClassId}
    (htop : top ∈ r.env.wellKnown.aboveArrays) :
    r.env.Complete n (.named top) :=
  fun _ hx => List.mem_singleton.1 hx ▸ h.known top htop

/-! ## What is above complete types -/

section

variable (h : r.env.WellFormed) (hstored : r.StoredComplete arena)

include h hstored

/-- A complete type has direct supertypes, and they are complete. -/
theorem complete_above (ht : r.env.Complete arena.size t) :
    ∃ ts, r.above arena t = .ok ts ∧ ∀ s ∈ ts, r.env.Complete arena.size s := by
  have hclass : ∀ {id t}, r.env.Complete arena.size t → t.head? = some id →
      t.element.isUnknown = false →
      ∃ ts, r.above arena t = .ok ts ∧
        ∀ s ∈ ts, r.env.Complete arena.size s := by
    intro id t ht hid hknown
    obtain ⟨c, -, habove⟩ := exists_above_eq arena h (ht.supplies hid)
    exact ⟨_, habove, fun s hs => complete_directly h hknown ht ⟨_, habove, hs⟩⟩
  induction t using Ty.component_induct with
  | plain t hplain =>
      cases t with
      | nominal c =>
          cases c with
          | named id => exact hclass ht rfl rfl
          | primitive _ =>
              exact ⟨[], rfl, fun s hs => absurd hs List.not_mem_nil⟩
          | array _ => cases hplain
      | parameterized id _ _ => exact hclass ht rfl rfl
      | var v =>
          obtain ⟨s, rest, habove, hmem⟩ := above_declared arena ht.fits
          refine ⟨s :: rest, habove, fun x hx => ?_⟩
          rcases hmem x hx with rfl | hx
          · exact complete_known h List.mem_cons_self
          · exact (h.bounds v x hx).complete.mono (Nat.zero_le _)
      | wildcard upper lower =>
          exact ⟨upper, rfl, fun s hs => ht.part (Ty.upper_mem_parts hs)⟩
      | genericArray _ => cases hplain
      | capture i =>
          have hc := Array.getElem?_eq_getElem (ht.fits : i.index < arena.size)
          refine ⟨_, by rw [above, hc]; rfl, ?_⟩
          exact (CaptureDef.forall_types.1
            (hstored _ (Array.getElem_mem _))).2.2.1
  | array t k hk ih =>
      obtain ⟨ks, hks, hcomplete⟩ := ih (ht.component? hk)
      refine ⟨r.arraySupertypes ks, by rw [above_component hk, hks]; rfl,
        fun s hs => ?_⟩
      rcases List.mem_append.1 hs with hs | hs
      · obtain ⟨y, hy, rfl⟩ := List.mem_map.1 hs
        exact (hcomplete y hy).arrayOf
      · obtain ⟨top, htop, rfl⟩ := List.mem_map.1 hs
        exact complete_known h htop

end

/-! ## Capturing complete types -/

theorem complete_owner {args : List Ty} {o : Ty} {d : Declarations}
    (ht : d.Complete n (.parameterized id args (some o))) : d.Complete n o :=
  ht.part Ty.owner_mem_parts

theorem complete_arg {args : List Ty} {owner : Option Ty} {a : Ty}
    {d : Declarations} (ht : d.Complete n (.parameterized id args owner))
    (ha : a ∈ args) : d.Complete n a :=
  ht.part (Ty.arg_mem_parts ha)

/-- The values that a complete type gives along its chain are its arguments. -/
theorem complete_chainValue {d : Declarations} {v : TypeVarId} {s : Ty}
    (ht : d.Complete n t) (hs : d.chainValue t v = some s) : d.Complete n s :=
  fun x hx => ht x (parts_chainValue hs hx)

section

variable (h : r.env.WellFormed) (hstored : r.StoredComplete arena)
  {args : List Ty} {owner : Option Ty}
  (hargs : ∀ a ∈ args, r.env.Complete arena.size a)
  (howner : ∀ o, owner = some o → r.env.Complete arena.size o)
  (hlater : later.toList = arena.toList ++
    (wildcardsFor (r.env.paramsOf id) args).map
    (r.settled (r.env.levelSubst id (numberWildcards arena.size args) owner)))

include hargs howner hlater

/-- What a level of complete types gives a declared variable is complete. -/
theorem complete_levelSubst {v : TypeVarId}
    (hv : ∃ p, r.env.typeParam? v = some p) :
    r.env.Complete later.size
      (r.env.levelSubst id (numberWildcards arena.size args) owner v) := by
  have hle := (grows_of_append hlater).size_le
  rcases levelSubst_origin r.env.toDeclarations arena.size id args owner v with
    ⟨harg, -⟩ | ⟨j, w, heq, hj⟩ | ⟨o, ho, hvalue⟩ | heq
  · exact (hargs _ harg).mono hle
  · have hlt := (List.getElem?_eq_some_iff.1 hj).1
    rw [heq]
    refine (regular_capture ?_).complete
    rw [size_of_append hlater, List.length_map]
    exact Nat.add_lt_add_left hlt _
  · exact (complete_chainValue (howner o ho) hvalue).mono hle
  · rw [heq]
    exact (regular_var hv).complete

include h hstored

/-- The captures of a level of complete types are bounded by complete types. -/
theorem storedComplete_level : r.StoredComplete later := by
  have hle := (grows_of_append hlater).size_le
  intro c hc
  rw [← Array.mem_toList_iff, hlater, List.mem_append] at hc
  rcases hc with hc | hc
  · exact fun t ht => (hstored c (Array.mem_toList_iff.1 hc) t ht).mono hle
  · obtain ⟨w, hw, rfl⟩ := List.mem_map.1 hc
    obtain ⟨-, hmem⟩ := mem_wildcardsFor (v := w.1) (w := w.2) hw
    have hwild : r.env.Complete later.size w.2.toTy := (hargs _ hmem).mono hle
    have hupper : ∀ u ∈ w.2.upper, r.env.Complete later.size u := fun u hu =>
      hwild.part (Ty.upper_mem_parts hu)
    have hlower : ∀ l ∈ w.2.lower, r.env.Complete later.size l := fun l hl =>
      hwild.part (Ty.lower_mem_parts hl)
    refine CaptureDef.forall_types.2 ⟨hupper, hlower, fun u hu => ?_, hlower⟩
    rcases mem_mergeBounds hu with hu | hu | rfl
    · obtain ⟨b, hb, rfl⟩ := List.mem_map.1 hu
      have hb' := (h.bounds w.1 b hb).complete
      exact hb'.subst (Nat.zero_le _) fun v hv =>
        complete_levelSubst hargs howner hlater (hb' _ hv)
    · exact hupper u hu
    · exact complete_known h List.mem_cons_self

omit h hstored in
/-- The level itself, captured, is complete. -/
theorem complete_level
    (hfits : r.env.Fits arena.size (.parameterized id args owner)) :
    r.env.Complete later.size
      (.parameterized id (numberWildcards arena.size args) owner) := by
  have hle := (grows_of_append hlater).size_le
  obtain ⟨⟨c, hc, hlen⟩, hused, hhead⟩ := hfits
  intro x hx
  rcases Ty.mem_parts_parameterized.1 hx with rfl | ⟨o, ho, hx⟩ | ⟨a, ha, hx⟩
  · refine ⟨⟨c, hc, hlen.trans (length_numberWildcards _ _).symm⟩,
      fun v hv => ?_, hhead⟩
    have hmem := hused v hv
    cases owner <;> exact hmem
  · exact ((howner o ho).mono hle) x hx
  · have hcounts : (r.env.paramsOf id).length = args.length := by
      rw [paramsOf_eq hc, hlen]
    rcases origin_of_mem_numberWildcards hcounts ha with ha | ⟨j, hj, rfl⟩
    · exact ((hargs a ha).mono hle) x hx
    · obtain rfl := List.mem_singleton.1 hx
      have hsize := size_of_append hlater
      rw [List.length_map] at hsize
      exact show arena.size + j < later.size by omega

end

/-- Capturing a complete type leaves an arena of complete types, and the
captured type is complete in it. -/
theorem captured_complete (h : r.env.WellFormed) :
    ∀ {t : Ty} {arena later : Array CaptureDef}, r.StoredComplete arena →
    r.env.Complete arena.size t →
    later.toList = arena.toList ++ (r.captured arena.size t).2 →
    r.StoredComplete later ∧
      r.env.Complete later.size (r.captured arena.size t).1
  | .parameterized id args (some owner), arena, later, hstored, ht, hlater => by
      -- the arena between: the owner is captured, the arguments are not
      let between := (arena.toList ++ (r.captured arena.size owner).2).toArray
      have hbetween : between.toList = arena.toList ++
          (r.captured arena.size owner).2 := rfl
      obtain ⟨hstored', howner⟩ : r.StoredComplete between ∧
          r.env.Complete between.size (r.captured arena.size owner).1 :=
        captured_complete h hstored (complete_owner ht) hbetween
      obtain ⟨hadded, heq⟩ := captured_member hbetween hlater
      have hle := (grows_of_append hbetween).size_le
      have hargs : ∀ a ∈ args, r.env.Complete between.size a := fun a ha =>
        (complete_arg ht ha).mono hle
      have howner' : ∀ o, some (r.captured arena.size owner).1 = some o →
          r.env.Complete between.size o :=
          fun o ho => Option.some.inj ho ▸ howner
      rw [heq]
      exact ⟨storedComplete_level h hstored' hargs howner' hadded,
        complete_level hargs howner' hadded
          (fits_captured (complete_owner ht).counted ht.fits)⟩
  | .parameterized id args none, arena, later, hstored, ht, hlater => by
      have hargs : ∀ a ∈ args, r.env.Complete arena.size a :=
        fun a ha => complete_arg ht ha
      have howner : ∀ o, none = some o → r.env.Complete arena.size o := nofun
      exact ⟨storedComplete_level h hstored hargs howner hlater,
        complete_level hargs howner hlater ht.fits⟩
  | .nominal _, arena, later, hstored, ht, hlater
  | .var _, arena, later, hstored, ht, hlater | .wildcard _ _, arena, later,
    hstored, ht, hlater
  | .genericArray _, arena, later, hstored, ht, hlater
  | .capture _, arena, later, hstored, ht, hlater => by
      obtain rfl : later = arena :=
        Array.toList_inj.1 (hlater.trans (List.append_nil _))
      exact ⟨hstored, ht⟩

/-! ## Histories -/

theorem scoped_of_complete {d : Declarations} (ht : d.Complete n t) :
    t.Scoped n := by
  intro x hx
  have hfits := ht x hx
  cases x with
  | capture i => exact hfits
  | nominal _ | parameterized _ _ _ | var _ | wildcard _ _ | genericArray _ =>
      trivial

/-- Kept up is that the arena holds complete types, while it grows. -/
abbrev completeness (r : Resolver) : Upkeep where
  Good := r.StoredComplete
  Leads := Grows
  refl := .refl
  trans := .trans
  size_le := Grows.size_le

theorem completeness_allows (h : r.env.WellFormed) :
    r.completeness.Allows r fun n t => r.env.Complete n t where
  mono := fun hle ht => ht.mono hle
  part := .part
  component := .component?
  above := by
    intro arena t ts hstored ht hts
    obtain ⟨ts', hts', hcomplete⟩ := complete_above h hstored ht
    obtain rfl := Outcome.ok.inj (hts'.symm.trans hts)
    exact hcomplete
  lower := fun hstored hc =>
    (CaptureDef.forall_types.1 (hstored _ (Array.mem_of_getElem? hc))).2.2.2
  capture := by
    intro t ctx hstored ht
    obtain ⟨ctx', hcapture, hlater⟩ := capture_eq h ctx ht.counted ht.bounded
    obtain ⟨hstored', hcomplete⟩ := captured_complete h hstored ht hlater
    rw [hcapture]
    exact ⟨hstored', grows_of_append hlater,
      fun a ha => Outcome.ok.inj ha ▸ hcomplete⟩

/-- What a request captures or compares is written in it. -/
theorem operands_subset_types (q : Request) : q.operands ⊆ q.types := by
  intro t ht
  cases q with
  | capture _ | isSupertype _ _ | contains _ _ | fieldTypeByName _ _
  | returnTypeByName _ _ =>
      exact ht
  | memberType _ _ _ | fieldType _ _ _ => exact List.mem_cons_of_mem _ ht
  | parameterTypes _ _ _ | returnType _ _ _ | boundedParameterTypes _ _ _
  | boundedReturnType _ _ _ =>
      exact List.mem_singleton.1 ht ▸ List.mem_cons_self
  | reset | erase _ | directSupertypes _ | exactSupertype _ _ | isRaw _
  | withWildcards _ | typeArgument _ _ | boundingClasses _ | resolveBound _ =>
      cases ht

/-- What is kept up with types of the property, and holds of the empty arena,
holds along every history of requests about such types, whether they succeed or
not. What is remembered is as good as worked out afresh. -/
theorem ReachedWith.good {k : Upkeep} {P : Nat → Ty → Prop}
    (hempty : k.Good #[]) (h : k.Allows r.forgetting P) {ctx : Context}
    (hctx : r.ReachedWith P ctx) :
    k.Good ctx.captures ∧ r.SameButMemo ctx ctx := by
  induction hctx with
  | start => exact ⟨hempty, rfl, rfl, memoSound_nil r⟩
  | @step ctx _ depth q hq ih =>
      obtain ⟨hgood, hsame⟩ := ih
      obtain ⟨-, hafter⟩ := answer_simulates r depth q ctx ctx hsame
      refine ⟨?_, rfl, rfl, hafter.memo⟩
      rw [hafter.captures]
      by_cases hreset : q = .reset
      · subst hreset
        exact hempty
      · have hkeeps := Upkeep.answer_keeps h rfl depth hreset fun t ht =>
          hq t (operands_subset_types q ht)
        exact (hkeeps ctx (Nat.le_refl _) hgood).1

/-- Along every history of requests about complete types the arena holds
complete types only. -/
theorem ReachedWith.complete (h : r.env.WellFormed) {ctx : Context}
    (hctx : r.ReachedWith (fun n t => r.env.Complete n t) ctx) :
    r.StoredComplete ctx.captures ∧ r.SameButMemo ctx ctx :=
  hctx.good (storedComplete_empty r) (completeness_allows (r := r.forgetting) h)

end Resolver

end GenericTypes
