import GenericTypes.Proofs.CapturedArguments
import GenericTypes.Proofs.SearchSubstitution
import GenericTypes.Proofs.TwoPhase

/-!
# Classes with unknown arguments are above all their types

A class that is given unbounded wildcards, for its own parameters and for those
of the classes around it, stands above the types that erase to the class: the
raw type, parameterized ones with whatever owners, variables by way of their
first bounds, and arrays of these. Only an argument can be in the way.

An unbounded wildcard contains what the top type is above, and that is what
meets a reference type on some way up. Which arguments are asked depends on the
type (`Presents`). A type of a class is captured first, and what counts are the
captures that were opened for its wildcards; the bound of a variable is taken as
it stands, only its owner is captured; an array is as its component. Nothing
else is asked, so the comparison has an answer in any case, and it is yes
exactly if all those arguments are below the top type (`tells_withWildcards`).

A primitive argument is not below the top type, nor is a capture that has only
primitive bounds to show (`unknownComparable_not_above`). Of the arguments
without captures all are, but the primitive ones and the wildcards that have
primitive upper bounds only (`meets_iff_isBoxed`).
-/

namespace GenericTypes

open Relation

namespace Ty

/-- An argument without captures that an unbounded wildcard contains: it is not
primitive, and if it is a wildcard itself, some upper bound of it is not. -/
def isBoxed : Ty → Bool
  | .wildcard upper _ => upper.any fun u => !u.isPrimitive
  | .nominal c => !c.isPrimitive
  | .parameterized _ _ _ | .var _ | .genericArray _ | .capture _ => true

/-- All arguments of a type are boxed. -/
def Boxed (t : Ty) : Prop := ∀ a ∈ t.arguments, a.isBoxed = true

instance decidableBoxed : DecidablePred Boxed := fun t =>
  inferInstanceAs (Decidable (∀ a ∈ t.arguments, a.isBoxed = true))

end Ty

namespace Declarations

variable {d : Declarations} {id : ClassId} {w cx : Ty}

/-- An argument that nothing is known of. -/
def unknown (d : Declarations) : Ty :=
  (Wildcard.unbounded d.wellKnown.object).toTy

/-- The first bound of a variable, or where that is a variable the first bound
of that, and so on to one that is none. -/
inductive FirstBound (d : Declarations) : TypeVarId → Ty → Prop
  | here {v : TypeVarId} {b : Ty} {bs : List Ty}
      (hbounds : d.boundsOf v = b :: bs)
      (hb : b.isVar = false) : FirstBound d v b
  | next {v w : TypeVarId} {b : Ty} {bs : List Ty}
      (hbounds : d.boundsOf v = .var w :: bs)
      (h : FirstBound d w b) : FirstBound d v b

theorem not_firstBound {v : TypeVarId} {x : Ty} (hbounds : d.boundsOf v = []) :
    ¬ d.FirstBound v x := by
  rintro (⟨hb, -⟩ | ⟨hb, -⟩) <;> exact nomatch hbounds.symm.trans hb

theorem firstBound_iff_eq {v : TypeVarId} {b x : Ty} {bs : List Ty}
    (hbounds : d.boundsOf v = b :: bs) (hb : b.isVar = false) :
    d.FirstBound v x ↔ x = b := by
  constructor
  · rintro (⟨hbounds', -⟩ | ⟨hbounds', -⟩)
    · exact (List.cons.inj (hbounds'.symm.trans hbounds)).1
    · obtain ⟨rfl, -⟩ := List.cons.inj (hbounds'.symm.trans hbounds)
      cases hb
  · rintro rfl
    exact .here hbounds hb

theorem firstBound_iff_next {v w : TypeVarId} {x : Ty} {bs : List Ty}
    (hbounds : d.boundsOf v = .var w :: bs) :
    d.FirstBound v x ↔ d.FirstBound w x := by
  constructor
  · rintro (⟨hbounds', hb⟩ | ⟨hbounds', h⟩)
    · obtain ⟨rfl, -⟩ := List.cons.inj (hbounds'.symm.trans hbounds)
      cases hb
    · obtain ⟨heq, -⟩ := List.cons.inj (hbounds'.symm.trans hbounds)
      exact Ty.var.inj heq ▸ h
  · exact .next hbounds

/-- Of the types that a comparison with a class comes across below the type,
those that it captures are as in `opened`, and those that it takes as they are,
apart from their owners, as in `plain`: a type of a class is captured, and of a
variable the first bound is taken as it is. -/
def Presents (d : Declarations) (plain opened : Ty → Prop) : Ty → Prop
  | .parameterized id args owner => opened (.parameterized id args owner)
  | .var v =>
      ∀ b, d.FirstBound v b → plain b ∧ ∀ o, b.owner? = some o → opened o
  | .genericArray t => d.Presents plain opened t
  | .nominal _ | .wildcard _ _ | .capture _ => True

theorem FirstBound.declared {v : TypeVarId} {b : Ty} (h : d.FirstBound v b) :
    ∃ u, b ∈ d.boundsOf u := by
  induction h with
  | here hbounds _ => exact ⟨_, hbounds ▸ List.mem_cons_self⟩
  | next _ _ ih => exact ih

/-- What is true of the type, of all declared bounds and of their parts can be
taken for granted when the conditions are compared. -/
theorem Presents.imp {Q plain plain' opened opened' : Ty → Prop}
    (hpart : ∀ {x y}, Q x → y ∈ x.parts → Q y)
    (hbounds : ∀ v, ∀ b ∈ d.boundsOf v, Q b)
    (hplain : ∀ x, Q x → plain x → plain' x)
    (hopened : ∀ x, Q x → opened x → opened' x) :
    ∀ {t : Ty}, Q t → d.Presents plain opened t → d.Presents plain' opened' t
  | .parameterized _ _ _, ht, h => hopened _ ht h
  | .var _, _, h => fun b hb => by
      obtain ⟨u, hu⟩ := hb.declared
      have hQ := hbounds u b hu
      exact ⟨hplain b hQ (h b hb).1, fun o ho =>
        hopened o (hpart hQ (Ty.owner?_mem_parts ho)) ((h b hb).2 o ho)⟩
  | .genericArray t, ht, h =>
      Presents.imp (t := t) hpart hbounds hplain hopened
        (hpart ht (Ty.component_mem_parts t)) h
  | .nominal _, _, _ | .wildcard _ _, _, _ | .capture _, _, _ => trivial

/-! ## The class a type erases to -/

theorem defines_of_eraseWith {n : Nat} {onVar : TypeVarId → Outcome Class}
    (hvar : ∀ {v c}, onVar v = .ok c → d.Defines c) : ∀ {t : Ty} {c : Class},
    d.Complete n t → t.eraseWith onVar = .ok c → d.Defines c
  | .nominal _, _, ht, hc => by
      obtain rfl := Outcome.ok.inj hc
      exact ht.fits
  | .parameterized id _ _, _, ht, hc => by
      obtain rfl := Outcome.ok.inj hc
      obtain ⟨⟨c, hc, -⟩, -⟩ := ht.fits
      exact isDefined_iff.2 ⟨c, hc⟩
  | .var _, _, _, hc => hvar hc
  | .genericArray t, _, ht, hc => by
      obtain ⟨k, hk, heq⟩ := Outcome.bind_eq_ok hc
      obtain rfl := Outcome.ok.inj heq
      have hdef : d.Defines k :=
        defines_of_eraseWith hvar (ht.component? rfl) hk
      exact hdef

theorem defines_of_eraseVar (h : d.WellFormed) :
    ∀ {fuel : Nat} {v : TypeVarId} {c : Class}, d.eraseVar fuel v = .ok c →
      d.Defines c
  | fuel + 1, v, c, hc => by
      obtain ⟨p, hp⟩ := typeParam?_of_eraseVar hc
      rw [eraseVar_eq hp] at hc
      split at hc
      · obtain rfl := Outcome.ok.inj hc
        exact h.known _ List.mem_cons_self
      · next b bs hbounds =>
          have hb : b ∈ d.boundsOf v :=
            mem_boundsOf_iff.2 ⟨_, hp, hbounds ▸ List.mem_cons_self⟩
          exact defines_of_eraseWith (defines_of_eraseVar h)
            (h.bounds v b hb).complete hc

/-- A complete type erases to a declared class. -/
theorem defines_of_erase (h : d.WellFormed) {n : Nat} {t : Ty} {c : Class}
    (ht : d.Complete n t) (hc : d.erase t = .ok c) : d.Defines c :=
  defines_of_eraseWith (defines_of_eraseVar h) ht hc

/-! ## A class with unknown arguments -/

theorem Instance.erases {A : TypeVarId → Ty} (hinst : d.Instance A id cx w) :
    d.erase w = .ok (.named id) ∧ w.isUnknown = false := by
  cases hinst <;> exact ⟨rfl, rfl⟩

theorem wildcardsWithin_ok (h : d.WellFormed) {rank : ClassId → Nat}
    (hrank : ∀ id outer, d.EnclosedBy id outer → rank outer < rank id) :
    ∀ fuel id, d.isDefined id → rank id < fuel →
      ∃ w cx, d.wildcardsWithin fuel id = .ok w ∧
        d.Instance (fun _ => d.unknown) id cx w
  | fuel + 1, id, hdef, hfuel => by
      obtain ⟨b, hraw, hscope⟩ := h.isRaw_ok hdef
      rw [wildcardsWithin, hraw, Outcome.ok_bind]
      cases b with
      | false =>
          exact ⟨_, _, rfl, .plain hdef fun v hv =>
            Bool.noConfusion (hscope.2 ⟨v, hv⟩)⟩
      | true =>
          obtain ⟨c, hc⟩ := isDefined_iff.1 hdef
          rw [if_pos rfl, lift_getClass hc, Outcome.ok_bind]
          cases henc : c.enclosing with
          | none => exact ⟨_, _, rfl, .of_toplevel hc henc⟩
          | some outer =>
              have hunder : d.EnclosedBy id outer := ⟨c, hc, henc⟩
              have hless := hrank id outer hunder
              obtain ⟨o, ox, ho, hinst⟩ :=
                wildcardsWithin_ok h hrank fuel outer (h.enclosing hunder)
                  (by omega)
              simp only [ho, Outcome.ok_bind, Outcome.pure_eq]
              exact ⟨_, _, rfl, .member hc henc hinst⟩

/-- The class is applied to unknown arguments, as it may be to its own type
parameters. -/
theorem withWildcards_instance (h : d.WellFormed) (hdef : d.isDefined id) :
    ∃ w cx, d.withWildcards (.named id) = .ok w ∧
      d.Instance (fun _ => d.unknown) id cx w := by
  obtain ⟨rank, hle, hrank⟩ := exists_rank_enclosedBy h.nesting
  exact wildcardsWithin_ok h hrank _ id hdef (Nat.lt_succ_of_le (hle id))

theorem withWildcards_array {c : Class}
    (hw : d.withWildcards (.array c) = .ok w) :
    ∃ w', d.withWildcards c = .ok w' ∧ w = w'.arrayOf := by
  obtain ⟨w', hw', heq⟩ := Outcome.bind_eq_ok hw
  exact ⟨w', hw', (Outcome.ok.inj heq).symm⟩

/-- A class with unknown arguments erases to the class. -/
theorem erase_withWildcards (h : d.WellFormed) : ∀ c : Class, d.Defines c →
    ∃ w, d.withWildcards c = .ok w ∧ d.erase w = .ok c ∧ w.isUnknown = false
  | .named id, hdef => by
      obtain ⟨w, cx, hw, hinst⟩ := withWildcards_instance h hdef
      exact ⟨w, hw, hinst.erases⟩
  | .primitive p, _ => ⟨.primitive p, rfl, rfl, rfl⟩
  | .array c, hdef => by
      obtain ⟨w, hw, herase, hkind⟩ := erase_withWildcards h c hdef
      refine ⟨w.arrayOf, ?_, ?_, ?_⟩
      · rw [withWildcards, hw]
        rfl
      · rw [Resolver.erase_component w.component?_arrayOf, herase]
        rfl
      · cases w <;> rfl

end Declarations

namespace Resolver

open Resolve Declarations

variable {r : Resolver} {arena later : Array CaptureDef}
  {t s q w cx k a : Ty} {id : ClassId} {n : Nat} {P Q : Prop} {b : Bool}

/-! ## Arguments without captures -/

/-- A proper argument without captures meets a reference type just if it is
boxed. -/
theorem meets_iff_isBoxed (ha : r.env.Complete 0 a)
    (hplaced : ∀ x ∈ a.parts, Placed x) :
    r.MeetsReference arena a ↔ a.isBoxed = true := by
  have hproper : ∀ {t : Ty}, r.env.Proper 0 t →
      (r.MeetsReference arena t ↔ t.isPrimitive = false) := by
    intro t ht
    refine ⟨fun hmeets => ?_,
      fun hprim => meets_of_reference (isReference_of_proper ht hprim)⟩
    refine Bool.eq_false_iff.2 fun hprim => ?_
    obtain ⟨p, rfl⟩ := Ty.exists_of_isPrimitive hprim
    exact not_meetsReference_primitive p hmeets
  cases a with
  | wildcard upper lower =>
      rw [meets_wildcard_iff, Ty.isBoxed, List.any_eq_true]
      refine exists_congr fun u => and_congr_right fun hu => ?_
      have hpart : u ∈ (Ty.wildcard upper lower).parts := Ty.upper_mem_parts hu
      rw [hproper ⟨ha.part hpart,
        fun x hx => hplaced x (Ty.mem_parts_trans hx hpart),
        hplaced _ (Ty.mem_parts_self _) u (List.mem_append_left _ hu)⟩,
        Bool.not_eq_true']
  | nominal c =>
      rw [hproper ⟨ha, hplaced, rfl⟩, Ty.isBoxed, Bool.not_eq_true']
      rfl
  | parameterized _ _ _ | var _ | genericArray _ =>
      exact iff_of_true (meets_of_reference rfl) rfl
  | capture _ => exact absurd ha.fits (Nat.not_lt_zero _)

/-! ## Answers that tell -/

/-- Over the arena the comparison has a verdict, and it is yes exactly if
`P`. -/
def Tells (r : Resolver) (arena : Array CaptureDef) (s t : Ty)
    (P : Prop) : Prop :=
  ∃ b, r.Verdict arena s t b ∧ (b = true ↔ P)

/-- The same of the comparison with a view. -/
def ViewTells (r : Resolver) (arena : Array CaptureDef) (s g : Ty)
    (P : Prop) : Prop :=
  ∃ b, r.ViewVerdict arena s g b ∧ (b = true ↔ P)

theorem viewTells_nominal {e : Class} (hview : s = .nominal e ∨ q = .nominal e)
    (hP : P) : r.ViewTells arena s q P :=
  ⟨true, (viewVerdict_nominal hview).2 rfl, iff_of_true rfl hP⟩

theorem allHold_answers {α : Type} {test : α → Resolve Bool} {P : α → Prop} :
    ∀ {as : List α}, (∀ a ∈ as, ∃ b, Answers arena (test a) b ∧
        (b = true ↔ P a)) →
      ∃ b, Answers arena (allHold test as) b ∧ (b = true ↔ ∀ a ∈ as, P a)
  | [], _ => ⟨true, fun ctx hctx => ⟨ctx, rfl, hctx⟩, by simp⟩
  | a :: as, h => by
      obtain ⟨b, hb, hiff⟩ := h a List.mem_cons_self
      obtain ⟨b', hb', hiff'⟩ :=
        allHold_answers fun a' ha' => h a' (List.mem_cons_of_mem a ha')
      refine ⟨b && b', fun ctx hctx => ?_, ?_⟩
      · obtain ⟨ctx₁, hrun, hctx₁⟩ := hb ctx hctx
        rw [allHold, bind_apply, hrun]
        cases b with
        | true => exact hb' ctx₁ hctx₁
        | false => exact ⟨ctx₁, rfl, hctx₁⟩
      · rw [Bool.and_eq_true, hiff, hiff', List.forall_mem_cons]

/-- An unbounded wildcard contains what the top type is above. -/
theorem contains_unknown (ha : Answers arena (r.isSupertype n r.env.top a) b) :
    Answers arena (containsBy (r.isSupertype n) r.env.unknown a)
      b := fun ctx hctx => by
  obtain ⟨ctx', hrun, hctx'⟩ := ha ctx hctx
  refine ⟨ctx', ?_, hctx'⟩
  have hall : allHold (fun bound => r.isSupertype n bound a)
      [r.env.top] ctx = (.ok b, ctx') := by
    rw [allHold, bind_apply, hrun]
    cases b <;> rfl
  show (allHold (fun bound => r.isSupertype n bound a) [r.env.top] >>= _ :
    Resolve Bool) ctx = _
  rw [bind_apply, hall]
  cases b <;> rfl

section

variable (h : r.Ascending) (hclasses : r.env.ClassBounds)
  (hplain : r.config.memoizeSupertypes = false)

include h hclasses hplain

/-- One depth tells of all arguments whether unbounded wildcards contain
them. -/
theorem exists_depth_unknown (harena : r.Searchable arena)
    {params : List TypeVarId} {args : List Ty}
    (hlen : params.length = args.length)
    (hargs : ∀ a ∈ args, r.env.Complete arena.size a) :
    ∃ n, ∀ m, n ≤ m → ∃ b, Answers arena
      (allHold (fun pair => containsBy (r.isSupertype m) pair.1 pair.2)
        ((params.map fun _ => r.env.unknown).zip args)) b ∧
      (b = true ↔ ∀ a ∈ args, r.MeetsReference arena a) := by
  obtain ⟨n, hn⟩ := exists_common_depth
    (fun hle ⟨b, hb, hiff⟩ => ⟨b, hb.mono (isSupertype_mono _ _ hle), hiff⟩)
    fun a ha => answers_top h hclasses.isPrimitive hplain harena (hargs a ha)
  refine ⟨n, fun m hle => ?_⟩
  have hpairs : ∀ pair ∈ (params.map fun _ => r.env.unknown).zip args, ∃ b,
      Answers arena (containsBy (r.isSupertype m) pair.1 pair.2) b ∧
        (b = true ↔ r.MeetsReference arena pair.2) := by
    intro pair hpair
    obtain ⟨hfst, hsnd⟩ := List.of_mem_zip hpair
    obtain ⟨-, -, heq⟩ := List.mem_map.1 hfst
    obtain ⟨b, hb, hiff⟩ := hn _ hsnd
    rw [← heq]
    exact ⟨b, contains_unknown (hb.mono (isSupertype_mono _ _ hle)), hiff⟩
  obtain ⟨b, hb, hiff⟩ := allHold_answers hpairs
  refine ⟨b, hb, hiff.trans ?_⟩
  have hsnd :
      ((params.map fun _ => r.env.unknown).zip args).map Prod.snd = args :=
    List.map_snd_zip (by rw [List.length_map, hlen])
  rw [← List.forall_mem_map (f := Prod.snd) (P := r.MeetsReference arena), hsnd]

omit h hclasses in
/-- One depth tells how owners compare. -/
theorem exists_depth_owners (hfree : r.env.CaptureFree)
    {owner owner' : Option Ty} {P : Ty → Prop}
    (howner : ∀ o o', owner = some o → owner' = some o' →
      r.Tells arena o o' (P o')) :
    ∃ m b, (∀ {n} {ctx : Context}, m ≤ n → ctx.captures = arena →
        (ownersMatch (r.isSupertype n) owner owner' ctx).1 = .ok b) ∧
      (b = true ↔ ∀ o o', owner = some o → owner' = some o' → P o') := by
  cases owner with
  | none => exact ⟨0, true, fun _ _ => rfl, iff_of_true rfl nofun⟩
  | some o =>
      cases owner' with
      | none => exact ⟨0, true, fun _ _ => rfl, iff_of_true rfl nofun⟩
      | some o' =>
          obtain ⟨b, ⟨m, hm⟩, hiff⟩ := howner o o' rfl rfl
          refine ⟨m, b, fun {n ctx} hle hcaptures => ?_, hiff.trans (by simp)⟩
          have hmore :=
            isSupertype_mono o o' hle ⟨arena, [], #[]⟩ (by rw [hm]; exact nofun)
          have hsame : ctx.captures = (⟨arena, [], #[]⟩ : Context).captures :=
            hcaptures
          rw [ownersMatch, isSupertype_captures hfree hplain _ o o' hsame,
            hmore, hm]

/-- Unknown arguments match those that meet a reference type, if the owners
match. -/
theorem viewTells_unknown (harena : r.Searchable arena) {id' : ClassId}
    {params : List TypeVarId} {args : List Ty}
    (hlen : params.length = args.length)
    (hargs : ∀ a ∈ args, r.env.Complete arena.size a) {owner owner' : Option Ty}
    {P : Ty → Prop} (howner : ∀ o o', owner = some o → owner' = some o' →
      r.Tells arena o o' (P o')) :
    r.ViewTells arena
      (.parameterized id (params.map fun _ => r.env.unknown) owner)
        (.parameterized id' args owner')
      ((∀ a ∈ args, r.MeetsReference arena a) ∧
        ∀ o o', owner = some o → owner' = some o' → P o') := by
  obtain ⟨n, hn⟩ := exists_depth_unknown h hclasses hplain harena hlen hargs
  obtain ⟨m, b', hm, hiff'⟩ :=
    exists_depth_owners hplain h.wellFormed.captureFree howner
  obtain ⟨b, hb, hiff⟩ := hn (max n m) (Nat.le_max_left n m)
  refine ⟨b && b', ⟨max n m, ?_⟩, by rw [Bool.and_eq_true, hiff, hiff']⟩
  show (argumentsMatch (r.isSupertype (max n m)) id _ owner args owner'
    ⟨arena, [], #[]⟩).1 = _
  obtain ⟨ctx', hrun, hcaptures⟩ := hb ⟨arena, [], #[]⟩ rfl
  rw [argumentsMatch_eq _ id ((List.length_map _).trans hlen), bind_apply, hrun]
  cases b with
  | true => exact hm (Nat.le_max_right n m) hcaptures
  | false => rfl

end

/-! ## Types of a class -/

/-- A complete type of the class `id`, with owners of the enclosing classes. -/
structure Offers (r : Resolver) (arena : Array CaptureDef) (id : ClassId)
    (t : Ty) : Prop where
  head : t.head? = some id
  complete : r.env.Complete arena.size t
  housed : t.Chained r.env.Housed

/-- Captured, the type has arguments all along its chain that meet a reference
type. -/
def Opens (r : Resolver) (arena : Array CaptureDef) (t : Ty) : Prop :=
  (r.captured arena.size t).1.Chained
    (r.ArgsMeet ⟨arena.toList ++ (r.captured arena.size t).2⟩)

/-- The type has such arguments as it is, and its owner has them captured. -/
def Offered (r : Resolver) (arena : Array CaptureDef) (t : Ty) : Prop :=
  r.ArgsMeet arena t ∧ ∀ o, t.owner? = some o → r.Opens arena o

theorem opens_iff
    (hlater : later.toList = arena.toList ++ (r.captured arena.size t).2) :
    r.Opens arena t ↔
      (r.captured arena.size t).1.Chained (r.ArgsMeet later) := by
  rw [Opens, ← hlater]

theorem opens_of_converted (ht : t.Converted) :
    r.Opens arena t ↔ t.Chained (r.ArgsMeet arena) := by
  rw [Opens, captured_of_converted _ ht, List.append_nil]

theorem opens_nominal (c : Class) : r.Opens arena (.nominal c) :=
  (opens_of_converted (t := .nominal c) trivial).2
    (Ty.chained_of_single rfl fun _ ha => absurd ha List.not_mem_nil)

theorem offered_nominal (c : Class) : r.Offered arena (.nominal c) :=
  ⟨fun _ ha => absurd ha List.not_mem_nil, nofun⟩

/-- Of a type with nothing to capture both say the same. -/
theorem offered_of_converted (hid : t.head? = some id) (ht : t.Converted) :
    r.Offered arena t ↔ t.Chained (r.ArgsMeet arena) := by
  rcases Ty.head?_eq_some_iff.1 hid with rfl | ⟨args, owner, rfl⟩
  · exact iff_of_true (offered_nominal _)
      (Ty.chained_of_single rfl fun _ ha => absurd ha List.not_mem_nil)
  · cases owner with
    | none =>
        exact ⟨fun hoffered => Ty.chained_of_single rfl hoffered.1,
          fun hchained => ⟨hchained.link, nofun⟩⟩
    | some o =>
        rw [Ty.chained_owned, ← opens_of_converted ht.2, Offered]
        exact and_congr_right fun _ => ⟨fun ho => ho o rfl, fun ho _ heq =>
          Option.some.inj heq ▸ ho⟩

theorem captured_housed (n : Nat) :
    ∀ {t : Ty}, r.env.Counted t → t.Chained r.env.Housed →
    (r.captured n t).1.Chained r.env.Housed
  | .parameterized id args (some owner), ⟨_, hcounted⟩, ht => by
      obtain ⟨hhead, -, -⟩ := captured_chain (r := r) n hcounted
      obtain ⟨outer, houter, henc⟩ := ht.link owner rfl
      refine Ty.chained_owned.2 ⟨?_, captured_housed n hcounted (ht.owner rfl)⟩
      rintro o ⟨⟩
      exact ⟨outer, hhead.trans houter, henc⟩
  | .parameterized _ _ none, _, _ => Ty.chained_of_single rfl nofun
  | .nominal _, _, ht | .var _, _, ht | .wildcard _ _, _, ht
  | .genericArray _, _, ht | .capture _, _, ht => ht

theorem Offers.captured (h : r.env.WellFormed)
    (hstored : r.StoredComplete arena) (ht : r.Offers arena id t)
    (hlater : later.toList = arena.toList ++ (r.captured arena.size t).2) :
    r.Offers later id (r.captured arena.size t).1 := by
  obtain ⟨hhead, -, -⟩ := captured_chain (r := r) arena.size ht.complete.counted
  exact ⟨hhead.trans ht.head,
    (captured_complete h hstored ht.complete hlater).2,
    captured_housed _ ht.complete.counted ht.housed⟩

theorem Offers.owner_of {o : Ty} (ht : r.Offers arena id t)
    (ho : t.owner? = some o) :
    ∃ outer, r.env.EnclosedBy id outer ∧ r.Offers arena outer o := by
  cases t with
  | parameterized id' args owner =>
      obtain rfl := Option.some.inj ht.head
      obtain rfl : owner = some o := ho
      obtain ⟨outer, houter, henc⟩ := ht.housed.link o rfl
      exact ⟨outer, henc, houter, complete_owner ht.complete,
        ht.housed.owner rfl⟩
  | nominal _ | var _ | wildcard _ _ | genericArray _ | capture _ => cases ho

/-- Of a class with no variable in scope no type has arguments. -/
theorem Offers.bare (hnone : ∀ v, ¬ r.env.InScope id v)
    (ht : r.Offers arena id t) : t.Chained fun x => x.arguments = [] := by
  induction t using Ty.induct generalizing id with
  | parameterized id' args owner _ ihowner =>
      obtain rfl := Option.some.inj ht.head
      obtain ⟨c, hc, hlen⟩ := ht.complete.counted.counts
      have hargs : args = [] := by
        refine List.eq_nil_of_length_eq_zero
          (hlen.symm.trans (List.length_eq_zero_iff.2 ?_))
        exact List.eq_nil_iff_forall_not_mem.2 fun v hv => hnone v (.own hc hv)
      cases owner with
      | none => exact Ty.chained_of_single rfl hargs
      | some o =>
          obtain ⟨outer, henc, ho⟩ :=
            ht.owner_of (t := .parameterized id' args (some o)) rfl
          exact Ty.chained_owned.2
            ⟨hargs, ihowner o rfl (fun v hv => hnone v (.outer henc hv)) ho⟩
  | nominal _ => exact Ty.chained_of_single rfl rfl
  | var _ | wildcard _ _ _ _ | genericArray _ _ | capture _ => cases ht.head

theorem converted_of_bare :
    ∀ {t : Ty}, t.Chained (fun x => x.arguments = []) → t.Converted
  | .parameterized id args (some owner), ht => by
      obtain rfl : args = [] := ht.link
      exact ⟨nofun, converted_of_bare (ht.owner rfl)⟩
  | .parameterized id args none, ht => by
      obtain rfl : args = [] := ht.link
      exact nofun
  | .nominal _, _ | .var _, _ | .wildcard _ _, _ | .genericArray _, _
  | .capture _, _ => trivial

/-- So nothing is asked of its types. -/
theorem Offers.of_bare (hnone : ∀ v, ¬ r.env.InScope id v)
    (ht : r.Offers arena id t) : r.Offered arena t ∧ r.Opens arena t := by
  have hbare := ht.bare hnone
  have hconverted := converted_of_bare hbare
  have hmeet : t.Chained (r.ArgsMeet arena) := hbare.mono fun x hx a ha => by
    rw [hx] at ha
    cases ha
  exact ⟨(offered_of_converted ht.head hconverted).2 hmeet,
    (opens_of_converted hconverted).2 hmeet⟩

section

variable (h : r.Ascending) (hclasses : r.env.ClassBounds)
  (hplain : r.config.memoizeSupertypes = false)

include h hplain

/-- A comparison with a type of a class comes to that of the type captured,
taken as a view. -/
theorem verdict_of_opened
    (hs : r.env.erase s = .ok (.named id) ∧ s.isUnknown = false)
    (harena : r.Searchable arena) (ht : r.Offers arena id t) :
    ∃ later, r.Searchable later ∧
      later.toList = arena.toList ++ (r.captured arena.size t).2 ∧
      (r.captured arena.size t).1.Converted ∧
      ∀ b, r.ViewVerdict later s (r.captured arena.size t).1 b →
        r.Verdict arena s t b := by
  obtain ⟨herase, hkind⟩ := hs
  have hwf := h.wellFormed
  obtain ⟨ctx', hcapture, hlater⟩ :=
    capture_eq hwf ⟨arena, [], #[]⟩ ht.complete.counted ht.complete.bounded
  refine ⟨ctx'.captures,
    ⟨(captured_complete hwf harena.stored ht.complete hlater).1,
      harena.ends.captured h.limited (scoped_of_complete ht.complete) hcapture⟩,
    hlater, (capture_counted hcapture).2, fun b hb => ?_⟩
  have ho := erasure?_head (r := r) ht.head
  have hassign := assignable_refl h.noHostTest (.named id)
  by_cases hnominal : ∃ e, s = .nominal e
  · obtain ⟨e, rfl⟩ := hnominal
    obtain rfl := (viewVerdict_nominal (.inl rfl)).1 hb
    exact (verdict_of_settled hkind herase
      (settledByErasure_nominal ho hassign)).2 rfl
  have hsettled :=
    settledByErasure_applied (fun b hb => hnominal ⟨b, hb⟩) ho hassign
  have hq := ht.captured hwf harena.stored hlater
  have hfind : r.find ctx'.captures 1 (r.captured arena.size t).1 (.named id) =
      .ok (some (r.captured arena.size t).1) :=
      find_self (erasure?_head hq.head) 0
  obtain ⟨ctx₂, hcaptures, hiff⟩ :=
    isSupertype_view hplain hkind herase hsettled hcapture hfind
  obtain ⟨m, hm⟩ := hb
  refine (hiff b).2 ⟨m, ?_⟩
  have hsame : ctx₂.captures = (⟨ctx'.captures, [], #[]⟩ : Context).captures :=
    hcaptures
  rwa [matchesView_captures hwf.captureFree hplain m s _ hsame]

/-- If views of a class tell what they offer, its types tell it when they are
captured. -/
theorem tells_opened
    (hs : r.env.erase s = .ok (.named id) ∧ s.isUnknown = false)
    (harena : r.Searchable arena) (ht : r.Offers arena id t)
    (hviews : ∀ {arena q}, r.Searchable arena → r.Offers arena id q →
      r.ViewTells arena s q (r.Offered arena q)) :
    r.Tells arena s t (r.Opens arena t) := by
  obtain ⟨later, hsearchable, hlater, hconverted, hverdict⟩ :=
    verdict_of_opened h hplain hs harena ht
  have hq := ht.captured h.wellFormed harena.stored hlater
  obtain ⟨b, hb, hiff⟩ := hviews hsearchable hq
  exact ⟨b, hverdict b hb, hiff.trans
    ((offered_of_converted hq.head hconverted).trans (opens_iff hlater).symm)⟩

include hclasses

/-- A class applied to unknown arguments tells what its views offer, if it tells
what their owners offer or asks for nothing there. -/
theorem viewTells_applied {c : ClassDecl} (hc : r.env.class? id = some c)
    (harena : r.Searchable arena) (hq : r.Offers arena id q) {owner : Option Ty}
    (howner : ∀ o o', owner = some o → q.owner? = some o' →
      r.Tells arena o o' (r.Opens arena o'))
    (hnone : owner = none → ∀ o', q.owner? = some o' → r.Opens arena o') :
    r.ViewTells arena
      (.parameterized id (c.typeParams.map fun _ => r.env.unknown) owner) q
        (r.Offered arena q) := by
  cases q with
  | parameterized id' args owner' =>
      obtain rfl := Option.some.inj hq.head
      obtain ⟨c', hc', hlen⟩ := hq.complete.counted.counts
      obtain rfl := Option.some.inj (hc.symm.trans hc')
      obtain ⟨b, hb, hiff⟩ := viewTells_unknown h hclasses hplain harena hlen
        (fun a ha => complete_arg hq.complete ha) howner
      refine ⟨b, hb, hiff.trans (and_congr_right fun _ =>
        ⟨fun hopens o' ho' => ?_, fun hopens _ o' _ ho' => hopens o' ho'⟩)⟩
      cases howner' : owner with
      | none => exact hnone howner' o' ho'
      | some o => exact hopens o o' howner' ho'
  | nominal _ => exact viewTells_nominal (.inr rfl) (offered_nominal _)
  | var _ | wildcard _ _ | genericArray _ | capture _ => cases hq.head

/-- Compared with the views of a class, the class with unknown arguments tells
what they offer. -/
theorem viewTells_instance
    (hinst : r.env.Instance (fun _ => r.env.unknown) id cx w) :
    ∀ {arena q}, r.Searchable arena → r.Offers arena id q →
      r.ViewTells arena w q (r.Offered arena q) := by
  induction hinst with
  | plain _ hnone =>
      exact fun _ hq => viewTells_nominal (.inl rfl) (hq.of_bare hnone).1
  | outermost hc houter =>
      intro arena q harena hq
      refine viewTells_applied h hclasses hplain hc harena hq nofun
        fun _ o' ho' => ?_
      obtain ⟨outer, henc, ho⟩ := hq.owner_of ho'
      exact (ho.of_bare fun v => houter outer v henc).2
  | member hc henc hinst ih =>
      intro arena q harena hq
      refine viewTells_applied h hclasses hplain hc harena hq
        (fun o o' ho ho' => ?_) nofun
      obtain rfl := Option.some.inj ho
      obtain ⟨outer', henc', hoffers⟩ := hq.owner_of ho'
      obtain rfl := henc'.unique ⟨_, hc, henc⟩
      exact tells_opened h hplain hinst.erases harena hoffers ih

/-! ## Variables -/

omit hplain in
/-- What a variable erases to is the class of its view: its first bound, or the
top type if it has none. -/
theorem view_of_var
    (hhoused : ∀ v, ∀ b ∈ r.env.boundsOf v, b.Chained r.env.Housed)
    (arena : Array CaptureDef) {v : TypeVarId}
    (hv : ∃ p, r.env.typeParam? v = some p) {c : Class}
    (hc : r.env.erase (.var v) = .ok c) :
    ∃ id g n, c = .named id ∧ r.find arena n (.var v) c = .ok (some g) ∧
      r.Offers arena id g ∧
      (r.Offered arena g ↔
        r.env.Presents (r.ArgsMeet arena) (r.Opens arena) (.var v)) := by
  have hwf := h.wellFormed
  induction v using (wellFounded_boundedBy hwf.bounding).induction with
  | h v ih =>
      obtain ⟨p, hp⟩ := hv
      obtain ⟨s, rest, habove, hs, -⟩ := @above_var r arena c v hc
      have hfound : ∀ {m g}, r.find arena m s c = .ok (some g) →
          r.find arena (m + 1) (.var v) c =
          .ok (some g) := fun {m g} hfind => by
        rw [find_succ (settledBy_unknown rfl c) habove, firstFound, hfind]
        rfl
      have hlist := Outcome.ok.inj ((above_bounds arena hp).symm.trans habove)
      have hbounds := boundsOf_eq hp
      cases hupper : p.upperBounds with
      | nil =>
          rw [hupper] at hlist hbounds
          obtain ⟨rfl, -⟩ := List.cons.inj hlist
          obtain rfl := Outcome.ok.inj hs
          have hoffers : r.Offers arena r.env.wellKnown.object r.env.top :=
            ⟨rfl, complete_known hwf List.mem_cons_self,
              Ty.chained_of_single rfl trivial⟩
          exact ⟨_, _, 2, rfl,
            hfound (find_self (erasure?_head hoffers.head) 0), hoffers,
            iff_of_true (offered_nominal _) fun x hx => absurd hx
              (not_firstBound hbounds)⟩
      | cons b bs =>
          rw [hupper] at hlist hbounds
          obtain ⟨rfl, -⟩ := List.cons.inj hlist
          have hb : b ∈ r.env.boundsOf v := hbounds ▸ List.mem_cons_self
          have hcomplete := (hwf.bounds v b hb).complete
          rcases hclasses v b hb with hvar | hhead
          · obtain ⟨w, rfl⟩ := Ty.exists_of_isVar hvar
            obtain ⟨id, g, m, hclass, hfind, hoffers, hiff⟩ :=
              ih w ⟨_, hb, rfl⟩ hcomplete.fits hs
            refine ⟨id, g, m + 1, hclass, hfound hfind, hoffers, hiff.trans ?_⟩
            exact forall_congr' fun x =>
              imp_congr_left (firstBound_iff_next hbounds).symm
          · obtain ⟨id, hid⟩ := Option.isSome_iff_exists.1 hhead
            have hclass := Outcome.ok.inj (hs.symm.trans (erase_head hid))
            have hnotVar : b.isVar = false := by
              rcases Ty.head?_eq_some_iff.1 hid with rfl | ⟨_, _, rfl⟩ <;> rfl
            refine ⟨id, b, 2, hclass,
              hfound (hclass ▸ find_self (erasure?_head hid) 0),
              ⟨hid, hcomplete.mono (Nat.zero_le _), hhoused v b hb⟩, ?_⟩
            rw [Presents]
            simp only [firstBound_iff_eq hbounds hnotVar, forall_eq]
            rfl

/-! ## Every type -/

/-- What the type erases to is above it as a plain class. -/
theorem verdict_of_erasure
    (hhoused : ∀ v, ∀ b ∈ r.env.boundsOf v, b.Chained r.env.Housed)
    (ht : r.env.Complete arena.size t) {c : Class}
    (hc : r.env.erase t = .ok c) :
    r.Verdict arena (.nominal c) t true := by
  cases hkind : t.isUnknown with
  | false =>
      exact (verdict_of_settled rfl rfl (settledByErasure_nominal
        (erasure?_known hkind hc) (assignable_refl h.noHostTest c))).2 rfl
  | true =>
      cases t with
      | var v =>
          obtain ⟨id, g, n, -, hfind, -⟩ :=
            view_of_var h hclasses hhoused arena ht.fits hc
          exact (verdict_of_view (t := .var v) h.wellFormed hplain trivial
            trivial rfl rfl (settledByErasure_unknown _ (erasure?_unknown rfl))
            hfind).2 ((viewVerdict_nominal (.inl rfl)).2 rfl)
      | wildcard _ _ | capture _ => cases hc
      | nominal _ | parameterized _ _ _ | genericArray _ => cases hkind

omit hplain hclasses in
theorem instance_of_withWildcards (hdef : r.env.isDefined id)
    (hw : r.env.withWildcards (.named id) = .ok w) :
    ∃ cx, r.env.Instance (fun _ => r.env.unknown) id cx w := by
  obtain ⟨w', cx, hw', hinst⟩ := withWildcards_instance h.wellFormed hdef
  obtain rfl := Outcome.ok.inj (hw.symm.trans hw')
  exact ⟨cx, hinst⟩

/-- A type of a class presents what is opened when it is captured. -/
theorem tells_class (harena : r.Searchable arena) (ht : r.Offers arena id t)
    (hw : r.env.withWildcards (.named id) = .ok w) :
    r.Tells arena w t (r.Opens arena t) := by
  obtain ⟨cx, hinst⟩ :=
    instance_of_withWildcards h (ht.complete.supplies ht.head).isDefined hw
  exact tells_opened h hplain hinst.erases harena ht
    (viewTells_instance h hclasses hplain hinst)

/-- A variable presents what its first bound offers. -/
theorem tells_var
    (hhoused : ∀ v, ∀ b ∈ r.env.boundsOf v, b.Chained r.env.Housed)
    (harena : r.Searchable arena) {v : TypeVarId}
    (hv : ∃ p, r.env.typeParam? v = some p) {c : Class}
    (hc : r.env.erase (.var v) = .ok c) (hw : r.env.withWildcards c = .ok w) :
    r.Tells arena w (.var v)
      (r.env.Presents (r.ArgsMeet arena) (r.Opens arena) (.var v)) := by
  obtain ⟨id, g, n, rfl, hfind, hoffers, hiff⟩ :=
    view_of_var h hclasses hhoused arena hv hc
  obtain ⟨cx, hinst⟩ := instance_of_withWildcards h
    (hoffers.complete.supplies hoffers.head).isDefined hw
  obtain ⟨b, hb, hiff'⟩ :=
    viewTells_instance h hclasses hplain hinst harena hoffers
  have hverdict : r.Verdict arena w (.var v) b :=
    (verdict_of_view (t := .var v) h.wellFormed hplain trivial trivial
      hinst.erases.2 hinst.erases.1
      (settledByErasure_unknown _ (erasure?_unknown rfl)) hfind).2 hb
  exact ⟨b, hverdict, hiff'.trans hiff⟩

/-- A class with unknown arguments tells what a type that erases to the class
presents. -/
theorem tells_withWildcards
    (hhoused : ∀ v, ∀ b ∈ r.env.boundsOf v, b.Chained r.env.Housed)
    (harena : r.Searchable arena) (ht : r.env.Complete arena.size t)
    (hchained : t.Chained r.env.Housed) {c : Class} (hc : r.env.erase t = .ok c)
    (hw : r.env.withWildcards c = .ok w) :
    r.Tells arena w t
      (r.env.Presents (r.ArgsMeet arena) (r.Opens arena) t) := by
  have hwf := h.wellFormed
  induction t using Ty.component_induct generalizing c w with
  | plain t htplain =>
      cases t with
      | nominal e =>
          obtain rfl := Outcome.ok.inj hc
          cases e with
          | named id =>
              obtain ⟨b, hb, hiff⟩ :=
                tells_class h hclasses hplain harena ⟨rfl, ht, hchained⟩ hw
              exact ⟨b, hb, hiff.trans (iff_of_true (opens_nominal _) trivial)⟩
          | primitive p =>
              obtain rfl := Outcome.ok.inj hw
              exact ⟨true, verdict_of_erasure h hclasses hplain hhoused ht hc,
                iff_of_true rfl trivial⟩
          | array _ => cases htplain
      | parameterized id _ _ =>
          obtain rfl := Outcome.ok.inj hc
          exact tells_class h hclasses hplain harena ⟨rfl, ht, hchained⟩ hw
      | var v => exact tells_var h hclasses hplain hhoused harena ht.fits hc hw
      | wildcard _ _ | capture _ => cases hc
      | genericArray _ => cases htplain
  | array t k hk ih =>
      obtain ⟨e, hke, rfl⟩ := erase_array hk hc
      obtain ⟨w', hw', rfl⟩ := withWildcards_array hw
      have hcomponent := ht.component? hk
      obtain ⟨b, hb, hiff⟩ := ih hcomponent (hchained.component? hk) hke hw'
      obtain ⟨w'', hw'', herase, hkind⟩ :=
        erase_withWildcards hwf (.array e) (defines_of_erase hwf ht hc)
      obtain rfl := Outcome.ok.inj (hw.symm.trans hw'')
      have herasure := erasure?_known (r := r) (isUnknown_of_component? hk) hc
      have hconverted : t.Converted := by
        rcases Ty.component?_eq_some_iff.1 hk with
            ⟨_, rfl, rfl⟩ | rfl <;> trivial
      have hverdict : ∀ b, r.ViewVerdict arena w'.arrayOf t b →
          r.Verdict arena w'.arrayOf t b :=
        fun b =>
          (verdict_of_allowed hwf hplain ht.counted hconverted hkind herase
            herasure (assignable_refl h.noHostTest _) (find_self herasure 0)).2
      -- two arrays are compared by their components, unless one is plain
      have hnominal : ∀ e, (w'.arrayOf = .nominal e ∨ t = .nominal e) →
          r.Verdict arena w'.arrayOf t true := fun e he =>
        hverdict true ((viewVerdict_nominal he).2 rfl)
      rcases Ty.component?_eq_some_iff.1 hk with ⟨e, rfl, rfl⟩ | rfl
      · exact ⟨true, hnominal _ (.inr rfl), iff_of_true rfl trivial⟩
      cases w' with
      | nominal e' =>
          -- the class takes no arguments, and nothing is asked of any
          obtain rfl : e' = e := Class.array.inj (Outcome.ok.inj herase)
          have hyes :=
            verdict_of_erasure h hclasses hplain hhoused hcomponent hke
          exact ⟨true, hnominal _ (.inl rfl),
            iff_of_true rfl (hiff.1 (hb.unique hyes))⟩
      | parameterized _ _ _ | var _ | wildcard _ _ | genericArray _
      | capture _ =>
          exact ⟨b, hverdict b hb, hiff⟩

end

/-! ## At a point of a history -/

variable {ctx : Context}

/-- Direct supertypes, asked for over and over, lead from the type to a class,
an applied class, a variable or an array. -/
def BelowTop (r : Resolver) (ctx : Context) (t : Ty) : Prop :=
  ∃ s, ReflTransGen (r.Steps ctx) t s ∧ s.isReference = true

/-- The arguments that a type is applied to are below the top type. -/
def ArgsBelowTop (r : Resolver) (ctx : Context) (t : Ty) : Prop :=
  ∀ a ∈ t.arguments, r.BelowTop ctx a

/-- The type can be captured, and then it has such arguments along its chain. -/
def OpensBelowTop (r : Resolver) (ctx : Context) (t : Ty) : Prop :=
  ∃ q ctx', r.capture t ctx = (.ok q, ctx') ∧ q.Chained (r.ArgsBelowTop ctx')

theorem argsBelowTop_eq (hsame : r.SameButMemo ctx ctx) :
    r.ArgsBelowTop ctx = r.ArgsMeet ctx.captures := by
  unfold ArgsBelowTop ArgsMeet BelowTop MeetsReference
  rw [steps_eq hsame]

theorem opensBelowTop_iff (h : r.env.WellFormed)
    (hctx : r.ReachedWith (fun n t => r.env.Complete n t) ctx)
    (ht : r.env.Complete ctx.captures.size t) :
    r.OpensBelowTop ctx t ↔ r.Opens ctx.captures t := by
  obtain ⟨ctx', hcapture, hlater⟩ := capture_eq h ctx ht.counted ht.bounded
  have hanswer : (r.answer 0 (.capture t) ctx).2 = ctx' := by
    rw [answer, bind_apply, hcapture]
    rfl
  have hafter : r.ReachedWith (fun n t => r.env.Complete n t) ctx' :=
    hanswer ▸ hctx.step 0 fun _ hs => List.mem_singleton.1 hs ▸ ht
  rw [opens_iff hlater, ← argsBelowTop_eq (hafter.complete h).2]
  constructor
  · rintro ⟨q, ctx₂, hq, hchained⟩
    obtain ⟨heq, rfl⟩ := Prod.mk.inj (hcapture.symm.trans hq)
    obtain rfl := Outcome.ok.inj heq
    exact hchained
  · exact fun hchained => ⟨_, ctx', hcapture, hchained⟩

/-- What a type presents at a point of a history is what it presents over the
arena there. -/
theorem presents_iff (h : r.env.WellFormed)
    (hctx : r.ReachedWith (fun n t => r.env.Complete n t) ctx)
    (ht : r.env.Complete ctx.captures.size t) :
    r.env.Presents (r.ArgsBelowTop ctx) (r.OpensBelowTop ctx) t ↔
      r.env.Presents (r.ArgsMeet ctx.captures) (r.Opens ctx.captures) t := by
  rw [argsBelowTop_eq (hctx.complete h).2]
  have hbounds :
      ∀ v, ∀ b ∈ r.env.boundsOf v, r.env.Complete ctx.captures.size b :=
    fun v b hb => (h.bounds v b hb).complete.mono (Nat.zero_le _)
  exact ⟨Presents.imp Complete.part hbounds (fun _ _ hx => hx)
      (fun _ hx => (opensBelowTop_iff h hctx hx).1) ht,
    Presents.imp Complete.part hbounds (fun _ _ hx => hx)
      (fun _ hx => (opensBelowTop_iff h hctx hx).2) ht⟩

theorem argsMeet_forgetting :
    r.forgetting.ArgsMeet arena = r.ArgsMeet arena := by
  unfold ArgsMeet MeetsReference
  rw [r.forgetting_alike.directly]

theorem opens_forgetting : r.forgetting.Opens arena = r.Opens arena := by
  funext t
  rw [Opens, Opens, captured_forgetting, argsMeet_forgetting]

/-- Where the arguments are below the top type as they stand, they still are
when they have been captured. -/
theorem presents_of_chained (h : r.env.WellFormed)
    (hclasses : r.env.ClassBounds) (ht : r.env.Complete arena.size t)
    (hchained : r.env.Presents (r.ArgsMeet arena)
      (Ty.Chained (r.ArgsMeet arena)) t) :
    r.env.Presents (r.ArgsMeet arena) (r.Opens arena) t :=
  hchained.imp Complete.part
    (fun v b hb => (h.bounds v b hb).complete.mono (Nat.zero_le _))
    (fun _ _ hx => hx)
    (fun _ hx hargs => meets_captured h hclasses hx.counted hargs rfl) ht

/-- Boxed arguments are below the top type. -/
theorem argsMeet_of_boxed (ht : r.env.Complete 0 t)
    (hplaced : ∀ x ∈ t.parts, Placed x) (hboxed : t.Boxed) :
    r.ArgsMeet arena t := by
  intro a ha
  cases t with
  | parameterized id args owner =>
      have hpart : a ∈ (Ty.parameterized id args owner).parts :=
        Ty.arg_mem_parts ha
      exact (meets_iff_isBoxed (ht.part hpart)
        fun x hx => hplaced x (Ty.mem_parts_trans hx hpart)).2 (hboxed a ha)
  | nominal _ | var _ | wildcard _ _ | genericArray _ | capture _ =>
      exact absurd ha List.not_mem_nil

theorem chained_of_boxed :
    ∀ {t : Ty}, r.env.Complete 0 t → (∀ x ∈ t.parts, Placed x) →
    t.Chained Ty.Boxed → t.Chained (r.ArgsMeet arena)
  | .parameterized _ _ (some o), ht, hplaced, hboxed => by
      have howner : ∀ x ∈ o.parts, Placed x := fun x hx =>
        hplaced x (Ty.mem_parts_trans hx Ty.owner_mem_parts)
      exact Ty.chained_owned.2 ⟨argsMeet_of_boxed ht hplaced hboxed.link,
        chained_of_boxed (complete_owner ht) howner (hboxed.owner rfl)⟩
  | .parameterized _ _ none, ht, hplaced, hboxed =>
      Ty.chained_of_single rfl (argsMeet_of_boxed ht hplaced hboxed.link)
  | .genericArray t, ht, hplaced, hboxed =>
      chained_of_boxed (t := t) (ht.part (Ty.component_mem_parts t))
        (fun x hx => hplaced x
          (Ty.mem_parts_trans hx (Ty.component_mem_parts t))) hboxed
  | .nominal _, _, _, _ | .var _, _, _, _ | .wildcard _ _, _, _, _
  | .capture _, _, _, _ =>
      Ty.chained_of_single rfl fun _ ha => absurd ha List.not_mem_nil

theorem presents_of_boxed (h : r.env.WellFormed) (ht : r.env.Proper 0 t)
    (hboxed : r.env.Presents Ty.Boxed (Ty.Chained Ty.Boxed) t) :
    r.env.Presents (r.ArgsMeet arena) (Ty.Chained (r.ArgsMeet arena)) t :=
  hboxed.imp (Q := fun x => r.env.Complete 0 x ∧ ∀ y ∈ x.parts, Placed y)
    (fun hx hy => ⟨hx.1.part hy, fun z hz => hx.2 z (Ty.mem_parts_trans hz hy)⟩)
    (fun v b hb => ⟨(h.bounds v b hb).complete, (h.bounds v b hb).placed⟩)
    (fun _ hx => argsMeet_of_boxed hx.1 hx.2)
    (fun _ hx => chained_of_boxed hx.1 hx.2) ⟨ht.complete, ht.placed⟩

/-- In a class with unknown arguments no capture is written. -/
theorem captureFree_withWildcards {c : Class}
    (hw : r.env.withWildcards c = .ok w) : w.mentionsCapture = false := by
  have hscoped :=
    Ty.scoped_hereditary.withWildcards (n := 0) r.env.toDeclarations c
  rw [hw] at hscoped
  exact Ty.mentionsCapture_eq_false fun _ hi => Nat.not_lt_zero _ (hscoped _ hi)

/-- A class with unknown arguments erases to the class. Wherever requests about
complete types lead, asking whether it is above a type that erases to the class
has an answer, and the answer is yes exactly if the arguments that the type
presents are below the top type, for which it is enough that they are before
anything is captured; so it is for plain classes, types with arguments and
owners, variables and arrays of these. In any state, and for a type that no
capture is written in, it is enough that they are boxed. The hierarchy is taken
with lone interfaces below the top class (`Ascending`): if it went in a circle
there, an argument might have no answer. -/
theorem isSupertype_withWildcards (h : r.Ascending)
    (hclasses : r.env.ClassBounds)
    (hhoused : ∀ v, ∀ b ∈ r.env.boundsOf v, b.Chained r.env.Housed) :
    (∀ c, r.env.Defines c → ∃ w, r.env.withWildcards c = .ok w ∧
        r.env.erase w = .ok c) ∧
      (∀ {ctx t c}, r.ReachedWith (fun n t => r.env.Complete n t) ctx →
        r.env.Complete ctx.captures.size t → t.Chained r.env.Housed →
        r.env.erase t = .ok c →
        ∃ w b, r.env.withWildcards c = .ok w ∧
          (∃ least, ∀ depth, least ≤ depth →
            (r.isSupertype depth w t ctx).1 = .ok b) ∧
          (b = true ↔
            r.env.Presents (r.ArgsBelowTop ctx) (r.OpensBelowTop ctx) t) ∧
          (r.env.Presents (r.ArgsBelowTop ctx)
            (Ty.Chained (r.ArgsBelowTop ctx)) t → b = true)) ∧
      ∀ {ctx t c}, r.Reachable ctx → r.env.Proper 0 t → t.Chained r.env.Housed →
        r.env.erase t = .ok c →
        r.env.Presents Ty.Boxed (Ty.Chained Ty.Boxed) t →
        ∃ w, r.env.withWildcards c = .ok w ∧
          ∃ least, ∀ depth, least ≤ depth →
            (r.isSupertype depth w t ctx).1 = .ok true := by
  have hwf := h.wellFormed
  have hclass : ∀ {n t c}, r.env.Complete n t → r.env.erase t = .ok c →
      ∃ w, r.env.withWildcards c = .ok w := fun ht hc =>
    let ⟨w, hw, _⟩ := erase_withWildcards hwf _ (defines_of_erase hwf ht hc)
    ⟨w, hw⟩
  refine ⟨fun c hdef => ?_, fun {ctx t c} hctx ht hchained hc => ?_,
    fun {ctx t c} hctx ht hchained hc hboxed => ?_⟩
  · obtain ⟨w, hw, herase, -⟩ := erase_withWildcards hwf c hdef
    exact ⟨w, hw, herase⟩
  · obtain ⟨-, hsame⟩ := hctx.complete hwf
    obtain ⟨w, hw⟩ := hclass ht hc
    obtain ⟨b, hb, hiff⟩ :=
      tells_withWildcards (r := r.forgetting) h.forgetting hclasses
        rfl hhoused (hctx.searchable h).forgetting ht hchained hc hw
    rw [argsMeet_forgetting, opens_forgetting] at hiff
    refine ⟨w, b, hw, ((verdict_iff hwf.captureFree hsame).2 hb).lasts,
      hiff.trans (presents_iff hwf hctx ht).symm, fun hargs => hiff.2 ?_⟩
    rw [argsBelowTop_eq hsame] at hargs
    exact presents_of_chained hwf hclasses ht hargs
  · obtain ⟨w, hw⟩ := hclass ht.complete hc
    obtain ⟨b, hb, hiff⟩ :=
      tells_withWildcards (r := r.forgetting) h.forgetting hclasses
        rfl hhoused (ReachedWith.start.searchable h).forgetting ht.complete
        hchained hc hw
    rw [argsMeet_forgetting, opens_forgetting] at hiff
    obtain rfl :=
      hiff.2 (presents_of_chained hwf hclasses ht.complete
        (presents_of_boxed hwf ht hboxed))
    have hverdict : r.forgetting.Verdict ctx.captures w t true :=
      hb.of_captureFree hwf.captureFree rfl (captureFree_withWildcards hw)
        ht.captureFree
    exact ⟨w, hw,
      ((verdict_iff hwf.captureFree hctx.sameButMemo).2 hverdict).lasts⟩

end Resolver

namespace TypeStore

open Declarations Resolver

namespace Seed

/-- `Outer<a>.Inner`. -/
def plainInner (a : Ty) : Ty :=
  .parameterized (free 1) [] (some (applied (free 0) [a]))

/-- `Outer<? super String>.Inner`. -/
def innerOfSuper : Ty := plainInner (Wildcard.above object (.named string)).toTy

/-- An argument of which nothing is known. -/
def nothingKnown : Ty := (Wildcard.unbounded object).toTy

end Seed

/-- `Outer<? super String>.Inner[]` is below `Outer<?>.Inner[]`, and so it is
when the wildcard has been captured. -/
theorem arrayOfInner_below_unknown :
    (∃ least, ∀ depth, least ≤ depth → (leaves.resolver.isSupertype depth
      (.genericArray (Seed.plainInner Seed.nothingKnown))
      (.genericArray Seed.innerOfSuper) .empty).1 = .ok true) ∧
    ∃ ctx, leaves.resolver.answer 5 (.capture Seed.innerOfSuper) .empty =
        (.ok (.type (Seed.plainInner (.capture ⟨0⟩))), ctx) ∧
      ∃ least, ∀ depth, least ≤ depth → (leaves.resolver.isSupertype depth
        (.genericArray (Seed.plainInner Seed.nothingKnown))
        (.genericArray (Seed.plainInner (.capture ⟨0⟩))) ctx).1 = .ok true := by
  have hclasses : leaves.toDeclarations.ClassBounds :=
    fun _ _ hb => forall_bound (d := leaves.toDeclarations)
      (P := fun b => b.isVar = true ∨ b.head?.isSome) (by decide) hb
  have hhoused : ∀ v, ∀ b ∈ leaves.toDeclarations.boundsOf v,
      b.Chained leaves.toDeclarations.Housed :=
    fun _ _ hb => forall_bound (d := leaves.toDeclarations)
      (P := fun b => b.Chained leaves.toDeclarations.Housed) (by decide) hb
  obtain ⟨-, hopened, hboxed⟩ := Resolver.isSupertype_withWildcards
    leaves_lawful.covered.ascending hclasses hhoused
  have hunknown :
      leaves.toDeclarations.withWildcards (.array (.named (Seed.free 1))) =
        .ok (.genericArray (Seed.plainInner Seed.nothingKnown)) := rfl
  refine ⟨?_, (leaves.resolver.answer 5 (.capture Seed.innerOfSuper) .empty).2,
    Prod.ext (by decide) rfl, ?_⟩
  · obtain ⟨w, hw, hleast⟩ := hboxed (c := .array (.named (Seed.free 1)))
      (t := .genericArray (Seed.plainInner
        (Wildcard.above Seed.object (.named Seed.string)).toTy))
      .start (by decide) (by decide) rfl (by decide : Ty.Chained Ty.Boxed _)
    obtain rfl := Outcome.ok.inj (hw.symm.trans hunknown)
    exact hleast
  · obtain ⟨w, b, hw, hleast, -, hyes⟩ :=
      hopened (c := .array (.named (Seed.free 1)))
        (t := .genericArray (Seed.plainInner (.capture ⟨0⟩)))
        (.step .start 5 (q := .capture Seed.innerOfSuper) (by decide))
        (by decide) (by decide) rfl
    obtain rfl := Outcome.ok.inj (hw.symm.trans hunknown)
    -- the bound of the capture is `Object`
    have hbelow : ∀ a ∈ [Ty.capture ⟨0⟩], leaves.resolver.BelowTop
        (leaves.resolver.answer 5 (.capture Seed.innerOfSuper) .empty).2
        a := fun a ha => by
      obtain rfl := List.mem_singleton.1 ha
      exact ⟨.named Seed.object, .single ⟨_, _, rfl, List.mem_cons_self⟩, rfl⟩
    obtain rfl :=
      hyes (Ty.chained_owned.2 ⟨nofun, Ty.chained_of_single rfl hbelow⟩)
    exact hleast

/-- The core package and a variable `T extends Comparable<int>`. -/
def unboxed : TypeStore :=
  core.applyAll [.addTypeParam "T"
    [Seed.applied Seed.comparable [.primitive .int]]]

theorem unboxed_covered : unboxed.resolver.Covered where
  topped :=
    { wellFormed :=
        wellFormed_of_inOrder ClassId.index (by decide) (by decide) (by decide)
      top := ⟨_, rfl, rfl, rfl⟩ }
  superclass := fun {id _} hc hkind hne =>
    forall_class (d := unboxed.toDeclarations) (P := fun id c => c.kind =
      .ordinary → id ≠ Seed.object → c.supertypes ≠ [])
    (by decide) hc hkind hne
  implicitTop := rfl
  noHostTest := rfl

/-- `Comparable<? extends Object[]>`. -/
def Seed.comparableOfArray : Ty := applied comparable
  [(Wildcard.below (.nominal (.array (.named object)))).toTy]

/-- The wildcard is captured below `Object[]`, and the search from there for the
top class does not end. -/
theorem comparableOfArray_goes_round (depth : Nat) :
    (lonelyRootResolver.isSupertype depth
      (Seed.applied Seed.comparable [Seed.nothingKnown])
      Seed.comparableOfArray .empty).1 = .exhausted := by
  have hcapture : lonelyRootResolver.capture Seed.comparableOfArray .empty =
      (.ok (Seed.applied Seed.comparable [.capture ⟨0⟩]),
        (lonelyRootResolver.capture Seed.comparableOfArray .empty).2) :=
    Prod.ext (by decide) rfl
  have hsame : lonelyRootResolver.SameButMemo
      (lonelyRootResolver.capture Seed.comparableOfArray .empty).2
      (lonelyRootResolver.capture Seed.comparableOfArray .empty).2 :=
    (Reachable.step .start 0 (.capture Seed.comparableOfArray)).sameButMemo
  have habove : ∃ rest, lonelyRootResolver.above
      (lonelyRootResolver.capture Seed.comparableOfArray .empty).2.captures
        (.capture ⟨0⟩) =
      .ok (.nominal (.array (.named Seed.object)) :: rest) := ⟨_, rfl⟩
  generalize (lonelyRootResolver.capture Seed.comparableOfArray .empty).2 =
    ctx at hcapture hsame habove
  obtain ⟨rest, habove⟩ := habove
  have hfind : ∀ n, lonelyRootResolver.find ctx.captures n (.capture ⟨0⟩)
      (.named Seed.object) = .exhausted := by
    intro n
    cases n with
    | zero => rfl
    | succ n =>
        rw [find_succ (settledBy_unknown rfl _) habove, firstFound,
          lonelyRoot_goes_round (by decide) _ n _ (by decide)]
        rfl
  have htop : ∀ n, (lonelyRootResolver.isSupertype n (.named Seed.object)
      (.capture ⟨0⟩) ctx).1 = .exhausted := by
    intro n
    cases n with
    | zero => rfl
    | succ n =>
        rw [isSupertype_succ rfl rfl (settledByErasure_unknown _ rfl) rfl]
        exact Resolve.bind_exhausted
          ((exactSupertype_eq_find hsame n _ _).trans (hfind n))
  have hcontains : ∀ n, (containsBy (lonelyRootResolver.isSupertype n)
      Seed.nothingKnown (.capture ⟨0⟩) ctx).1 = .exhausted := fun n =>
    Resolve.bind_exhausted (Resolve.bind_exhausted (htop n))
  have hlen : [Seed.nothingKnown].length = [Ty.capture ⟨0⟩].length := rfl
  cases depth with
  | zero => rfl
  | succ n =>
      rw [isSupertype_succ rfl rfl rfl hcapture]
      cases n with
      | zero => rfl
      | succ n =>
          show (argumentsMatch (lonelyRootResolver.isSupertype (n + 1))
            Seed.comparable [Seed.nothingKnown] none [.capture ⟨0⟩] none
              ctx).1 = _
          rw [argumentsMatch_eq _ _ hlen]
          exact Resolve.bind_exhausted
            (Resolve.bind_exhausted (hcontains (n + 1)))

/-- `Comparable<?>` is above neither `Comparable<int>` nor
`Comparable<? extends int>`, and not above a variable bounded by the first. Nor
is it above `Comparable` of the capture that is opened for the wildcard of
`Pair<int, ?>`. Where an interface is declared above `Object`, and so put below
it too, there is no answer for `Comparable<? extends Object[]>`. -/
theorem unknownComparable_not_above :
    (unboxed.resolver.Ascending ∧ unboxed.toDeclarations.ClassBounds ∧
      unboxed.toDeclarations.withWildcards (.named Seed.comparable) =
        .ok (Seed.applied Seed.comparable [Seed.nothingKnown]) ∧
      ∀ t ∈ [Seed.applied Seed.comparable [.primitive .int],
          Seed.applied Seed.comparable
            [(Wildcard.below (.primitive .int)).toTy], Seed.tv 2],
        unboxed.toDeclarations.Proper 0 t ∧
          t.Chained unboxed.toDeclarations.Housed ∧
          unboxed.toDeclarations.erase t = .ok (.named Seed.comparable) ∧
          ∀ depth, (unboxed.resolver.isSupertype depth
            (Seed.applied Seed.comparable [Seed.nothingKnown]) t .empty).1 ≠
              .ok true) ∧
    (pairResolver.Ascending ∧ pairResolver.env.Proper 0 Seed.pairOfInt ∧
      ∃ ctx, pairResolver.answer 5 (.capture Seed.pairOfInt) .empty =
          (.ok (.type (Seed.applied Seed.pair [.primitive .int, .capture ⟨0⟩])),
            ctx) ∧
        pairResolver.env.Complete ctx.captures.size
          (Seed.applied Seed.comparable [.capture ⟨0⟩]) ∧
        ∀ depth, (pairResolver.isSupertype depth
          (Seed.applied Seed.comparable [Seed.nothingKnown])
          (Seed.applied Seed.comparable [.capture ⟨0⟩]) ctx).1 ≠ .ok true) ∧
    (lonelyRootResolver.env.WellFormed ∧
      lonelyRootResolver.env.ClassBounds ∧
      (∀ {id c}, lonelyRootResolver.env.class? id = some c →
        c.kind = .ordinary → id ≠ lonelyRootResolver.env.wellKnown.object →
        c.supertypes ≠ []) ∧
      lonelyRootResolver.config.implicitObjectSupertype = true ∧
      lonelyRootResolver.env.hostTest = none ∧
      lonelyRootResolver.env.Proper 0 Seed.comparableOfArray ∧
      Seed.comparableOfArray.Chained lonelyRootResolver.env.Housed ∧
      lonelyRootResolver.env.erase Seed.comparableOfArray =
        .ok (.named Seed.comparable) ∧
      lonelyRootResolver.env.withWildcards (.named Seed.comparable) =
        .ok (Seed.applied Seed.comparable [Seed.nothingKnown]) ∧
      ∀ depth, (lonelyRootResolver.isSupertype depth
        (Seed.applied Seed.comparable [Seed.nothingKnown])
        Seed.comparableOfArray .empty).1 = .exhausted) := by
  refine ⟨⟨unboxed_covered.ascending,
      fun _ _ hb => forall_bound (d := unboxed.toDeclarations)
        (P := fun b => b.isVar = true ∨ b.head?.isSome) (by decide) hb,
      rfl, fun t ht => ?_⟩,
    ⟨pairResolver_covered.ascending, by decide,
      (pairResolver.answer 5 (.capture Seed.pairOfInt) .empty).2,
      Prod.ext (by decide) rfl, by decide, fun depth => ?_⟩,
    ⟨lonelyRoot_wellFormed,
      fun _ _ hb => forall_bound (d := lonelyRootResolver.env.toDeclarations)
        (P := fun b => b.isVar = true ∨ b.head?.isSome) (by decide) hb,
      fun {id _} hc hkind hne => forall_class
        (d := lonelyRootResolver.env.toDeclarations)
        (P := fun id c => c.kind = .ordinary → id ≠ Seed.object →
          c.supertypes ≠ [])
        (by decide) hc hkind hne,
      rfl, rfl, by decide, by decide, rfl, rfl, comparableOfArray_goes_round⟩⟩
  · have hrun : unboxed.toDeclarations.Proper 0 t ∧
        t.Chained unboxed.toDeclarations.Housed ∧
        unboxed.toDeclarations.erase t = .ok (.named Seed.comparable) ∧
        (unboxed.resolver.isSupertype 4
          (Seed.applied Seed.comparable [Seed.nothingKnown]) t .empty).1 =
        .ok false := by
      simp only [List.mem_cons, List.not_mem_nil, or_false] at ht
      rcases ht with rfl | rfl | rfl <;> exact ⟨by decide, by decide, rfl, rfl⟩
    obtain ⟨hproper, hhoused, herase, hno⟩ := hrun
    exact ⟨hproper, hhoused, herase,
      fun depth => Resolver.isSupertype_ne_true hno nofun nofun⟩
  · have hno : (pairResolver.isSupertype 5
        (Seed.applied Seed.comparable [Seed.nothingKnown])
        (Seed.applied Seed.comparable [.capture ⟨0⟩])
        (pairResolver.answer 5 (.capture Seed.pairOfInt) .empty).2).1 =
        .ok false := by decide
    exact Resolver.isSupertype_ne_true hno nofun nofun

end TypeStore

end GenericTypes
