import GenericTypes.Proofs.WaysUp

/-!
# Every search comes to an end

A search is cut short if its depth does not suffice, and so are erasure and the
question whether a class is raw if they are given too few steps. Where ways up
end (`Limited`), none of that happens from some depth on.

Erasure goes from variable to variable, rawness from class to class outwards,
and both have as many steps as there are of these, so that a rank covers them
(`erase_ends`, `isRaw_ends`). What is directly above a type takes nothing else
(`above_ends`). Searches go up, and the depth that one needs is one more than
the largest needed directly above, whatever is searched for and whatever has
been found so far (`find_ends`, `gather_ends`).

Ends need not be answers: names that lead nowhere, wrong numbers of arguments
and erasures that are refused make a search fail, and that is an end as well.
-/

namespace GenericTypes

open Relation

namespace Outcome

variable {α β : Type}

theorem ok_ends (a : α) : Outcome.ok a ≠ .exhausted := nofun

theorem error_ends
    (e : Error) : (Outcome.error e : Outcome α) ≠ .exhausted := nofun

/-- A chain is cut short only where one of its two steps is. -/
theorem bind_ends {x : Outcome α} {f : α → Outcome β} (hx : x ≠ .exhausted)
    (hf : ∀ a, x = .ok a → f a ≠ .exhausted) : (x >>= f) ≠ .exhausted := by
  cases x with
  | ok a => exact hf a rfl
  | error e => exact error_ends e
  | exhausted => exact absurd rfl hx

theorem ofExcept_ends (x : Except Error α) :
    Outcome.ofExcept x ≠ .exhausted := by
  cases x with
  | ok a => exact ok_ends a
  | error e => exact error_ends e

end Outcome

theorem Resolve.ends_bind {α β : Type} {x : Resolve α} {f : α → Resolve β}
    {ctx : Context} (hx : (x ctx).1 ≠ .exhausted)
    (hf : ∀ a ctx', x ctx = (.ok a, ctx') → (f a ctx').1 ≠ .exhausted) :
    ((x >>= f) ctx).1 ≠ .exhausted := by
  rw [bind_apply]
  match hxc : x ctx with
  | (.ok a, ctx') => exact hf a ctx' hxc
  | (.error _, _) => exact Outcome.error_ends _
  | (.exhausted, _) => exact absurd (congrArg Prod.fst hxc) hx

open Outcome

namespace Declarations

variable {d : Declarations}

/-! ## Erasure and rawness -/

theorem eraseWith_ends {onVar : TypeVarId → Outcome Class} : ∀ {t : Ty},
    (∀ v, t.element = .var v → onVar v ≠ .exhausted) →
      t.eraseWith onVar ≠ .exhausted
  | .nominal _, _ | .parameterized _ _ _, _ => ok_ends _
  | .wildcard _ _, _ | .capture _, _ => error_ends _
  | .var v, h => h v rfl
  | .genericArray t, h =>
      bind_ends (eraseWith_ends (t := t) h) fun _ _ => ok_ends _

theorem eraseVar_ends {rank : TypeVarId → Nat}
    (hrank : ∀ v w, d.BoundedBy v w → rank w < rank v) :
    ∀ fuel v, rank v < fuel → d.eraseVar fuel v ≠ .exhausted
  | fuel + 1, v, hfuel => by
      refine bind_ends (ofExcept_ends _) fun p hget => ?_
      have hp : d.typeParam? v = some p := typeParam?_of_getTypeParam hget
      cases hbs : p.upperBounds with
      | nil => exact ok_ends _
      | cons b bs =>
          refine eraseWith_ends fun w hw => eraseVar_ends hrank fuel w ?_
          have hlt := hrank v w
            ⟨b, mem_boundsOf_iff.2 ⟨p, hp, hbs ▸ List.mem_cons_self⟩, hw⟩
          omega

theorem erase_ends (hbounding : ∀ v, ¬ TransGen d.BoundedBy v v) (t : Ty) :
    d.erase t ≠ .exhausted := by
  obtain ⟨rank, hle, hrank⟩ := exists_rank_boundedBy hbounding
  exact eraseWith_ends fun v _ =>
    eraseVar_ends hrank _ v (Nat.lt_succ_of_le (hle v))

theorem erasure?_ends (hbounding : ∀ v, ¬ TransGen d.BoundedBy v v) (t : Ty) :
    d.erasure? t ≠ .exhausted := by
  have hends := erase_ends hbounding t
  cases t with
  | nominal _ | parameterized _ _ _ | genericArray _ =>
      unfold erasure?
      dsimp only
      split
      · exact ok_ends _
      · exact ok_ends _
      · exact error_ends _
      · next hexhausted => exact absurd hexhausted hends
  | var _ | wildcard _ _ | capture _ => exact ok_ends _

theorem isGenericWithin_ends {rank : ClassId → Nat}
    (hrank : ∀ id outer, d.EnclosedBy id outer → rank outer < rank id) :
    ∀ fuel id, rank id < fuel → d.isGenericWithin fuel id ≠ .exhausted
  | fuel + 1, id, hfuel => by
      refine bind_ends (ofExcept_ends _) fun c hget => ?_
      have hc : d.class? id = some c := class?_of_getClass hget
      split
      · cases henc : c.enclosing with
        | none => exact ok_ends _
        | some outer =>
            have hlt := hrank id outer ⟨c, hc, henc⟩
            exact isGenericWithin_ends hrank fuel outer (by omega)
      · exact ok_ends _

theorem isRaw_ends (hnesting : ∀ id, ¬ TransGen d.EnclosedBy id id) : ∀ c,
    d.isRaw c ≠ .exhausted
  | .named id => by
      obtain ⟨rank, hle, hrank⟩ := exists_rank_enclosedBy hnesting
      exact isGenericWithin_ends hrank _ id (Nat.lt_succ_of_le (hle id))
  | .primitive _ | .array _ => ok_ends _

end Declarations

namespace Resolver

open Resolve Declarations

variable {r : Resolver} {arena : Array CaptureDef}
  {ctx : Context} {t : Ty} {id : ClassId}

theorem Limited.boundedBy (h : r.Limited) (v : TypeVarId) :
    ¬ TransGen r.env.BoundedBy v v :=
  fun hv => h.bounding v (TransGen.mono (fun _ _ => BoundedBy.leadsTo) v v hv)

/-! ## Directly above -/

theorem substituteThrough_ends (h : r.Limited) (t via : Ty)
    (own : List TypeVarId) : r.substituteThrough t via own ≠ .exhausted := by
  cases via with
  | nominal c =>
      refine bind_ends (isRaw_ends h.nesting c) fun raw _ => ?_
      cases raw with
      | true => exact bind_ends (erase_ends h.boundedBy t) fun _ _ => ok_ends _
      | false => exact ofExcept_ends _
  | parameterized _ _ _ =>
      exact bind_ends (ofExcept_ends _) fun _ _ => ofExcept_ends _
  | var _ | wildcard _ _ | genericArray _ | capture _ => exact error_ends _

theorem substituteAll_ends (h : r.Limited) (via : Ty)
    (own : List TypeVarId) : ∀ ts,
    r.substituteAll via own ts ≠ .exhausted
  | [] => ok_ends _
  | t :: ts => bind_ends (substituteThrough_ends h t via own) fun _ _ =>
      bind_ends (substituteAll_ends h via own ts) fun _ _ => ok_ends _

theorem freshSupertypes_ends (h : r.Limited) (id : ClassId) (t : Ty) :
    r.freshSupertypes id t ≠ .exhausted := by
  refine bind_ends (ofExcept_ends _) fun c _ =>
    bind_ends (substituteAll_ends h t [] c.supertypes) fun declared _ => ?_
  split <;> exact ok_ends _

theorem classAbove_ends (h : r.Limited) : ∀ c, r.classAbove c ≠ .exhausted
  | .named id => freshSupertypes_ends h id _
  | .primitive _ => ok_ends _
  | .array c => bind_ends (classAbove_ends h c) fun _ _ => ok_ends _

theorem above_ends (h : r.Limited) (arena : Array CaptureDef) (t : Ty) :
    r.above arena t ≠ .exhausted := by
  induction t using Ty.induct with
  | nominal c => exact classAbove_ends h c
  | parameterized id _ _ _ _ => exact freshSupertypes_ends h id _
  | var _ => exact bind_ends (ofExcept_ends _) fun _ _ => ok_ends _
  | wildcard _ _ _ _ => exact ok_ends _
  | genericArray t ih => exact bind_ends ih fun _ _ => ok_ends _
  | capture i =>
      rw [above]
      cases arena[i.index]? with
      | some c => exact ok_ends _
      | none => exact error_ends _

/-! ## Searches -/

theorem settledBy_ends (h : r.Limited) (t : Ty) (target : Class) :
    r.settledBy t target ≠ .exhausted := by
  refine bind_ends (erasure?_ends h.boundedBy t) fun c _ => ?_
  cases c with
  | none => exact ok_ends _
  | some c =>
      dsimp only
      split
      · exact ok_ends _
      · split <;> exact ok_ends _

theorem firstFound_ends {ask : Ty → Outcome (Option Ty)} : ∀ {ts : List Ty},
    (∀ s ∈ ts, ask s ≠ .exhausted) → firstFound ask ts ≠ .exhausted
  | [], _ => ok_ends _
  | t :: ts, hask => bind_ends (hask t List.mem_cons_self) fun found _ => by
      cases found with
      | some _ => exact ok_ends _
      | none =>
          exact firstFound_ends fun s hs => hask s (List.mem_cons_of_mem t hs)

/-- What each type directly above needs in depth, all of them together need. -/
theorem exists_depth_above {Q : Nat → Ty → Prop}
    (h : ∀ s, r.Directly arena t s →
      ∃ least, ∀ depth, least ≤ depth → Q depth s) :
    ∃ least, ∀ ts, r.above arena t = .ok ts → ∀ s ∈ ts, ∀ depth, least ≤ depth →
      Q depth s := by
  cases habove : r.above arena t with
  | ok ts =>
      obtain ⟨least, hleast⟩ := exists_common_depth
        (P := fun n s => ∀ depth, n ≤ depth → Q depth s)
        (fun hle hn depth hdepth => hn depth (Nat.le_trans hle hdepth))
        fun s hs => h s ⟨ts, habove, hs⟩
      exact ⟨least, fun us hus => Outcome.ok.inj hus ▸ hleast⟩
  | error _ | exhausted => exact ⟨0, nofun⟩

/-- One depth is enough to search for whatever class above the type. -/
theorem find_ends (h : r.Limited) (ht : r.Halts arena t) :
    ∃ least, ∀ depth, least ≤ depth →
      ∀ target, r.find arena depth t target ≠ .exhausted := by
  -- on the ways up from the type
  induction ht with
  | @intro t _ ih =>
      obtain ⟨least, hleast⟩ := exists_depth_above ih
      refine ⟨least + 1, fun depth hle target => ?_⟩
      obtain ⟨depth, rfl⟩ : ∃ n, depth = n + 1 := ⟨depth - 1, by omega⟩
      refine bind_ends (settledBy_ends h t target) fun settled _ => ?_
      cases settled with
      | some _ => exact ok_ends _
      | none =>
          exact bind_ends (above_ends h arena t) fun _ hts =>
            firstFound_ends fun s hs =>
              hleast _ hts s hs depth (Nat.le_of_succ_le_succ hle) target

theorem typeArgument_ends {depth : Nat}
    (h : ∀ target, (r.exactSupertype depth t target ctx).1 ≠ .exhausted)
    (v : TypeVarId) : (r.typeArgument depth t v ctx).1 ≠ .exhausted := by
  refine Resolve.ends_bind (ofExcept_ends _) fun p ctx' hp => ?_
  obtain rfl : ctx = ctx' := congrArg Prod.snd hp
  cases p.declaringClass with
  | none => exact ok_ends _
  | some id =>
      refine Resolve.ends_bind (h (.named id)) fun found _ _ => ?_
      match found with
      | some (.parameterized _ _ _) =>
          exact Resolve.ends_bind (ofExcept_ends _) fun _ _ _ => ok_ends _
      | none | some (.nominal _) | some (.var _) | some (.wildcard _ _)
      | some (.genericArray _) | some (.capture _) => exact ok_ends _

/-! ## Bounding classes -/

/-- Thread what was found through a step for each type. -/
def gatherEach (step : Ty → List Class → Outcome (List Class)) :
    List Ty → List Class → Outcome (List Class)
  | [], found => return found
  | t :: ts, found => do
      let found ← step t found
      gatherEach step ts found

/-- The bounding classes of a type over an arena, behind those found before. -/
def gather (r : Resolver) (arena : Array CaptureDef) :
    Nat → Ty → List Class → Outcome (List Class)
  | 0, _, _ => .exhausted
  | depth + 1, t, found =>
      match t with
      | .nominal _ | .parameterized _ _ _ => do
          return insertClass found (← r.env.erase t)
      | .var _ | .wildcard _ _ | .genericArray _ | .capture _ => do
          let supertypes ← r.above arena t
          gatherEach (r.gather arena depth) supertypes found

theorem collectEach_reads {step : Ty → List Class → Resolve (List Class)}
    {f : Array CaptureDef → Ty → List Class → Outcome (List Class)}
    (h : ∀ t found, Reads (step t found) fun arena => f arena t found) :
    ∀ ts found, Reads (collectEach step ts found) fun arena =>
      gatherEach (f arena) ts found
  | [], found => .outcome (.ok found)
  | t :: ts, found => (h t found).bind fun found => collectEach_reads h ts found

theorem collectBounds_reads (hplain : r.config.memoizeSupertypes = false) :
    ∀ depth t found, Reads (r.collectBounds depth t found)
      fun arena => r.gather arena depth t found
  | 0, _, _ => .outcome .exhausted
  | depth + 1, t, found => by
      cases t with
      | nominal _ | parameterized _ _ _ =>
          exact .after (r.env.erase _) fun c =>
            .outcome (.ok (insertClass found c))
      | var _ | wildcard _ _ | genericArray _ | capture _ =>
          exact (directSupertypes_reads hplain _).bind fun ts =>
            collectEach_reads (f := fun arena => r.gather arena depth)
              (collectBounds_reads hplain depth) ts found

theorem gather_forgetting (r : Resolver) (arena : Array CaptureDef) : ∀ n,
    r.forgetting.gather arena n = r.gather arena n
  | 0 => rfl
  | n + 1 => by
      funext t found
      cases t with
      | nominal _ | parameterized _ _ _ => rfl
      | var _ | wildcard _ _ | genericArray _ | capture _ =>
          rw [gather, gather, gather_forgetting r arena n,
            r.forgetting_alike.above]

/-- What a resolver with a sound memo gathers is what its arena says. -/
theorem collectBounds_eq_gather (hsame : r.SameButMemo ctx ctx)
    (n : Nat) (t : Ty) (found : List Class) :
    (r.collectBounds n t found ctx).1 = r.gather ctx.captures n t found := by
  rw [(collectBounds_simulates r n t found ctx ctx hsame).1,
    ← gather_forgetting]
  exact (collectBounds_reads rfl n t found ctx).1

theorem gatherEach_ends {step : Ty → List Class → Outcome (List Class)} :
    ∀ {ts : List Ty}, (∀ s ∈ ts, ∀ found, step s found ≠ .exhausted) →
      ∀ found, gatherEach step ts found ≠ .exhausted
  | [], _, _ => ok_ends _
  | t :: _, hstep, found =>
      bind_ends (hstep t List.mem_cons_self found) fun found _ =>
        gatherEach_ends (fun s hs => hstep s (List.mem_cons_of_mem t hs)) found

/-- One depth is enough to gather the bounding classes of the type, whatever has
been found before. -/
theorem gather_ends (h : r.Limited) (ht : r.Halts arena t) :
    ∃ least, ∀ depth, least ≤ depth →
      ∀ found, r.gather arena depth t found ≠ .exhausted := by
  induction ht with
  | @intro t _ ih =>
      obtain ⟨least, hleast⟩ := exists_depth_above ih
      refine ⟨least + 1, fun depth hle found => ?_⟩
      obtain ⟨depth, rfl⟩ : ∃ n, depth = n + 1 := ⟨depth - 1, by omega⟩
      cases t with
      | nominal _ | parameterized _ _ _ =>
          exact bind_ends (erase_ends h.boundedBy _) fun _ _ => ok_ends _
      | var _ | wildcard _ _ | genericArray _ | capture _ =>
          exact bind_ends (above_ends h arena _) fun _ hts =>
            gatherEach_ends (fun s hs =>
              hleast _ hts s hs depth (Nat.le_of_succ_le_succ hle)) found

/-! ## In every state -/

/-- In every state that requests about types with captures of the moment lead
to, the ways up from a type with captures of that state end, and so does each
search along them: for an exact supertype, for bounding classes and for the
argument of a variable. From some depth on none of them is cut short. Neither
the test of assignability nor the memo matters. That the declared hierarchy goes
in no circle is enough where lone interfaces are left alone; where they are put
below the top class, this must not lead up to one (`lonelyRoot_never_ends`). -/
theorem searches_end (h : r.Limited) (hctx : r.ReachedWith Ty.Scoped ctx)
    (ht : t.Scoped ctx.captures.size) :
    Acc (fun s t => r.Steps ctx t s) t ∧
      (r.directSupertypes t ctx).1 ≠ .exhausted ∧
      ∃ least, ∀ depth, least ≤ depth →
        (∀ target, (r.exactSupertype depth t target ctx).1 ≠ .exhausted) ∧
        (r.boundingClasses depth t ctx).1 ≠ .exhausted ∧
        ∀ v, (r.typeArgument depth t v ctx).1 ≠ .exhausted := by
  have hsame : r.SameButMemo ctx ctx :=
    ⟨rfl, rfl, (hctx.holds Ty.scoped_hereditary h.captureFree.throughout).memo⟩
  have hhalts : r.Halts ctx.captures t := (hctx.haltsOver h).halts ht
  refine ⟨?_, ?_, ?_⟩
  · rw [steps_eq hsame]
    exact hhalts
  · rw [directSupertypes_eq_above hsame]
    exact above_ends h ctx.captures t
  · obtain ⟨least, hleast⟩ := find_ends h hhalts
    obtain ⟨least', hleast'⟩ := gather_ends h hhalts
    refine ⟨max least least', fun depth hle => ?_⟩
    have hexact : ∀ target,
        (r.exactSupertype depth t target ctx).1 ≠ .exhausted := fun target => by
      rw [exactSupertype_eq_find hsame]
      exact hleast depth (Nat.le_trans (Nat.le_max_left _ _) hle) target
    refine ⟨hexact, ?_, typeArgument_ends hexact⟩
    rw [boundingClasses, collectBounds_eq_gather hsame]
    exact hleast' depth (Nat.le_trans (Nat.le_max_right _ _) hle) []

open TypeStore in
/-- The capture of `Enum<?>` is bounded by `Enum` of itself, and ways up from it
end all the same. -/
theorem enumCapture_ends :
    let ctx := (coreResolver.answer 5 (.capture (Seed.applied Seed.enum
      [(Wildcard.unbounded Seed.object).toTy])) .empty).2
    Acc (fun s t => coreResolver.Steps ctx t s) (.capture ⟨0⟩) ∧
      (coreResolver.directSupertypes (.capture ⟨0⟩) ctx).1 ≠ .exhausted ∧
      ∃ least, ∀ depth, least ≤ depth →
        (∀ target, (coreResolver.exactSupertype depth
          (.capture ⟨0⟩) target ctx).1 ≠ .exhausted) ∧
        (coreResolver.boundingClasses depth (.capture ⟨0⟩) ctx).1 ≠ .exhausted ∧
        ∀ v, (coreResolver.typeArgument depth (.capture ⟨0⟩) v ctx).1 ≠
          .exhausted :=
  searches_end coreResolver_standard.covered.ascending.limited
    (.step .start 5 (by decide)) (by decide)

end Resolver

namespace TypeStore

open Declarations Resolver

/-- `interface Root`, and the top class as `class Object implements Root`. -/
def Seed.lonelyRootEdits : List Edit :=
  [ .addClass (interfaceDecl "p.Root" [] [] []),
    .defineClass object
      ⟨"java.lang.Object", .ordinary, [], none, [.named ⟨11⟩], none, [], []⟩ ]

/-- A resolver over the core package under an interface above the top class. -/
def lonelyRootResolver : Resolver :=
  ⟨⟨(core.applyAll Seed.lonelyRootEdits).toDeclarations, none⟩, {}⟩

theorem lonelyRoot_wellFormed : lonelyRootResolver.env.WellFormed :=
  wellFormed_of_inOrder (fun id => if id = ⟨11⟩ then 0 else id.index + 1)
    (by decide) (by decide) (by decide)

/-- The interface is put below the top class that is declared below it, so a
search among the arrays of the two goes round for ever. -/
theorem lonelyRoot_goes_round {target : ClassId}
    (htarget : target ∈ [Seed.object, Seed.cloneable])
    (arena : Array CaptureDef) : ∀ depth, ∀ id ∈ [Seed.object, ⟨11⟩],
      lonelyRootResolver.find arena depth (.nominal (.array (.named id)))
        (.named target) = .exhausted := by
  -- from each of the two arrays the search tries the other first
  have hround : ∀ id ∈ [Seed.object, ⟨11⟩],
      ∃ next ∈ [Seed.object, ⟨11⟩], ∃ rest,
      lonelyRootResolver.settledBy (.nominal (.array (.named id)))
        (.named target) = .ok none ∧
      lonelyRootResolver.above arena (.nominal (.array (.named id))) =
        .ok (.nominal (.array (.named next)) :: rest) := by
    intro id hid
    simp only [List.mem_cons, List.not_mem_nil, or_false] at hid htarget
    rcases hid with rfl | rfl <;> rcases htarget with rfl | rfl
    · exact ⟨⟨11⟩, by decide, _, rfl, rfl⟩
    · exact ⟨⟨11⟩, by decide, _, rfl, rfl⟩
    · exact ⟨Seed.object, by decide, _, rfl, rfl⟩
    · exact ⟨Seed.object, by decide, _, rfl, rfl⟩
  intro depth
  induction depth with
  | zero => exact fun _ _ => rfl
  | succ depth ih =>
      intro id hid
      obtain ⟨next, hnext, rest, hsettled, habove⟩ := hround id hid
      rw [find_succ hsettled habove, firstFound, ih next hnext]
      rfl

/-- No class is declared above itself, but the interface `Root` above `Object`
is put below `Object`, and a search from `Object[]` goes round between the two
for ever. -/
theorem lonelyRoot_never_ends :
    lonelyRootResolver.env.WellFormed ∧
      (∀ v, ¬ TransGen lonelyRootResolver.env.LeadsTo v v) ∧
      ∀ depth, (lonelyRootResolver.exactSupertype depth
        (.nominal (.array (.named Seed.object))) (.named Seed.cloneable)
          .empty).1 = .exhausted := by
  have hwf := lonelyRoot_wellFormed
  have hbounding :
      ∀ v, ¬ TransGen lonelyRootResolver.env.LeadsTo v v := fun v hv =>
    hwf.bounding v (TransGen.mono (fun _ _ => hwf.boundedBy_of_leadsTo) v v hv)
  refine ⟨hwf, hbounding, fun depth => ?_⟩
  rw [exactSupertype_eq_find Reachable.start.sameButMemo]
  exact lonelyRoot_goes_round (by decide) _ depth Seed.object (by decide)

end TypeStore

end GenericTypes
