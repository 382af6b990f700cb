import GenericTypes.Proofs.Members
import GenericTypes.Proofs.Pruning
import GenericTypes.Proofs.Transitivity

/-!
# Searching a generic class once for all its instances

What a class is a subtype of need only be searched for once, with its own type
parameters for arguments: for any other arguments the answer is the same with
those put in. The search looks at classes only when it decides where to go on
and what to take, and these a substitution keeps. So both runs take the same
branches on types that differ by the substitution (`find_subst`), and they stay
so since substitutions compose along each direct supertype (`seen_subst`).

Nothing is asked of the arguments. They may be wildcards, captures or types of
classes that are not declared, for no step looks into them.
-/

namespace GenericTypes

open Relation

namespace Declarations

variable {d : Declarations} {A : TypeVarId → Ty} {id outer : ClassId}
  {cx ca : Ty} {v : TypeVarId}

/-- The class `id` applied to its own type parameters, and the same with the
values of `A` for them. A member class has an owner that is applied likewise,
which may be left out where the enclosing classes take no arguments; a class
with no variable in scope is taken plain. -/
inductive Instance (d : Declarations) (A : TypeVarId → Ty) :
    ClassId → Ty → Ty → Prop where
  | plain {id : ClassId} (hdef : d.isDefined id)
    (hnone : ∀ v, ¬ d.InScope id v) :
      Instance d A id (.named id) (.named id)
  | outermost {id : ClassId} {c : ClassDecl} (hc : d.class? id = some c)
      (houter : ∀ outer v, d.EnclosedBy id outer → ¬ d.InScope outer v) :
      Instance d A id (.parameterized id (c.typeParams.map .var) none)
        (.parameterized id (c.typeParams.map A) none)
  | member {id outer : ClassId} {c : ClassDecl} {ox oa : Ty}
      (hc : d.class? id = some c) (henc : c.enclosing = some outer)
      (howner : Instance d A outer ox oa) :
      Instance d A id (.parameterized id (c.typeParams.map .var) (some ox))
        (.parameterized id (c.typeParams.map A) (some oa))

/-- No class is around the class, so there is no owner. -/
theorem Instance.of_toplevel {c : ClassDecl} (hc : d.class? id = some c)
    (henc : c.enclosing = none) :
    d.Instance A id (.parameterized id (c.typeParams.map .var) none)
      (.parameterized id (c.typeParams.map A) none) := by
  refine .outermost hc ?_
  rintro outer v ⟨c', hc', henc'⟩
  obtain rfl := Option.some.inj (hc.symm.trans hc')
  rw [henc] at henc'
  cases henc'

namespace Instance

theorem head? (hinst : d.Instance A id cx ca) : cx.head? = some id := by
  cases hinst <;> rfl

theorem eq_subst (hinst : d.Instance A id cx ca) : ca = cx.subst A := by
  induction hinst with
  | plain _ _ => rfl
  | outermost _ _ =>
      rw [Ty.subst, Ty.substList_eq_map, List.map_map]
      rfl
  | member _ _ _ ih =>
      rw [Ty.subst, Ty.substList_eq_map, List.map_map, ih]
      rfl

/-- The arguments along the owner chain are all the variables in scope. -/
theorem mem_chainVars (hinst : d.Instance A id cx ca) (hv : d.InScope id v) :
    v ∈ d.chainVars cx := by
  induction hinst with
  | plain _ hnone => exact absurd hv (hnone v)
  | outermost hc houter =>
      cases hv with
      | own hc' hv =>
          obtain rfl := Option.some.inj (hc.symm.trans hc')
          exact (paramsOf_eq hc).symm ▸ hv
      | outer henc hv => exact absurd hv (houter _ v henc)
  | member hc henc _ ih =>
      cases hv with
      | own hc' hv =>
          obtain rfl := Option.some.inj (hc.symm.trans hc')
          exact List.mem_append_left _ ((paramsOf_eq hc).symm ▸ hv)
      | outer henc' hv =>
          obtain rfl := EnclosedBy.unique ⟨_, hc, henc⟩ henc'
          exact List.mem_append_right _ (ih hv)

/-- And no other variables occur. -/
theorem var_mem (hinst : d.Instance A id cx ca) (hv : .var v ∈ cx.parts) :
    v ∈ d.chainVars cx := by
  have hargs : ∀ {id : ClassId} {c : ClassDecl} {a : Ty}, d.class? id = some c →
      a ∈ c.typeParams.map Ty.var → .var v ∈ a.parts → v ∈ d.paramsOf id := by
    intro id c a hc ha hv
    obtain ⟨w, hw, rfl⟩ := List.mem_map.1 ha
    obtain rfl := Ty.var.inj (List.mem_singleton.1 hv)
    exact (paramsOf_eq hc).symm ▸ hw
  induction hinst with
  | plain _ _ => cases List.mem_singleton.1 hv
  | outermost hc _ =>
      rcases Ty.mem_parts_parameterized.1 hv with h | ⟨_, ⟨⟩, -⟩ | ⟨a, ha, hv⟩
      · cases h
      · exact hargs hc ha hv
  | member hc _ _ ih =>
      rcases Ty.mem_parts_parameterized.1 hv with h | ⟨_, ⟨⟩, hv⟩ | ⟨a, ha, hv⟩
      · cases h
      · exact List.mem_append_right _ (ih hv)
      · exact List.mem_append_left _ (hargs hc ha hv)

theorem complete (h : d.WellFormed) (hinst : d.Instance A id cx ca) :
    d.Complete 0 cx := by
  have hargs : ∀ {id : ClassId} {c : ClassDecl} {a x : Ty},
        d.class? id = some c →
      a ∈ c.typeParams.map Ty.var → x ∈ a.parts → d.Fits 0 x := by
    intro id c a x hc ha hx
    obtain ⟨w, hw, rfl⟩ := List.mem_map.1 ha
    rw [List.mem_singleton.1 hx]
    exact h.params hc w hw
  have hfits : ∀ {id : ClassId} {cx ca : Ty}, d.Instance A id cx ca →
      ∀ {args owner}, cx = .parameterized id args owner → d.Counts id args →
        (∀ o, owner = some o → o.head?.isSome) → d.Fits 0 cx := by
    rintro id cx ca hinst args owner rfl hcounts howner
    exact ⟨hcounts, fun v hv => hinst.mem_chainVars (h.scoping hv), howner⟩
  induction hinst with
  | plain hdef _ => exact fun x hx => List.mem_singleton.1 hx ▸ hdef
  | outermost hc houter =>
      intro x hx
      rcases Ty.mem_parts_parameterized.1 hx with rfl | ⟨_, ⟨⟩, -⟩ | ⟨a, ha, hx⟩
      · exact hfits (.outermost hc houter) rfl
          ⟨_, hc, (List.length_map _).symm⟩ nofun
      · exact hargs hc ha hx
  | member hc henc howner ih =>
      intro x hx
      rcases Ty.mem_parts_parameterized.1 hx with
          rfl | ⟨_, ⟨⟩, hx⟩ | ⟨a, ha, hx⟩
      · refine hfits (.member hc henc howner) rfl
          ⟨_, hc, (List.length_map _).symm⟩ ?_
        rintro _ ⟨⟩
        rw [howner.head?]
        rfl
      · exact ih x hx
      · exact hargs hc ha hx

end Instance

end Declarations

/-- The substitution of the values of `A` for the variables `vs`. -/
def Substitution.assigning (vs : List TypeVarId) (A : TypeVarId → Ty) :
    Substitution :=
  Substitution.empty.bindZip vs (vs.map A)

theorem Substitution.get?_assigning {vs : List TypeVarId} {A : TypeVarId → Ty}
    {v : TypeVarId} (hv : v ∈ vs) : (assigning vs A).get? v = some (A v) := by
  obtain ⟨s, hs⟩ :=
    Option.isSome_iff_exists.1 (lastValue_isSome (List.length_map A).symm hv)
  rw [assigning, get?_bindZip, hs]
  obtain ⟨i, hi⟩ := List.getElem?_of_mem (List.mem_reverse.1 (mem_of_lookup hs))
  obtain ⟨hi, hs⟩ := List.getElem?_zip_eq_some.1 hi
  rw [List.getElem?_map, hi] at hs
  exact hs.symm

namespace Resolver

open Resolve Declarations Substitution

variable {r : Resolver} {arena arena' : Array CaptureDef}
  {t g : Ty} {id : ClassId} {n : Nat}

/-! ## The same branches -/

/-- If two questions have answers that differ by a map, so have the first
answers among those of several. -/
theorem firstFound_map {ask ask' : Ty → Outcome (Option Ty)} {f : Ty → Ty} :
    ∀ {ts : List Ty}, (∀ s ∈ ts, ask' (f s) = ask s >>= fun found =>
      .ok (found.map f)) →
    firstFound ask' (ts.map f) = firstFound ask ts >>=
      fun found => .ok (found.map f)
  | [], _ => rfl
  | t :: ts, h => by
      have hrest := firstFound_map fun s hs => h s (List.mem_cons_of_mem _ hs)
      rw [List.map_cons, firstFound, firstFound, h t List.mem_cons_self]
      cases ask t with
      | ok found =>
          cases found with
          | some a => rfl
          | none => exact hrest
      | error _ | exhausted => rfl

theorem seenSupertypes_subst (h : r.env.WellFormed) (ht : r.env.Complete n t)
    (hid : t.head? = some id) {c : ClassDecl} (hc : r.env.class? id = some c)
    (φ : TypeVarId → Ty) :
    r.seenSupertypes c (t.subst φ) = (r.seenSupertypes c t).map
      (·.subst φ) := by
  unfold seenSupertypes
  split
  · rfl
  · rw [List.map_map]
    exact List.map_congr_left fun s hs => seen_subst h ht hid hc hs φ

/-- A search from a type of a class, with something put in for its variables,
finds what it finds without, with the same put in. -/
theorem find_subst (h : r.env.WellFormed) (arena arena' : Array CaptureDef)
    (target : Class) (φ : TypeVarId → Ty) :
    ∀ depth (t : Ty) id, r.env.Complete n t → t.head? = some id →
      r.find arena' depth (t.subst φ) target =
        r.find arena depth t target >>= fun found => .ok (found.map (·.subst φ))
  | 0, _, _, _, _ => rfl
  | depth + 1, t, id, ht, hid => by
      have hsupplies := ht.supplies hid
      have hsupplies' := ht.supplies_subst hid φ
      rw [find, find, settledBy_supplies hsupplies',
        settledBy_supplies hsupplies]
      by_cases hhere : .named id = target
      · rw [if_pos hhere, if_pos hhere]
        rfl
      rw [if_neg hhere, if_neg hhere]
      by_cases hassign : r.env.assignable target (.named id) = true
      · rw [if_pos hassign]
        obtain ⟨c, hc, habove⟩ := exists_above_eq arena h hsupplies
        simp only [Outcome.ok_bind]
        rw [habove, above_eq h hsupplies' hc, seenSupertypes_subst h ht hid hc]
        refine firstFound_map fun s hs => ?_
        have hdirectly : r.Directly arena t s := ⟨_, habove, hs⟩
        rcases of_directly_class h hsupplies hdirectly with
            rfl | ⟨c', s₀, hc', hs₀, rfl⟩
        · refine find_subst h arena arena' target φ depth _
            r.env.wellKnown.object ?_ rfl
          exact fun x hx =>
            List.mem_singleton.1 hx ▸ h.known _ List.mem_cons_self
        · obtain ⟨hhead, hproper⟩ := h.supertypes hc' s₀ hs₀
          obtain ⟨parent, hs₀⟩ := Option.isSome_iff_exists.1 hhead
          exact find_subst h arena arena' target φ depth _ parent
            (complete_seen ht hproper.complete hs₀)
            (supplies_seen hproper.complete hs₀).head?
      · rw [if_neg hassign]
        rfl

/-! ## Searches end -/

/-- The rank of the hierarchy bounds the depth of a search among types of
classes. A lone interface does not spoil this, for from there only the top class
itself is still looked for. -/
theorem find_class_ends (h : r.env.WellFormed) (hhost : r.env.hostTest = none)
    (arena : Array CaptureDef) (target : Class) {rank : ClassId → Nat}
    (hrank : ∀ id parent, r.env.Extends id parent → rank parent < rank id) :
    ∀ depth (t : Ty) id, r.env.Supplies id t → rank id + 1 < depth →
      ∃ found, r.find arena depth t target = .ok found
  | depth + 1, t, id, ht, hdepth => by
      rw [find, settledBy_supplies ht, Outcome.ok_bind]
      by_cases hhere : .named id = target
      · exact ⟨some t, by rw [if_pos hhere]; rfl⟩
      rw [if_neg hhere]
      by_cases hassign : r.env.assignable target (.named id) = true
      · obtain ⟨c, hc, habove⟩ := exists_above_eq arena h ht
        rw [if_pos hassign, habove]
        have hask : ∀ s ∈ r.seenSupertypes c t,
            ∃ found, r.find arena depth s target = .ok found := by
          intro s hs
          obtain ⟨⟨parent, hext, hparent⟩ | ⟨rfl, hnone, -⟩, -⟩ :=
            of_mem_seenSupertypes h ht hc hs
          · have hless := hrank id parent hext
            exact find_class_ends h hhost arena target hrank depth s parent
              hparent (by omega)
          · obtain ⟨m, rfl⟩ : ∃ m, depth = m + 1 := ⟨depth - 1, by omega⟩
            obtain ⟨named, rfl, rfl | hup⟩ := named_of_assignable hhost hassign
            · exact ⟨_, find_self rfl m⟩
            obtain rfl | ⟨next, hnext, -⟩ := ReflTransGen.cases_head hup
            · exact absurd rfl hhere
            · rw [Declarations.Extends, superclasses, hc] at hnext
              obtain ⟨s, hs, -⟩ := List.mem_filterMap.1 hnext
              rw [hnone] at hs
              cases hs
        obtain ⟨found, hfound, -⟩ := firstFound_ok hask
        exact ⟨found, hfound⟩
      · exact ⟨none, by rw [if_neg hassign]; rfl⟩

/-- A type found above one of a class has no other variables. -/
theorem vars_of_find (h : r.env.WellFormed) (ht : r.env.Supplies id t)
    {depth : Nat} {target : Class}
    (hg : r.find arena depth t target = .ok (some g)) {v : TypeVarId}
    (hv : .var v ∈ g.parts) : .var v ∈ t.parts := by
  obtain ⟨hup, -⟩ := find_ancestor hg
  suffices (∃ id', r.env.Supplies id' g) ∧ ∀ v, .var v ∈ g.parts →
      .var v ∈ t.parts from
    this.2 v hv
  clear hg hv
  induction hup with
  | refl => exact ⟨⟨id, ht⟩, fun _ hv => hv⟩
  | @tail s g _ hs ih =>
      obtain ⟨⟨sid, hsid⟩, hvars⟩ := ih
      obtain ⟨c, hc, hmem⟩ := mem_of_directly h hsid hs
      obtain ⟨hparent, hvars'⟩ := of_mem_seenSupertypes h hsid hc hmem
      refine ⟨?_, fun v hv => hvars v (hvars' v hv)⟩
      rcases hparent with ⟨parent, -, hparent⟩ | ⟨rfl, -⟩
      · exact ⟨parent, hparent⟩
      · exact ⟨_, .plain (h.known _ List.mem_cons_self)⟩

/-- Searched from a class that is applied to its own type parameters, an exact
supertype tells those of all instances of the class: what is found for arguments
`A` is what was found, resolved with those, and nothing where nothing was. Both
searches end, whatever was asked before either. -/
theorem exactSupertype_instance (h : r.env.WellFormed)
    (hhost : r.env.hostTest = none) {A : TypeVarId → Ty} {cx ca : Ty}
    (hinst : r.env.Instance A id cx ca) {ctx ctx' : Context}
    (hctx : r.Reachable ctx) (hctx' : r.Reachable ctx') (target : Class) :
    ∃ found found' least, (∀ depth, least ≤ depth →
        (r.exactSupertype depth cx target ctx).1 = .ok found ∧
          (r.exactSupertype depth ca target ctx').1 = .ok found') ∧
      match found with
      | some s =>
          ∃ s', found' = some s' ∧
            (assigning (r.env.chainVars cx) A).resolve s = .ok s'
      | none => found' = none := by
  obtain ⟨rank, -, hrank⟩ := exists_rank_extends h.hierarchy
  have hcomplete := hinst.complete h
  have hsupplies := hcomplete.supplies hinst.head?
  have hends : ∀ depth, rank id + 2 ≤ depth →
      ∃ found,
        r.find ctx.captures depth cx target = .ok found := fun depth hdepth =>
    find_class_ends h hhost ctx.captures target hrank depth cx id hsupplies
      (by omega)
  obtain ⟨found, hfound⟩ := hends (rank id + 2) (Nat.le_refl _)
  refine ⟨found, found.map (·.subst A), rank id + 2, fun depth hdepth => ?_, ?_⟩
  · have hcx := find_mono hdepth hfound
    have hca := find_subst h ctx.captures ctx'.captures target A depth cx id
      hcomplete hinst.head?
    rw [exactSupertype_eq_find hctx.sameButMemo,
      exactSupertype_eq_find hctx'.sameButMemo,
      hinst.eq_subst, hca, hcx]
    exact ⟨rfl, rfl⟩
  · cases found with
    | none => rfl
    | some s =>
        refine ⟨_, rfl, resolve_eq_subst fun v hv => get?_assigning ?_⟩
        exact hinst.var_mem (vars_of_find h hsupplies hfound hv)

end Resolver

namespace TypeStore

open Declarations

/-- Found once to be a `Comparable<T>`, `Outer<T>.Inner` is known to be a
`Comparable<?>` as `Outer<?>.Inner`. -/
theorem inner_found_for_wildcard :
    ∃ s least,
      (Substitution.assigning [⟨2⟩]
          fun _ => (Wildcard.unbounded Seed.object).toTy).resolve
        (Seed.applied Seed.comparable [Seed.tv 2]) = .ok s ∧
      ∀ depth, least ≤ depth → (leaves.resolver.exactSupertype depth
        (.parameterized (Seed.free 1) []
          (some (Seed.applied (Seed.free 0)
            [(Wildcard.unbounded Seed.object).toTy])))
        (.named Seed.comparable) .empty).1 = .ok (some s) := by
  have houter : leaves.toDeclarations.Instance
      (fun _ => (Wildcard.unbounded Seed.object).toTy) (Seed.free 0)
      (Seed.applied (Seed.free 0) [Seed.tv 2])
      (Seed.applied (Seed.free 0) [(Wildcard.unbounded Seed.object).toTy]) :=
    .of_toplevel (c := Seed.classDecl "p.Outer" [2] (.named Seed.object) []
      [] []) rfl rfl
  have hinner : leaves.toDeclarations.Instance
      (fun _ => (Wildcard.unbounded Seed.object).toTy) (Seed.free 1)
      (.parameterized (Seed.free 1) []
        (some (Seed.applied (Seed.free 0) [Seed.tv 2])))
      (.parameterized (Seed.free 1) []
        (some (Seed.applied (Seed.free 0)
          [(Wildcard.unbounded Seed.object).toTy]))) :=
    .member (c := { Seed.classDecl "p.Outer$Inner" [] (.named Seed.object)
      [Seed.applied Seed.comparable [Seed.tv 2]] [] [] with
      enclosing := some (Seed.free 0) }) rfl rfl houter
  obtain ⟨found, found', least, hends, hmatch⟩ :=
    Resolver.exactSupertype_instance
      (r := leaves.resolver) leaves_disciplined.wellFormed rfl
      hinner .start .start (.named Seed.comparable)
  have hsearch : (leaves.resolver.exactSupertype 3
      (.parameterized (Seed.free 1) []
        (some (Seed.applied (Seed.free 0) [Seed.tv 2])))
      (.named Seed.comparable) .empty).1 =
        .ok (some (Seed.applied Seed.comparable [Seed.tv 2])) := rfl
  have hfound := (hends least (Nat.le_refl _)).1
  rw [Resolver.exactSupertype_eq_find (Resolver.Reachable.start).sameButMemo]
    at hsearch hfound
  obtain rfl := Resolver.find_unique hfound hsearch
  obtain ⟨s, rfl, hs⟩ := hmatch
  exact ⟨s, least, hs, fun depth hdepth => (hends depth hdepth).2⟩

end TypeStore

end GenericTypes
