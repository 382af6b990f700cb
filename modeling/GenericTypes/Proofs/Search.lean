import GenericTypes.Proofs.Chain

/-!
# The supertype search as a function

Without a memo the direct supertypes of a type are a function of the arena, and
so is the search along them: it reads captures, opens none, and all it leaves
behind are events. `above` and `find` are these functions, and
`exactSupertype_reads` ties the search of the resolver to them; everything said
of searches is then said of `find`.

What is found is the first match, so there are two things to say. A search that
ends without an answer has asked every direct supertype in vain, and one that
ends with an answer got it from one of them (`firstFound_ok`).

Among types of classes the search follows the declared hierarchy. It goes on
from a class only where the target is a class strictly above it, and then some
supertype is declared; so the rank of the hierarchy bounds the depth, and the
edge from a lone interface to the top type is never taken for any other target
(`find_class`).
-/

namespace GenericTypes

open Relation

/-- A chain of two has an answer where both have one. -/
theorem Outcome.bind_eq_ok {α β : Type} {x : Outcome α}
    {f : α → Outcome β} {b : β} (h : (x >>= f) = .ok b) :
    ∃ a, x = .ok a ∧ f a = .ok b := by
  cases x with
  | ok a => exact ⟨a, rfl, h⟩
  | error _ | exhausted => cases h

/-- What holds of each of several things at some depth, and at every greater one
then, holds of all of them at one depth. -/
theorem exists_common_depth {α : Type} {P : Nat → α → Prop}
    (hmono : ∀ {n m a}, n ≤ m → P n a → P m a) {as : List α}
    (h : ∀ a ∈ as, ∃ n, P n a) : ∃ n, ∀ a ∈ as, P n a := by
  induction as with
  | nil => exact ⟨0, fun _ ha => absurd ha List.not_mem_nil⟩
  | cons a as ih =>
      obtain ⟨n, hn⟩ := h a List.mem_cons_self
      obtain ⟨m, hm⟩ := ih fun b hb => h b (List.mem_cons_of_mem a hb)
      refine ⟨max n m, fun b hb => ?_⟩
      rcases List.mem_cons.1 hb with rfl | hb
      · exact hmono (Nat.le_max_left n m) hn
      · exact hmono (Nat.le_max_right n m) (hm b hb)

namespace Resolve

variable {α β : Type}

/-- A step that has an answer is followed by the next, in the context it
left. -/
theorem bind_ok {x : Resolve α} {f : α → Resolve β} {ctx : Context} {a : α}
    (h : (x ctx).1 = .ok a) : (x >>= f) ctx = f a (x ctx).2 := by
  rw [bind_apply]
  match hx : x ctx with
  | (o, ctx') =>
      rw [hx] at h
      dsimp only at h
      rw [h]

/-- An answer of a chain comes of an answer to its first step. -/
theorem of_bind_ok {x : Resolve α} {f : α → Resolve β} {ctx : Context} {b : β}
    (h : ((x >>= f) ctx).1 = .ok b) :
    ∃ a ctx', x ctx = (.ok a, ctx') ∧ (f a ctx').1 = .ok b := by
  rw [bind_apply] at h
  match hx : x ctx with
  | (.ok a, ctx') =>
      rw [hx] at h
      exact ⟨a, ctx', rfl, h⟩
  | (.error _, _) => rw [hx] at h; cases h
  | (.exhausted, _) => rw [hx] at h; cases h

/-! A chain stops at a step that fails, or that is exhausted. -/

theorem bind_error {x : Resolve α} {f : α → Resolve β}
    {ctx : Context} {e : Error} (h : (x ctx).1 = .error e) :
    ((x >>= f) ctx).1 = .error e := by
  rw [bind_apply]
  match hx : x ctx with
  | (o, ctx') =>
      rw [hx] at h
      dsimp only at h
      rw [h]

theorem bind_exhausted {x : Resolve α} {f : α → Resolve β} {ctx : Context}
    (h : (x ctx).1 = .exhausted) : ((x >>= f) ctx).1 = .exhausted := by
  rw [bind_apply]
  match hx : x ctx with
  | (o, ctx') =>
      rw [hx] at h
      dsimp only at h
      rw [h]

theorem ends_of_bind {x : Resolve α} {f : α → Resolve β} {ctx : Context}
    (h : ((x >>= f) ctx).1 ≠ .exhausted) : (x ctx).1 ≠ .exhausted :=
  fun hx => h (bind_exhausted hx)

/-- The step does not change the arena, and its outcome is a function of it. -/
def Reads (x : Resolve α) (f : Array CaptureDef → Outcome α) : Prop :=
  ∀ ctx, (x ctx).1 = f ctx.captures ∧ (x ctx).2.captures = ctx.captures

theorem Reads.outcome (o : Outcome α) : Reads (ofOutcome o) fun _ => o :=
  fun _ => ⟨rfl, rfl⟩

theorem Reads.bind {x : Resolve α} {f : Array CaptureDef → Outcome α}
    {g : α → Resolve β} {h : α → Array CaptureDef → Outcome β} (hx : Reads x f)
    (hg : ∀ a, Reads (g a) (h a)) :
    Reads (x >>= g) fun arena => f arena >>= fun a => h a arena := by
  intro ctx
  obtain ⟨ho, hc⟩ := hx ctx
  rw [bind_apply]
  match hxc : x ctx with
  | (.ok a, ctx') =>
      rw [hxc] at ho hc
      dsimp only at ho hc ⊢
      rw [← ho, Outcome.ok_bind, ← hc]
      exact hg a ctx'
  | (.error e, ctx') =>
      rw [hxc] at ho hc
      dsimp only at ho hc ⊢
      rw [← ho]
      exact ⟨rfl, hc⟩
  | (.exhausted, ctx') =>
      rw [hxc] at ho hc
      dsimp only at ho hc ⊢
      rw [← ho]
      exact ⟨rfl, hc⟩

/-- An outcome worked out without the context comes first. -/
theorem Reads.after (o : Outcome α) {g : α → Resolve β}
    {h : α → Array CaptureDef → Outcome β} (hg : ∀ a, Reads (g a) (h a)) :
    Reads (ofOutcome o >>= g) fun arena => o >>= fun a => h a arena :=
  (Reads.outcome o).bind hg

theorem Reads.emit {e : Event} {g : Unit → Resolve β}
    {h : Array CaptureDef → Outcome β} (hg : Reads (g ()) h) :
    Reads (Resolve.emit e >>= g) h := fun ctx =>
  hg { ctx with events := ctx.events.push e }

end Resolve

namespace Resolver

open Resolve

variable {r : Resolver} {d : Declarations} {arena : Array CaptureDef}

/-! ## The functions -/

/-- The direct supertypes of a class without arguments. -/
def classAbove (r : Resolver) : Class → Outcome (List Ty)
  | .named id => r.freshSupertypes id (.named id)
  | .primitive _ => return []
  | .array c => do return r.arraySupertypes (← r.classAbove c)

/-- The direct supertypes of a type over an arena. -/
def above (r : Resolver) (arena : Array CaptureDef) : Ty → Outcome (List Ty)
  | .nominal c => r.classAbove c
  | .parameterized id args owner =>
      r.freshSupertypes id (.parameterized id args owner)
  | .var v => do
      let p ← r.env.getTypeParam v
      return if p.upperBounds.isEmpty then [r.env.top] else p.upperBounds
  | .wildcard upper _ => return upper
  | .genericArray t => do return r.arraySupertypes (← r.above arena t)
  | .capture id =>
      match arena[id.index]? with
      | some c => return c.upper
      | none => .error (.foreignCapture id)

/-- The first answer on one of several types. -/
def firstFound (ask : Ty → Outcome (Option Ty)) : List Ty → Outcome (Option Ty)
  | [] => return none
  | t :: ts => do
      match ← ask t with
      | some a => return some a
      | none => firstFound ask ts

/-- The search over an arena. -/
def find (r : Resolver) (arena : Array CaptureDef) :
    Nat → Ty → Class → Outcome (Option Ty)
  | 0, _, _ => .exhausted
  | depth + 1, t, target => do
      match ← r.settledBy t target with
      | some found => return found
      | none =>
          let supertypes ← r.above arena t
          firstFound (fun s => r.find arena depth s target) supertypes

/-! ## What the resolver does -/

theorem declaredSupertypes_plain (hplain : r.config.memoizeSupertypes = false)
    (id : ClassId) (t : Ty) :
    r.declaredSupertypes id t = ofOutcome (r.freshSupertypes id t) := by
  funext ctx
  unfold declaredSupertypes remembered remember
  rw [hplain]
  show (liftM (r.freshSupertypes id t) >>= fun supertypes =>
    (pure () : Resolve Unit) >>= fun _ => pure supertypes :
      Resolve (List Ty)) ctx = _
  cases r.freshSupertypes id t <;> rfl

theorem classSupertypes_reads (hplain : r.config.memoizeSupertypes = false) :
    ∀ c, Reads (r.classSupertypes c) fun _ => r.classAbove c
  | .named id => by
      rw [classSupertypes, declaredSupertypes_plain hplain]
      exact .outcome _
  | .primitive _ => .outcome (.ok [])
  | .array c => (classSupertypes_reads hplain c).bind fun ts =>
      .outcome (.ok (r.arraySupertypes ts))

theorem captureDef_reads (id : CaptureId) :
    Reads (captureDef id) fun arena =>
      match arena[id.index]? with
      | some c => .ok c
      | none => .error (.foreignCapture id) := by
  intro ctx
  have hrun : captureDef id ctx = (match ctx.captures[id.index]? with
      | some c => pure c
      | none => fail (.foreignCapture id) : Resolve CaptureDef) ctx := rfl
  rw [hrun]
  dsimp only
  cases ctx.captures[id.index]? <;> exact ⟨rfl, rfl⟩

theorem directSupertypes_reads
    (hplain : r.config.memoizeSupertypes = false) : ∀ t,
    Reads (r.directSupertypes t) fun arena => r.above arena t
  | .nominal c => classSupertypes_reads hplain c
  | .parameterized id args owner => by
      rw [directSupertypes, declaredSupertypes_plain hplain]
      exact .outcome _
  | .var v =>
      .after (.ofExcept (r.env.getTypeParam v)) fun _ => .outcome (.ok _)
  | .wildcard upper _ => .outcome (.ok upper)
  | .genericArray t => (directSupertypes_reads hplain t).bind fun ts =>
      .outcome (.ok (r.arraySupertypes ts))
  | .capture id => by
      have h := (captureDef_reads id).bind fun c => Reads.outcome (.ok c.upper)
      intro ctx
      obtain ⟨ho, hc⟩ := h ctx
      refine ⟨ho.trans ?_, hc⟩
      unfold above
      dsimp only
      cases ctx.captures[id.index]? <;> rfl

theorem firstAnswer_reads {ask : Ty → Resolve (Option Ty)}
    {f : Array CaptureDef → Ty → Outcome (Option Ty)}
    (h : ∀ t, Reads (ask t) fun arena => f arena t) : ∀ ts,
    Reads (firstAnswer ask ts) fun arena => firstFound (f arena) ts
  | [] => .outcome (.ok none)
  | t :: ts => (h t).bind fun found => by
      cases found with
      | some a => exact .outcome (.ok (some a))
      | none => exact firstAnswer_reads h ts

/-- The search of a resolver without a memo. -/
theorem exactSupertype_reads (hplain : r.config.memoizeSupertypes = false)
    (target : Class) :
    ∀ depth t, Reads (r.exactSupertype depth t target)
      fun arena => r.find arena depth t target
  | 0, _ => .outcome .exhausted
  | depth + 1, t => .after (r.settledBy t target) fun settled => by
      cases settled with
      | some found => exact .outcome (.ok found)
      | none =>
          exact (directSupertypes_reads hplain t).bind fun ts =>
            firstAnswer_reads (f := fun arena s => r.find arena depth s target)
              (fun s => .emit (exactSupertype_reads hplain target depth s)) ts

/-! ## First matches -/

/-- Where every question ends, so does asking for the first answer. -/
theorem firstFound_ok {ask : Ty → Outcome (Option Ty)} : ∀ {ts : List Ty},
    (∀ s ∈ ts, ∃ found, ask s = .ok found) →
        ∃ found, firstFound ask ts = .ok found ∧
      (found = none → ∀ s ∈ ts, ask s = .ok none) ∧
      ∀ g, found = some g → ∃ s ∈ ts, ask s = .ok (some g)
  | [], _ =>
      ⟨none, rfl, fun _ _ h => absurd h List.not_mem_nil, fun _ h => nomatch h⟩
  | t :: ts, h => by
      obtain ⟨found, hfound⟩ := h t List.mem_cons_self
      rw [firstFound, hfound, Outcome.ok_bind]
      cases found with
      | some g =>
          refine ⟨some g, rfl,
            fun hnone => absurd hnone (Option.some_ne_none g), fun g' hg' => ?_⟩
          exact ⟨t, List.mem_cons_self, by rw [hfound, hg']⟩
      | none =>
          obtain ⟨found, hrest, hnone, hsome⟩ :=
            firstFound_ok fun s hs => h s (List.mem_cons_of_mem t hs)
          refine ⟨found, hrest, fun hf s hs => ?_, fun g hg => ?_⟩
          · rcases List.mem_cons.1 hs with rfl | hs
            · exact hfound
            · exact hnone hf s hs
          · obtain ⟨s, hs, hask⟩ := hsome g hg
            exact ⟨s, List.mem_cons_of_mem t hs, hask⟩

/-- Where each question finds something just if `P`, the first answer is there
just if `P` holds of some. -/
theorem firstFound_iff {ask : Ty → Outcome (Option Ty)} {P : Ty → Prop}
    {ts : List Ty} (h : ∀ s ∈ ts, ∃ found, ask s = .ok found ∧
      (found.isSome = true ↔ P s)) :
    ∃ found, firstFound ask ts = .ok found ∧
      (found.isSome = true ↔ ∃ s ∈ ts, P s) := by
  have hiff : ∀ s ∈ ts, ∀ found, ask s = .ok found →
      (found.isSome = true ↔ P s) := by
    intro s hs found hfound
    obtain ⟨found', hfound', hiff⟩ := h s hs
    obtain rfl := Outcome.ok.inj (hfound'.symm.trans hfound)
    exact hiff
  obtain ⟨found, hfirst, hnone, hsome⟩ := firstFound_ok fun s hs => (h s hs).imp
    fun _ hs => hs.1
  refine ⟨found, hfirst, ?_⟩
  cases found with
  | none =>
      refine iff_of_false Bool.noConfusion ?_
      rintro ⟨s, hs, hP⟩
      exact Bool.noConfusion ((hiff s hs none (hnone rfl s hs)).2 hP)
  | some g =>
      obtain ⟨s, hs, hg⟩ := hsome g rfl
      exact iff_of_true rfl ⟨s, hs, (hiff s hs _ hg).1 rfl⟩

/-! ## Types of classes -/

theorem above_of_head {id : ClassId} {t : Ty} (hid : t.head? = some id) :
    r.above arena t = r.freshSupertypes id t := by
  rcases Ty.head?_eq_some_iff.1 hid with rfl | ⟨_, _, rfl⟩ <;> rfl

/-- The direct supertypes of a type of a class are those of the class as seen
through it. -/
theorem above_eq {id : ClassId} {t : Ty} {c : ClassDecl} (h : r.env.WellFormed)
    (ht : r.env.Supplies id t) (hc : r.env.class? id = some c) :
    r.above arena t = .ok (r.seenSupertypes c t) :=
  (above_of_head ht.head?).trans (freshSupertypes_eq h ht hc)

theorem exists_above_eq (arena : Array CaptureDef) {id : ClassId} {t : Ty}
    (h : r.env.WellFormed) (ht : r.env.Supplies id t) :
    ∃ c, r.env.class? id = some c ∧
      r.above arena t = .ok (r.seenSupertypes c t) := by
  obtain ⟨c, hc⟩ := Declarations.isDefined_iff.1 ht.isDefined
  exact ⟨c, hc, above_eq h ht hc⟩

/-- Those of a declared variable are its bounds, or else the top type. -/
theorem above_bounds (arena : Array CaptureDef) {v : TypeVarId}
    {p : TypeParamDecl} (hp : r.env.typeParam? v = some p) :
    r.above arena (.var v) =
      .ok (if p.upperBounds.isEmpty then [r.env.top] else p.upperBounds) := by
  rw [above, Declarations.getTypeParam_eq hp]
  rfl

theorem settledBy_supplies {id : ClassId} {t : Ty} (ht : r.env.Supplies id t)
    (target : Class) :
    r.settledBy t target = .ok
      (if .named id = target then some (some t)
      else if r.env.assignable target (.named id) then none
      else some none) := by
  have herase : r.env.erasure? t = .ok (some (.named id)) := by
    cases ht <;> rfl
  rw [settledBy, herase]
  show (if Class.named id = target then (pure (some (some t)) : Outcome _)
    else if r.env.assignable target (.named id) then pure none else pure
    (some none)) = _
  by_cases htarget : Class.named id = target
  · rw [if_pos htarget, if_pos htarget]
    rfl
  · rw [if_neg htarget, if_neg htarget]
    split <;> rfl

/-- The assignability test of a host that brings none of its own. -/
theorem assignable_named (hhost : r.env.hostTest = none) (target id : ClassId) :
    r.env.assignable (.named target) (.named id) = true ↔
      target = r.env.wellKnown.object ∨
      ReflTransGen r.env.Extends id target := by
  rw [Environment.assignable, hhost, ← Declarations.reaches_iff]
  show (decide _ || _) = true ↔ _
  rw [Bool.or_eq_true, decide_eq_true_eq]

/-- A class is assignable to classes only. -/
theorem named_of_assignable (hhost : r.env.hostTest = none) {c : Class}
    {id : ClassId} (hassign : r.env.assignable c (.named id) = true) :
    ∃ target, c = .named target ∧
      (target = r.env.wellKnown.object ∨
        ReflTransGen r.env.Extends id target) := by
  cases c with
  | named target =>
      exact ⟨target, rfl, (assignable_named hhost target id).1 hassign⟩
  | primitive _ | array _ =>
      rw [Environment.assignable, hhost] at hassign
      cases hassign

theorem assignable_refl (hhost : r.env.hostTest = none) (c : Class) :
    r.env.assignable c c = true := by
  rw [Environment.assignable, hhost]
  cases c with
  | named id => simp [Declarations.isAssignable, Declarations.reaches]
  | primitive p => simp [Declarations.isAssignable]
  | array c => simp [Declarations.isAssignable]

/-- Among types of classes, a search for a class other than the top one ends,
and finds a type of that class exactly where the hierarchy leads to it. -/
theorem find_class (h : r.env.WellFormed) (hhost : r.env.hostTest = none)
    {target : ClassId} (htarget : target ≠ r.env.wellKnown.object)
    {rank : ClassId → Nat}
    (hrank : ∀ id parent, r.env.Extends id parent → rank parent < rank id) :
    ∀ depth (t : Ty) id, r.env.Supplies id t → rank id < depth →
      ∃ found, r.find arena depth t (.named target) = .ok found ∧
        (ReflTransGen r.env.Extends id target → found ≠ none) ∧
        ∀ g, found = some g → r.env.Supplies target g ∧ ∀ v, .var v ∈ g.parts →
          .var v ∈ t.parts
  | depth + 1, t, id, ht, hdepth => by
      rw [find, settledBy_supplies ht, Outcome.ok_bind]
      by_cases hid : id = target
      · subst hid
        rw [if_pos rfl]
        refine ⟨some t, rfl, fun _ => Option.some_ne_none t, fun g hg => ?_⟩
        obtain rfl := Option.some.inj hg
        exact ⟨ht, fun v hv => hv⟩
      rw [if_neg fun heq => hid (Class.named.inj heq)]
      have hiff := (assignable_named hhost target id).trans
        (or_iff_right htarget)
      by_cases hreach : ReflTransGen r.env.Extends id target
      · rw [if_pos (hiff.2 hreach)]
        -- the target is strictly above, so the class is declared under
        -- something
        obtain heq | ⟨next, hnext, hup⟩ := ReflTransGen.cases_head hreach
        · exact absurd heq hid
        obtain ⟨c, hc⟩ := hnext.source
        have hsup : c.supertypes ≠ [] := by
          intro hnil
          rw [Declarations.Extends, Declarations.superclasses, hc] at hnext
          simp [ClassDecl.superclasses, hnil] at hnext
        have hask : ∀ s ∈ r.seenSupertypes c t, ∃ parent,
              r.env.Extends id parent ∧
            r.env.Supplies parent s ∧ ∀ v, .var v ∈ s.parts →
              .var v ∈ t.parts := by
          intro s hs
          obtain ⟨⟨parent, hext, hs⟩ | ⟨-, hnil, -⟩, hvars⟩ :=
            of_mem_seenSupertypes h ht hc hs
          · exact ⟨parent, hext, hs, hvars⟩
          · exact absurd hnil hsup
        have ih := fun s parent (hs : r.env.Supplies parent s)
            (hext : r.env.Extends id parent) =>
          find_class h hhost htarget hrank depth s parent hs
            (by have := hrank id parent hext; omega)
        obtain ⟨found, hfound, hnone, hsome⟩ := @firstFound_ok
          (fun s => r.find arena depth s (.named target)) (r.seenSupertypes c t)
          fun s hs => by
            obtain ⟨parent, hext, hsup, -⟩ := hask s hs
            obtain ⟨found, hfound, -⟩ := ih s parent hsup hext
            exact ⟨found, hfound⟩
        rw [above_eq h ht hc, Outcome.ok_bind]
        refine ⟨found, hfound, fun _ hf => ?_, fun g hg => ?_⟩
        · obtain ⟨s, hs, hsupplies⟩ := exists_mem_seenSupertypes t h hc hnext
          obtain ⟨found', hfound', hreached, -⟩ := ih s next hsupplies hnext
          rw [hnone hf s hs] at hfound'
          exact hreached hup (Outcome.ok.inj hfound').symm
        · obtain ⟨s, hs, hfind⟩ := hsome g hg
          obtain ⟨parent, hext, hsup, hvars⟩ := hask s hs
          obtain ⟨found', hfound', -, hview⟩ := ih s parent hsup hext
          rw [hfind] at hfound'
          obtain ⟨hsg, hvg⟩ := hview g (Outcome.ok.inj hfound').symm
          exact ⟨hsg, fun v hv => hvars v (hvg v hv)⟩
      · rw [if_neg fun hassign => hreach (hiff.1 hassign)]
        exact ⟨none, rfl, fun hup => absurd hup hreach, by rintro g ⟨⟩⟩

end Resolver

end GenericTypes
