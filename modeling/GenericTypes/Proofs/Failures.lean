import GenericTypes.Proofs.Scoping

/-!
# What a comparison fails for

A comparison works with types that nobody asked about: it opens captures as it
goes and looks at what is above them. None of that comes out of it. It answers
with a truth value, and where it fails the failure names a class, a variable or
a number of arguments, which are declared things, and never a type. The one type
that it can name is a capture it was led to that is not in the arena
(`BlamesForeign`), and where all captures are in range there is none of those
(`bare_of_scoped`).

So the end of a comparison can be compared with that of another one which has
opened other captures.
-/

namespace GenericTypes

/-- Every type has the property that says nothing. -/
theorem hereditary_true : Hereditary fun _ _ => True where
  mono := fun _ _ => trivial
  nominal := fun _ _ => trivial
  var := fun _ _ => trivial
  capture := fun _ => trivial
  parameterized :=
    ⟨fun _ => ⟨fun _ _ => trivial, fun _ _ => trivial⟩, fun _ => trivial⟩
  wildcard :=
    ⟨fun _ => ⟨fun _ _ => trivial, fun _ _ => trivial⟩, fun _ => trivial⟩
  component := fun _ => trivial
  arrayOf := fun _ => trivial

/-- A failure that carries no types does not show how captures are numbered. -/
theorem Error.rename_of_bare {f : CaptureId → CaptureId} {e : Error}
    (h : e.types = []) : e.rename f = e := by
  cases e with
  | notSubstitutable _ | foreignCapture _ => cases h
  | notErasable _ | unboundVariable _ | arityMismatch _ _ _ | unexpectedWildcard
  | undeclaredClass _ | undeclaredVariable _ => rfl

namespace Resolver

open Resolve

variable {α β : Type} {r : Resolver}

/-- Where the step fails, the failure carries no types, or it is for want of a
capture that is not even in the arena it leaves. -/
def BlamesForeign (x : Resolve α) : Prop :=
  ∀ ctx e, (x ctx).1 = .error e →
    e.types = [] ∨ ∃ i, e = .foreignCapture i ∧ (x ctx).2.capture? i = none

theorem BlamesForeign.outcome {o : Outcome α} {S : α → Prop}
    (ho : o.Satisfies (fun _ => False) S) : BlamesForeign (ofOutcome o) := by
  intro ctx e he
  obtain rfl : o = .error e := he
  exact .inl (List.eq_nil_iff_forall_not_mem.2 ho)

theorem BlamesForeign.fail {e : Error} (he : e.types = []) :
    BlamesForeign (ofOutcome (.error e) : Resolve α) :=
  .outcome (S := fun _ => True) (.of_bare he)

theorem BlamesForeign.pure
    (a : α) : BlamesForeign (Pure.pure a : Resolve α) := nofun

theorem BlamesForeign.read
    (f : Context → α) : BlamesForeign (Resolve.read f) := nofun

theorem BlamesForeign.modify (f : Context → Context) :
    BlamesForeign (Resolve.modify f) := nofun

theorem BlamesForeign.bind {x : Resolve α} {F : α → Resolve β}
    (hx : BlamesForeign x) (hF : ∀ a, BlamesForeign (F a)) :
    BlamesForeign (x >>= F) := by
  intro ctx e he
  have hfirst := hx ctx
  rw [bind_apply] at he ⊢
  generalize x ctx = step at he hfirst ⊢
  obtain ⟨o, ctx'⟩ := step
  cases o with
  | ok a => exact hF a ctx' e he
  | error e' =>
      obtain rfl := Outcome.error.inj he
      exact hfirst e' rfl
  | exhausted => cases he

theorem BlamesForeign.ite {p : Prop} [Decidable p] {x y : Resolve α}
    (hx : BlamesForeign x) (hy : BlamesForeign y) :
    BlamesForeign (if p then x else y) := by
  split
  · exact hx
  · exact hy

/-! ## Captures -/

theorem captureDef_blames (i : CaptureId) : BlamesForeign (captureDef i) := by
  intro ctx e he
  unfold captureDef at he ⊢
  rw [bind_apply] at he ⊢
  simp only [Resolve.read] at he ⊢
  cases hi : ctx.capture? i with
  | some c =>
      rw [hi] at he
      cases he
  | none =>
      rw [hi] at he
      exact .inr ⟨i, (Outcome.error.inj he).symm, hi⟩

theorem captureLevel_blames (id : ClassId) (args : List Ty)
    (owner : Option Ty) : BlamesForeign (r.captureLevel id args owner) := by
  intro ctx e he
  left
  rcases captureLevel_begins (r := r) id args owner with
    ⟨e', hfail, hwhy⟩ | ⟨c, σ, hc, hlen, howner⟩
  · rw [hfail] at he
    obtain rfl := Outcome.error.inj he
    rcases hwhy with rfl | ⟨_, _, rfl⟩ | howner
    · rfl
    · rfl
    · have hbound := hereditary_true.bindOwner (T := fun _ => False) (n := 0)
        r.env.toDeclarations fun o (_ : o ∈ owner) => trivial
      rw [howner] at hbound
      exact List.eq_nil_iff_forall_not_mem.2 hbound
  · obtain ⟨o, ctx', _, _, hrun, -, -, hend⟩ :=
      captureLevel_cases ctx hc hlen howner
    rw [hrun] at he
    rcases hend with ⟨rfl, -⟩ | ⟨⟨e', rfl, hlacks⟩, -⟩
    · cases he
    · exact Outcome.error.inj he ▸ hlacks.types_eq_nil

theorem capture_blames : ∀ t, BlamesForeign (r.capture t)
  | .parameterized id args (some owner) =>
      .bind (capture_blames owner) fun o => captureLevel_blames id args (some o)
  | .parameterized id args none => captureLevel_blames id args none
  | .nominal _ | .var _ | .wildcard _ _ | .genericArray _ | .capture _ =>
      .pure _

/-! ## Supertypes -/

/-- A type that names a class has something to substitute. -/
theorem declaredSupertypes_blames {id : ClassId} {t : Ty}
    (hid : t.head? = some id) : BlamesForeign (r.declaredSupertypes id t) := by
  refine .bind (.ite (.read _) (.pure none)) fun found => ?_
  cases found with
  | some ts => exact .pure ts
  | none =>
      refine .bind (.outcome (hereditary_true.freshSupertypes (n := 0)
        ⟨fun _ _ _ => trivial, fun _ _ _ => trivial⟩ id trivial ?_))
        fun ts => ?_
      · intro hnone
        rw [hid] at hnone
        cases hnone
      · exact .bind (.ite (.modify _) (.pure ())) fun _ => .pure ts

theorem classSupertypes_blames : ∀ c, BlamesForeign (r.classSupertypes c)
  | .named _ => declaredSupertypes_blames rfl
  | .primitive _ => .pure []
  | .array c => .bind (classSupertypes_blames c) fun _ => .pure _

theorem directSupertypes_blames : ∀ t, BlamesForeign (r.directSupertypes t)
  | .nominal c => classSupertypes_blames c
  | .parameterized _ _ _ => declaredSupertypes_blames rfl
  | .var v =>
      .bind
        (.outcome (Hereditary.getTypeParam_satisfies r.env.toDeclarations v))
        fun _ => .pure _
  | .wildcard upper _ => .pure upper
  | .genericArray t => .bind (directSupertypes_blames t) fun _ => .pure _
  | .capture i => .bind (captureDef_blames i) fun _ => .pure _

theorem firstAnswer_blames {ask : Ty → Resolve (Option α)}
    (hask : ∀ t, BlamesForeign (ask t)) :
    ∀ ts, BlamesForeign (firstAnswer ask ts)
  | [] => .pure none
  | t :: ts => .bind (hask t) fun found => by
      cases found with
      | some a => exact .pure (some a)
      | none => exact firstAnswer_blames hask ts

theorem exactSupertype_blames (target : Class) : ∀ depth t,
    BlamesForeign (r.exactSupertype depth t target)
  | 0, _ => nofun
  | depth + 1, t => by
      refine .bind
        (.outcome (Hereditary.settledBy (P := fun _ _ => True) (n := 0) trivial
          target)) fun settled => ?_
      cases settled with
      | some found => exact .pure found
      | none =>
          refine .bind (directSupertypes_blames t)
            fun ts => firstAnswer_blames (fun s => ?_) ts
          exact .bind (.modify _) fun _ => exactSupertype_blames target depth s

/-! ## Comparisons -/

theorem anyHolds_blames {test : α → Resolve Bool}
    (htest : ∀ a, BlamesForeign (test a)) :
    ∀ as, BlamesForeign (anyHolds test as)
  | [] => .pure false
  | a :: as => .bind (htest a) fun holds => by
      cases holds with
      | true => exact .pure true
      | false => exact anyHolds_blames htest as

theorem allHold_blames {test : α → Resolve Bool}
    (htest : ∀ a, BlamesForeign (test a)) :
    ∀ as, BlamesForeign (allHold test as)
  | [] => .pure true
  | a :: as => .bind (htest a) fun holds => by
      cases holds with
      | true => exact allHold_blames htest as
      | false => exact .pure false

section

variable {isSup : Ty → Ty → Resolve Bool}
  (hsup : ∀ s t, BlamesForeign (isSup s t))

include hsup

theorem containsBy_blames (outer inner : Ty) :
    BlamesForeign (containsBy isSup outer inner) := by
  cases outer with
  | wildcard upper lower =>
      refine .bind (allHold_blames (fun bound => hsup bound inner) upper)
        fun holds => ?_
      cases holds with
      | true => exact allHold_blames (fun bound => hsup inner bound) lower
      | false => exact .pure false
  | nominal _ | parameterized _ _ _ | var _ | genericArray _ | capture _ =>
      exact .pure _

theorem argumentsMatch_blames (id : ClassId) (args : List Ty)
    (owner : Option Ty) (args' : List Ty) (owner' : Option Ty) :
    BlamesForeign (argumentsMatch isSup id args owner args' owner') := by
  refine .ite (.bind (allHold_blames (fun pair : Ty × Ty =>
    containsBy_blames hsup pair.1 pair.2) _) fun holds => ?_) (.fail rfl)
  cases holds with
  | false => exact .pure false
  | true =>
      match owner, owner' with
      | some o, some o' => exact hsup o o'
      | none, _ | some _, none => exact .pure true

theorem matchesView_blames (sup found : Ty) :
    BlamesForeign (matchesView isSup sup found) := by
  unfold matchesView
  split
  · exact .pure true
  · exact .pure true
  · split
    · exact hsup _ _
    · exact .pure false
  · exact argumentsMatch_blames hsup _ _ _ _ _
  · exact .pure false

end

theorem isSupertype_blames :
    ∀ depth sup sub, BlamesForeign (r.isSupertype depth sup sub)
  | 0, _, _ => nofun
  | depth + 1, sup, sub => by
      have ih := isSupertype_blames depth
      cases sup with
      | nominal _ | parameterized _ _ _ | genericArray _ =>
          refine .bind
            (.outcome (Hereditary.erase_satisfies r.env.toDeclarations _))
            fun superClass =>
              .bind (.outcome (Hereditary.settledByErasure _ sub superClass))
                fun settled => ?_
          cases settled with
          | some answer => exact .pure answer
          | none =>
              refine .bind (capture_blames sub) fun captured =>
                .bind (exactSupertype_blames superClass depth captured)
                  fun found => ?_
              cases found with
              | none => exact .pure false
              | some view => exact matchesView_blames ih _ view
      | capture i =>
          exact .ite (.pure true) (.bind (captureDef_blames i) fun c =>
            anyHolds_blames (fun bound => ih bound sub) c.lower)
      | var v =>
          have hbounds : BlamesForeign (r.directSupertypes sub >>= fun bounds =>
              anyHolds (fun bound => r.isSupertype depth (.var v) bound)
                bounds) :=
            .bind (directSupertypes_blames sub) fun bounds =>
              anyHolds_blames (fun bound => ih (.var v) bound) bounds
          refine .ite (.pure true) ?_
          cases sub with
          | var _ | capture _ => exact hbounds
          | nominal _ | parameterized _ _ _ | wildcard _ _ | genericArray _ =>
              exact .pure false
      | wildcard _ _ => exact .fail rfl

/-- Where every capture is in range, a comparison that fails names no type. -/
theorem bare_of_scoped (h : r.env.CaptureFree) {ctx : Context}
    (hctx : r.Holds Ty.Scoped ctx) {sup sub : Ty}
    (hsup : sup.Scoped ctx.captures.size) (hsub : sub.Scoped ctx.captures.size)
    {depth : Nat} {e : Error}
    (he : (r.isSupertype depth sup sub ctx).1 = .error e) : e.types = [] := by
  obtain ⟨-, -, hfair⟩ :=
    isSupertype_yields Ty.scoped_hereditary h.throughout depth hsup hsub ctx
      (Nat.le_refl _) hctx
  rcases isSupertype_blames depth sup sub ctx e he with
      hbare | ⟨i, rfl, hforeign⟩
  · exact hbare
  · rw [he] at hfair
    -- The failure names the capture, so it is in range; and it is not there.
    have hi : i.index < (r.isSupertype depth sup sub ctx).2.captures.size :=
      hfair (.capture i) List.mem_cons_self _ (Ty.mem_parts_self _)
    have hthere := Array.getElem?_eq_getElem hi
    rw [Context.capture?, hthere] at hforeign
    cases hforeign

end Resolver

end GenericTypes
