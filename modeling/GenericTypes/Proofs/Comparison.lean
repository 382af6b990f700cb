import GenericTypes.Proofs.History
import GenericTypes.Resolver.Depth

/-!
# When a comparison says yes

A comparison runs on a depth and in an arena that it adds to, and neither is
what one wants to talk about. `Decides` puts both away: at some depth the test
says yes, in every sound arena grown from a given one, exactly if `P`. The depth
can be put away because a yes stays a yes at every greater one, and the arena
because the tests that follow start from the one the first has left.

So the tests that are built from others decide what the parts decide
(`Decides.and`, `Decides.allHold`), and what is left is one comparison. It comes
down to the view that the search finds of the captured right side
(`decides_search`). Only variables are compared by another way, by going through
the bounds of the right side, and no bound can stop it (`decides_var`).
-/

namespace GenericTypes

open Relation

namespace Resolver

open Resolve Declarations

variable {r : Resolver} {arena later : Array CaptureDef} {t : Ty} {P Q : Prop}

/-- At some depth the test says yes, exactly if `P`. -/
structure Decides (r : Resolver) (arena : Array CaptureDef)
    (test : Nat → Resolve Bool) (P : Prop) : Prop where
  mono : ∀ {n m}, n ≤ m → Extends (test n) (test m)
  keeps : ∀ n, r.KeepsSound arena.size (test n)
  iff : ∀ ctx : Context, r.Sound ctx.captures → Grows arena ctx.captures →
    ((∃ n, (test n ctx).1 = .ok true) ↔ P)

namespace Decides

variable {x y : Nat → Resolve Bool}

theorem congr (hx : r.Decides arena x P) (h : P ↔ Q) : r.Decides arena x Q :=
  ⟨hx.mono, hx.keeps,
    fun ctx hsound hgrows => (hx.iff ctx hsound hgrows).trans h⟩

theorem const (b : Bool) : r.Decides arena (fun _ => pure b) (b = true) := by
  refine ⟨fun _ => .refl _, fun _ => .outcome (.ok b), fun ctx _ _ => ?_⟩
  constructor
  · rintro ⟨-, hyes⟩
    exact Outcome.ok.inj hyes
  · rintro rfl
    exact ⟨0, rfl⟩

/-- A test asked only where another says yes. -/
theorem and (hx : r.Decides arena x P) (hy : r.Decides arena y Q) :
    r.Decides arena (fun n => x n >>= fun b => if b =
      true then y n else pure false) (P ∧ Q) := by
  refine ⟨fun hle => (hx.mono hle).bind fun b => ?_, fun n => ?_,
    fun ctx hsound hgrows => ?_⟩
  · cases b with
    | true => exact hy.mono hle
    | false => exact .refl _
  · refine (hx.keeps n).bind fun m b hle _ => ?_
    cases b with
    | true => exact fun ctx hn => hy.keeps n ctx (Nat.le_trans hle hn)
    | false => exact .outcome (.ok false)
  · have hafter : ∀ n, r.Sound (x n ctx).2.captures ∧
        Grows arena (x n ctx).2.captures := by
      intro n
      obtain ⟨hsound', hbuilds, -⟩ := hx.keeps n ctx hgrows.size_le hsound
      exact ⟨hsound', hgrows.trans hbuilds.grows⟩
    constructor
    · rintro ⟨n, hyes⟩
      rw [bind_apply] at hyes
      obtain ⟨hsound', hgrows'⟩ := hafter n
      match hxc : x n ctx with
      | (.ok true, ctx') =>
          rw [hxc] at hyes hsound' hgrows'
          refine ⟨(hx.iff ctx hsound hgrows).1 ⟨n, by rw [hxc]⟩, ?_⟩
          exact (hy.iff ctx' hsound' hgrows').1 ⟨n, hyes⟩
      | (.ok false, ctx') => rw [hxc] at hyes; cases hyes
      | (.error e, ctx') => rw [hxc] at hyes; cases hyes
      | (.exhausted, ctx') => rw [hxc] at hyes; cases hyes
    · rintro ⟨hP, hQ⟩
      obtain ⟨n, hn⟩ := (hx.iff ctx hsound hgrows).2 hP
      obtain ⟨hsound', hgrows'⟩ := hafter n
      obtain ⟨m, hm⟩ := (hy.iff _ hsound' hgrows').2 hQ
      -- both say yes at the greater of the two depths
      have hxn := hx.mono (Nat.le_max_left n m) ctx (by rw [hn]; exact nofun)
      have hym := hy.mono (Nat.le_max_right n m) _ (by rw [hm]; exact nofun)
      refine ⟨max n m, ?_⟩
      rw [bind_ok (by rw [hxn, hn]), if_pos rfl, hxn, hym, hm]

theorem allHold {α : Type} {test : Nat → α → Resolve Bool} {P : α → Prop} :
    ∀ {as : List α}, (∀ a ∈ as, r.Decides arena (fun n => test n a) (P a)) →
    r.Decides arena (fun n => allHold (test n) as) (∀ a ∈ as, P a)
  | [], _ => (const true).congr (by simp)
  | a :: as, h => by
      have ha := h a List.mem_cons_self
      have has := allHold fun b hb => h b (List.mem_cons_of_mem a hb)
      exact (ha.and has).congr List.forall_mem_cons.symm

/-- Of one test at most, whether it says yes. -/
theorem anyHolds {α : Type} {test : Nat → α → Resolve Bool} {P : α → Prop} :
    ∀ {as : List α}, as.length ≤ 1 →
    (∀ a ∈ as, r.Decides arena (fun n => test n a) (P a)) →
    r.Decides arena (fun n => anyHolds (test n) as) (∃ a ∈ as, P a)
  | [], _, _ => (const false).congr (by simp)
  | [a], _, h => by
      have hrun : ∀ n, Resolver.anyHolds (test n) [a] = test n a := by
        intro n
        have hid : (fun b : Bool => if b =
              true then pure true else pure false) =
            (pure : Bool → Resolve Bool) := by
          funext b
          cases b <;> rfl
        show (test n a >>= fun b => if b = true then pure true else
          pure false) = test n a
        rw [hid, bind_pure]
      simp only [hrun]
      exact (h a (List.mem_singleton_self a)).congr (by simp)

end Decides

/-! ## One comparison -/

section

variable (h : r.env.Founded) (hplain : r.config.memoizeSupertypes = false)

theorem isSupertype_eq {sup : Ty} (hsup : sup.isUnknown = false)
    (n : Nat) (sub : Ty) : r.isSupertype (n + 1) sup sub =
      (ofOutcome (r.env.erase sup) >>= fun superClass =>
        ofOutcome (r.settledByErasure sup sub superClass) >>= fun settled =>
          match settled with
          | some answer => pure answer
          | none => r.capture sub >>= fun captured =>
              r.exactSupertype n captured superClass >>= fun found =>
                match found with
                | some view => matchesView (r.isSupertype n) sup view
                | none => pure false) := by
  cases sup with
  | nominal _ | parameterized _ _ _ | genericArray _ => rfl
  | var _ | wildcard _ _ | capture _ => cases hsup

theorem isSupertype_succ {sup sub t' : Ty} {c : Class} {ctx ctx' : Context}
    (hsup : sup.isUnknown = false) (herase : r.env.erase sup = .ok c)
    (hsettled : r.settledByErasure sup sub c = .ok none)
    (hcapture : r.capture sub ctx = (.ok t', ctx')) (n : Nat) :
    r.isSupertype (n + 1) sup sub ctx =
      (r.exactSupertype n t' c >>= fun found =>
        match found with
        | some view => matchesView (r.isSupertype n) sup view
        | none => pure false) ctx' := by
  rw [isSupertype_eq hsup, herase]
  show (ofOutcome (r.settledByErasure sup sub c) >>= fun settled => _ :
    Resolve Bool) ctx = _
  rw [hsettled]
  show (r.capture sub >>= fun captured => _ : Resolve Bool) ctx = _
  rw [bind_ok (by rw [hcapture]), hcapture]

/-- What erasures settle is answered at once. -/
theorem isSupertype_settled {sup sub : Ty} {c : Class} {b : Bool}
    (hsup : sup.isUnknown = false) (herase : r.env.erase sup = .ok c)
    (hsettled : r.settledByErasure sup sub c = .ok (some b)) (n : Nat)
    (ctx : Context) : r.isSupertype (n + 1) sup sub ctx = (.ok b, ctx) := by
  rw [isSupertype_eq hsup, herase]
  show (ofOutcome (r.settledByErasure sup sub c) >>= fun settled => _ :
    Resolve Bool) ctx = _
  rw [hsettled]
  rfl

/-- A capture on the left is above what one of its lower bounds is above. -/
theorem isSupertype_capture_eq {i : CaptureId} {c : CaptureDef} {sub : Ty}
    {ctx : Context} (hne : .capture i ≠ sub)
    (hc : ctx.captures[i.index]? = some c) (n : Nat) :
    r.isSupertype (n + 1) (.capture i) sub ctx =
      anyHolds (fun bound => r.isSupertype n bound sub) c.lower ctx := by
  have hstep : r.isSupertype (n + 1) (.capture i) sub =
      (captureDef i >>= fun c =>
        anyHolds (fun bound => r.isSupertype n bound sub) c.lower) :=
    if_neg hne
  rw [hstep, bind_ok (by rw [captureDef_eq hc]), captureDef_eq hc]

include hplain in
/-- Where the search finds a view of the captured right side, the comparison is
that of the view. -/
theorem isSupertype_view {sup sub t' g : Ty} {c : Class} {ctx ctx' : Context}
    {n : Nat} (hsup : sup.isUnknown = false) (herase : r.env.erase sup = .ok c)
    (hsettled : r.settledByErasure sup sub c = .ok none)
    (hcapture : r.capture sub ctx = (.ok t', ctx'))
    (hfind : r.find ctx'.captures n t' c = .ok (some g)) :
    ∃ ctx₂ : Context, ctx₂.captures = ctx'.captures ∧
      ∀ b, (∃ m, (r.isSupertype m sup sub ctx).1 = .ok b) ↔
        ∃ m, (matchesView (r.isSupertype m) sup g ctx₂).1 = .ok b := by
  obtain ⟨houtcome, hcaptures⟩ := exactSupertype_reads hplain c n t' ctx'
  replace houtcome := houtcome.trans hfind
  refine ⟨(r.exactSupertype n t' c ctx').2, hcaptures, fun b => ?_⟩
  have hdeeper : ∀ m, n ≤ m →
      r.exactSupertype m t' c ctx' = r.exactSupertype n t' c ctx' :=
    fun m hle => exactSupertype_extends r c hle t' ctx' (by
      rw [houtcome]
      exact nofun)
  have hview : ∀ m, (r.exactSupertype m t' c ctx').1 ≠ .exhausted →
      r.isSupertype (m + 1) sup sub ctx =
        matchesView (r.isSupertype m) sup g
        (r.exactSupertype n t' c ctx').2 := by
    intro m hne
    have heq : r.exactSupertype m t' c ctx' = r.exactSupertype n t' c ctx' := by
      rw [← exactSupertype_extends r c (Nat.le_max_left m n) t' ctx' hne,
        hdeeper _ (Nat.le_max_right m n)]
    rw [isSupertype_succ hsup herase hsettled hcapture,
      bind_ok (by rw [heq, houtcome]), heq]
  constructor
  · rintro ⟨m, hanswer⟩
    cases m with
    | zero => cases hanswer
    | succ m =>
        by_cases hne : (r.exactSupertype m t' c ctx').1 = .exhausted
        · rw [isSupertype_succ hsup herase hsettled hcapture,
            bind_apply] at hanswer
          match hxc : r.exactSupertype m t' c ctx' with
          | (.exhausted, _) => rw [hxc] at hanswer; cases hanswer
          | (.ok _, _) => rw [hxc] at hne; cases hne
          | (.error _, _) => rw [hxc] at hne; cases hne
        · rw [hview m hne] at hanswer
          exact ⟨m, hanswer⟩
  · rintro ⟨m, hanswer⟩
    have hmax := matchesView_extends
      (fun s t => isSupertype_extends r (Nat.le_max_left m n) s t) sup g
      (r.exactSupertype n t' c ctx').2 (by rw [hanswer]; exact nofun)
    refine ⟨max m n + 1, ?_⟩
    rw [hview _
        (by rw [hdeeper _ (Nat.le_max_right m n), houtcome]; exact nofun),
      hmax, hanswer]

theorem isSupertype_mono (sup sub : Ty) {n m : Nat} (hle : n ≤ m) :
    Extends (r.isSupertype n sup sub) (r.isSupertype m sup sub) :=
  isSupertype_extends r hle sup sub

/-- Any two depths that suffice for an answer give the same one. -/
theorem isSupertype_unique {sup sub : Ty} {ctx : Context} {n m : Nat}
    (hn : (r.isSupertype n sup sub ctx).1 ≠ .exhausted)
    (hm : (r.isSupertype m sup sub ctx).1 ≠ .exhausted) :
    r.isSupertype n sup sub ctx = r.isSupertype m sup sub ctx := by
  have hsmall := isSupertype_mono sup sub (Nat.le_max_left n m) ctx hn
  have hlarge := isSupertype_mono sup sub (Nat.le_max_right n m) ctx hm
  exact hsmall.symm.trans hlarge

/-- So a comparison that ends at one depth without a yes says yes at none. -/
theorem isSupertype_ne_true {sup sub : Ty} {ctx : Context} {n m : Nat}
    {o : Outcome Bool} (hend : (r.isSupertype m sup sub ctx).1 = o)
    (hends : o ≠ .exhausted) (hno : o ≠ .ok true) :
    (r.isSupertype n sup sub ctx).1 ≠ .ok true := by
  intro hyes
  have hsame := isSupertype_unique (n := n) (m := m) (by rw [hyes]; exact nofun)
    (by rw [hend]; exact hends)
  rw [hsame, hend] at hyes
  exact hno hyes

include h hplain

/-- A comparison that erasures do not settle decides what the comparison of the
view does. -/
theorem decides_search {sup sub : Ty} {c : Class}
    (hsupKind : sup.isUnknown = false) (hsup : r.env.Regular arena.size sup)
    (hsub : r.env.Regular arena.size sub) (herase : r.env.erase sup = .ok c)
    (hsettled : r.settledByErasure sup sub c = .ok none)
    (hview : ∀ now later : Array CaptureDef, r.Sound now → Grows arena now →
      later.toList = now.toList ++ (r.captured now.size sub).2 → r.Sound later →
      ∃ n g, r.find later n (r.captured now.size sub).1 c = .ok (some g) ∧
        r.Decides later (fun n => matchesView (r.isSupertype n) sup g) P) :
    r.Decides arena (fun n => r.isSupertype n sup sub) P := by
  refine ⟨fun hle => isSupertype_mono sup sub hle,
    fun n => Upkeep.isSupertype_keeps (soundness_allows h) hplain n arena.size
      sup sub hsup hsub,
    fun ctx hsound hgrows => ?_⟩
  obtain ⟨ctx', hcapture, hlater, hsound', -⟩ :=
    capture_ok h hsound (hsub.mono hgrows.size_le)
  obtain ⟨n, g, hfind, hdecides⟩ :=
    hview ctx.captures ctx'.captures hsound hgrows hlater hsound'
  obtain ⟨ctx₂, hcaptures, hiff⟩ :=
    isSupertype_view hplain hsupKind herase hsettled hcapture hfind
  refine (hiff true).trans (hdecides.iff ctx₂ ?_ ?_)
  · rw [hcaptures]
    exact hsound'
  · rw [hcaptures]
    exact .refl _

/-- A comparison that erasures settle. -/
theorem decides_settled {sup sub : Ty} {c : Class} {b : Bool}
    (hsupKind : sup.isUnknown = false) (hsup : r.env.Regular arena.size sup)
    (hsub : r.env.Regular arena.size sub) (herase : r.env.erase sup = .ok c)
    (hsettled : r.settledByErasure sup sub c = .ok (some b)) :
    r.Decides arena (fun n => r.isSupertype n sup sub) (b = true) := by
  refine ⟨fun hle => isSupertype_mono sup sub hle,
    fun n => Upkeep.isSupertype_keeps (soundness_allows h) hplain n arena.size
      sup sub hsup hsub,
    fun ctx _ _ => ?_⟩
  have hrun : ∀ n, (r.isSupertype (n + 1) sup sub ctx).1 = .ok b := fun n => by
    rw [isSupertype_settled hsupKind herase hsettled]
  constructor
  · rintro ⟨n, hyes⟩
    cases n with
    | zero => cases hyes
    | succ n => exact Outcome.ok.inj ((hrun n).symm.trans hyes)
  · rintro rfl
    exact ⟨1, hrun 0⟩

theorem decides_never {sup sub : Ty} (hsup : r.env.Regular arena.size sup)
    (hsub : r.env.Regular arena.size sub)
    (hrun : ∀ n ctx, (r.isSupertype (n + 1) sup sub ctx).1 ≠ .ok true) :
    r.Decides arena (fun n => r.isSupertype n sup sub) False := by
  refine ⟨fun hle => isSupertype_mono sup sub hle,
    fun n => Upkeep.isSupertype_keeps (soundness_allows h) hplain n arena.size
      sup sub hsup hsub,
    fun ctx _ _ => iff_of_false ?_ id⟩
  rintro ⟨n, hyes⟩
  cases n with
  | zero => cases hyes
  | succ n => exact hrun n ctx hyes

/-- What cannot be erased is not above anything. -/
theorem decides_unerasable {sup sub : Ty} {e : Error}
    (hsupKind : sup.isUnknown = false) (hsup : r.env.Regular arena.size sup)
    (hsub : r.env.Regular arena.size sub)
    (herase : r.env.erase sup = .error e) :
    r.Decides arena (fun n => r.isSupertype n sup sub) False := by
  refine decides_never h hplain hsup hsub fun n ctx hyes => ?_
  rw [isSupertype_eq hsupKind, herase] at hyes
  cases hyes

/-- A wildcard is not above anything. -/
theorem decides_wildcard {upper lower : List Ty} {sub : Ty}
    (hsup : r.env.Regular arena.size (.wildcard upper lower))
    (hsub : r.env.Regular arena.size sub) :
    r.Decides arena
      (fun n => r.isSupertype n (.wildcard upper lower) sub) False :=
  decides_never h hplain hsup hsub fun _ _ hyes => nomatch hyes

/-- No variable is above a wildcard. -/
theorem decides_var_wildcard {v : TypeVarId} {upper lower : List Ty}
    (hsup : r.env.Regular arena.size (.var v))
    (hsub : r.env.Regular arena.size (.wildcard upper lower)) :
    r.Decides arena
      (fun n => r.isSupertype n (.var v) (.wildcard upper lower)) False :=
  decides_never h hplain hsup hsub fun _ _ hyes => nomatch hyes

/-- A capture with one lower bound at most is above what that is above. -/
theorem decides_capture {i : CaptureId} {c : CaptureDef} {sub : Ty}
    {P : Ty → Prop} (hsup : r.env.Regular arena.size (.capture i))
    (hsub : r.env.Regular arena.size sub) (hne : Ty.capture i ≠ sub)
    (hc : arena[i.index]? = some c) (hlen : c.lower.length ≤ 1)
    (hlower : ∀ l ∈ c.lower, r.Decides arena (fun n => r.isSupertype n l sub)
      (P l)) :
    r.Decides arena (fun n => r.isSupertype n (.capture i) sub)
      (∃ l ∈ c.lower, P l) := by
  refine ⟨fun hle => isSupertype_mono _ sub hle,
    fun n => Upkeep.isSupertype_keeps (soundness_allows h) hplain n arena.size
      _ sub hsup hsub,
    fun ctx hsound hgrows => ?_⟩
  have hrun := isSupertype_capture_eq (r := r) hne (hgrows _ _ hc)
  rw [← (Decides.anyHolds hlen hlower).iff ctx hsound hgrows]
  constructor
  · rintro ⟨n, hyes⟩
    cases n with
    | zero => cases hyes
    | succ n => exact ⟨n, by rw [← hrun]; exact hyes⟩
  · rintro ⟨n, hyes⟩
    exact ⟨n + 1, by rw [hrun]; exact hyes⟩

end

/-! What erasures say, given that of the right side. -/

theorem settledByErasure_unknown {sup sub : Ty} (c : Class)
    (hsub : r.env.erasure? sub = .ok none) :
    r.settledByErasure sup sub c = .ok none := by
  unfold settledByErasure
  rw [hsub]
  rfl

/-- What has no erasure has nothing to be captured. -/
theorem capture_unerased (ht : r.env.erasure? t = .ok none) :
    r.capture t = pure t := by
  cases t with
  | parameterized _ _ _ => cases ht
  | nominal _ | var _ | wildcard _ _ | genericArray _ | capture _ => rfl

theorem settledByErasure_refused {sup sub : Ty} {a c : Class}
    (hsub : r.env.erasure? sub = .ok (some a))
    (hassign : r.env.assignable c a = false) :
    r.settledByErasure sup sub c = .ok (some false) := by
  unfold settledByErasure
  rw [hsub, Outcome.ok_bind]
  dsimp only
  rw [if_neg (by rw [hassign]; exact Bool.false_ne_true)]
  rfl

theorem settledByErasure_nominal {b : Class} {sub : Ty} {a c : Class}
    (hsub : r.env.erasure? sub = .ok (some a))
    (hassign : r.env.assignable c a = true) :
    r.settledByErasure (.nominal b) sub c = .ok (some true) := by
  unfold settledByErasure
  rw [hsub, Outcome.ok_bind]
  dsimp only
  rw [if_pos hassign]
  rfl

theorem settledByErasure_applied {sup sub : Ty} {a c : Class}
    (hsup : ∀ b, sup ≠ .nominal b) (hsub : r.env.erasure? sub = .ok (some a))
    (hassign : r.env.assignable c a = true) :
    r.settledByErasure sup sub c = .ok none := by
  unfold settledByErasure
  rw [hsub, Outcome.ok_bind]
  dsimp only
  rw [if_pos hassign]
  cases sup with
  | nominal b => exact absurd rfl (hsup b)
  | parameterized _ _ _ | var _ | wildcard _ _ | genericArray _ | capture _ =>
      rfl

/-! ## Arguments -/

section

variable {isSup : Nat → Ty → Ty → Resolve Bool} {inner : Ty}

/-- A wildcard contains what is below its upper bounds and above its lower
ones. -/
theorem decides_containsBy {upper lower : List Ty} {P Q : Ty → Prop}
    (hupper : ∀ u ∈ upper, r.Decides arena (fun n => isSup n u inner) (P u))
    (hlower : ∀ l ∈ lower, r.Decides arena (fun n => isSup n inner l) (Q l)) :
    r.Decides arena
      (fun n => containsBy (isSup n) (.wildcard upper lower) inner)
      ((∀ u ∈ upper, P u) ∧ ∀ l ∈ lower, Q l) :=
  (Decides.allHold hupper).and (Decides.allHold hlower)

/-- An argument that is no wildcard contains itself and nothing else. -/
theorem containsBy_plain (isSup : Ty → Ty → Resolve Bool)
    (h : t.isWildcard = false) (s : Ty) :
    containsBy isSup t s = pure (decide (t = s)) := by
  cases t with
  | wildcard _ _ => cases h
  | nominal _ | parameterized _ _ _ | var _ | genericArray _ | capture _ => rfl

theorem decides_containsBy_self (h : t.isWildcard = false) :
    r.Decides arena (fun n => containsBy (isSup n) t t) True := by
  simp only [containsBy_plain _ h, decide_true]
  exact (Decides.const true).congr (iff_of_true rfl trivial)

/-- Of arguments that are no wildcards, each contains its counterpart only if
they are the same. -/
theorem allHold_contains_plain (isSup : Ty → Ty → Resolve Bool) :
    ∀ {args args' : List Ty}, args.length = args'.length →
    (∀ a ∈ args, a.isWildcard = false) →
    allHold (fun pair => containsBy isSup pair.1 pair.2) (args.zip args') =
      pure (decide (args = args'))
  | [], [], _, _ => rfl
  | a :: args, a' :: args', hlen, hargs => by
      rw [List.zip_cons_cons, allHold,
        containsBy_plain _ (hargs a List.mem_cons_self), pure_bind,
        allHold_contains_plain isSup (Nat.succ.inj hlen)
          fun b hb => hargs b (List.mem_cons_of_mem a hb)]
      by_cases ha : a = a'
      · simp [ha]
      · simp [ha]

/-- How owners are compared once the arguments match. -/
def ownersMatch (isSup : Ty → Ty → Resolve Bool) :
    Option Ty → Option Ty → Resolve Bool
  | some o, some o' => isSup o o'
  | some _, none | none, _ => pure true

theorem argumentsMatch_eq (isSup : Ty → Ty → Resolve Bool) (id : ClassId)
    {args args' : List Ty} (hlen : args.length = args'.length)
    (owner owner' : Option Ty) :
    argumentsMatch isSup id args owner args' owner' =
      (allHold (fun pair => containsBy isSup pair.1 pair.2) (args.zip args') >>=
        fun b =>
          if b = true then ownersMatch isSup owner owner' else pure false) := by
  unfold argumentsMatch
  rw [if_pos hlen]
  cases owner <;> cases owner' <;> rfl

theorem decides_argumentsMatch (id : ClassId) {args args' : List Ty}
    {owner owner' : Option Ty} {P : Ty × Ty → Prop} {Q : Prop}
    (hlen : args.length = args'.length) (hargs : ∀ pair ∈ args.zip args',
      r.Decides arena (fun n => containsBy (isSup n) pair.1 pair.2) (P pair))
    (howner : r.Decides arena (fun n => ownersMatch (isSup n) owner owner') Q) :
    r.Decides arena
      (fun n => argumentsMatch (isSup n) id args owner args' owner')
      ((∀ pair ∈ args.zip args', P pair) ∧ Q) := by
  have hboth := (Decides.allHold hargs).and howner
  simp only [argumentsMatch_eq _ id hlen]
  exact hboth

end

/-! ## Variables -/

/-- From this arena the step answers `b`, and leaves the arena as it is. -/
def Answers (arena : Array CaptureDef) (x : Resolve Bool) (b : Bool) : Prop :=
  ∀ ctx : Context, ctx.captures = arena →
    ∃ ctx' : Context, x ctx = (.ok b, ctx') ∧ ctx'.captures = arena

theorem Answers.unique {x : Resolve Bool} {b b' : Bool} (h : Answers arena x b)
    (h' : Answers arena x b') : b = b' := by
  obtain ⟨ctx, hrun, -⟩ := h { Context.empty with captures := arena } rfl
  obtain ⟨ctx', hrun', -⟩ := h' { Context.empty with captures := arena } rfl
  rw [hrun] at hrun'
  exact Outcome.ok.inj (Prod.mk.inj hrun').1

theorem anyHolds_answers {α : Type} {test : α → Resolve Bool} : ∀ {as : List α},
    (∀ a ∈ as, ∃ b, Answers arena (test a) b) →
    ∃ b, Answers arena (anyHolds test as) b ∧
      (b = true ↔ ∃ a ∈ as, Answers arena (test a) true)
  | [], _ => ⟨false, fun ctx hctx => ⟨ctx, rfl, hctx⟩, by simp⟩
  | a :: as, h => by
      obtain ⟨b, hb⟩ := h a List.mem_cons_self
      cases b with
      | true =>
          refine ⟨true, fun ctx hctx => ?_,
            iff_of_true rfl ⟨a, List.mem_cons_self, hb⟩⟩
          obtain ⟨ctx', hrun, hctx'⟩ := hb ctx hctx
          refine ⟨ctx', ?_, hctx'⟩
          rw [anyHolds, bind_ok (by rw [hrun]), hrun]
          rfl
      | false =>
          obtain ⟨b, hrest, hiff⟩ :=
            anyHolds_answers fun a' ha' => h a' (List.mem_cons_of_mem a ha')
          refine ⟨b, fun ctx hctx => ?_, hiff.trans ?_⟩
          · obtain ⟨ctx', hrun, hctx'⟩ := hb ctx hctx
            obtain ⟨ctx₂, hrun₂, hctx₂⟩ := hrest ctx' hctx'
            refine ⟨ctx₂, ?_, hctx₂⟩
            rw [anyHolds, bind_ok (by rw [hrun]), hrun]
            exact hrun₂
          · -- the head has said no
            have hno : ¬ Answers arena (test a) true :=
              fun hyes => nomatch hb.unique hyes
            simp [hno]

theorem Answers.mono {x y : Resolve Bool} {b : Bool} (hx : Answers arena x b)
    (hxy : Extends x y) : Answers arena y b := by
  intro ctx hctx
  obtain ⟨ctx', hrun, hctx'⟩ := hx ctx hctx
  refine ⟨ctx', ?_, hctx'⟩
  rw [hxy ctx (by rw [hrun]; exact nofun), hrun]

/-- Several comparisons that have answers have them at one depth. -/
theorem exists_depth_answers {sup : Ty} {ts : List Ty}
    (h : ∀ s ∈ ts, ∃ n b, Answers arena (r.isSupertype n sup s) b) :
    ∃ n, ∀ s ∈ ts, ∃ b, Answers arena (r.isSupertype n sup s) b :=
  exists_common_depth
    (fun hle ⟨b, hb⟩ => ⟨b, hb.mono (isSupertype_mono sup _ hle)⟩) h

theorem isSupertype_var_self (n : Nat) (v : TypeVarId) :
    r.isSupertype (n + 1) (.var v) (.var v) = pure true :=
  if_pos rfl

/-- A variable is compared with a variable or capture by way of the bounds of
that. -/
theorem isSupertype_var {v : TypeVarId} {x : Ty} {ts : List Ty} {ctx : Context}
    (hplain : r.config.memoizeSupertypes = false)
    (hx : x.isVar = true ∨ ∃ i, x = .capture i) (hself : Ty.var v ≠ x)
    (habove : r.above ctx.captures x = .ok ts) (n : Nat) :
    ∃ ctx' : Context, ctx'.captures = ctx.captures ∧
      r.isSupertype (n + 1) (.var v) x ctx =
        anyHolds (fun b => r.isSupertype n (.var v) b) ts ctx' := by
  obtain ⟨houtcome, hcaptures⟩ := directSupertypes_reads hplain x ctx
  replace houtcome := houtcome.trans habove
  refine ⟨_, hcaptures, ?_⟩
  have hrun : r.isSupertype (n + 1) (.var v) x =
      (r.directSupertypes x >>= fun bounds =>
        anyHolds (fun b => r.isSupertype n (.var v) b) bounds) := by
    rcases hx with hx | ⟨i, rfl⟩
    · cases x with
      | var w =>
          show (if Ty.var v = .var w then pure true else _ : Resolve Bool) = _
          exact if_neg hself
      | nominal _ | parameterized _ _ _ | wildcard _ _ | genericArray _
      | capture _ => cases hx
    · show (if Ty.var v = .capture i then pure true else _ : Resolve Bool) = _
      exact if_neg hself
  rw [hrun, bind_ok houtcome]

/-- Whether a variable is above a type that climbs always has an answer, and the
answer is no unless a path of direct supertypes leads to the variable. -/
theorem var_answers (hplain : r.config.memoizeSupertypes = false)
    (v : TypeVarId) {x : Ty} (hx : r.Climbs arena x) :
    ∃ n b, Answers arena (r.isSupertype n (.var v) x) b ∧
      (b = true → ReflTransGen (r.Directly arena) x (.var v)) := by
  induction hx with
  | @intro x ts habove herase hprim hts ih =>
      by_cases hself : Ty.var v = x
      · obtain rfl := hself
        exact ⟨1, true, fun ctx hctx =>
            ⟨ctx, by rw [isSupertype_var_self]; rfl, hctx⟩,
          fun _ => .refl⟩
      obtain ⟨n, hn⟩ := exists_depth_answers fun s hs =>
        have ⟨n, b, hb, _⟩ := ih s hs
        ⟨n, b, hb⟩
      obtain ⟨b, hb, hiff⟩ := anyHolds_answers hn
      have hup : b = true → ReflTransGen (r.Directly arena) x (.var v) := by
        intro hyes
        obtain ⟨s, hs, hsays⟩ := hiff.1 hyes
        obtain ⟨m, b', hb', hpath⟩ := ih s hs
        -- the two depths give the same answer
        have hn' :=
          hsays.mono (isSupertype_mono (.var v) s (Nat.le_max_left n m))
        have hm' :=
          hb'.mono (isSupertype_mono (.var v) s (Nat.le_max_right n m))
        exact .head ⟨ts, habove, hs⟩ (hpath (hm'.unique hn'))
      have hbounds : x.isVar = true ∨ (∃ i, x = .capture i) →
          ∃ n b, Answers arena (r.isSupertype n (.var v) x) b ∧
            (b = true → ReflTransGen (r.Directly arena) x (.var v)) := by
        refine fun hx => ⟨n + 1, b, fun ctx hctx => ?_, hup⟩
        obtain ⟨ctx', hctx', hrun⟩ :=
          isSupertype_var hplain hx hself (hctx ▸ habove) n
        rw [hrun]
        exact hb ctx' (hctx'.trans hctx)
      cases x with
      | var _ => exact hbounds (.inl rfl)
      | capture i => exact hbounds (.inr ⟨i, rfl⟩)
      | nominal _ | parameterized _ _ _ | wildcard _ _ | genericArray _ =>
          exact ⟨1, false, fun ctx hctx => ⟨ctx, rfl, hctx⟩, nofun⟩

/-- A variable is above the variables and captures that it bounds. -/
theorem decides_var (h : r.env.Founded)
    (hplain : r.config.memoizeSupertypes = false) {v : TypeVarId} {x : Ty}
    {ts : List Ty} (hv : r.env.Regular arena.size (.var v))
    (hx : r.env.Regular arena.size x)
    (hxKind : x.isVar = true ∨ ∃ i, x = .capture i) (hclimbs : r.Climbs arena x)
    (habove : r.above arena x = .ok ts) (hmem : .var v ∈ ts) :
    r.Decides arena (fun n => r.isSupertype n (.var v) x) True := by
  refine ⟨fun hle => isSupertype_mono _ _ hle,
    fun n => Upkeep.isSupertype_keeps (soundness_allows h) hplain n arena.size
      _ x hv hx,
    fun ctx _ hgrows => iff_of_true ?_ trivial⟩
  by_cases hself : Ty.var v = x
  · obtain rfl := hself
    exact ⟨1, by rw [isSupertype_var_self]; rfl⟩
  have habove' := above_grows hgrows habove
  have hbounds :
      ∀ s ∈ ts, ∃ n b, Answers ctx.captures (r.isSupertype n (.var v) s) b := by
    intro s hs
    cases hclimbs.grows hgrows with
    | intro habove₂ _ _ hts =>
        obtain rfl := Outcome.ok.inj (habove'.symm.trans habove₂)
        obtain ⟨n, b, hb, -⟩ := var_answers hplain v (hts s hs)
        exact ⟨n, b, hb⟩
  obtain ⟨n, hn⟩ := exists_depth_answers hbounds
  have hn' : ∀ s ∈ ts, ∃ b, Answers ctx.captures
      (r.isSupertype (n + 1) (.var v) s) b := by
    intro s hs
    obtain ⟨b, hb⟩ := hn s hs
    exact ⟨b, hb.mono (isSupertype_mono _ s (Nat.le_succ n))⟩
  obtain ⟨b, hb, hiff⟩ := anyHolds_answers hn'
  have hfound :
      Answers ctx.captures (r.isSupertype (n + 1) (.var v) (.var v)) true := by
    refine fun ctx' hctx' => ⟨ctx', ?_, hctx'⟩
    rw [isSupertype_var_self]
    rfl
  obtain rfl := hiff.2 ⟨_, hmem, hfound⟩
  obtain ⟨ctx', hctx', hrun⟩ :=
    isSupertype_var hplain hxKind hself habove' (n + 1)
  obtain ⟨ctx₂, hrun₂, -⟩ := hb ctx' hctx'
  exact ⟨n + 2, by rw [hrun, hrun₂]⟩

end Resolver

end GenericTypes
