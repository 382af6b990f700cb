import GenericTypes.Proofs.Arena
import GenericTypes.Resolver.Request

/-!
# What a run keeps up

A run adds to the arena where it captures a type, and nowhere else. What is kept
up of an arena (`Upkeep`) is therefore kept up by every request, if capturing a
type does so and if whatever the resolver goes on to from a type may be captured
in its turn: its parts, what is above it and what bounds a capture in it
(`Allows`). The steps of a comparison and of a view are gone through here once
for all such properties.

A comparison captures what it meets on the way, so what it meets has to be right
for the arena of that moment. `Keeps` therefore says of a step what it answers
besides what it leaves. Nothing is asked of outcomes: a step may fail or give up
at its depth.
-/

namespace GenericTypes

/-- Something that is kept up of an arena, and how later arenas come of it
meanwhile. -/
structure Upkeep where
  Good : Array CaptureDef → Prop
  Leads : Array CaptureDef → Array CaptureDef → Prop
  refl : ∀ arena, Leads arena arena
  trans : ∀ {a b c}, Leads a b → Leads b c → Leads a c
  size_le : ∀ {arena later}, Leads arena later → arena.size ≤ later.size

namespace Upkeep

open Resolver Resolve Declarations

/-- Types with the property may be handed to the resolver: what it goes on to
from them has the property as well, and capturing one keeps up what is kept
up. -/
structure Allows (k : Upkeep) (r : Resolver) (P : Nat → Ty → Prop) : Prop where
  mono : ∀ {n m t}, n ≤ m → P n t → P m t
  part : ∀ {n t x}, P n t → x ∈ t.parts → P n x
  component : ∀ {n t s}, P n t → t.component? = some s → P n s
  above : ∀ {arena t ts}, k.Good arena → P arena.size t →
    r.above arena t = .ok ts →
    ∀ s ∈ ts, P arena.size s
  lower : ∀ {arena} {i : Nat} {c : CaptureDef}, k.Good arena →
    arena[i]? = some c →
    ∀ l ∈ c.lower, P arena.size l
  capture : ∀ {t} {ctx : Context}, k.Good ctx.captures → P ctx.captures.size t →
    k.Good (r.capture t ctx).2.captures ∧
      k.Leads ctx.captures (r.capture t ctx).2.captures ∧
      ∀ a, (r.capture t ctx).1 = .ok a → P (r.capture t ctx).2.captures.size a

section

variable {k : Upkeep} {r : Resolver} {P : Nat → Ty → Prop} {n : Nat}
  (h : k.Allows r P)

include h

theorem Allows.owner {id : ClassId} {args : List Ty} {o : Ty}
    (ht : P n (.parameterized id args (some o))) : P n o :=
  h.part ht Ty.owner_mem_parts

theorem Allows.arg {id : ClassId} {args : List Ty} {owner : Option Ty}
    (ht : P n (.parameterized id args owner)) {a : Ty}
    (ha : a ∈ args) : P n a :=
  h.part ht (Ty.arg_mem_parts ha)

theorem Allows.bound {upper lower : List Ty} (ht : P n (.wildcard upper lower))
    {b : Ty} (hb : b ∈ upper ++ lower) : P n b :=
  h.part ht (Ty.bound_mem_parts hb)

end

variable {α β : Type} {k : Upkeep} {r : Resolver} {P : Nat → Ty → Prop}
  {n m : Nat} {t : Ty}

/-- From an arena where all is kept up and that has `n` captures at least, the
step leads to another such one, and its answer is as `Q` says in that arena. -/
def Keeps (k : Upkeep) (n : Nat) (Q : Nat → α → Prop) (x : Resolve α) : Prop :=
  ∀ ctx : Context, n ≤ ctx.captures.size → k.Good ctx.captures →
    k.Good (x ctx).2.captures ∧ k.Leads ctx.captures (x ctx).2.captures ∧
      ∀ a, (x ctx).1 = .ok a → Q (x ctx).2.captures.size a

/-- The same of a step whose answer does not matter. -/
abbrev KeepsUp (k : Upkeep) (n : Nat) (x : Resolve α) : Prop :=
  k.Keeps n (fun _ _ => True) x

theorem Keeps.bind {Q : Nat → α → Prop} {Q' : Nat → β → Prop} {x : Resolve α}
    {f : α → Resolve β} (hx : k.Keeps n Q x)
    (hf : ∀ m a, n ≤ m → Q m a → k.Keeps m Q' (f a)) :
    k.Keeps n Q' (x >>= f) := by
  intro ctx hn hgood
  obtain ⟨hgood', hleads, hanswer⟩ := hx ctx hn hgood
  have hle := k.size_le hleads
  rw [bind_apply]
  match hxc : x ctx with
  | (.ok a, ctx') =>
      rw [hxc] at hgood' hleads hanswer hle
      dsimp only at hgood' hleads hanswer hle ⊢
      obtain ⟨hgood'', hleads', hanswer'⟩ :=
        hf _ a (Nat.le_trans hn hle) (hanswer a rfl) ctx' (Nat.le_refl _) hgood'
      exact ⟨hgood'', k.trans hleads hleads', hanswer'⟩
  | (.error e, ctx') =>
      rw [hxc] at hgood' hleads
      exact ⟨hgood', hleads, fun _ heq => nomatch heq⟩
  | (.exhausted, ctx') =>
      rw [hxc] at hgood' hleads
      exact ⟨hgood', hleads, fun _ heq => nomatch heq⟩

theorem Keeps.of_reads {Q : Nat → α → Prop} {x : Resolve α}
    {f : Array CaptureDef → Outcome α} (hx : Reads x f)
    (hQ : ∀ arena a, n ≤ arena.size → k.Good arena → f arena = .ok a →
      Q arena.size a) :
    k.Keeps n Q x := by
  intro ctx hn hgood
  obtain ⟨houtcome, hcaptures⟩ := hx ctx
  rw [hcaptures]
  refine ⟨hgood, k.refl _, fun a ha => ?_⟩
  rw [houtcome] at ha
  exact hQ ctx.captures a hn hgood ha

theorem Keeps.outcome (o : Outcome α) : k.KeepsUp n (ofOutcome o) :=
  .of_reads (.outcome o) fun _ _ _ _ _ => trivial

theorem Keeps.after (o : Outcome α) {Q : Nat → β → Prop} {f : α → Resolve β}
    (hf : ∀ a, k.Keeps n Q (f a)) : k.Keeps n Q (ofOutcome o >>= f) := by
  intro ctx hn hgood
  cases o with
  | ok a => exact hf a ctx hn hgood
  | error e => exact ⟨hgood, k.refl _, fun _ heq => nomatch heq⟩
  | exhausted => exact ⟨hgood, k.refl _, fun _ heq => nomatch heq⟩

/-- A step may be followed by one that says what was answered. -/
theorem Keeps.then_outcome {Q : Nat → α → Prop} {x : Resolve α}
    (hx : k.Keeps n Q x) (f : α → Outcome β) :
    k.KeepsUp n (x >>= fun a => ofOutcome (f a)) :=
  hx.bind fun _ a _ _ => .outcome (f a)

theorem emit_keeps (e : Event) : k.KeepsUp n (emit e) :=
  fun _ _ hgood => ⟨hgood, k.refl _, fun _ _ => trivial⟩

/-! ## Steps that look things up -/

section

variable (h : k.Allows r P) (hplain : r.config.memoizeSupertypes = false)

include h

theorem capture_keeps (ht : P n t) :
    k.Keeps n P (r.capture t) := fun _ hn hgood =>
  h.capture hgood (h.mono hn ht)

theorem Allows.directly {arena : Array CaptureDef} {s : Ty}
    (hgood : k.Good arena) (ht : P arena.size t) (hs : r.Directly arena t s) :
    P arena.size s := by
  obtain ⟨ts, hts, hs⟩ := hs
  exact h.above hgood ht hts s hs

/-- What a search finds has the property. -/
theorem Allows.find {arena : Array CaptureDef} {target : Class} {g : Ty}
    (hgood : k.Good arena) (ht : P arena.size t)
    (hg : r.find arena n t target = .ok (some g)) : P arena.size g := by
  have hup := (find_ancestor hg).1
  clear hg
  induction hup with
  | refl => exact ht
  | tail _ hs ih => exact h.directly hgood ih hs

include hplain

theorem directSupertypes_keeps (ht : P n t) :
    k.Keeps n (fun m ts => ∀ s ∈ ts, P m s) (r.directSupertypes t) :=
  .of_reads (directSupertypes_reads hplain t) fun _ _ hn hgood hts =>
    h.above hgood (h.mono hn ht) hts

theorem exactSupertype_keeps (ht : P n t) (depth : Nat) (target : Class) :
    k.Keeps n (fun m found => ∀ g, found = some g → P m g)
      (r.exactSupertype depth t target) :=
  .of_reads (exactSupertype_reads hplain target depth t)
    fun _ _ hn hgood hfound _ hg => h.find hgood (h.mono hn ht) (hg ▸ hfound)

omit hplain in
theorem captureDef_keeps (id : CaptureId) :
    k.Keeps n (fun m c => ∀ l ∈ c.lower, P m l) (captureDef id) := by
  refine .of_reads (captureDef_reads id) fun arena c _ hgood hc => ?_
  cases hdef : arena[id.index]? with
  | some c' =>
      rw [hdef] at hc
      obtain rfl := Outcome.ok.inj hc
      exact h.lower hgood hdef
  | none => rw [hdef] at hc; cases hc

end

/-! ## Comparisons -/

theorem anyHolds_keeps {test : α → Resolve Bool} : ∀ {n : Nat} {as : List α},
    (∀ a ∈ as, ∀ m, n ≤ m → k.KeepsUp m (test a)) →
      k.KeepsUp n (anyHolds test as)
  | _, [], _ => .outcome (.ok false)
  | n, a :: as, h =>
      (h a List.mem_cons_self n (Nat.le_refl n)).bind fun m holds hle _ => by
        cases holds with
        | true => exact .outcome (.ok true)
        | false =>
            exact anyHolds_keeps fun b hb m' hle' =>
              h b (List.mem_cons_of_mem a hb) m' (Nat.le_trans hle hle')

theorem allHold_keeps {test : α → Resolve Bool} : ∀ {n : Nat} {as : List α},
    (∀ a ∈ as, ∀ m, n ≤ m → k.KeepsUp m (test a)) →
      k.KeepsUp n (allHold test as)
  | _, [], _ => .outcome (.ok true)
  | n, a :: as, h =>
      (h a List.mem_cons_self n (Nat.le_refl n)).bind fun m holds hle _ => by
        cases holds with
        | true =>
            exact allHold_keeps fun b hb m' hle' =>
              h b (List.mem_cons_of_mem a hb) m' (Nat.le_trans hle hle')
        | false => exact .outcome (.ok false)

section

variable (h : k.Allows r P)

include h

section

variable {isSup : Ty → Ty → Resolve Bool}
  (hsup : ∀ n sup sub, P n sup → P n sub → k.KeepsUp n (isSup sup sub))
  {outer inner : Ty}

include hsup

theorem containsBy_keeps (houter : P n outer) (hinner : P n inner) :
    k.KeepsUp n (containsBy isSup outer inner) := by
  cases outer with
  | wildcard upper lower =>
      refine (allHold_keeps fun b hb m hle => ?_).bind fun m holds hle _ => ?_
      · have hbound := h.bound houter (List.mem_append_left lower hb)
        exact hsup m b inner (h.mono hle hbound) (h.mono hle hinner)
      · cases holds with
        | true =>
            refine allHold_keeps fun b hb m' hle' => ?_
            have hle'' := Nat.le_trans hle hle'
            have hbound := h.bound houter (List.mem_append_right upper hb)
            exact hsup m' inner b (h.mono hle'' hinner) (h.mono hle'' hbound)
        | false => exact .outcome (.ok false)
  | nominal _ | parameterized _ _ _ | var _ | genericArray _ | capture _ =>
      exact .outcome (.ok _)

theorem argumentsMatch_keeps {id id' : ClassId} {args args' : List Ty}
    {owner owner' : Option Ty} (ht : P n (.parameterized id args owner))
    (ht' : P n (.parameterized id' args' owner')) :
    k.KeepsUp n (argumentsMatch isSup id args owner args' owner') := by
  unfold argumentsMatch
  split
  · refine (allHold_keeps fun pair hpair m hle => ?_).bind
      fun m holds hle _ => ?_
    · obtain ⟨hleft, hright⟩ := List.of_mem_zip hpair
      exact containsBy_keeps h hsup (h.mono hle (h.arg ht hleft))
        (h.mono hle (h.arg ht' hright))
    · cases holds with
      | false => exact .outcome (.ok false)
      | true =>
          match owner, owner' with
          | some o, some o' =>
              exact hsup m o o' (h.mono hle (h.owner ht))
                (h.mono hle (h.owner ht'))
          | none, _ | some _, none => exact .outcome (.ok true)
  · exact .outcome (.error _)

theorem matchesView_keeps {sup found : Ty} (ht : P n sup) (hfound : P n found) :
    k.KeepsUp n (matchesView isSup sup found) := by
  unfold matchesView
  split
  · exact .outcome (.ok true)
  · exact .outcome (.ok true)
  · split
    · next component hcomponent =>
        exact hsup n component _ (h.component ht hcomponent)
          (h.component hfound rfl)
    · exact .outcome (.ok false)
  · exact argumentsMatch_keeps h hsup ht hfound
  · exact .outcome (.ok false)

end

variable (hplain : r.config.memoizeSupertypes = false)

include hplain

theorem isSupertype_keeps : ∀ depth n sup sub, P n sup → P n sub →
    k.KeepsUp n (r.isSupertype depth sup sub)
  | 0, _, _, _, _, _ => .outcome .exhausted
  | depth + 1, n, sup, sub, hsup, hsub => by
      have ih := isSupertype_keeps depth
      cases sup with
      | nominal _ | parameterized _ _ _ | genericArray _ =>
          refine .after (r.env.erase _) fun superClass =>
            .after (r.settledByErasure _ sub superClass) fun settled => ?_
          cases settled with
          | some answer => exact .outcome (.ok answer)
          | none =>
              refine (capture_keeps h hsub).bind
                fun m captured hle hcaptured => ?_
              refine (exactSupertype_keeps h hplain hcaptured depth
                  superClass).bind
                fun m' found hle' hfound => ?_
              cases found with
              | some view =>
                  exact matchesView_keeps h ih
                    (h.mono (Nat.le_trans hle hle') hsup) (hfound view rfl)
              | none => exact .outcome (.ok false)
      | capture id =>
          unfold isSupertype
          dsimp only
          split
          · exact .outcome (.ok true)
          · refine (captureDef_keeps h id).bind fun m c hle hc => ?_
            exact anyHolds_keeps fun l hl m' hle' =>
              ih m' l sub (h.mono hle' (hc l hl))
                (h.mono (Nat.le_trans hle hle') hsub)
      | var v =>
          have hbounds : k.KeepsUp n (r.directSupertypes sub >>= fun bounds =>
              anyHolds (fun bound => r.isSupertype depth (.var v) bound)
                bounds) := by
            refine (directSupertypes_keeps h hplain hsub).bind
              fun m ts hle hts => ?_
            exact anyHolds_keeps fun s hs m' hle' =>
              ih m' _ s (h.mono (Nat.le_trans hle hle') hsup)
                (h.mono hle' (hts s hs))
          unfold isSupertype
          dsimp only
          split
          · exact .outcome (.ok true)
          · split
            · exact hbounds
            · exact hbounds
            · exact .outcome (.ok false)
      | wildcard _ _ => exact .outcome (.error _)

theorem contains_keeps (depth : Nat) {outer inner : Ty} (houter : P n outer)
    (hinner : P n inner) : k.KeepsUp n (r.contains depth outer inner) :=
  containsBy_keeps h (isSupertype_keeps h hplain depth) houter hinner

end

/-! ## Questions that open no capture -/

section

variable (hplain : r.config.memoizeSupertypes = false)

include hplain

theorem typeArgument_keeps (depth : Nat) (t : Ty) (v : TypeVarId) :
    k.KeepsUp n (r.typeArgument depth t v) := by
  refine .after (.ofExcept (r.env.getTypeParam v)) fun p => ?_
  cases p.declaringClass with
  | none => exact .outcome (.ok none)
  | some id =>
      have hfind : k.KeepsUp n (r.exactSupertype depth t (.named id)) :=
        .of_reads (exactSupertype_reads hplain _ depth t)
          fun _ _ _ _ _ => trivial
      refine hfind.bind fun m view _ _ => ?_
      match view with
      | some (.parameterized _ _ _) =>
          exact .after (.ofExcept (r.env.getClass id)) fun _ => .outcome (.ok _)
      | none | some (.nominal _) | some (.var _) | some (.wildcard _ _)
      | some (.genericArray _) | some (.capture _) => exact .outcome (.ok none)

omit hplain in
theorem collectEach_keeps {step : Ty → List Class → Resolve (List Class)}
    (hstep : ∀ m t found, k.KeepsUp m (step t found)) :
    ∀ (n : Nat) ts found, k.KeepsUp n (collectEach step ts found)
  | _, [], found => .outcome (.ok found)
  | n, t :: ts, found => (hstep n t found).bind fun m found _ _ =>
      collectEach_keeps hstep m ts found

theorem collectBounds_keeps : ∀ depth (n : Nat) t found,
    k.KeepsUp n (r.collectBounds depth t found)
  | 0, _, _, _ => .outcome .exhausted
  | depth + 1, n, t, found => by
      have hsupertypes : k.KeepsUp n (r.directSupertypes t) :=
        .of_reads (directSupertypes_reads hplain t) fun _ _ _ _ _ => trivial
      cases t with
      | nominal _ | parameterized _ _ _ =>
          exact .after (r.env.erase _) fun _ => .outcome (.ok _)
      | var _ | wildcard _ _ | genericArray _ | capture _ =>
          exact hsupertypes.bind fun m ts _ _ =>
            collectEach_keeps (collectBounds_keeps depth) m ts found

theorem resolveBound_keeps (depth n : Nat) (t : Ty) :
    k.KeepsUp n (r.resolveBound depth t) := by
  cases t with
  | var v =>
      refine (collectBounds_keeps hplain depth n (.var v) []).bind
        fun m bounds _ _ => ?_
      match bounds with
      | [c] => exact .outcome (.ok _)
      | [] | _ :: _ :: _ => exact .outcome (.ok _)
  | parameterized id args owner =>
      unfold resolveBound
      dsimp only
      split
      · exact .after (r.env.erase _) fun _ => .outcome (.ok _)
      · exact .outcome (.ok _)
  | nominal _ | wildcard _ _ | genericArray _ | capture _ =>
      exact .outcome (.ok _)

theorem resolveBounds_keeps (depth : Nat) : ∀ (n : Nat) (ts : List Ty),
    k.KeepsUp n (r.resolveBounds depth ts)
  | _, [] => .outcome (.ok [])
  | n, t :: ts =>
      (resolveBound_keeps hplain depth n t).bind fun m _ _ _ =>
        (resolveBounds_keeps depth m ts).then_outcome fun _ => .ok _

end

/-! ## Members -/

section

variable (h : k.Allows r P) (hplain : r.config.memoizeSupertypes = false)
  {owner : Ty} (howner : P n owner) (depth : Nat) (declaring : ClassId)

include h hplain howner

theorem viewAs_keeps : k.KeepsUp n (r.viewAs depth declaring owner) := by
  refine (capture_keeps h howner).bind fun m captured _ hcaptured => ?_
  refine (exactSupertype_keeps h hplain hcaptured depth _).bind
    fun m' found _ _ => ?_
  cases found with
  | some view => exact .outcome (.ok (some view))
  | none => exact (emit_keeps _).then_outcome fun _ => .ok none

theorem seenThrough_keeps (declared : Ty) (own : List TypeVarId) :
    k.KeepsUp n (r.seenThrough depth declaring declared owner own) := by
  refine (viewAs_keeps h hplain howner depth declaring).bind
    fun m found _ _ => ?_
  cases found with
  | some view => exact .outcome (r.substituteThrough declared view own)
  | none => exact .outcome (.ok declared)

theorem memberType_keeps (declared : Ty) :
    k.KeepsUp n (r.memberType depth declaring declared owner) := by
  unfold memberType
  split
  · exact .outcome (.ok declared)
  · exact seenThrough_keeps h hplain howner depth declaring declared []

theorem fieldType_keeps (field : FieldDecl) :
    k.KeepsUp n (r.fieldType depth declaring field owner) := by
  unfold fieldType
  split
  · exact .outcome (.ok field.type)
  · exact memberType_keeps h hplain howner depth declaring field.type

theorem parameterTypes_keeps (method : MethodDecl) :
    k.KeepsUp n (r.parameterTypes depth declaring method owner) := by
  unfold parameterTypes
  split
  · exact .outcome (.ok method.params)
  · refine (viewAs_keeps h hplain howner depth declaring).bind
      fun m found _ _ => ?_
    cases found with
    | some view =>
        exact .outcome (r.substituteAll view method.typeParams method.params)
    | none => exact .outcome (.ok method.params)

theorem returnType_keeps (method : MethodDecl) :
    k.KeepsUp n (r.returnType depth declaring method owner) := by
  unfold returnType
  cases method.returnType with
  | none => exact .outcome (.ok none)
  | some declared =>
      dsimp only
      split
      · exact .outcome (.ok (some declared))
      · exact (seenThrough_keeps h hplain howner depth declaring declared
            _).then_outcome
          fun _ => .ok _

theorem boundedReturnType_keeps (method : MethodDecl) :
    k.KeepsUp n (r.boundedReturnType depth declaring method owner) := by
  refine (returnType_keeps h hplain howner depth declaring method).bind
    fun m found _ _ => ?_
  cases found with
  | some t =>
      exact (resolveBound_keeps hplain depth m t).then_outcome fun _ => .ok _
  | none => exact .outcome (.ok none)

omit declaring in
theorem fieldTypeByName_keeps (name : String) :
    k.KeepsUp n (r.fieldTypeByName depth owner name) := by
  unfold fieldTypeByName
  split
  · next declaring field _ =>
      exact (fieldType_keeps h hplain howner depth declaring field).then_outcome
        fun _ => .ok _
  · exact .outcome (.ok none)

omit declaring in
theorem returnTypeByName_keeps (name : String) :
    k.KeepsUp n (r.returnTypeByName depth owner name) := by
  unfold returnTypeByName
  split
  · next declaring method _ =>
      exact (returnType_keeps h hplain howner depth declaring
        method).then_outcome fun _ => .ok _
  · exact .outcome (.ok none)

end

end Upkeep

/-! ## Requests -/

namespace Request

/-- The types that a request captures or compares. Any other type in it is only
looked at. -/
def operands : Request → List Ty
  | .capture t => [t]
  | .isSupertype sup sub => [sup, sub]
  | .contains outer inner => [outer, inner]
  | .memberType _ _ owner | .fieldType _ _ owner | .parameterTypes _ _ owner
  | .returnType _ _ owner | .boundedParameterTypes _ _ owner
  | .boundedReturnType _ _ owner | .fieldTypeByName owner _
  | .returnTypeByName owner _ => [owner]
  | .reset | .erase _ | .directSupertypes _ | .exactSupertype _ _ | .isRaw _
  | .withWildcards _ | .typeArgument _ _ | .boundingClasses _
  | .resolveBound _ => []

end Request

namespace Upkeep

open Resolver Resolve

variable {k : Upkeep} {r : Resolver} {P : Nat → Ty → Prop} {n : Nat}

/-- Every request but a reset keeps it up, if what it captures or compares has
the property. -/
theorem answer_keeps (h : k.Allows r P)
    (hplain : r.config.memoizeSupertypes = false) (depth : Nat) {q : Request}
    (hreset : q ≠ .reset) (hq : ∀ t ∈ q.operands, P n t) :
    k.KeepsUp n (r.answer depth q) := by
  cases q with
  | reset => exact absurd rfl hreset
  | erase t => exact .after (r.env.erase t) fun _ => .outcome (.ok _)
  | isRaw c => exact .after (r.env.isRaw c) fun _ => .outcome (.ok _)
  | withWildcards c =>
      exact .after (r.env.withWildcards c) fun _ => .outcome (.ok _)
  | capture t =>
      exact (capture_keeps h (hq t (List.mem_singleton_self t))).then_outcome
        fun _ => .ok _
  | directSupertypes t =>
      have hreads : k.KeepsUp n (r.directSupertypes t) :=
        .of_reads (directSupertypes_reads hplain t) fun _ _ _ _ _ => trivial
      exact hreads.then_outcome fun _ => .ok _
  | exactSupertype t target =>
      have hreads : k.KeepsUp n (r.exactSupertype depth t target) :=
        .of_reads (exactSupertype_reads hplain target depth t)
          fun _ _ _ _ _ => trivial
      exact hreads.then_outcome fun _ => .ok _
  | typeArgument t v =>
      exact (typeArgument_keeps hplain depth t v).then_outcome fun _ => .ok _
  | boundingClasses t =>
      exact (collectBounds_keeps hplain depth n t []).then_outcome
        fun _ => .ok _
  | resolveBound t =>
      exact (resolveBound_keeps hplain depth n t).then_outcome fun _ => .ok _
  | isSupertype sup sub =>
      have hsup := hq sup List.mem_cons_self
      have hsub := hq sub (List.mem_cons_of_mem _ (List.mem_singleton_self sub))
      exact (isSupertype_keeps h hplain depth n sup sub hsup hsub).then_outcome
        fun _ => .ok _
  | contains outer inner =>
      have houter := hq outer List.mem_cons_self
      have hinner :=
        hq inner (List.mem_cons_of_mem _ (List.mem_singleton_self inner))
      exact (contains_keeps h hplain depth houter hinner).then_outcome
        fun _ => .ok _
  | memberType declaring declared owner =>
      have howner := hq owner (List.mem_singleton_self owner)
      exact (memberType_keeps h hplain howner depth declaring
          declared).then_outcome
        fun _ => .ok _
  | fieldType declaring field owner =>
      have howner := hq owner (List.mem_singleton_self owner)
      exact (fieldType_keeps h hplain howner depth declaring field).then_outcome
        fun _ => .ok _
  | parameterTypes declaring method owner =>
      have howner := hq owner (List.mem_singleton_self owner)
      exact (parameterTypes_keeps h hplain howner depth declaring
          method).then_outcome
        fun _ => .ok _
  | returnType declaring method owner =>
      have howner := hq owner (List.mem_singleton_self owner)
      exact (returnType_keeps h hplain howner depth declaring
        method).then_outcome fun _ => .ok _
  | boundedParameterTypes declaring method owner =>
      have howner := hq owner (List.mem_singleton_self owner)
      have hbounds :
          k.KeepsUp n (r.boundedParameterTypes depth declaring method owner) :=
        (parameterTypes_keeps h hplain howner depth declaring method).bind
          fun m ts _ _ => resolveBounds_keeps hplain depth m ts
      exact hbounds.then_outcome fun _ => .ok _
  | boundedReturnType declaring method owner =>
      have howner := hq owner (List.mem_singleton_self owner)
      exact (boundedReturnType_keeps h hplain howner depth declaring
          method).then_outcome
        fun _ => .ok _
  | fieldTypeByName owner name =>
      have howner := hq owner (List.mem_singleton_self owner)
      exact (fieldTypeByName_keeps h hplain howner depth name).then_outcome
        fun _ => .ok _
  | returnTypeByName owner name =>
      have howner := hq owner (List.mem_singleton_self owner)
      exact (returnTypeByName_keeps h hplain howner depth name).then_outcome
        fun _ => .ok _

end Upkeep

end GenericTypes
