import GenericTypes.Resolver.Supertype
import GenericTypes.Proofs.WellFormed

/-!
# Owner chains and declared types seen through them

A parameterized type binds the parameters of its class, and through its owner
those of the enclosing classes. `chainValue` is the value a variable has along
that chain, outer classes winning; binding a chain fails only on a wrong count
of arguments, and is `chainValue` otherwise (`bindChain_spec`).

What a class declares is seen through a type of that class by putting these
values in, and that cannot fail where the chain supplies what the class uses.
The condition is kept by substitution, which changes the arguments of a chain
and leaves its classes as they are; that is why a declared supertype with values
put in can be looked through again (`Complete.supplies_subst`), and so the
supertypes of a type are a function of the type alone (`freshSupertypes_eq`).
-/

namespace GenericTypes

open Relation

namespace Substitution

/-- The value at the last place where the variable is listed. -/
def lastValue (vs : List TypeVarId) (ts : List Ty)
    (v : TypeVarId) : Option Ty :=
  (vs.zip ts).reverse.lookup v

theorem get?_bindZip (σ : Substitution) (vs : List TypeVarId) (ts : List Ty)
    (v : TypeVarId) :
    (σ.bindZip vs ts).get? v = (lastValue vs ts v).or (σ.get? v) := by
  unfold bindZip lastValue
  generalize vs.zip ts = bs
  induction bs generalizing σ with
  | nil => rfl
  | cons b bs ih =>
      rw [List.foldl_cons, ih, get?_bind, List.reverse_cons, List.lookup_append]
      cases bs.reverse.lookup v with
      | some t => rfl
      | none =>
          rw [Option.none_or, Option.none_or, List.lookup_cons, List.lookup_nil]
          by_cases hv : v = b.1
          · simp [hv]
          · simp [hv, beq_false_of_ne hv]

theorem get?_bindSelf {own : List TypeVarId} {v : TypeVarId} :
    ∀ {σ : Substitution}, (σ.bindSelf own).get? v = if v ∈ own then some
      (.var v) else σ.get? v := by
  unfold bindSelf
  induction own with
  | nil => exact fun {σ} => by simp
  | cons w own ih =>
      intro σ
      rw [List.foldl_cons, ih, get?_bind]
      by_cases hv : v ∈ own
      · simp [hv]
      · by_cases hw : v = w
        · simp [hw]
        · simp [hv, hw]

theorem mem_of_lookup {v : TypeVarId} {t : Ty} : ∀ {bs : List (TypeVarId × Ty)},
    bs.lookup v = some t → (v, t) ∈ bs
  | (w, s) :: bs, h => by
      rw [List.lookup_cons] at h
      split at h
      · next heq =>
          obtain rfl := eq_of_beq heq
          obtain rfl := Option.some.inj h
          exact List.mem_cons_self
      · exact List.mem_cons_of_mem _ (mem_of_lookup h)

theorem mem_of_lastValue {vs : List TypeVarId} {ts : List Ty}
    {v : TypeVarId} {t : Ty} (h : lastValue vs ts v = some t) :
    v ∈ vs ∧ t ∈ ts :=
  List.of_mem_zip (List.mem_reverse.1 (mem_of_lookup h))

theorem lastValue_isSome {vs : List TypeVarId} {ts : List Ty} {v : TypeVarId}
    (hlen : vs.length = ts.length) (hv : v ∈ vs) :
    (lastValue vs ts v).isSome := by
  obtain ⟨i, hi, rfl⟩ := List.mem_iff_getElem.1 hv
  have hi' : i < ts.length := hlen ▸ hi
  have hmem : (vs[i], ts[i]) ∈ (vs.zip ts).reverse := by
    rw [List.mem_reverse, List.mem_iff_getElem]
    exact ⟨i, by simp [hi, hi'], by simp⟩
  rw [lastValue, List.lookup_isSome_iff]
  exact ⟨_, hmem, beq_self_eq_true _⟩

theorem lastValue_map (f : Ty → Ty) (vs : List TypeVarId) (ts : List Ty)
    (v : TypeVarId) :
    lastValue vs (ts.map f) v = (lastValue vs ts v).map f := by
  unfold lastValue
  rw [List.zip_map_right, ← List.map_reverse]
  generalize (vs.zip ts).reverse = bs
  induction bs with
  | nil => rfl
  | cons b bs ih =>
      rw [List.map_cons, List.lookup_cons, List.lookup_cons]
      show (match v == b.1 with | true => _ | false => _) = _
      cases v == b.1 with
      | true => rfl
      | false => exact ih

end Substitution

open Substitution

namespace Declarations

/-- The value of a variable along the chain of owners of a type. -/
def chainValue (d : Declarations) : Ty → TypeVarId → Option Ty
  | .parameterized id args (some owner), v =>
      (d.chainValue owner v).or (lastValue (d.paramsOf id) args v)
  | .parameterized id args none, v => lastValue (d.paramsOf id) args v
  | .nominal _, _ | .var _, _ | .wildcard _ _, _ | .genericArray _, _
  | .capture _, _ => none

/-- The values of a chain as a function that leaves other variables alone. -/
def chainSubst (d : Declarations) (t : Ty) (v : TypeVarId) : Ty :=
  (d.chainValue t v).getD (.var v)

/-- The class is defined and has as many parameters as there are arguments. -/
def Counts (d : Declarations) (id : ClassId) (args : List Ty) : Prop :=
  ∃ c, d.class? id = some c ∧ c.typeParams.length = args.length

/-- Arguments are as many as the parameters, all along the chain of owners. -/
def Counted (d : Declarations) : Ty → Prop
  | .parameterized id args (some owner) => d.Counts id args ∧ d.Counted owner
  | .parameterized id args none => d.Counts id args
  | .nominal _ | .var _ | .wildcard _ _ | .genericArray _ | .capture _ => True

/-- The type is the class `id`, plain or with arguments; with arguments, they
are counted, and with those of its owners supply what the class uses. -/
inductive Supplies (d : Declarations) (id : ClassId) : Ty → Prop where
  | plain (hdef : d.isDefined id) : Supplies d id (.nominal (.named id))
  | applied {args : List Ty} {owner : Option Ty}
      (hcounted : d.Counted (.parameterized id args owner))
      (hused : ∀ v, d.Uses id v →
        v ∈ d.chainVars (.parameterized id args owner)) :
      Supplies d id (.parameterized id args owner)

variable {d : Declarations} {n : Nat} {t : Ty} {id : ClassId} {v : TypeVarId}

theorem paramsOf_eq {c : ClassDecl} (hc : d.class? id = some c) :
    d.paramsOf id = c.typeParams := by
  rw [paramsOf, hc]

/-! ## The values of a chain -/

theorem chainValue_isSome : ∀ {t : Ty}, d.Counted t → v ∈ d.chainVars t →
    (d.chainValue t v).isSome
  | .parameterized _ _ (some _), ⟨⟨c, hc, hlen⟩, howner⟩, hv => by
      rw [chainValue, Option.isSome_or, Bool.or_eq_true]
      rcases List.mem_append.1 hv with hv | hv
      · rw [paramsOf_eq hc] at hv ⊢
        exact .inr (lastValue_isSome hlen hv)
      · exact .inl (chainValue_isSome howner hv)
  | .parameterized _ _ none, ⟨c, hc, hlen⟩, hv => by
      rw [chainVars, paramsOf_eq hc] at hv
      rw [chainValue, paramsOf_eq hc]
      exact lastValue_isSome hlen hv

/-- The value of a variable is written somewhere in the type. -/
theorem parts_chainValue {x s : Ty} :
    ∀ {t : Ty}, d.chainValue t v = some s → x ∈ s.parts →
    x ∈ t.parts
  | .parameterized _ _ (some owner), h, hx => by
      rw [chainValue, Option.or_eq_some_iff] at h
      rw [Ty.mem_parts_parameterized]
      rcases h with h | ⟨-, h⟩
      · exact .inr (.inl ⟨owner, rfl, parts_chainValue h hx⟩)
      · exact .inr (.inr ⟨s, (mem_of_lastValue h).2, hx⟩)
  | .parameterized _ _ none, h, hx => by
      rw [chainValue] at h
      exact Ty.mem_parts_parameterized.2
        (.inr (.inr ⟨s, (mem_of_lastValue h).2, hx⟩))

/-- A chain binds what it gives values to, and nothing else. -/
theorem bindChain_spec : ∀ {t : Ty} (σ : Substitution), d.Counted t →
    ∃ τ, Resolver.bindChain d t σ = .ok τ ∧
      ∀ v, τ.get? v = (d.chainValue t v).or (σ.get? v)
  | .parameterized id args (some owner), σ, ⟨⟨c, hc, hlen⟩, howner⟩ => by
      obtain ⟨τ, hτ, hget⟩ :=
        bindChain_spec (σ.bindZip c.typeParams args) howner
      refine ⟨τ, ?_, fun v => ?_⟩
      · rw [Resolver.bindChain, getClass_eq hc]
        show (if c.typeParams.length = args.length then _ else _) = _
        rw [if_pos hlen]
        exact hτ
      · rw [hget, get?_bindZip, chainValue, paramsOf_eq hc, Option.or_assoc]
  | .parameterized id args none, σ, ⟨c, hc, hlen⟩ => by
      refine ⟨σ.bindZip c.typeParams args, ?_, fun v => ?_⟩
      · rw [Resolver.bindChain, getClass_eq hc]
        show (if c.typeParams.length = args.length then _ else _) = _
        rw [if_pos hlen]
        rfl
      · rw [get?_bindZip, chainValue, paramsOf_eq hc]
  | .nominal _, σ, _ | .var _, σ, _ | .wildcard _ _, σ, _
  | .genericArray _, σ, _ | .capture _, σ, _ => ⟨σ, rfl, fun _ => rfl⟩

/-! ## Complete types supply what their class uses -/

theorem Complete.counted : ∀ {t : Ty}, d.Complete n t → d.Counted t
  | .parameterized _ _ (some _), h =>
      ⟨h.fits.1, Complete.counted (h.part Ty.owner_mem_parts)⟩
  | .parameterized _ _ none, h => h.fits.1
  | .nominal _, _ | .var _, _ | .wildcard _ _, _ | .genericArray _, _
  | .capture _, _ => trivial

theorem Complete.supplies (h : d.Complete n t) (hid : t.head? = some id) :
    d.Supplies id t := by
  rcases Ty.head?_eq_some_iff.1 hid with rfl | ⟨args, owner, rfl⟩
  · exact .plain h.fits
  · exact .applied h.counted h.fits.2.1

/-- Substitution changes the arguments along a chain and leaves its classes as
they are: the owners are classes, so no owner is replaced. -/
theorem chain_subst (φ : TypeVarId → Ty) :
    ∀ {t : Ty}, d.Complete n t → t.head?.isSome →
    d.chainVars (t.subst φ) = d.chainVars t ∧ d.Counted (t.subst φ) ∧
      ∀ v, d.chainValue (t.subst φ) v = (d.chainValue t v).map (·.subst φ)
  | .parameterized id args (some owner), h, _ => by
      have howner := h.part Ty.owner_mem_parts
      obtain ⟨hvars, hcounted, hvalue⟩ :=
        chain_subst φ howner (h.fits.2.2 owner rfl)
      obtain ⟨c, hc, hlen⟩ := h.fits.1
      simp only [Ty.subst, Ty.substOwner, Ty.substList_eq_map]
      refine ⟨?_, ⟨⟨c, hc, ?_⟩, hcounted⟩, fun v => ?_⟩
      · rw [chainVars, chainVars, hvars]
      · rw [hlen, List.length_map]
      · rw [chainValue, chainValue, hvalue, lastValue_map, Option.map_or]
  | .parameterized id args none, h, _ => by
      obtain ⟨c, hc, hlen⟩ := h.fits.1
      simp only [Ty.subst, Ty.substOwner, Ty.substList_eq_map]
      refine ⟨rfl, ⟨c, hc, ?_⟩, fun v => ?_⟩
      · rw [hlen, List.length_map]
      · rw [chainValue, chainValue, lastValue_map]
  | .nominal _, _, _ => ⟨rfl, trivial, fun _ => rfl⟩

theorem Fits.arrayOf (h : d.Fits n t) : d.Fits n t.arrayOf := by
  cases t with
  | nominal c => exact h
  | parameterized _ _ _ | var _ | wildcard _ _ | genericArray _ | capture _ =>
      trivial

theorem Complete.fits_subst {m : Nat} {φ : TypeVarId → Ty} (hle : n ≤ m) :
    ∀ {t : Ty}, d.Complete n t → (∀ v, .var v ∈ t.parts → d.Complete m (φ v)) →
      d.Fits m (t.subst φ)
  | .nominal _, h, _ | .capture _, h, _ => h.fits.mono hle
  | .var v, _, hφ => (hφ v (Ty.mem_parts_self _)).fits
  | .wildcard _ _, _, _ => trivial
  | .genericArray t, h, hφ =>
      (Complete.fits_subst hle (h.part (Ty.component_mem_parts t))
        fun v hv => hφ v (Ty.mem_parts_genericArray.2 (.inr hv))).arrayOf
  | .parameterized id args owner, h, _ => by
      obtain ⟨hvars, -, -⟩ := chain_subst φ h rfl
      obtain ⟨⟨c, hc, hlen⟩, hused, hhead⟩ := h.fits
      simp only [Ty.subst, Ty.substList_eq_map, Ty.substOwner_eq_map] at hvars ⊢
      refine ⟨⟨c, hc, by rw [hlen, List.length_map]⟩,
        fun v hv => hvars ▸ hused v hv,
        fun s hs => ?_⟩
      obtain ⟨o, ho, rfl⟩ := Option.map_eq_some_iff.1 hs
      obtain ⟨oid, hoid⟩ := Option.isSome_iff_exists.1 (hhead o ho)
      rw [Ty.head?_subst hoid]
      rfl

theorem Complete.arrayOf (h : d.Complete n t) : d.Complete n t.arrayOf := by
  intro x hx
  rcases Ty.mem_parts_arrayOf hx with rfl | hx
  · exact h.fits.arrayOf
  · exact h x hx

theorem Complete.component? {k : Ty} (h : d.Complete n t)
    (hk : t.component? = some k) : d.Complete n k := by
  rcases Ty.component?_eq_some_iff.1 hk with ⟨c, rfl, rfl⟩ | rfl
  · exact fun x hx => List.mem_singleton.1 hx ▸ h.fits
  · exact h.part (Ty.component_mem_parts k)

/-- Substitution by complete values keeps a type complete. -/
theorem Complete.subst {m : Nat} {φ : TypeVarId → Ty} (h : d.Complete n t)
    (hle : n ≤ m) (hφ : ∀ v, .var v ∈ t.parts → d.Complete m (φ v)) :
    d.Complete m (t.subst φ) := by
  intro x hx
  rcases Ty.mem_parts_subst hx with ⟨y, hy, -, rfl⟩ | ⟨v, hv, hx⟩
  · exact (h.part hy).fits_subst hle fun v hv => hφ v (Ty.mem_parts_trans hv hy)
  · exact hφ v hv x hx

theorem Proper.component? {k : Ty} (ht : d.Proper n t)
    (hk : t.component? = some k) : d.Proper n k := by
  rcases Ty.component?_eq_some_iff.1 hk with ⟨c, rfl, rfl⟩ | rfl
  · refine ⟨ht.complete.component? rfl, fun x hx => ?_, rfl⟩
    obtain rfl := List.mem_singleton.1 hx
    trivial
  · exact ⟨ht.complete.component? rfl,
      fun x hx => ht.placed x (Ty.mem_parts_genericArray.2 (.inr hx)),
      ht.placed _ (Ty.mem_parts_self _)⟩

theorem Complete.supplies_subst (h : d.Complete n t) (hid : t.head? = some id)
    (φ : TypeVarId → Ty) : d.Supplies id (t.subst φ) := by
  have hchain := chain_subst φ h (by rw [hid]; rfl)
  rcases Ty.head?_eq_some_iff.1 hid with rfl | ⟨args, owner, rfl⟩
  · exact h.supplies hid
  · rw [Ty.subst] at hchain ⊢
    exact .applied hchain.2.1 fun v hv => hchain.1 ▸ h.fits.2.1 v hv

theorem Supplies.head? (h : d.Supplies id t) : t.head? = some id := by
  cases h <;> rfl

theorem Supplies.isDefined (h : d.Supplies id t) : d.isDefined id := by
  cases h with
  | plain hdef => exact hdef
  | @applied args owner hcounted _ =>
      cases owner with
      | none =>
          obtain ⟨c, hc, -⟩ := hcounted
          exact isDefined_iff.2 ⟨c, hc⟩
      | some o =>
          obtain ⟨⟨c, hc, -⟩, -⟩ := hcounted
          exact isDefined_iff.2 ⟨c, hc⟩

/-- Whether a type names a generic class without arguments. -/
def rawly (d : Declarations) : Ty → Bool
  | .nominal c => d.isRaw c = .ok true
  | .parameterized _ _ _ | .var _ | .wildcard _ _ | .genericArray _
  | .capture _ => false

/-- What a class uses has a value along the chain of each of its types, except
for those that name it raw. -/
theorem Supplies.chainValue_isSome (hid : d.Supplies id t) (h : d.WellFormed)
    (hraw : d.rawly t = false) (huses : d.Uses id v) :
    (d.chainValue t v).isSome := by
  cases hid with
  | plain hdef =>
      obtain ⟨b, hb, hiff⟩ := h.isRaw_ok hdef
      have htrue := hiff.2 ⟨v, h.scoping huses⟩
      simp [rawly, hb, htrue] at hraw
  | applied hcounted hused =>
      exact Declarations.chainValue_isSome hcounted (hused v huses)

end Declarations

namespace Resolver

variable {r : Resolver} {d : Declarations} {id : ClassId} {t via : Ty}
  {own : List TypeVarId}

open Declarations

/-! ## Seeing through a type -/

/-- Through a raw class, a type is erased. -/
theorem substituteThrough_raw (hraw : r.env.rawly via = true) {c : Class}
    (hc : r.env.erase t = .ok c) :
    r.substituteThrough t via own = .ok (.nominal c) := by
  cases via with
  | nominal c' =>
      have hraw : r.env.isRaw c' = .ok true := of_decide_eq_true hraw
      unfold substituteThrough
      simp only [hraw, hc, Outcome.ok_bind]
      rfl
  | parameterized _ _ _ | var _ | wildcard _ _ | genericArray _ | capture _ =>
      cases hraw

/-- Through any other type of a class, the arguments of the type are put in, and
own variables of the member stand for themselves. -/
theorem substituteThrough_subst (h : r.env.WellFormed)
    (hvia : r.env.Supplies id via) (hraw : r.env.rawly via = false)
    (hvars : ∀ v, .var v ∈ t.parts → v ∈ own ∨ r.env.Uses id v) :
    r.substituteThrough t via own = .ok (t.subst (r.env.chainSubst via)) := by
  have hresolve : ∀ τ : Substitution,
      (∀ v, τ.get? v = (r.env.chainValue via v).or
        ((Substitution.empty.bindSelf own).get? v)) →
      τ.resolve t = .ok (t.subst (r.env.chainSubst via)) := fun τ hτ =>
    Substitution.resolve_eq_subst fun v hv => by
      rw [hτ, chainSubst]
      rcases hvars v hv with hown | huses
      · rw [get?_bindSelf, if_pos hown]
        cases r.env.chainValue via v <;> rfl
      · obtain ⟨s, hs⟩ :=
          Option.isSome_iff_exists.1 (hvia.chainValue_isSome h hraw huses)
        rw [hs]
        rfl
  cases hvia with
  | plain hdef =>
      obtain ⟨b, hb, -⟩ := h.isRaw_ok hdef
      have hb : r.env.isRaw (.named id) = .ok false := by
        cases b with
        | false => exact hb
        | true => simp [rawly, hb] at hraw
      unfold substituteThrough
      simp only [hb, Outcome.ok_bind]
      show (liftM (Substitution.resolve _ t) : Outcome Ty) = _
      rw [hresolve _ fun _ => rfl]
      rfl
  | applied hcounted hused =>
      obtain ⟨τ, hτ, hget⟩ :=
        bindChain_spec (Substitution.empty.bindSelf own) hcounted
      unfold substituteThrough
      simp only [hτ]
      show (liftM (τ.resolve t) : Outcome Ty) = _
      rw [hresolve τ hget]
      rfl

/-- A type declared in a class, as it is seen through a type of that class. -/
def seen (d : Declarations) (via t : Ty) : Ty :=
  if d.rawly via then
    match d.erase t with
    | .ok c => .nominal c
    | .error _ | .exhausted => t
  else t.subst (d.chainSubst via)

/-- A declared type whose variables the class uses, or are the member's own, can
be seen through every type of the class. -/
theorem substituteThrough_eq (h : r.env.WellFormed)
    (hvia : r.env.Supplies id via) (ht : r.env.Proper 0 t)
    (hvars : ∀ v, .var v ∈ t.parts → v ∈ own ∨ r.env.Uses id v) :
    r.substituteThrough t via own = .ok (seen r.env.toDeclarations via t) := by
  unfold seen
  cases hraw : r.env.rawly via with
  | true =>
      obtain ⟨c, hc⟩ := h.erase_declared ht
      rw [substituteThrough_raw hraw hc, hc]
      rfl
  | false => exact substituteThrough_subst h hvia hraw hvars

theorem substituteAll_eq (h : r.env.WellFormed) (hvia : r.env.Supplies id via) :
    ∀ {ts : List Ty}, (∀ t ∈ ts, r.env.Proper 0 t) →
      (∀ t ∈ ts, ∀ v, .var v ∈ t.parts → v ∈ own ∨ r.env.Uses id v) →
      r.substituteAll via own ts = .ok (ts.map (seen r.env.toDeclarations via))
  | [], _, _ => rfl
  | t :: ts, hts, hvars => by
      rw [substituteAll,
        substituteThrough_eq h hvia (hts t List.mem_cons_self)
          (hvars t List.mem_cons_self),
        Outcome.ok_bind,
        substituteAll_eq h hvia (fun s hs => hts s (List.mem_cons_of_mem _ hs))
          fun s hs => hvars s (List.mem_cons_of_mem _ hs)]
      rfl

/-- What is seen mentions the variables of the type seen through, and of those
it had itself the member's own. -/
theorem var_mem_seen {v : TypeVarId} (hvia : d.Supplies id via)
    (hvars : ∀ v, .var v ∈ t.parts → v ∈ own ∨ d.Uses id v) (h : d.WellFormed)
    (ht : d.Proper 0 t) (hv : .var v ∈ (seen d via t).parts) :
    .var v ∈ via.parts ∨ v ∈ own := by
  unfold seen at hv
  cases hraw : d.rawly via with
  | true =>
      obtain ⟨c, hc⟩ := h.erase_declared ht
      rw [hraw, if_pos rfl, hc] at hv
      simp [Ty.parts] at hv
  | false =>
      rw [hraw, if_neg Bool.false_ne_true] at hv
      obtain ⟨w, hw, hvw⟩ := Ty.var_mem_parts_subst hv
      rw [chainSubst] at hvw
      rcases hvars w hw with hown | huses
      · cases hvalue : d.chainValue via w with
        | some s =>
            rw [hvalue] at hvw
            exact .inl (parts_chainValue hvalue hvw)
        | none =>
            rw [hvalue] at hvw
            obtain rfl := Ty.var.inj (List.mem_singleton.1 hvw)
            exact .inr hown
      · obtain ⟨s, hvalue⟩ :=
          Option.isSome_iff_exists.1 (hvia.chainValue_isSome h hraw huses)
        rw [hvalue] at hvw
        exact .inl (parts_chainValue hvalue hvw)

theorem erase_head (hid : t.head? = some id) : d.erase t = .ok (.named id) := by
  rcases Ty.head?_eq_some_iff.1 hid with rfl | ⟨_, _, rfl⟩ <;> rfl

/-- A declared supertype seen through a type is a type of the class it names. -/
theorem supplies_seen {parent : ClassId} (ht : d.Complete 0 t)
    (hid : t.head? = some parent) : d.Supplies parent (seen d via t) := by
  unfold seen
  cases hraw : d.rawly via with
  | true =>
      rw [if_pos rfl, erase_head hid]
      exact .plain (ht.supplies hid).isDefined
  | false => exact ht.supplies_subst hid _

/-- And it is complete where that type is. -/
theorem complete_seen {n : Nat} {parent : ClassId} (hvia : d.Complete n via)
    (ht : d.Complete 0 t) (hid : t.head? = some parent) :
    d.Complete n (seen d via t) := by
  unfold seen
  cases hraw : d.rawly via with
  | true =>
      rw [if_pos rfl, erase_head hid]
      intro x hx
      obtain rfl := List.mem_singleton.1 hx
      exact (ht.supplies hid).isDefined
  | false =>
      refine ht.subst (Nat.zero_le n) fun v hv => ?_
      rw [chainSubst]
      cases hvalue : d.chainValue via v with
      | some s => exact fun x hx => hvia x (parts_chainValue hvalue hx)
      | none => exact fun x hx => List.mem_singleton.1 hx ▸ ht _ hv

/-! ## The supertypes of a type of a class -/

/-- The direct supertypes of a type of the class `c`: the declared ones as seen
through it, or the top type for an interface that declares none. -/
def seenSupertypes (r : Resolver) (c : ClassDecl) (via : Ty) : List Ty :=
  if c.supertypes.isEmpty && c.kind = .interface &&
      r.config.implicitObjectSupertype then
    [r.env.top]
  else c.supertypes.map (seen r.env.toDeclarations via)

theorem freshSupertypes_eq {c : ClassDecl} (h : r.env.WellFormed)
    (hvia : r.env.Supplies id via) (hc : r.env.class? id = some c) :
    r.freshSupertypes id via = .ok (r.seenSupertypes c via) := by
  have hall := @substituteAll_eq r id via [] h hvia c.supertypes
    (fun t ht => (h.supertypes hc t ht).2)
    fun t ht v hv => .inr (.supertype hc ht hv)
  unfold freshSupertypes seenSupertypes
  rw [lift_getClass hc, Outcome.ok_bind, hall, Outcome.ok_bind,
    List.isEmpty_map]
  split <;> rfl

/-- Every direct supertype of a type of a class is a type of a class above it,
and mentions no other variables. -/
theorem of_mem_seenSupertypes {c : ClassDecl} {s : Ty} (h : r.env.WellFormed)
    (hvia : r.env.Supplies id via) (hc : r.env.class? id = some c)
    (hs : s ∈ r.seenSupertypes c via) :
    ((∃ parent, r.env.Extends id parent ∧ r.env.Supplies parent s) ∨
        s = r.env.top ∧ c.supertypes = [] ∧ c.kind = .interface ∧
          r.config.implicitObjectSupertype = true) ∧
      ∀ v, .var v ∈ s.parts → .var v ∈ via.parts := by
  unfold seenSupertypes at hs
  split at hs
  · next hcond =>
      obtain rfl := List.mem_singleton.1 hs
      simp only [Bool.and_eq_true, List.isEmpty_iff, decide_eq_true_eq] at hcond
      refine ⟨.inr ⟨rfl, hcond.1.1, hcond.1.2, hcond.2⟩, fun v hv => ?_⟩
      cases List.mem_singleton.1 hv
  · obtain ⟨t, ht, rfl⟩ := List.mem_map.1 hs
    obtain ⟨hhead, hproper⟩ := h.supertypes hc t ht
    obtain ⟨parent, hparent⟩ := Option.isSome_iff_exists.1 hhead
    refine ⟨.inl ⟨parent, ?_, supplies_seen hproper.complete hparent⟩,
      fun v hv => ?_⟩
    · rw [Extends, superclasses, hc]
      exact List.mem_filterMap.2 ⟨t, ht, hparent⟩
    · exact (var_mem_seen hvia (fun w hw => .inr (.supertype hc ht hw)) h
        (h.supertypes hc t ht).2 hv).resolve_right List.not_mem_nil

/-- Every class that a class is declared under has a type among the direct
supertypes. -/
theorem exists_mem_seenSupertypes {c : ClassDecl} {parent : ClassId} (via : Ty)
    (h : r.env.WellFormed)
    (hc : r.env.class? id = some c) (hparent : r.env.Extends id parent) :
    ∃ s ∈ r.seenSupertypes c via, r.env.Supplies parent s := by
  rw [Extends, superclasses, hc] at hparent
  obtain ⟨t, ht, hhead⟩ := List.mem_filterMap.1 hparent
  have hne : c.supertypes.isEmpty = false := by
    cases hsup : c.supertypes with
    | nil => simp [hsup] at ht
    | cons _ _ => rfl
  refine ⟨seen r.env.toDeclarations via t, ?_,
    supplies_seen (h.supertypes hc t ht).2.complete hhead⟩
  rw [seenSupertypes, hne]
  exact List.mem_map_of_mem ht

end Resolver

end GenericTypes
