import GenericTypes.Proofs.Checking
import GenericTypes.Proofs.Completeness

/-!
# The classes that bound a variable

The bounding classes of a variable are gathered by a recursion along its bounds,
which threads the classes found so far. What it comes to is read off a plain
depth-first traversal that threads nothing (`Meets`): the list of the types
still to be visited is taken from the front, a variable is replaced by its
bounds, and each class is written down as it is met, as often as it is met. Such
a traversal is a function of where it starts, it ends where no variable bounds
itself, and gathering inserts, one after another, the classes that it meets
(`exists_meets`).

Inserting keeps a class where it was met first (`firstMet_foldl`). In particular
the first class met stays in front, and that is the erasure of the variable:
erasure follows first bounds only, and the front of the list is all that a
traversal needs for its first class (`erase_of_meets`).
-/

namespace GenericTypes

open Relation

/-! ## Classes in the order first met -/

/-- The list `cs` has each class of `met` once, in the order in which they first
come in `met`. -/
structure FirstMet (met cs : List Class) : Prop where
  nodup : cs.Nodup
  mem_iff : ∀ c, c ∈ cs ↔ c ∈ met
  ordered : cs.Pairwise fun a b => met.idxOf a < met.idxOf b

namespace Resolver

theorem insertClass_of_mem {cs : List Class} {c : Class} (h : c ∈ cs) :
    insertClass cs c = cs :=
  if_pos (List.contains_iff_mem.2 h)

theorem insertClass_of_notMem {cs : List Class} {c : Class} (h : c ∉ cs) :
    insertClass cs c = cs ++ [c] :=
  if_neg fun hc => h (List.contains_iff_mem.1 hc)

/-- One more class changes no place at which a class was met before. -/
theorem firstMet_insertClass {met cs : List Class} (h : FirstMet met cs)
    (c : Class) : FirstMet (met ++ [c]) (insertClass cs c) := by
  have hplace : ∀ {a}, a ∈ cs → (met ++ [c]).idxOf a = met.idxOf a := fun ha =>
    List.idxOf_append_of_mem ((h.mem_iff _).1 ha)
  have hordered : cs.Pairwise fun a b =>
      (met ++ [c]).idxOf a < (met ++ [c]).idxOf b := by
    refine h.ordered.imp_of_mem fun ha hb hab => ?_
    rw [hplace ha, hplace hb]
    exact hab
  by_cases hc : c ∈ cs
  · rw [insertClass_of_mem hc]
    refine ⟨h.nodup, fun a => ?_, hordered⟩
    rw [List.mem_append, List.mem_singleton, h.mem_iff]
    exact ⟨.inl, fun ha => ha.elim id fun ha => ha ▸ (h.mem_iff c).1 hc⟩
  · rw [insertClass_of_notMem hc]
    refine ⟨?_, fun a => ?_, ?_⟩
    · exact h.nodup.append (List.nodup_singleton c)
        (List.disjoint_singleton.2 hc)
    · rw [List.mem_append, List.mem_append, h.mem_iff]
    · refine List.pairwise_append.2 ⟨hordered, List.pairwise_singleton _ c,
        fun a ha b hb => ?_⟩
      obtain rfl := List.mem_singleton.1 hb
      -- the new class comes behind all those met before
      have hmet : b ∉ met := fun hb => hc ((h.mem_iff b).2 hb)
      rw [hplace ha, List.idxOf_append_of_notMem hmet]
      exact (List.idxOf_lt_length_of_mem ((h.mem_iff a).1 ha)).trans_le
        (Nat.le_add_right _ _)

/-- Inserting the classes met, one after another, keeps each where it came
first. -/
theorem firstMet_foldl (met : List Class) :
    FirstMet met (met.foldl insertClass []) := by
  induction met using List.reverseRecOn with
  | nil => exact ⟨List.nodup_nil, fun _ => Iff.rfl, List.Pairwise.nil⟩
  | append_singleton met c ih =>
      rw [List.foldl_append]
      exact firstMet_insertClass ih c

/-- Whatever is inserted, what came first stays in front. -/
theorem head?_foldl_insertClass (c : Class) :
    ∀ (met cs : List Class), cs.head? = some c →
    (met.foldl insertClass cs).head? = some c
  | [], _, h => h
  | a :: met, cs, h => by
      refine head?_foldl_insertClass c met (insertClass cs a) ?_
      by_cases ha : a ∈ cs
      · rw [insertClass_of_mem ha, h]
      · rw [insertClass_of_notMem ha, List.head?_append, h]
        rfl

end Resolver

namespace Declarations

variable {d : Declarations} {v w : TypeVarId} {p : TypeParamDecl}

/-! ## Variables with simple bounds -/

/-- A class, a parameterized type or a declared variable. -/
def isSimpleBound (d : Declarations) : Ty → Bool
  | .nominal _ | .parameterized _ _ _ => true
  | .var v => (d.typeParam? v).isSome
  | .wildcard _ _ | .genericArray _ | .capture _ => false

/-- Every bound of a variable is a class, a parameterized type or a declared
variable, and variables do not bound each other in circles. -/
structure SimplyBounded (d : Declarations) : Prop where
  shape : ∀ v, ∀ b ∈ d.boundsOf v, d.isSimpleBound b = true
  acyclic : ∀ v, ¬ TransGen d.BoundedBy v v

/-- Bounds are simple where each slot has simple ones, variables among them
being earlier. -/
theorem simplyBounded_of_slots
    (hparams : ∀ i < d.typeParams.size, ∀ p ∈ d.typeParam? ⟨i⟩,
      ∀ b ∈ p.upperBounds, d.isSimpleBound b = true ∧
        ∀ w ∈ b.element.var?, w.index < i) :
    d.SimplyBounded where
  shape _ _ hb :=
    forall_bound (fun i hi p hp b hb => (hparams i hi p hp b hb).1) hb
  acyclic := by
    refine acyclic_of_rank TypeVarId.index fun v w ⟨b, hb, hw⟩ => ?_
    obtain ⟨p, hp, hb⟩ := mem_boundsOf_iff.1 hb
    have hearlier :=
      (hparams v.index (Array.getElem?_eq_some_iff.1 hp).1 p hp b hb).2
    exact hearlier w (by rw [hw]; rfl)

theorem SimplyBounded.isSimpleBound (h : d.SimplyBounded)
    (hp : d.typeParam? v = some p) {b : Ty} (hb : b ∈ p.upperBounds) :
    d.isSimpleBound b = true :=
  h.shape v b (mem_boundsOf_iff.2 ⟨p, hp, hb⟩)

/-- With simple bounds a variable is bounded by a variable, not by an array of
it. -/
theorem SimplyBounded.boundedBy_iff (h : d.SimplyBounded)
    (hp : d.typeParam? v = some p) :
    d.BoundedBy v w ↔ .var w ∈ p.upperBounds := by
  rw [BoundedBy, boundsOf_eq hp]
  refine ⟨fun ⟨b, hb, hw⟩ => ?_, fun hw => ⟨_, hw, rfl⟩⟩
  have hsimple := h.isSimpleBound hp hb
  cases b with
  | var _ => exact Ty.var.inj hw ▸ hb
  | nominal _ | parameterized _ _ _ => cases hw
  | wildcard _ _ | genericArray _ | capture _ => cases hsimple

/-- The erasures of the class and parameterized bounds of a variable; the top
class where there are no bounds. -/
def ErasedBound (d : Declarations) (v : TypeVarId) (c : Class) : Prop :=
  d.boundsOf v = [] ∧ c = .named d.wellKnown.object ∨
    ∃ b ∈ d.boundsOf v, b.isVar = false ∧ d.erase b = .ok c

/-! ## The traversal -/

/-- The classes met, in order, in a depth-first traversal that still has to
visit the types of a list. -/
inductive Meets (d : Declarations) : List Ty → List Class → Prop where
  | done : Meets d [] []
  | nominal {ts cs} (c : Class) (h : Meets d ts cs) : Meets d
    (.nominal c :: ts) (c :: cs)
  | parameterized {ts cs} (id : ClassId) (args : List Ty) (owner : Option Ty)
      (h : Meets d ts cs) : Meets d (.parameterized id args owner :: ts)
      (.named id :: cs)
  | unbounded {v p ts cs} (hp : d.typeParam? v = some p)
      (hnone : p.upperBounds = []) (h : Meets d ts cs) : Meets d
      (.var v :: ts) (.named d.wellKnown.object :: cs)
  | bounded {v p b bs ts cs} (hp : d.typeParam? v = some p)
      (hbounds : p.upperBounds = b :: bs) (h : Meets d (b :: (bs ++ ts)) cs) :
      Meets d (.var v :: ts) cs

/-- A class that a visit to the type `t` comes to. -/
inductive Leads (d : Declarations) : Ty → Class → Prop where
  | here {t c} (hvar : t.isVar = false) (h : d.erase t = .ok c) : Leads d t c
  | below {v w c} (hvw : ReflTransGen d.BoundedBy v w)
    (h : d.ErasedBound w c) : Leads d (.var v) c

variable {t : Ty} {ts us : List Ty} {c : Class} {cs ds : List Class}

/-- What a traversal meets is determined by where it starts. -/
theorem Meets.unique (h : d.Meets ts cs) : ∀ {ds}, d.Meets ts ds → cs = ds := by
  induction h with
  | done => intro ds h'; cases h'; rfl
  | nominal c _ ih => intro ds h'; cases h' with | nominal _ h' => rw [ih h']
  | parameterized id args owner _ ih =>
      intro ds h'
      cases h' with | parameterized _ _ _ h' => rw [ih h']
  | unbounded hp hnone _ ih =>
      intro ds h'
      cases h' with
      | unbounded _ _ h' => rw [ih h']
      | bounded hp' hbounds _ =>
          obtain rfl := Option.some.inj (hp.symm.trans hp')
          rw [hnone] at hbounds
          cases hbounds
  | bounded hp hbounds _ ih =>
      intro ds h'
      cases h' with
      | unbounded hp' hnone _ =>
          obtain rfl := Option.some.inj (hp.symm.trans hp')
          rw [hnone] at hbounds
          cases hbounds
      | bounded hp' hbounds' h' =>
          obtain rfl := Option.some.inj (hp.symm.trans hp')
          obtain ⟨rfl, rfl⟩ := List.cons.inj (hbounds.symm.trans hbounds')
          exact ih h'

/-- Types to be visited later leave alone what is met before them. -/
theorem Meets.append (h : d.Meets ts cs) (h' : d.Meets us ds) :
    d.Meets (ts ++ us) (cs ++ ds) := by
  induction h with
  | done => exact h'
  | nominal c _ ih => exact .nominal c ih
  | parameterized id args owner _ ih => exact .parameterized id args owner ih
  | unbounded hp hnone _ ih => exact .unbounded hp hnone ih
  | bounded hp hbounds _ ih =>
      rw [List.cons_append, List.append_assoc] at ih
      exact .bounded hp hbounds ih

theorem leads_nominal_iff {a : Class} : d.Leads (.nominal a) c ↔ c = a :=
  ⟨fun h => by cases h with | here _ h => exact (Outcome.ok.inj h).symm,
    fun h => .here rfl (h ▸ rfl)⟩

theorem leads_parameterized_iff {id : ClassId} {args : List Ty}
    {owner : Option Ty} :
    d.Leads (.parameterized id args owner) c ↔ c = .named id :=
  ⟨fun h => by cases h with | here _ h => exact (Outcome.ok.inj h).symm,
    fun h => .here rfl (h ▸ rfl)⟩

theorem leads_var_iff : d.Leads (.var v) c ↔
    ∃ w, ReflTransGen d.BoundedBy v w ∧ d.ErasedBound w c :=
  ⟨fun h => by cases h with
    | here hvar _ => cases hvar
    | below hvw h => exact ⟨_, hvw, h⟩,
    fun ⟨_, hvw, h⟩ => .below hvw h⟩

theorem leads_unbounded_iff (hp : d.typeParam? v = some p)
    (hnone : p.upperBounds = []) :
    d.Leads (.var v) c ↔ c = .named d.wellKnown.object := by
  have hnone : d.boundsOf v = [] := (boundsOf_eq hp).trans hnone
  have hlast : ∀ w, ¬ d.BoundedBy v w :=
    fun w ⟨b, hb, _⟩ => List.not_mem_nil (hnone ▸ hb)
  rw [leads_var_iff]
  constructor
  · rintro ⟨w, hvw, hc⟩
    rcases ReflTransGen.cases_head hvw with rfl | ⟨x, hvx, -⟩
    · rcases hc with ⟨-, hc⟩ | ⟨b, hb, -⟩
      · exact hc
      · exact absurd (hnone ▸ hb) List.not_mem_nil
    · exact absurd hvx (hlast x)
  · exact fun hc => ⟨v, .refl, .inl ⟨hnone, hc⟩⟩

theorem leads_bounded_iff (hd : d.SimplyBounded) (hp : d.typeParam? v = some p)
    (hne : p.upperBounds ≠ []) :
    d.Leads (.var v) c ↔ ∃ b ∈ p.upperBounds, d.Leads b c := by
  have hbounds : d.boundsOf v = p.upperBounds := boundsOf_eq hp
  rw [leads_var_iff]
  constructor
  · rintro ⟨w, hvw, hc⟩
    rcases ReflTransGen.cases_head hvw with rfl | ⟨x, hvx, hxw⟩
    · rcases hc with ⟨hnone, -⟩ | ⟨b, hb, hvar, hc⟩
      · exact absurd (hbounds.symm.trans hnone) hne
      · exact ⟨b, hbounds ▸ hb, .here hvar hc⟩
    · exact ⟨.var x, (hd.boundedBy_iff hp).1 hvx, .below hxw hc⟩
  · rintro ⟨b, hb, hc⟩
    cases hc with
    | here hvar hc => exact ⟨v, .refl, .inr ⟨b, hbounds ▸ hb, hvar, hc⟩⟩
    | below hxw hc => exact ⟨_, .head ((hd.boundedBy_iff hp).2 hb) hxw, hc⟩

/-- A traversal meets the classes that the types to be visited lead to, and no
others. -/
theorem Meets.mem_iff (hd : d.SimplyBounded) (h : d.Meets ts cs) :
    c ∈ cs ↔ ∃ t ∈ ts, d.Leads t c := by
  induction h with
  | done => simp
  | nominal a _ ih =>
      rw [List.exists_mem_cons_iff, leads_nominal_iff, List.mem_cons, ih]
  | parameterized id args owner _ ih =>
      rw [List.exists_mem_cons_iff, leads_parameterized_iff, List.mem_cons, ih]
  | unbounded hp hnone _ ih =>
      rw [List.exists_mem_cons_iff, leads_unbounded_iff hp hnone,
        List.mem_cons, ih]
  | @bounded v p b bs _ _ hp hbounds _ ih =>
      have hne : p.upperBounds ≠ [] := hbounds ▸ List.cons_ne_nil b bs
      rw [List.exists_mem_cons_iff, leads_bounded_iff hd hp hne, hbounds, ih,
        ← List.cons_append]
      simp only [List.mem_append, or_and_right, exists_or]

/-- The first class that a traversal meets is the erasure of the type it starts
with, on fuel that covers the variables erasure passes. -/
theorem Meets.head {rank : TypeVarId → Nat}
    (hrank : ∀ v w, d.BoundedBy v w → rank w < rank v)
    (h : d.Meets (t :: ts) cs) :
    ∀ fuel, (∀ v, t.element = .var v → rank v < fuel) →
    ∃ c, t.eraseWith (d.eraseVar fuel) = .ok c ∧ cs.head? = some c := by
  -- on the traversal, of which only the front of the list matters here
  generalize htodo : t :: ts = todo at h
  induction h generalizing t ts with
  | done => cases htodo
  | nominal c _ _ => cases htodo; exact fun _ _ => ⟨c, rfl, rfl⟩
  | parameterized id _ _ _ _ =>
      cases htodo; exact fun _ _ => ⟨.named id, rfl, rfl⟩
  | @unbounded v p _ _ hp hnone _ _ =>
      cases htodo
      intro fuel hfuel
      obtain ⟨fuel, rfl⟩ :=
        Nat.exists_eq_add_one_of_ne_zero (Nat.ne_zero_of_lt (hfuel v rfl))
      refine ⟨_, ?_, rfl⟩
      rw [Ty.eraseWith, eraseVar_eq hp, hnone]
  | @bounded v p b bs _ _ hp hbounds _ ih =>
      cases htodo
      intro fuel hfuel
      obtain ⟨fuel, rfl⟩ :=
        Nat.exists_eq_add_one_of_ne_zero (Nat.ne_zero_of_lt (hfuel v rfl))
      obtain ⟨c, hc, hhead⟩ := ih rfl fuel fun w hw => by
        have hvw : d.BoundedBy v w :=
          ⟨b, by rw [boundsOf_eq hp, hbounds]; exact List.mem_cons_self, hw⟩
        exact Nat.lt_of_lt_of_le (hrank v w hvw)
          (Nat.le_of_lt_succ (hfuel v rfl))
      refine ⟨c, ?_, hhead⟩
      rw [Ty.eraseWith, eraseVar_eq hp, hbounds]
      exact hc

/-- The first class that a traversal from a variable meets is its erasure. -/
theorem erase_of_meets (hd : d.SimplyBounded) (h : d.Meets [.var v] cs) :
    ∃ c, d.erase (.var v) = .ok c ∧ cs.head? = some c := by
  obtain ⟨rank, hle, hrank⟩ := exists_rank_boundedBy hd.acyclic
  exact h.head hrank _ fun w hw => Ty.var.inj hw ▸ Nat.lt_succ_of_le (hle v)

end Declarations

namespace Resolver

open Resolve Declarations

variable {r : Resolver} {v : TypeVarId} {p : TypeParamDecl} {depth : Nat}

/-! ## Gathering is the traversal -/

/-- Gathering from `t` inserts the classes of `cs`, in order. -/
def Gathers (r : Resolver) (depth : Nat) (t : Ty) (cs : List Class) : Prop :=
  ∀ found ctx, r.collectBounds depth t found ctx =
    (.ok (cs.foldl insertClass found), ctx)

/-- What holds of each type of a list holds of the list. -/
theorem exists_meets_list {n : Nat} : ∀ (ts : List Ty),
    (∀ t ∈ ts, ∃ cs, r.env.Meets [t] cs ∧ ∀ m, n < m → r.Gathers m t cs) →
    ∃ cs, r.env.Meets ts cs ∧ ∀ m, n < m → ∀ found ctx,
      collectEach (r.collectBounds m) ts found ctx =
        (.ok (cs.foldl insertClass found), ctx)
  | [], _ => ⟨[], .done, fun _ _ _ _ => rfl⟩
  | t :: ts, h => by
      obtain ⟨cs, hmeets, hgathers⟩ := h t List.mem_cons_self
      obtain ⟨ds, hrest, hcollects⟩ :=
        exists_meets_list ts fun s hs => h s (List.mem_cons_of_mem t hs)
      refine ⟨cs ++ ds, hmeets.append hrest, fun m hm found ctx => ?_⟩
      rw [collectEach, bind_apply, hgathers m hm found ctx, List.foldl_append]
      exact hcollects m hm _ ctx

theorem directSupertypes_var (hp : r.env.typeParam? v = some p)
    (ctx : Context) : r.directSupertypes (.var v) ctx =
      (.ok (if p.upperBounds.isEmpty then [r.env.top] else p.upperBounds),
        ctx) := by
  have hget : (liftM (r.env.getTypeParam v) : Resolve TypeParamDecl)
      ctx = (.ok p, ctx) := by
    rw [getTypeParam_eq hp]
    rfl
  rw [directSupertypes, bind_apply, hget]
  rfl

/-- Below a variable of limited rank the traversal ends, and gathering that is
given the depth for it inserts what the traversal meets. -/
theorem exists_meets (hd : r.env.SimplyBounded) {rank : TypeVarId → Nat}
    (hrank : ∀ v w, r.env.BoundedBy v w → rank w < rank v) :
    ∀ (n : Nat) (t : Ty), r.env.isSimpleBound t = true →
    (∀ v, t = .var v → rank v < n) →
    ∃ cs, r.env.Meets [t] cs ∧ ∀ m, n < m → r.Gathers m t cs
  | _, .nominal c, _, _ => ⟨[c], .nominal c .done, fun | _ + 1, _, _, _ => rfl⟩
  | _, .parameterized id args owner, _, _ =>
      ⟨[.named id], .parameterized id args owner .done,
        fun | _ + 1, _, _, _ => rfl⟩
  | 0, .var v, _, hfuel => absurd (hfuel v rfl) (Nat.not_lt_zero _)
  | n + 1, .var v, hsimple, hfuel => by
      obtain ⟨p, hp⟩ := Option.isSome_iff_exists.1 hsimple
      cases hbounds : p.upperBounds with
      | nil =>
          refine ⟨[.named r.env.wellKnown.object], .unbounded hp hbounds .done,
            fun m hm => ?_⟩
          -- one level for the variable, and one for the top class in the place
          -- of its bounds
          obtain ⟨m, rfl⟩ : ∃ k, m = k + 2 := ⟨m - 2, by omega⟩
          intro found ctx
          rw [collectBounds, bind_apply, directSupertypes_var hp, hbounds]
          rfl
      | cons b bs =>
          obtain ⟨cs, hmeets, hcollects⟩ :=
            exists_meets_list (r := r) (n := n) p.upperBounds fun t ht => by
              refine exists_meets hd hrank n t (hd.isSimpleBound hp ht)
                fun w hw => ?_
              have hvw := hrank v w ((hd.boundedBy_iff hp).2 (hw ▸ ht))
              exact Nat.lt_of_lt_of_le hvw (Nat.le_of_lt_succ (hfuel v rfl))
          rw [hbounds] at hmeets
          refine ⟨cs, .bounded hp hbounds (by rwa [List.append_nil]),
            fun m hm => ?_⟩
          obtain ⟨m, rfl⟩ : ∃ k, m = k + 1 := ⟨m - 1, by omega⟩
          intro found ctx
          have hne : p.upperBounds.isEmpty = false := by rw [hbounds]; rfl
          rw [collectBounds, bind_apply, directSupertypes_var hp, hne]
          exact hcollects m (Nat.lt_of_succ_lt_succ hm) found ctx

/-- A variable gives its one bounding class, or the top type. -/
theorem resolveBound_var {cs : List Class} {c : Class} {ctx : Context}
    (h : r.boundingClasses depth (.var v) ctx = (.ok cs, ctx))
    (hhead : cs.head? = some c) : r.resolveBound depth (.var v) ctx =
      (.ok (if cs.length = 1 then .nominal c else r.env.top), ctx) := by
  rw [resolveBound, bind_apply, h]
  match cs, hhead with
  | [_], hhead => cases hhead; rfl
  | _ :: _ :: _, _ => rfl

/-- Where the bounds of variables are classes, parameterized types and declared
variables that do not bound each other in circles, the bounding classes of a
variable are worked out from every depth that covers the variables, and the
context stays as it is. They are the erased bounds of the variables it leads to,
each once, in the order in which a depth-first traversal first meets them, and
the erasure of the variable is in front. In its place stands that class where it
is the only one, and the top type otherwise; resolving again changes nothing. -/
theorem boundingClasses_of_variable (hd : r.env.SimplyBounded)
    (hp : r.env.typeParam? v = some p) :
    ∃ met cs c, r.env.Meets [.var v] met ∧
      (∀ met', r.env.Meets [.var v] met' → met' = met) ∧
      FirstMet met cs ∧
      (∀ a, a ∈ cs ↔ ∃ w, ReflTransGen r.env.BoundedBy v w ∧
        r.env.ErasedBound w a) ∧
      r.env.erase (.var v) = .ok c ∧ cs.head? = some c ∧
      ∀ depth, r.env.typeParams.size + 1 < depth → ∀ ctx,
        let t := if cs.length = 1 then .nominal c else r.env.top
        r.boundingClasses depth (.var v) ctx = (.ok cs, ctx) ∧
          r.resolveBound depth (.var v) ctx = (.ok t, ctx) ∧
          r.resolveBound depth t ctx = (.ok t, ctx) := by
  obtain ⟨rank, hle, hrank⟩ := exists_rank_boundedBy hd.acyclic
  obtain ⟨met, hmeets, hgathers⟩ :=
    exists_meets hd hrank (r.env.typeParams.size + 1) (.var v)
      (Option.isSome_iff_exists.2 ⟨p, hp⟩)
      fun w hw => Ty.var.inj hw ▸ Nat.lt_succ_of_le (hle v)
  obtain ⟨c, herase, hfront⟩ := erase_of_meets hd hmeets
  have hfirst := firstMet_foldl met
  have hhead : (met.foldl insertClass []).head? = some c := by
    obtain ⟨rest, rfl⟩ := List.head?_eq_some_iff.1 hfront
    exact head?_foldl_insertClass c rest [c] rfl
  refine ⟨met, met.foldl insertClass [], c, hmeets, fun _ h => h.unique hmeets,
    hfirst, fun a => ?_, herase, hhead, fun depth hdepth ctx => ?_⟩
  · rw [hfirst.mem_iff, hmeets.mem_iff hd, List.exists_mem_cons_iff,
      leads_var_iff]
    simp
  · have hclasses : r.boundingClasses depth (.var v) ctx = _ :=
      hgathers depth hdepth [] ctx
    refine ⟨hclasses, resolveBound_var hclasses hhead, ?_⟩
    split <;> rfl

end Resolver

namespace TypeStore

/-- The core package, a variable with two bounds and one that is bounded by it
and by one of these again. -/
def sharedBounds : TypeStore :=
  core.applyAll
    [ .addTypeParam "A"
      [.named Seed.number, Seed.applied Seed.comparable [.named Seed.object]],
      .addTypeParam "B" [Seed.tv 2, .named Seed.number] ]

end TypeStore

namespace Resolver

open TypeStore in
/-- A class met twice counts once, and with two of them the top type stands for
the variable. -/
theorem sharedBounds_once :
    let r : Resolver := ⟨⟨sharedBounds.toDeclarations, none⟩, {}⟩
    r.boundingClasses 6 (Seed.tv 3) .empty =
        (.ok [.named Seed.number, .named Seed.comparable], .empty) ∧
      r.resolveBound 6 (Seed.tv 3) .empty =
        (.ok (.named Seed.object), .empty) := by
  intro r
  have hd : r.env.SimplyBounded :=
    Declarations.simplyBounded_of_slots (by decide)
  obtain ⟨met, cs, c, -, -, -, -, -, -, hgathers⟩ :=
    boundingClasses_of_variable (r := r) (v := ⟨3⟩) hd rfl
  obtain ⟨hclasses, hbound, -⟩ := hgathers 6 (by decide) .empty
  obtain rfl : cs = [.named Seed.number, .named Seed.comparable] :=
    Outcome.ok.inj (congrArg Prod.fst (hclasses.symm.trans rfl))
  exact ⟨hclasses, hbound⟩

end Resolver

end GenericTypes
