import GenericTypes.Proofs.Hierarchy
import Mathlib.Order.WellFounded

/-!
# The breadth-first walk finds what is nearest

A walk takes one class from its queue at a time. It passes over a class that it
has visited or that is not defined, and expands any other: the class is marked
and its declared supertypes join the queue at the end (`Turn`). A turn of the
first kind shortens the queue, one of the second leaves fewer classes unmarked,
so the walk ends whatever the declarations look like, and where it ends the
marked classes are `ancestors`. A lookup or a comparison that reads the walk may
stop before that.

A walk that did not mark anything would never end on a circle, but it is easy to
say what it looks at: all classes that `k` declared steps lead to, before any
that `k + 1` steps lead to, and within a layer in the order of declaration
(`layer`, `Unmarked`). The marking walk looks at the same classes in the same
order, except that some are left out. A class may be left out of the queue if it
is passed over anyway or if it stands in the queue further ahead (`Sifted`); and
since everything above a marked class is marked or waiting, what the unmarked
walk adds for a class that the marking walk passes over may be left out again.
So the first class with some property is the same for both walks
(`visit_nearest`).
-/

namespace GenericTypes

open Relation

namespace Declarations

variable {d : Declarations} {α : Type}

/-! ## The walk turn by turn -/

/-- A moment of a walk: the classes visited so far and those that wait. -/
structure Walk where
  visited : List ClassId
  waiting : List ClassId

/-- Whether the walk passes over a class. -/
def Passed (d : Declarations) (visited : List ClassId) (c : ClassId) : Prop :=
  c ∈ visited ∨ ¬ d.isDefined c

/-- One turn of the walk takes the first class that waits. -/
inductive Turn (d : Declarations) : Walk → Walk → Prop
  | pass {visited c rest} : d.Passed visited c →
    Turn d ⟨visited, c :: rest⟩ ⟨visited, rest⟩
  | expand {visited c rest} : ¬ d.Passed visited c →
      Turn d ⟨visited, c :: rest⟩ ⟨visited ++ [c], rest ++ d.superclasses c⟩

/-- The classes still to be visited, and the length of the queue. -/
def Walk.left (d : Declarations) (w : Walk) : Nat × Nat :=
  ((d.classIds \ w.visited.toFinset).card, w.waiting.length)

theorem Turn.left_lt {before after : Walk} (h : d.Turn before after) :
    Prod.Lex (· < ·) (· < ·) (after.left d) (before.left d) := by
  cases h with
  | pass _ => exact .right _ (Nat.lt_succ_self _)
  | @expand visited c rest hnew =>
      obtain ⟨hold, hdef⟩ := not_or.1 hnew
      obtain ⟨decl, hdecl⟩ := isDefined_iff.1 (not_not.1 hdef)
      refine .left _ _
        (Finset.card_lt_card (Finset.ssubset_iff_of_subset ?_ |>.2 ⟨c, ?_, ?_⟩))
      · refine Finset.sdiff_subset_sdiff (Finset.Subset.refl _) fun x hx => ?_
        exact List.mem_toFinset.2
          (List.mem_append_left _ (List.mem_toFinset.1 hx))
      · exact Finset.mem_sdiff.2
          ⟨mem_classIds hdecl, fun h => hold (List.mem_toFinset.1 h)⟩
      · exact fun h => (Finset.mem_sdiff.1 h).2
          (List.mem_toFinset.2
            (List.mem_append_right _ (List.mem_singleton_self c)))

/-- No walk goes on for ever. -/
theorem turn_wellFounded (d : Declarations) :
    WellFounded fun after before : Walk => d.Turn before after :=
  Subrelation.wf Turn.left_lt
    (InvImage.wf (Walk.left d) (Prod.lex Nat.lt_wfRel Nat.lt_wfRel).wf)

theorem passed_of_skipped {visited : List ClassId} {c : ClassId}
    (h : (visited.contains c || !d.isDefined c) = true) :
    d.Passed visited c := by
  rcases Bool.or_eq_true _ _ ▸ h with h | h
  · exact .inl (List.contains_iff_mem.1 h)
  · exact .inr (by simpa using h)

/-- Passing over the classes at the head of the queue that are to be passed
over. -/
theorem passes (visited : List ClassId) : ∀ waiting : List ClassId,
    ReflTransGen d.Turn ⟨visited, waiting⟩
      ⟨visited, waiting.dropWhile fun c => visited.contains c || !d.isDefined c⟩
  | [] => .refl
  | c :: rest => by
      rw [List.dropWhile_cons]
      split
      · next hskip =>
          exact .head (.pass (passed_of_skipped hskip)) (passes visited rest)
      · exact .refl

/-- The walk on fuel is the walk turn by turn, provided that the fuel covers the
classes still to be visited. -/
theorem visit_runs : ∀ fuel visited waiting, d.IsRecord visited →
    d.classes.size ≤ fuel + visited.length →
    ReflTransGen d.Turn ⟨visited, waiting⟩ ⟨d.visit fuel visited waiting, []⟩
  | 0, visited, waiting, hrecord, hfuel => by
      have hskip : waiting.dropWhile (fun c => visited.contains c ||
          !d.isDefined c) = [] := by
        refine List.dropWhile_eq_nil_iff.2 fun c _ => ?_
        cases hc : d.isDefined c with
        | false => simp
        | true =>
            have hvisited := hrecord.mem_of_full (by omega) hc
            rw [List.contains_iff_mem.2 hvisited, Bool.true_or]
      exact hskip ▸ passes visited waiting
  | fuel + 1, visited, waiting, hrecord, hfuel => by
      rw [visit]
      split
      · next hdrop => exact hdrop ▸ passes visited waiting
      · next c rest hdrop =>
          obtain ⟨hc, hnew, -⟩ := of_dropWhile_eq_cons hdrop
          have hturns := passes (d := d) visited waiting
          rw [hdrop] at hturns
          refine hturns.trans
            (.head (.expand (not_or.2 ⟨hnew, not_not.2 hc⟩)) ?_)
          refine visit_runs fuel _ _ (hrecord.snoc hc hnew) ?_
          rw [List.length_append, List.length_singleton]
          omega

/-- The walk from a class comes to its end, with its ancestors visited. -/
theorem ancestors_runs (d : Declarations) (id : ClassId) :
    ReflTransGen d.Turn ⟨[], [id]⟩ ⟨d.ancestors id, []⟩ :=
  visit_runs _ [] [id] .nil (Nat.le_add_right _ _)

/-! ## Layers -/

/-- The classes that `k` declared steps lead to from a class, once for every way
that leads there, ways through what is declared first coming first. -/
def layer (d : Declarations) (id : ClassId) : Nat → List ClassId
  | 0 => [id]
  | k + 1 => (d.layer id k).flatMap d.superclasses

theorem reachable_of_mem_layer {id c : ClassId} : ∀ {k}, c ∈ d.layer id k →
    ReflTransGen d.Extends id c
  | 0, h => List.mem_singleton.1 h ▸ .refl
  | _ + 1, h => by
      obtain ⟨b, hb, hbc⟩ := List.mem_flatMap.1 h
      exact .tail (reachable_of_mem_layer hb) hbc

/-- A nearest find: nothing is found in the layers below, and this is the first
that is found in its own. -/
def Nearest (d : Declarations) (id : ClassId) (has : ClassId → Option α)
    (found : α) : Prop :=
  ∃ k, (∀ j < k, ∀ c ∈ d.layer id j, has c = none) ∧
    (d.layer id k).findSome? has = some found

/-- The queues of a walk that marks nothing, as long as it has found nothing. -/
inductive Unmarked (d : Declarations) (id : ClassId)
    (has : ClassId → Option α) : List ClassId → Prop
  | start : Unmarked d id has [id]
  | turn {c rest} : Unmarked d id has (c :: rest) → has c = none →
      Unmarked d id has (rest ++ d.superclasses c)

/-- The queue of an unmarked walk is what is left of one layer, and the part of
the next that has been added. -/
theorem Unmarked.layers {id : ClassId} {has : ClassId → Option α}
    {queue : List ClassId} (h : d.Unmarked id has queue) :
    ∃ k done rest, d.layer id k = done ++ rest ∧
      queue = rest ++ done.flatMap d.superclasses ∧ (∀ c ∈ done, has c = none) ∧
      ∀ j < k, ∀ c ∈ d.layer id j, has c = none := by
  induction h with
  | start =>
      exact ⟨0, [], [id], rfl, rfl, fun _ h => absurd h List.not_mem_nil,
        fun _ h => absurd h (Nat.not_lt_zero _)⟩
  | @turn c rest _ hc ih =>
      obtain ⟨k, done, ahead, hlayer, hqueue, hdone, hbelow⟩ := ih
      cases ahead with
      | cons a ahead =>
          obtain ⟨rfl, rfl⟩ := List.cons.inj hqueue
          refine ⟨k, done ++ [c], ahead, by rw [hlayer, List.append_assoc]; rfl,
            ?_, ?_, hbelow⟩
          · simp
          · intro b hb
            rcases List.mem_append.1 hb with hb | hb
            · exact hdone b hb
            · exact List.mem_singleton.1 hb ▸ hc
      | nil =>
          -- the layer is done, and the queue is the next one
          rw [List.append_nil] at hlayer
          rw [List.nil_append] at hqueue
          have hnext : d.layer id (k + 1) = [c] ++ rest := by
            rw [layer, hlayer, ← hqueue, List.singleton_append]
          refine ⟨k + 1, [c], rest, hnext, by simp, ?_, ?_⟩
          · exact fun b hb => List.mem_singleton.1 hb ▸ hc
          · intro j hj b hb
            rcases Nat.lt_succ_iff_lt_or_eq.1 hj with hj | rfl
            · exact hbelow j hj b hb
            · exact hdone b (hlayer ▸ hb)

/-- Where an unmarked walk finds something, it is nearest. -/
theorem Unmarked.nearest {id c : ClassId} {has : ClassId → Option α}
    {rest : List ClassId} {found : α} (h : d.Unmarked id has (c :: rest))
    (hc : has c = some found) : d.Nearest id has found := by
  obtain ⟨k, done, ahead, hlayer, hqueue, hdone, hbelow⟩ := h.layers
  cases ahead with
  | cons a ahead =>
      obtain ⟨rfl, -⟩ := List.cons.inj hqueue
      refine ⟨k, hbelow, ?_⟩
      rw [hlayer, List.findSome?_append, List.findSome?_eq_none_iff.2 hdone,
        List.findSome?_cons, hc]
      rfl
  | nil =>
      rw [List.append_nil] at hlayer
      rw [List.nil_append] at hqueue
      refine ⟨k + 1, fun j hj b hb => ?_, ?_⟩
      · rcases Nat.lt_succ_iff_lt_or_eq.1 hj with hj | rfl
        · exact hbelow j hj b hb
        · exact hdone b (hlayer ▸ hb)
      · rw [layer, hlayer, ← hqueue, List.findSome?_cons, hc]

/-- An unmarked walk goes through classes on which nothing is found. -/
theorem Unmarked.turns {id : ClassId} {has : ClassId → Option α} :
    ∀ {front rest : List ClassId}, d.Unmarked id has (front ++ rest) →
      (∀ c ∈ front, has c = none) →
      d.Unmarked id has (rest ++ front.flatMap d.superclasses)
  | [], rest, h, _ => by simpa using h
  | c :: front, rest, h, hfront => by
      rw [List.cons_append] at h
      have hturn := h.turn (hfront c List.mem_cons_self)
      rw [List.append_assoc] at hturn
      have hturns :=
        hturn.turns fun b hb => hfront b (List.mem_cons_of_mem _ hb)
      rwa [List.append_assoc] at hturns

/-! ## What marking leaves out -/

/-- The second list is the first with classes left out that are passed over or
stand further ahead. -/
inductive Sifted :
    (passed : ClassId → Prop) → List ClassId → List ClassId → Prop
  | nil {passed} : Sifted passed [] []
  | keep {passed c queue kept} : Sifted (fun x => x = c ∨ passed x) queue kept →
      Sifted passed (c :: queue) (c :: kept)
  | drop {passed c queue kept} : passed c → Sifted passed queue kept →
      Sifted passed (c :: queue) kept

namespace Sifted

variable {passed more : ClassId → Prop} {queue kept : List ClassId}

theorem mono (h : Sifted passed queue kept) (hle : ∀ c, passed c → more c) :
    Sifted more queue kept := by
  induction h generalizing more with
  | nil => exact .nil
  | keep _ ih => exact .keep (ih fun c hc => hc.imp_right (hle c))
  | drop hc _ ih => exact .drop (hle _ hc) (ih hle)

theorem refl :
    ∀ {passed : ClassId → Prop} (queue : List ClassId),
      Sifted passed queue queue
  | _, [] => .nil
  | _, _ :: queue => .keep (.refl queue)

/-- Both lists may be continued alike. -/
theorem append (h : Sifted passed queue kept) (more : List ClassId) :
    Sifted passed (queue ++ more) (kept ++ more) := by
  induction h with
  | nil => exact .refl more
  | keep _ ih => exact .keep ih
  | drop hc _ ih => exact .drop hc ih

/-- What is passed over or stands in the queue already may be added and left
out. -/
theorem append_dropped (h : Sifted passed queue kept) {more : List ClassId}
    (hmore : ∀ c ∈ more, passed c ∨ c ∈ kept) :
    Sifted passed (queue ++ more) kept := by
  induction h with
  | nil =>
      induction more with
      | nil => exact .nil
      | cons c more ih =>
          refine .drop ?_ (ih fun b hb => hmore b (List.mem_cons_of_mem _ hb))
          exact (hmore c List.mem_cons_self).resolve_right List.not_mem_nil
  | keep _ ih =>
      refine .keep (ih fun b hb => ?_)
      rcases hmore b hb with hb | hb
      · exact .inl (.inr hb)
      · exact (List.mem_cons.1 hb).imp_left .inl
  | drop hc _ ih => exact .drop hc (ih hmore)

/-- A class at the head that is passed over may be left out as well. -/
theorem tail {c : ClassId} (hc : passed c)
    (h : Sifted passed queue (c :: kept)) : Sifted passed queue kept := by
  generalize hkept : c :: kept = old at h
  induction h with
  | nil => cases hkept
  | keep h =>
      obtain ⟨rfl, rfl⟩ := List.cons.inj hkept
      exact .drop hc (h.mono fun x hx => hx.elim (· ▸ hc) id)
  | drop hb _ ih => exact .drop hb (ih hc hkept)

/-- The first class that is kept is the first that is not passed over. -/
theorem uncons {c : ClassId} (h : Sifted passed queue (c :: kept)) :
    ∃ front rest, queue = front ++ c :: rest ∧ (∀ b ∈ front, passed b) ∧
      Sifted (fun x => x = c ∨ passed x) rest kept := by
  generalize hkept : c :: kept = old at h
  induction h with
  | nil => cases hkept
  | @keep _ _ queue _ h =>
      obtain ⟨rfl, rfl⟩ := List.cons.inj hkept
      exact ⟨[], queue, rfl, fun _ h => absurd h List.not_mem_nil, h⟩
  | @drop _ b _ _ hb _ ih =>
      obtain ⟨front, rest, rfl, hfront, hrest⟩ := ih hkept
      refine ⟨b :: front, rest, rfl, fun x hx => ?_, hrest⟩
      rcases List.mem_cons.1 hx with rfl | hx
      · exact hb
      · exact hfront x hx

theorem dropWhile {skip : ClassId → Bool}
    (hskip : ∀ c, skip c = true → passed c) :
    ∀ {kept}, Sifted passed queue kept →
      Sifted passed queue (kept.dropWhile skip)
  | [], h => h
  | c :: kept, h => by
      rw [List.dropWhile_cons]
      split
      · next hc => exact dropWhile hskip (h.tail (hskip c hc))
      · exact h

end Sifted

/-! ## The marking walk finds what is nearest -/

theorem visit_extends : ∀ fuel visited waiting,
    ∃ more, d.visit fuel visited waiting = visited ++ more
  | 0, visited, _ => ⟨[], (List.append_nil _).symm⟩
  | fuel + 1, visited, waiting => by
      rw [visit]
      split
      · exact ⟨[], (List.append_nil _).symm⟩
      · next c rest _ =>
          obtain ⟨more, hmore⟩ :=
            visit_extends fuel (visited ++ [c]) (rest ++ d.superclasses c)
          exact ⟨c :: more, by rw [hmore, List.append_assoc]; rfl⟩

theorem Passed.snoc {visited : List ClassId} {b : ClassId}
    (h : d.Passed visited b) (c : ClassId) : d.Passed (visited ++ [c]) b :=
  h.imp_left (List.mem_append_left _)

theorem passed_last (visited : List ClassId) (c : ClassId) :
    d.Passed (visited ++ [c]) c :=
  .inl (List.mem_append_right _ (List.mem_singleton_self c))

/-- Everything above the visited classes is passed over, or waits. -/
def Closed (d : Declarations) (visited waiting : List ClassId) : Prop :=
  ∀ b ∈ visited, ∀ s ∈ d.superclasses b, d.Passed visited s ∨ s ∈ waiting

/-- Once the next class is marked, everything above a class that was passed over
before is passed over, or waits behind it. -/
theorem Closed.above {visited waiting rest : List ClassId} {b c s : ClassId}
    (h : d.Closed visited waiting)
    (hdrop : waiting.dropWhile (fun c => visited.contains c ||
      !d.isDefined c) = c :: rest)
    (hb : d.Passed visited b) (hs : s ∈ d.superclasses b) :
    d.Passed (visited ++ [c]) s ∨ s ∈ rest := by
  rcases hb with hb | hb
  · by_cases hdef : d.isDefined s
    · have hleft : s ∈ visited ∨ s ∈ c :: rest := by
        rcases h b hb s hs with (hs | hs) | hs
        · exact .inl hs
        · exact absurd hdef hs
        · exact of_mem_dropped hdrop hs hdef
      rcases hleft with hs | hs
      · exact .inl (.inl (List.mem_append_left _ hs))
      · rcases List.mem_cons.1 hs with rfl | hs
        · exact .inl (passed_last visited s)
        · exact .inr hs
    · exact .inl (.inr hdef)
  · exact absurd (isDefined_iff.2 (Extends.source hs)) hb

/-- A walk that has found nothing yet, and whose queue is sifted from that of an
unmarked walk that has found nothing either, finds what is nearest. -/
theorem visit_nearest {id : ClassId} {has : ClassId → Option α} {found : α}
    (hundefined : ∀ c, ¬ d.isDefined c → has c = none) :
    ∀ fuel visited waiting queue, (∀ c ∈ visited, has c = none) →
    d.Closed visited waiting →
    d.Unmarked id has queue → Sifted (d.Passed visited) queue waiting →
    (d.visit fuel visited waiting).findSome? has = some found →
      d.Nearest id has found
  | 0, _, _, _, hnone, _, _, _, hfound => by
      rw [visit, List.findSome?_eq_none_iff.2 hnone] at hfound
      cases hfound
  | fuel + 1, visited, waiting, queue, hnone, hclosed, hqueue, hsifted,
    hfound => by
      rw [visit] at hfound
      split at hfound
      · rw [List.findSome?_eq_none_iff.2 hnone] at hfound
        cases hfound
      · next c rest hdrop =>
          -- the unmarked walk comes to `c` too, by way of classes that are
          -- passed over
          have hkept := hsifted.dropWhile fun _ h => passed_of_skipped h
          rw [hdrop] at hkept
          obtain ⟨front, behind, rfl, hfront, hbehind⟩ := hkept.uncons
          have hhead := hqueue.turns fun b hb => (hfront b hb).elim (hnone b)
            (hundefined b)
          rw [List.cons_append] at hhead
          cases hc : has c with
          | some other =>
              obtain ⟨more, hmore⟩ :=
                visit_extends (d := d) fuel
                  (visited ++ [c]) (rest ++ d.superclasses c)
              rw [hmore, List.append_assoc, List.findSome?_append,
                List.findSome?_eq_none_iff.2 hnone, List.singleton_append,
                List.findSome?_cons,
                hc] at hfound
              exact Option.some.inj hfound ▸ hhead.nearest hc
          | none =>
              refine visit_nearest hundefined fuel _ _ _ ?_ ?_
                (hhead.turn hc) ?_ hfound
              · intro b hb
                rcases List.mem_append.1 hb with hb | hb
                · exact hnone b hb
                · exact List.mem_singleton.1 hb ▸ hc
              · intro b hb s hs
                rcases List.mem_append.1 hb with hb | hb
                · exact (hclosed.above hdrop (.inl hb) hs).imp_right
                    (List.mem_append_left _)
                · obtain rfl := List.mem_singleton.1 hb
                  exact .inr (List.mem_append_right _ hs)
              · -- what passing over `front` added stands further ahead or is
                -- passed over
                have hmarked : Sifted (d.Passed (visited ++ [c])) behind rest :=
                  hbehind.mono fun x hx =>
                    hx.elim (by rintro rfl; exact passed_last visited x)
                      fun h => h.snoc c
                refine (hmarked.append_dropped fun s hs => ?_).append _
                obtain ⟨b, hb, hbs⟩ := List.mem_flatMap.1 hs
                exact hclosed.above hdrop (hfront b hb) hbs

/-- What the walk from a class finds first is nearest. -/
theorem ancestors_nearest {id : ClassId} {has : ClassId → Option α} {found : α}
    (hundefined : ∀ c, ¬ d.isDefined c → has c = none)
    (h : (d.ancestors id).findSome? has = some found) :
    d.Nearest id has found :=
  visit_nearest hundefined _ [] [id] [id] (fun _ h => absurd h List.not_mem_nil)
    (fun _ h => absurd h List.not_mem_nil) .start (.refl [id]) h

/-! ## Member lookup -/

/-- Class `c` is defined, and `m` is the first among its members of that
name. -/
def Declares (d : Declarations) (members : ClassDecl → List α)
    (nameOf : α → String) (name : String) (c : ClassId) (m : α) : Prop :=
  ∃ decl front back, d.class? c = some decl ∧
    members decl = front ++ m :: back ∧
    nameOf m = name ∧ ∀ other ∈ front, nameOf other ≠ name

/-- Class `c` is undefined, or it has no member of that name. -/
def Lacks (d : Declarations) (members : ClassDecl → List α)
    (nameOf : α → String) (name : String) (c : ClassId) : Prop :=
  ∀ decl, d.class? c = some decl → ∀ m ∈ members decl, nameOf m ≠ name

/-- Member `m` of class `c` is nearest to class `id`: `id` leads to `c`, no
class that fewer steps lead to has a member of that name, nor has one that comes
before `c` among those that as many steps lead to, and `m` is the first one of
`c`. -/
structure NearestMember (d : Declarations) (members : ClassDecl → List α)
    (nameOf : α → String) (name : String) (id c : ClassId) (m : α) : Prop where
  declares : d.Declares members nameOf name c m
  reached : ReflTransGen d.Extends id c
  first : ∃ k front back, d.layer id k = front ++ c :: back ∧
    (∀ b ∈ front, d.Lacks members nameOf name b) ∧
    ∀ j < k, ∀ b ∈ d.layer id j, d.Lacks members nameOf name b

section lookup

variable {members : ClassDecl → List α} {nameOf : α → String} {name : String}
  {id c : ClassId}

/-- The first of the members of that name. -/
def firstNamed (members : ClassDecl → List α) (nameOf : α → String)
    (name : String) (decl : ClassDecl) : Option α :=
  (members decl).find? (nameOf · == name)

/-- What a lookup asks of each class it comes to. -/
def memberOf (d : Declarations) (find : ClassDecl → Option α) (c : ClassId) :
    Option (ClassId × α) := do
  let member ← find (← d.class? c)
  return (c, member)

theorem memberOf_eq_some_iff {b : ClassId} {m : α} :
    d.memberOf (firstNamed members nameOf name) b = some (c, m) ↔
      b = c ∧ d.Declares members nameOf name c m := by
  simp only [memberOf, firstNamed, Option.bind_eq_bind, Option.pure_def,
    Option.bind_eq_some_iff,
    Option.some.injEq, Prod.mk.injEq, List.find?_eq_some_iff_append, Declares]
  constructor
  · rintro ⟨decl, hdecl, _, ⟨hname, front, back, hmembers, hfront⟩, rfl, rfl⟩
    exact ⟨rfl, decl, front, back, hdecl,
      hmembers, by simpa using hname, by simpa using hfront⟩
  · rintro ⟨rfl, decl, front, back, hdecl, hmembers, hname, hfront⟩
    exact ⟨decl, hdecl, m,
      ⟨by simpa using hname, front, back, hmembers, by simpa using hfront⟩,
      rfl, rfl⟩

theorem memberOf_eq_none_iff :
    d.memberOf (firstNamed members nameOf name) c = none ↔
      d.Lacks members nameOf name c := by
  rw [memberOf, Option.bind_eq_bind, Option.bind_eq_none_iff]
  refine forall₂_congr fun decl _ => ?_
  have hmap : (do let m ← firstNamed members nameOf name decl; pure (c, m)) =
      (firstNamed members nameOf name decl).map fun m => (c, m) :=
      Option.map_eq_bind.symm
  rw [hmap, Option.map_eq_none_iff, firstNamed, List.find?_eq_none]
  simp

theorem Lacks.of_undefined (h : ¬ d.isDefined c) :
    d.Lacks members nameOf name c :=
  fun decl hdecl => absurd (isDefined_iff.2 ⟨decl, hdecl⟩) h

theorem lookup_eq_none_iff :
    d.lookup id (firstNamed members nameOf name) = none ↔
    ∀ c, d.isDefined c → ReflTransGen d.Extends id c →
      d.Lacks members nameOf name c := by
  have hnone : d.lookup id (firstNamed members nameOf name) = none ↔
      ∀ c ∈ d.ancestors id,
        d.memberOf (firstNamed members nameOf name) c = none :=
    List.findSome?_eq_none_iff
  rw [hnone]
  constructor
  · exact fun h c hdef hc =>
      memberOf_eq_none_iff.1 (h c (mem_ancestors_iff.2 ⟨hdef, hc⟩))
  · intro h c hc
    obtain ⟨hdef, hc⟩ := mem_ancestors_iff.1 hc
    exact memberOf_eq_none_iff.2 (h c hdef hc)

theorem lookup_nearest {m : α}
    (h : d.lookup id (firstNamed members nameOf name) = some (c, m)) :
    d.NearestMember members nameOf name id c m := by
  have hnearest : d.Nearest id (d.memberOf (firstNamed members nameOf name))
      (c, m) :=
    ancestors_nearest (fun _ hb => memberOf_eq_none_iff.2 (.of_undefined hb)) h
  obtain ⟨k, hbelow, hfound⟩ := hnearest
  obtain ⟨front, b, back, hlayer, hb, hfront⟩ :=
    List.findSome?_eq_some_iff.1 hfound
  obtain ⟨rfl, hdeclares⟩ := memberOf_eq_some_iff.1 hb
  refine ⟨hdeclares, reachable_of_mem_layer (k := k) ?_, k, front, back,
    hlayer, ?_, ?_⟩
  · rw [hlayer]
    exact List.mem_append_right _ List.mem_cons_self
  · exact fun a ha => memberOf_eq_none_iff.1 (hfront a ha)
  · exact fun j hj a ha => memberOf_eq_none_iff.1 (hbelow j hj a ha)

end lookup

/-- Looking a member up by name ends, circles or not. It finds nothing exactly
if no defined class at or above the one asked about has a member of that name,
and what it finds is nearest. -/
theorem members_found_nearest (d : Declarations) (id : ClassId)
    (name : String) :
    (WellFounded fun after before : Walk => d.Turn before after) ∧
    ReflTransGen d.Turn ⟨[], [id]⟩ ⟨d.ancestors id, []⟩ ∧
    ((d.lookupField id name = none ↔ ∀ c, d.isDefined c →
        ReflTransGen d.Extends id c →
        d.Lacks ClassDecl.fields FieldDecl.name name c) ∧
      ∀ c f, d.lookupField id name = some (c, f) →
        d.NearestMember ClassDecl.fields FieldDecl.name name id c f) ∧
    ((d.lookupMethod id name = none ↔ ∀ c, d.isDefined c →
        ReflTransGen d.Extends id c →
        d.Lacks ClassDecl.methods MethodDecl.name name c) ∧
      ∀ c m, d.lookupMethod id name = some (c, m) →
        d.NearestMember ClassDecl.methods MethodDecl.name name id c m) :=
  ⟨turn_wellFounded d, ancestors_runs d id,
    ⟨lookup_eq_none_iff, fun _ _ => lookup_nearest⟩, lookup_eq_none_iff,
    fun _ _ => lookup_nearest⟩

end Declarations

end GenericTypes
