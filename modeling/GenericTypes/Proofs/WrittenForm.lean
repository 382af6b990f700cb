import GenericTypes.Json.Declarations
import GenericTypes.Proofs.Parts

/-!
# Writing and reading lose nothing

A value is read back from what it is written as, and what is read from any
document can be written. Nothing is asked of a value but that its indices have
the thirty-two bits they are written with (`InRange`). Both facts are passed on
from the readers of the parts to the readers of lists, of values that may be
absent, of records and of cases (`Lossless`), so that the declarations need no
induction of their own; only types, which are nested, need one, over the type.

Reading accepts more than writing produces: records with further fields, or
without the ones that are null, or as plain arrays. Among all the documents that
a value is read from, the one it is written as is the only one that reading and
writing leave alone (`Canonical`).

What it takes to read a value of a given shape is said once for each reader, by
an `ofJson?_eq_some_iff`. Types have their readers spelled out for the sake of
their recursion, and these are first shown to be the general ones.
-/

namespace GenericTypes

namespace Json

variable {α : Type} {inRange : α → Prop} {write : α → Json}
  {read : Json → Option α}

/-! ## Reading back -/

/-- What is written is read back, and what is read can be written. -/
structure Lossless (inRange : α → Prop) (write : α → Json)
    (read : Json → Option α) : Prop where
  read_write : ∀ x, inRange x → read (write x) = some x
  in_range : ∀ j x, read j = some x → inRange x

/-- A document that reading it and writing what was read leaves as it is. -/
def Canonical (write : α → Json) (read : Json → Option α) (j : Json) : Prop :=
  ∃ x, read j = some x ∧ write x = j

/-- Every value in range is read back from what it is written as, and every
document that a value is read from can be written anew, as the one canonical
document of the value. -/
def RoundTrips (inRange : α → Prop) (write : α → Json)
    (read : Json → Option α) : Prop :=
  (∀ x, inRange x → read (write x) = some x) ∧
    ∀ j x, read j = some x →
      inRange x ∧ read (write x) = some x ∧
        ∀ k, read k = some x ∧ Canonical write read k ↔ k = write x

theorem Lossless.roundTrips (h : Lossless inRange write read) :
    RoundTrips inRange write read := by
  refine ⟨h.read_write, fun j x hj => ?_⟩
  have hx : inRange x := h.in_range j x hj
  have hback : read (write x) = some x := h.read_write x hx
  refine ⟨hx, hback, fun k => ⟨?_, ?_⟩⟩
  · rintro ⟨hk, y, hy, rfl⟩
    rw [Option.some.inj (hy.symm.trans hk)]
  · rintro rfl
    exact ⟨hback, x, hback, rfl⟩

/-! ## Lists and absent values -/

theorem mapM_write {xs : List α} (h : ∀ x ∈ xs, read (write x) = some x) :
    (xs.map write).mapM read = some xs := by
  induction xs with
  | nil => rfl
  | cons x xs ih =>
      rw [List.map_cons, List.mapM_cons, h x (by simp),
        ih fun y hy => h y (by simp [hy])]
      rfl

theorem exists_read_of_mapM :
    ∀ {js : List Json} {xs : List α}, js.mapM read = some xs →
    ∀ x ∈ xs, ∃ j, read j = some x
  | [], xs, h, x, hx => by
      rw [List.mapM_nil] at h
      cases h
      cases hx
  | j :: js, xs, h, x, hx => by
      rw [List.mapM_cons] at h
      obtain ⟨y, hy, h⟩ := Option.bind_eq_some_iff.1 h
      obtain ⟨ys, hys, h⟩ := Option.bind_eq_some_iff.1 h
      cases h
      rcases List.mem_cons.1 hx with rfl | hx
      · exact ⟨j, hy⟩
      · exact exists_read_of_mapM hys x hx

theorem list?_ofList {xs : List α} (h : ∀ x ∈ xs, read (write x) = some x) :
    (ofList write xs).list? read = some xs :=
  mapM_write h

theorem exists_read_of_list? {j : Json} {xs : List α}
    (h : j.list? read = some xs) : ∀ x ∈ xs, ∃ k, read k = some x := by
  cases j with
  | array js => exact exists_read_of_mapM h
  | null | bool _ | number _ _ | string _ | object _ => cases h

theorem nullable?_eq_map {j : Json} (hj : j ≠ null) :
    j.nullable? read = (read j).map some := by
  cases j with
  | null => exact absurd rfl hj
  | bool _ | number _ _ | string _ | array _ | object _ => rfl

theorem nullable?_ofOption (hnull : ∀ x, write x ≠ null) {o : Option α}
    (h : ∀ x, o = some x → read (write x) = some x) :
    (ofOption write o).nullable? read = some o := by
  cases o with
  | none => rfl
  | some x => rw [ofOption, nullable?_eq_map (hnull x), h x rfl]; rfl

theorem exists_read_of_nullable? {j : Json} {o : Option α}
    (h : j.nullable? read = some o) :
    ∀ x, o = some x → ∃ k, read k = some x := by
  rintro x rfl
  by_cases hj : j = null
  · subst hj
    cases h
  · rw [nullable?_eq_map hj] at h
    obtain ⟨y, hy, heq⟩ := Option.map_eq_some_iff.1 h
    cases heq
    exact ⟨j, hy⟩

theorem Lossless.list (h : Lossless inRange write read) :
    Lossless (fun xs => ∀ x ∈ xs, inRange x) (ofList write) (list? read) where
  read_write _ hxs := list?_ofList fun x hx => h.read_write x (hxs x hx)
  in_range _ _ hj x hx :=
    have ⟨k, hk⟩ := exists_read_of_list? hj x hx
    h.in_range k x hk

theorem Lossless.nullable (h : Lossless inRange write read)
    (hnull : ∀ x, write x ≠ null) :
    Lossless (fun o => ∀ x, o = some x → inRange x) (ofOption write)
      (nullable? read) where
  read_write _ ho :=
    nullable?_ofOption hnull fun x hx => h.read_write x (ho x hx)
  in_range _ _ hj x hx :=
    have ⟨k, hk⟩ := exists_read_of_nullable? hj x hx
    h.in_range k x hk

/-! ## Indices -/

theorem Lossless.index {α : Type} {index : α → Nat} {mk : Nat → α}
    (hindex : ∀ n, index (mk n) = n) (hmk : ∀ x, mk (index x) = x) :
    Lossless (fun x => index x < indexLimit) (fun x => nat (index x))
      (fun j => j.index?.map mk) where
  read_write x hx := by rw [index?_nat hx, Option.map_some, hmk]
  in_range j x hj := by
    obtain ⟨n, hn, rfl⟩ := Option.map_eq_some_iff.1 hj
    rw [hindex]
    simpa using (Option.filter_eq_some_iff.1 hn).2

/-! ## Records -/

/-- A record is read alike from two objects that have the same values under the
names of its fields. So further fields, the order of the fields and what a name
has a second time do not matter, and neither does whether a null is written
out. -/
def ReadsByName (names : List String) (read : Json → Option α) : Prop :=
  ∀ fields fields', (∀ n ∈ names, under n fields = under n fields') →
    read (.object fields) = read (.object fields')

theorem record?_congr {names : List String}
    {fields fields' : List (String × Json)}
    (h : ∀ n ∈ names, under n fields = under n fields') :
    record? names (.object fields) = record? names (.object fields') := by
  rw [record?, record?, List.map_congr_left h]

end Json

/-! ## Indices and classes -/

/-- The index can be written. -/
def ClassId.InRange (id : ClassId) : Prop := id.index < Json.indexLimit

/-- The index can be written. -/
def TypeVarId.InRange (id : TypeVarId) : Prop := id.index < Json.indexLimit

/-- The index can be written. -/
def CaptureId.InRange (id : CaptureId) : Prop := id.index < Json.indexLimit

theorem ClassId.lossless :
    Json.Lossless ClassId.InRange ClassId.toJson ClassId.ofJson? :=
  .index (fun _ => rfl) fun _ => rfl

theorem ClassId.lossless_nullable :
    Json.Lossless (fun o => ∀ id, o = some id → ClassId.InRange id)
      (Json.ofOption ClassId.toJson) (Json.nullable? ClassId.ofJson?) :=
  ClassId.lossless.nullable fun _ => Json.noConfusion

theorem TypeVarId.lossless :
    Json.Lossless TypeVarId.InRange TypeVarId.toJson TypeVarId.ofJson? :=
  .index (fun _ => rfl) fun _ => rfl

theorem CaptureId.lossless :
    Json.Lossless CaptureId.InRange CaptureId.toJson CaptureId.ofJson? :=
  .index (fun _ => rfl) fun _ => rfl

theorem Primitive.ofJson?_toJson (p : Primitive) :
    Primitive.ofJson? p.toJson = some p := by
  cases p <;> rfl

theorem ClassKind.ofJson?_toJson (k : ClassKind) :
    ClassKind.ofJson? k.toJson = some k := by
  cases k <;> rfl

namespace Class

/-- Every index in a class can be written. -/
def InRange : Class → Prop
  | .named id => id.InRange
  | .primitive _ => True
  | .array c => c.InRange

/-- The tag of a case. -/
def tag : Class → String
  | .named _ => "Named"
  | .primitive _ => "Primitive"
  | .array _ => "Array"

/-- The content of a class, under its tag, is read from `body`. -/
def ContentOf (body : Json) : Class → Prop
  | .named id => ClassId.ofJson? body = some id
  | .primitive p => Primitive.ofJson? body = some p
  | .array c => ofJson? body = some c

theorem ofJson?_eq_some_iff {j : Json} {c : Class} :
    ofJson? j = some c ↔ ∃ body, j = .object [(c.tag, body)] ∧
      c.ContentOf body := by
  constructor
  · intro h
    rw [ofJson?.eq_def] at h
    split at h
    next tag body =>
      split at h
      next htag =>
        obtain ⟨id, hid, rfl⟩ := Option.map_eq_some_iff.1 h
        exact ⟨body, by rw [htag, Class.tag], hid⟩
      split at h
      next htag =>
        obtain ⟨p, hp, rfl⟩ := Option.map_eq_some_iff.1 h
        exact ⟨body, by rw [htag, Class.tag], hp⟩
      split at h
      next htag =>
        obtain ⟨c, hc, rfl⟩ := Option.map_eq_some_iff.1 h
        exact ⟨body, by rw [htag, Class.tag], hc⟩
      cases h
    next => cases h
  · rintro ⟨body, rfl, hbody⟩
    cases c <;> simp_all [ofJson?, tag, ContentOf]

theorem lossless : Json.Lossless InRange toJson ofJson? where
  read_write c hc := by
    induction c with
    | named id =>
        exact ofJson?_eq_some_iff.2 ⟨_, rfl, ClassId.lossless.read_write id hc⟩
    | primitive p => exact ofJson?_eq_some_iff.2 ⟨_, rfl, p.ofJson?_toJson⟩
    | array c ih => exact ofJson?_eq_some_iff.2 ⟨_, rfl, ih hc⟩
  in_range j c hj := by
    induction c generalizing j with
    | named id =>
        obtain ⟨body, _, hbody⟩ := ofJson?_eq_some_iff.1 hj
        exact ClassId.lossless.in_range body id hbody
    | primitive p => trivial
    | array c ih =>
        obtain ⟨body, _, hbody⟩ := ofJson?_eq_some_iff.1 hj
        exact ih body hbody

end Class

/-! ## Types -/

namespace Ty

/-- The index that stands at the root of a type, if any, can be written. -/
def InRangeHere : Ty → Prop
  | .nominal c => c.InRange
  | .parameterized id _ _ => id.InRange
  | .var v => v.InRange
  | .capture i => i.InRange
  | .wildcard _ _ | .genericArray _ => True

/-- Every index in a type can be written. -/
def InRange (t : Ty) : Prop := ∀ x ∈ t.parts, x.InRangeHere

theorem inRange_parameterized {id : ClassId} {args : List Ty}
    {owner : Option Ty} : (Ty.parameterized id args owner).InRange ↔
      id.InRange ∧ (∀ o, owner = some o → o.InRange) ∧ ∀ a ∈ args, a.InRange :=
  forall_parts_iff.trans (and_congr_right' forall_children_parameterized)

theorem inRange_wildcard {upper lower : List Ty} :
    (Ty.wildcard upper lower).InRange ↔
      (∀ b ∈ upper, b.InRange) ∧ ∀ b ∈ lower, b.InRange :=
  forall_parts_iff.trans
    ((and_iff_right trivial).trans forall_children_wildcard)

theorem inRange_genericArray {t : Ty} :
    (Ty.genericArray t).InRange ↔ t.InRange := by
  simp [InRange, forall_parts_iff (t := .genericArray t), InRangeHere, children]

theorem itemsOfJson?_eq_mapM :
    ∀ js : List Json, itemsOfJson? js = js.mapM ofJson?
  | [] => rfl
  | j :: js => by rw [itemsOfJson?, itemsOfJson?_eq_mapM js, List.mapM_cons]

theorem listUnder?_eq (name : String) : ∀ fields : List (String × Json),
    listUnder? name fields = (Json.under name fields).list? ofJson?
  | [] => rfl
  | (k, v) :: fields => by
      -- The recursion is on the value as well, so the reader computes only on a
      -- known form.
      by_cases hk : k = name
      · cases v <;> simp [listUnder?, Json.under, hk, Json.list?,
          itemsOfJson?_eq_mapM]
      · have ih := listUnder?_eq name fields
        cases v <;> simp [listUnder?, Json.under, hk, ih]

theorem ownerUnder?_eq (name : String) : ∀ fields : List (String × Json),
    ownerUnder? name fields = (Json.under name fields).nullable? ofJson?
  | [] => rfl
  | (k, v) :: fields => by
      by_cases hk : k = name
      · cases v <;> simp [ownerUnder?, Json.under, hk, Json.nullable?]
      · have ih := ownerUnder?_eq name fields
        cases v <;> simp [ownerUnder?, Json.under, hk, ih]

theorem listToJson_eq_map : ∀ ts : List Ty, listToJson ts = ts.map toJson
  | [] => rfl
  | t :: ts => by rw [listToJson, listToJson_eq_map ts]; rfl

theorem ownerToJson_eq (o : Option Ty) :
    ownerToJson o = .ofOption toJson o := by
  cases o <;> rfl

theorem parameterizedOfJson?_eq (body : Json) :
    parameterizedOfJson? body = (do
      let [id, args, owner] ← body.record? ["class", "args", "owner"] | none
      return .parameterized (← ClassId.ofJson? id) (← args.list? ofJson?)
        (← owner.nullable? ofJson?)) := by
  cases body with
  | object fields =>
      simp [parameterizedOfJson?, Json.record?, listUnder?_eq, ownerUnder?_eq]
  | array items =>
      -- Only three values make a record, and the second of them has to be an
      -- array.
      rcases items with _ | ⟨id, _ | ⟨args, _ | ⟨owner, _ | ⟨extra, rest⟩⟩⟩⟩
      · rfl
      · rfl
      · cases args <;> rfl
      · cases args with
        | array args =>
            cases owner <;>
              simp only [parameterizedOfJson?, itemsOfJson?_eq_mapM,
                Json.record?,
                Json.list?, Json.nullable?, List.length_cons, List.length_nil,
                Nat.zero_add, Nat.reduceAdd, ↓reduceIte, Option.pure_def,
                Option.bind_eq_bind, Option.bind_some, Option.bind_map,
                Function.comp_def]
        | null | bool _ | number _ _ | string _ | object _ =>
            simp [parameterizedOfJson?, Json.record?, Json.list?]
      · cases args <;> cases owner <;> rfl
  | null | bool _ | number _ _ | string _ => rfl

theorem wildcardOfJson?_eq (body : Json) :
    wildcardOfJson? body = (do
      let [upper, lower] ← body.record? ["upper_bounds", "lower_bounds"] | none
      return .wildcard (← upper.list? ofJson?) (← lower.list? ofJson?)) := by
  cases body with
  | object fields => simp [wildcardOfJson?, Json.record?, listUnder?_eq]
  | array items =>
      rcases items with _ | ⟨upper, _ | ⟨lower, _ | ⟨extra, rest⟩⟩⟩
      · rfl
      · cases upper <;> rfl
      · cases upper with
        | array upper =>
            cases lower <;> simp [wildcardOfJson?, Json.record?, Json.list?,
              itemsOfJson?_eq_mapM]
        | null | bool _ | number _ _ | string _ | object _ =>
            simp [wildcardOfJson?, Json.record?, Json.list?]
      · cases upper <;> cases lower <;> rfl
  | null | bool _ | number _ _ | string _ => rfl

/-- The tag of a case. -/
def tag : Ty → String
  | .nominal _ => "Class"
  | .parameterized _ _ _ => "Parameterized"
  | .var _ => "TypeVar"
  | .wildcard _ _ => "Wildcard"
  | .genericArray _ => "GenericArray"
  | .capture _ => "Capture"

/-- The content of a type, under its tag, is read from `body`. -/
def ContentOf (body : Json) : Ty → Prop
  | .nominal c => Class.ofJson? body = some c
  | .parameterized id args owner =>
      ∃ c as o, body.record? ["class", "args", "owner"] = some [c, as, o] ∧
        ClassId.ofJson? c = some id ∧ as.list? ofJson? = some args ∧
        o.nullable? ofJson? = some owner
  | .var v => TypeVarId.ofJson? body = some v
  | .wildcard upper lower =>
      ∃ us ls, body.record? ["upper_bounds", "lower_bounds"] = some [us, ls] ∧
        us.list? ofJson? = some upper ∧ ls.list? ofJson? = some lower
  | .genericArray t => ofJson? body = some t
  | .capture i => CaptureId.ofJson? body = some i

theorem parameterizedOfJson?_eq_some_iff {body : Json} {t : Ty} :
    parameterizedOfJson? body = some t ↔ t.tag = "Parameterized" ∧
      t.ContentOf body := by
  rw [parameterizedOfJson?_eq]
  constructor
  · intro h
    obtain ⟨values, hvalues, h⟩ := Option.bind_eq_some_iff.1 h
    split at h
    next c as o =>
      obtain ⟨id, hid, h⟩ := Option.bind_eq_some_iff.1 h
      obtain ⟨args, hargs, h⟩ := Option.bind_eq_some_iff.1 h
      obtain ⟨owner, howner, h⟩ := Option.bind_eq_some_iff.1 h
      cases h
      exact ⟨rfl, c, as, o, hvalues, hid, hargs, howner⟩
    next => cases h
  · rintro ⟨htag, hbody⟩
    cases t with
    | parameterized id args owner =>
        obtain ⟨c, as, o, hvalues, hid, hargs, howner⟩ := hbody
        simp [hvalues, hid, hargs, howner]
    | nominal _ | var _ | wildcard _ _ | genericArray _ | capture _ =>
        simp [tag] at htag

theorem wildcardOfJson?_eq_some_iff {body : Json} {t : Ty} :
    wildcardOfJson? body = some t ↔ t.tag = "Wildcard" ∧ t.ContentOf body := by
  rw [wildcardOfJson?_eq]
  constructor
  · intro h
    obtain ⟨values, hvalues, h⟩ := Option.bind_eq_some_iff.1 h
    split at h
    next us ls =>
      obtain ⟨upper, hupper, h⟩ := Option.bind_eq_some_iff.1 h
      obtain ⟨lower, hlower, h⟩ := Option.bind_eq_some_iff.1 h
      cases h
      exact ⟨rfl, us, ls, hvalues, hupper, hlower⟩
    next => cases h
  · rintro ⟨htag, hbody⟩
    cases t with
    | wildcard upper lower =>
        obtain ⟨us, ls, hvalues, hupper, hlower⟩ := hbody
        simp [hvalues, hupper, hlower]
    | nominal _ | parameterized _ _ _ | var _ | genericArray _ | capture _ =>
        simp [tag] at htag

/-- A type is read from the object that has its tag, and its content under it,
alone. -/
theorem ofJson?_eq_some_iff {j : Json} {t : Ty} :
    ofJson? j = some t ↔ ∃ body, j = .object [(t.tag, body)] ∧
      t.ContentOf body := by
  constructor
  · intro h
    rw [ofJson?.eq_def] at h
    split at h
    next tag body =>
      split at h
      next htag =>
        obtain ⟨c, hc, rfl⟩ := Option.map_eq_some_iff.1 h
        exact ⟨body, by rw [htag, Ty.tag], hc⟩
      split at h
      next htag =>
        obtain ⟨ht, hbody⟩ := parameterizedOfJson?_eq_some_iff.1 h
        exact ⟨body, by rw [htag, ht], hbody⟩
      split at h
      next htag =>
        obtain ⟨v, hv, rfl⟩ := Option.map_eq_some_iff.1 h
        exact ⟨body, by rw [htag, Ty.tag], hv⟩
      split at h
      next htag =>
        obtain ⟨ht, hbody⟩ := wildcardOfJson?_eq_some_iff.1 h
        exact ⟨body, by rw [htag, ht], hbody⟩
      split at h
      next htag =>
        obtain ⟨s, hs, rfl⟩ := Option.map_eq_some_iff.1 h
        exact ⟨body, by rw [htag, Ty.tag], hs⟩
      split at h
      next htag =>
        obtain ⟨i, hi, rfl⟩ := Option.map_eq_some_iff.1 h
        exact ⟨body, by rw [htag, Ty.tag], hi⟩
      cases h
    next => cases h
  · rintro ⟨body, rfl, hbody⟩
    cases t with
    | parameterized id args owner =>
        simpa [ofJson?, tag] using parameterizedOfJson?_eq_some_iff.2
          ⟨rfl, hbody⟩
    | wildcard upper lower =>
        simpa [ofJson?, tag] using wildcardOfJson?_eq_some_iff.2 ⟨rfl, hbody⟩
    | nominal _ | var _ | genericArray _ | capture _ =>
        simpa [ofJson?, tag, ContentOf] using hbody

theorem toJson_ne_null (t : Ty) : t.toJson ≠ .null := by
  cases t <;> exact Json.noConfusion

theorem list?_listToJson {ts : List Ty}
    (h : ∀ t ∈ ts, ofJson? t.toJson = some t) :
    (Json.array (listToJson ts)).list? ofJson? = some ts := by
  rw [listToJson_eq_map]
  exact Json.list?_ofList h

theorem nullable?_ownerToJson {owner : Option Ty}
    (h : ∀ o, owner = some o → ofJson? o.toJson = some o) :
    (ownerToJson owner).nullable? ofJson? = some owner := by
  rw [ownerToJson_eq]
  exact Json.nullable?_ofOption toJson_ne_null h

theorem ofJson?_toJson {t : Ty} (ht : t.InRange) :
    ofJson? t.toJson = some t := by
  induction t using induct with
  | nominal c =>
      have hc : c.InRange := ht _ (mem_parts_self _)
      exact ofJson?_eq_some_iff.2 ⟨_, rfl, Class.lossless.read_write c hc⟩
  | parameterized id args owner ihargs ihowner =>
      obtain ⟨hid, howner, hargs⟩ := inRange_parameterized.1 ht
      exact ofJson?_eq_some_iff.2 ⟨_, rfl, _, _, _, rfl,
        ClassId.lossless.read_write id hid,
        list?_listToJson fun a ha => ihargs a ha (hargs a ha),
        nullable?_ownerToJson fun o ho => ihowner o ho (howner o ho)⟩
  | var v =>
      have hv : v.InRange := ht _ (mem_parts_self _)
      exact ofJson?_eq_some_iff.2 ⟨_, rfl, TypeVarId.lossless.read_write v hv⟩
  | wildcard upper lower ihupper ihlower =>
      obtain ⟨hupper, hlower⟩ := inRange_wildcard.1 ht
      exact ofJson?_eq_some_iff.2 ⟨_, rfl, _, _, rfl,
        list?_listToJson fun b hb => ihupper b hb (hupper b hb),
        list?_listToJson fun b hb => ihlower b hb (hlower b hb)⟩
  | genericArray t ih =>
      exact ofJson?_eq_some_iff.2 ⟨_, rfl, ih (inRange_genericArray.1 ht)⟩
  | capture i =>
      have hi : i.InRange := ht _ (mem_parts_self _)
      exact ofJson?_eq_some_iff.2 ⟨_, rfl, CaptureId.lossless.read_write i hi⟩

/-- By induction on the type that is read; each part of it was read from a part
of the document, and it does not matter from which. -/
theorem inRange_of_ofJson? {j : Json} {t : Ty} (hj : ofJson? j = some t) :
    t.InRange := by
  induction t using induct generalizing j with
  | nominal c =>
      obtain ⟨body, -, hbody⟩ := ofJson?_eq_some_iff.1 hj
      simpa [InRange, parts, InRangeHere]
        using Class.lossless.in_range body c hbody
  | parameterized id args owner ihargs ihowner =>
      obtain ⟨_, -, c, as, o, -, hid, hargs, howner⟩ := ofJson?_eq_some_iff.1 hj
      refine inRange_parameterized.2 ⟨ClassId.lossless.in_range c id hid,
        fun p hp => ?_, fun a ha => ?_⟩
      · obtain ⟨k, hk⟩ := Json.exists_read_of_nullable? howner p hp
        exact ihowner p hp hk
      · obtain ⟨k, hk⟩ := Json.exists_read_of_list? hargs a ha
        exact ihargs a ha hk
  | var v =>
      obtain ⟨body, -, hbody⟩ := ofJson?_eq_some_iff.1 hj
      simpa [InRange, parts, InRangeHere]
        using TypeVarId.lossless.in_range body v hbody
  | wildcard upper lower ihupper ihlower =>
      obtain ⟨_, -, us, ls, -, hupper, hlower⟩ := ofJson?_eq_some_iff.1 hj
      refine inRange_wildcard.2 ⟨fun b hb => ?_, fun b hb => ?_⟩
      · obtain ⟨k, hk⟩ := Json.exists_read_of_list? hupper b hb
        exact ihupper b hb hk
      · obtain ⟨k, hk⟩ := Json.exists_read_of_list? hlower b hb
        exact ihlower b hb hk
  | genericArray t ih =>
      obtain ⟨body, -, hbody⟩ := ofJson?_eq_some_iff.1 hj
      exact inRange_genericArray.2 (ih hbody)
  | capture i =>
      obtain ⟨body, -, hbody⟩ := ofJson?_eq_some_iff.1 hj
      simpa [InRange, parts, InRangeHere]
        using CaptureId.lossless.in_range body i hbody

theorem lossless : Json.Lossless InRange toJson ofJson? where
  read_write _ := ofJson?_toJson
  in_range _ _ := inRange_of_ofJson?

theorem lossless_nullable :
    Json.Lossless (fun o => ∀ t, o = some t → t.InRange) (Json.ofOption toJson)
      (Json.nullable? ofJson?) :=
  lossless.nullable toJson_ne_null

theorem parameterized_readsByName :
    Json.ReadsByName ["class", "args", "owner"] parameterizedOfJson? := by
  intro fields fields' h
  rw [parameterizedOfJson?_eq, parameterizedOfJson?_eq, Json.record?_congr h]

theorem wildcard_readsByName :
    Json.ReadsByName ["upper_bounds", "lower_bounds"] wildcardOfJson? := by
  intro fields fields' h
  rw [wildcardOfJson?_eq, wildcardOfJson?_eq, Json.record?_congr h]

/-- A parameterized type without its owner, with a field of another name. -/
example : ofJson? (.object [("Parameterized", .object
      [("args", .array []), ("note", .bool true), ("class", .nat 3)])]) =
    some (.parameterized ⟨3⟩ [] none) :=
  rfl

end Ty

/-! ## Declarations -/

namespace TypeParamDecl

/-- Every index in the declaration can be written. -/
def InRange (p : TypeParamDecl) : Prop :=
  (∀ t ∈ p.upperBounds, t.InRange) ∧
    ∀ id, p.declaringClass = some id → id.InRange

theorem ofJson?_eq_some_iff {j : Json} {p : TypeParamDecl} :
    ofJson? j = some p ↔
      ∃ name bounds declaring,
        j.record? ["name", "upper_bounds", "declaring_class"] =
            some [name, bounds, declaring] ∧
          name.string? = some p.name ∧
          bounds.list? Ty.ofJson? = some p.upperBounds ∧
          declaring.nullable? ClassId.ofJson? = some p.declaringClass := by
  rw [ofJson?]
  constructor
  · intro h
    obtain ⟨values, hvalues, h⟩ := Option.bind_eq_some_iff.1 h
    split at h
    next name bounds declaring =>
      simp only [Option.bind_eq_bind, Option.bind_eq_some_iff] at h
      obtain ⟨n, hname, ts, hbounds, id, hdeclaring, heq⟩ := h
      cases heq
      exact ⟨name, bounds, declaring, hvalues, hname, hbounds, hdeclaring⟩
    next => cases h
  · rintro ⟨name, bounds, declaring, hvalues, hname, hbounds, hdeclaring⟩
    simp [hvalues, hname, hbounds, hdeclaring]

theorem lossless : Json.Lossless InRange toJson ofJson? where
  read_write p hp := ofJson?_eq_some_iff.2 ⟨_, _, _, rfl, rfl,
    Ty.lossless.list.read_write _ hp.1,
    ClassId.lossless_nullable.read_write _ hp.2⟩
  in_range j p hj := by
    obtain ⟨_, bounds, declaring, -, -, hbounds, hdeclaring⟩ :=
      ofJson?_eq_some_iff.1 hj
    exact ⟨Ty.lossless.list.in_range bounds _ hbounds,
      ClassId.lossless_nullable.in_range declaring _ hdeclaring⟩

theorem readsByName :
    Json.ReadsByName ["name", "upper_bounds", "declaring_class"] ofJson? := by
  intro fields fields' h
  rw [ofJson?, ofJson?, Json.record?_congr h]

end TypeParamDecl

namespace FieldDecl

/-- Every index in the declaration can be written. -/
def InRange (f : FieldDecl) : Prop := f.type.InRange

theorem ofJson?_eq_some_iff {j : Json} {f : FieldDecl} :
    ofJson? j = some f ↔
      ∃ name type isStatic,
        j.record? ["name", "ty", "is_static"] = some [name, type, isStatic] ∧
          name.string? = some f.name ∧ Ty.ofJson? type = some f.type ∧
          isStatic.bool? = some f.isStatic := by
  rw [ofJson?]
  constructor
  · intro h
    obtain ⟨values, hvalues, h⟩ := Option.bind_eq_some_iff.1 h
    split at h
    next name type isStatic =>
      simp only [Option.bind_eq_bind, Option.bind_eq_some_iff] at h
      obtain ⟨n, hname, t, htype, b, hstatic, heq⟩ := h
      cases heq
      exact ⟨name, type, isStatic, hvalues, hname, htype, hstatic⟩
    next => cases h
  · rintro ⟨name, type, isStatic, hvalues, hname, htype, hstatic⟩
    simp [hvalues, hname, htype, hstatic]

theorem lossless : Json.Lossless InRange toJson ofJson? where
  read_write f hf := ofJson?_eq_some_iff.2 ⟨_, _, _, rfl, rfl,
    Ty.lossless.read_write f.type hf, rfl⟩
  in_range j f hj := by
    obtain ⟨_, type, _, -, -, htype, -⟩ := ofJson?_eq_some_iff.1 hj
    exact Ty.lossless.in_range type _ htype

theorem readsByName : Json.ReadsByName ["name", "ty", "is_static"] ofJson? := by
  intro fields fields' h
  rw [ofJson?, ofJson?, Json.record?_congr h]

end FieldDecl

namespace MethodDecl

/-- Every index in the declaration can be written. -/
def InRange (m : MethodDecl) : Prop :=
  (∀ v ∈ m.typeParams, v.InRange) ∧ (∀ t ∈ m.params, t.InRange) ∧
    ∀ t, m.returnType = some t → t.InRange

theorem ofJson?_eq_some_iff {j : Json} {m : MethodDecl} :
    ofJson? j = some m ↔
      ∃ name typeParams params returnType isStatic,
        j.record? ["name", "type_params", "params", "return_type",
          "is_static"] =
            some [name, typeParams, params, returnType, isStatic] ∧
          name.string? = some m.name ∧
          typeParams.list? TypeVarId.ofJson? = some m.typeParams ∧
          params.list? Ty.ofJson? = some m.params ∧
          returnType.nullable? Ty.ofJson? = some m.returnType ∧
          isStatic.bool? = some m.isStatic := by
  rw [ofJson?]
  constructor
  · intro h
    obtain ⟨values, hvalues, h⟩ := Option.bind_eq_some_iff.1 h
    split at h
    next name typeParams params returnType isStatic =>
      simp only [Option.bind_eq_bind, Option.bind_eq_some_iff] at h
      obtain ⟨n, hname, vs, htypeParams, ts, hparams, o, hreturn, b,
          hstatic, heq⟩ := h
      cases heq
      exact ⟨name, typeParams, params, returnType, isStatic, hvalues,
        hname, htypeParams, hparams, hreturn, hstatic⟩
    next => cases h
  · rintro ⟨name, typeParams, params, returnType, isStatic, hvalues,
      hname, htypeParams, hparams, hreturn, hstatic⟩
    simp [hvalues, hname, htypeParams, hparams, hreturn, hstatic]

theorem lossless : Json.Lossless InRange toJson ofJson? where
  read_write m hm := ofJson?_eq_some_iff.2 ⟨_, _, _, _, _, rfl, rfl,
    TypeVarId.lossless.list.read_write _ hm.1,
    Ty.lossless.list.read_write _ hm.2.1,
    Ty.lossless_nullable.read_write _ hm.2.2, rfl⟩
  in_range j m hj := by
    obtain ⟨_, typeParams, params, returnType, _, -, -, htypeParams, hparams,
        hreturn, -⟩ :=
      ofJson?_eq_some_iff.1 hj
    exact ⟨TypeVarId.lossless.list.in_range typeParams _ htypeParams,
      Ty.lossless.list.in_range params _ hparams,
      Ty.lossless_nullable.in_range returnType _ hreturn⟩

theorem readsByName :
    Json.ReadsByName ["name", "type_params", "params", "return_type",
      "is_static"] ofJson? := by
  intro fields fields' h
  rw [ofJson?, ofJson?, Json.record?_congr h]

end MethodDecl

namespace ClassDecl

/-- Every index in the declaration can be written. -/
structure InRange (c : ClassDecl) : Prop where
  typeParams : ∀ v ∈ c.typeParams, v.InRange
  superClass : ∀ t, c.superClass = some t → t.InRange
  interfaces : ∀ t ∈ c.interfaces, t.InRange
  enclosing : ∀ id, c.enclosing = some id → id.InRange
  fields : ∀ f ∈ c.fields, f.InRange
  methods : ∀ m ∈ c.methods, m.InRange

theorem ofJson?_eq_some_iff {j : Json} {c : ClassDecl} :
    ofJson? j = some c ↔
      ∃ name kind typeParams superClass interfaces enclosing fields methods,
        j.record? ["name", "kind", "type_params", "super_class",
          "interfaces", "enclosing",
            "fields", "methods"] =
            some [name, kind, typeParams, superClass, interfaces, enclosing,
              fields, methods] ∧
          name.string? = some c.name ∧ ClassKind.ofJson? kind = some c.kind ∧
          typeParams.list? TypeVarId.ofJson? = some c.typeParams ∧
          superClass.nullable? Ty.ofJson? = some c.superClass ∧
          interfaces.list? Ty.ofJson? = some c.interfaces ∧
          enclosing.nullable? ClassId.ofJson? = some c.enclosing ∧
          fields.list? FieldDecl.ofJson? = some c.fields ∧
          methods.list? MethodDecl.ofJson? = some c.methods := by
  rw [ofJson?]
  constructor
  · intro h
    obtain ⟨values, hvalues, h⟩ := Option.bind_eq_some_iff.1 h
    split at h
    next name kind typeParams superClass interfaces enclosing fields methods =>
      simp only [Option.bind_eq_bind, Option.bind_eq_some_iff] at h
      obtain ⟨n, hname, k, hkind, vs, htypeParams, o, hsuper, ts, hinterfaces,
        id, henclosing, fs, hfields, ms, hmethods, heq⟩ := h
      cases heq
      exact ⟨name, kind, typeParams, superClass, interfaces, enclosing, fields,
        methods, hvalues, hname, hkind, htypeParams, hsuper, hinterfaces,
        henclosing, hfields, hmethods⟩
    next => cases h
  · rintro ⟨name, kind, typeParams, superClass, interfaces, enclosing, fields,
      methods, hvalues, hname, hkind, htypeParams, hsuper, hinterfaces,
      henclosing, hfields, hmethods⟩
    simp [hvalues, hname, hkind, htypeParams, hsuper, hinterfaces, henclosing,
      hfields, hmethods]

theorem lossless : Json.Lossless InRange toJson ofJson? where
  read_write c hc := ofJson?_eq_some_iff.2 ⟨_, _, _, _, _, _, _, _, rfl, rfl,
    c.kind.ofJson?_toJson,
    TypeVarId.lossless.list.read_write _ hc.typeParams,
    Ty.lossless_nullable.read_write _ hc.superClass,
    Ty.lossless.list.read_write _ hc.interfaces,
    ClassId.lossless_nullable.read_write _ hc.enclosing,
    FieldDecl.lossless.list.read_write _ hc.fields,
    MethodDecl.lossless.list.read_write _ hc.methods⟩
  in_range j c hj := by
    obtain ⟨_, _, _, _, _, _, _, _, -, -, -, htypeParams, hsuper,
      hinterfaces, henclosing,
      hfields, hmethods⟩ := ofJson?_eq_some_iff.1 hj
    exact
      { typeParams := TypeVarId.lossless.list.in_range _ _ htypeParams
        superClass := Ty.lossless_nullable.in_range _ _ hsuper
        interfaces := Ty.lossless.list.in_range _ _ hinterfaces
        enclosing := ClassId.lossless_nullable.in_range _ _ henclosing
        fields := FieldDecl.lossless.list.in_range _ _ hfields
        methods := MethodDecl.lossless.list.in_range _ _ hmethods }

theorem readsByName :
    Json.ReadsByName ["name", "kind", "type_params", "super_class",
      "interfaces", "enclosing", "fields", "methods"] ofJson? := by
  intro fields fields' h
  rw [ofJson?, ofJson?, Json.record?_congr h]

end ClassDecl

/-! ## The written forms -/

/-- Classes, types and declarations of any depth are read back from what they
are written as, and whatever is read from a document is written as its one
canonical document, from which it is read again. Their records are read by the
names of their fields. -/
theorem declarations_round_trip :
    (Json.RoundTrips Class.InRange Class.toJson Class.ofJson? ∧
      Json.RoundTrips Ty.InRange Ty.toJson Ty.ofJson? ∧
      Json.RoundTrips TypeParamDecl.InRange TypeParamDecl.toJson
        TypeParamDecl.ofJson? ∧
      Json.RoundTrips FieldDecl.InRange FieldDecl.toJson FieldDecl.ofJson? ∧
      Json.RoundTrips MethodDecl.InRange MethodDecl.toJson MethodDecl.ofJson? ∧
      Json.RoundTrips ClassDecl.InRange ClassDecl.toJson ClassDecl.ofJson?) ∧
    Json.ReadsByName ["class", "args", "owner"] Ty.parameterizedOfJson? ∧
      Json.ReadsByName ["upper_bounds", "lower_bounds"] Ty.wildcardOfJson? ∧
      Json.ReadsByName ["name", "upper_bounds", "declaring_class"]
        TypeParamDecl.ofJson? ∧
      Json.ReadsByName ["name", "ty", "is_static"] FieldDecl.ofJson? ∧
      Json.ReadsByName ["name", "type_params", "params", "return_type",
        "is_static"] MethodDecl.ofJson? ∧
      Json.ReadsByName ["name", "kind", "type_params", "super_class",
        "interfaces", "enclosing", "fields", "methods"] ClassDecl.ofJson? :=
  ⟨⟨Class.lossless.roundTrips, Ty.lossless.roundTrips,
      TypeParamDecl.lossless.roundTrips, FieldDecl.lossless.roundTrips,
      MethodDecl.lossless.roundTrips, ClassDecl.lossless.roundTrips⟩,
    Ty.parameterized_readsByName, Ty.wildcard_readsByName,
    TypeParamDecl.readsByName, FieldDecl.readsByName,
    MethodDecl.readsByName, ClassDecl.readsByName⟩

/-- An interface where everything that may be absent is, with a field whose type
is an array of a plain class in the spelling that `arrayOf` never gives. -/
def bareInterface : ClassDecl where
  name := "p.Shelf"
  kind := .interface
  typeParams := [⟨2⟩]
  superClass := none
  interfaces := []
  enclosing := none
  fields := [⟨"slots", .genericArray (.named ⟨0⟩), false⟩]
  methods := [⟨"fill", [], [.parameterized ⟨3⟩ [.var ⟨2⟩] none], none, false⟩]

theorem bareInterface_inRange : bareInterface.InRange where
  typeParams := by simp [bareInterface, TypeVarId.InRange, Json.indexLimit]
  superClass _ h := nomatch h
  interfaces _ h := nomatch h
  enclosing _ h := nomatch h
  fields := by
    simp [bareInterface, FieldDecl.InRange, Ty.InRange, Ty.named, Ty.parts,
      Ty.InRangeHere, Class.InRange, ClassId.InRange, Json.indexLimit]
  methods := by
    simp [bareInterface, MethodDecl.InRange, Ty.InRange, Ty.parts,
      Ty.partsOwner, Ty.partsList,
      Ty.InRangeHere, ClassId.InRange, TypeVarId.InRange, Json.indexLimit]

theorem bareInterface_read_back :
    bareInterface.InRange ∧
      ClassDecl.ofJson? bareInterface.toJson = some bareInterface :=
  ⟨bareInterface_inRange,
    declarations_round_trip.1.2.2.2.2.2.1 _ bareInterface_inRange⟩

end GenericTypes
