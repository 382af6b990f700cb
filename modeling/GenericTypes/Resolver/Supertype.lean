import GenericTypes.Resolver.Capture

/-!
# Direct and exact supertypes

The direct supertypes of a class or parameterized type are its declared ones
with the arguments put in. They may be remembered; a type that mentions a
capture is not, as its capture will not come up again.

The exact supertype is the first match of a depth-first search along direct
supertypes, where a branch whose erasure could not lead to the target is cut
off. Nothing bounds the depth of that search over arbitrary declarations, so it
is given a depth, and a search that would go deeper is exhausted rather than
unsuccessful. Where a search of some depth ends, every deeper one ends alike.
-/

namespace GenericTypes

namespace Resolver

/-- Put the arguments that `via` supplies, along its owner chain, into `t`. A
raw `via` erases `t` instead. The variables in `own` stand for themselves unless
`via` binds them. -/
def substituteThrough (r : Resolver) (t via : Ty)
    (own : List TypeVarId) : Outcome Ty :=
  let d := r.env.toDeclarations
  let σ := Substitution.empty.bindSelf own
  match via with
  | .nominal c => do
      if ← d.isRaw c then
        return .nominal (← d.erase t)
      else
        σ.resolve t
  | .parameterized id args owner => do
      let σ ← bindChain d (.parameterized id args owner) σ
      σ.resolve t
  | .var _ | .wildcard _ _ | .genericArray _ | .capture _ =>
      .error (.notSubstitutable via)

/-- Put the arguments of `via` into each of several types, left to right. -/
def substituteAll (r : Resolver) (via : Ty) (own : List TypeVarId) :
    List Ty → Outcome (List Ty)
  | [] => return []
  | t :: ts => do
      let t ← r.substituteThrough t via own
      let ts ← r.substituteAll via own ts
      return t :: ts

/-- The direct supertypes of the class or parameterized type `t`, whose class is
`id`, worked out afresh. -/
def freshSupertypes (r : Resolver) (id : ClassId) (t : Ty) :
    Outcome (List Ty) := do
  let c ← r.env.getClass id
  let declared ← r.substituteAll t [] c.supertypes
  if declared.isEmpty && c.kind = .interface &&
      r.config.implicitObjectSupertype then
    return [r.env.top]
  else
    return declared

/-- The direct supertypes remembered for a type. -/
def remembered (r : Resolver) (t : Ty) : Resolve (Option (List Ty)) :=
  if r.config.memoizeSupertypes then Resolve.read (·.memo.lookup t)
  else return none

/-- Remember the direct supertypes of a type, unless it mentions a capture. -/
def remember (r : Resolver) (t : Ty) (supertypes : List Ty) : Resolve Unit :=
  if r.config.memoizeSupertypes && !t.mentionsCapture then
    Resolve.modify fun ctx => { ctx with memo := (t, supertypes) :: ctx.memo }
  else return ()

/-- The direct supertypes of a class or parameterized type. -/
def declaredSupertypes (r : Resolver) (id : ClassId) (t : Ty) :
    Resolve (List Ty) := do
  match ← r.remembered t with
  | some supertypes => return supertypes
  | none =>
      let supertypes ← r.freshSupertypes id t
      r.remember t supertypes
      return supertypes

/-- The direct supertypes of an array, given those of its component. -/
def arraySupertypes (r : Resolver) (ofComponent : List Ty) : List Ty :=
  ofComponent.map Ty.arrayOf ++ r.env.typesAboveArrays

/-- The direct supertypes of a class without arguments. A primitive type has
none. -/
def classSupertypes (r : Resolver) : Class → Resolve (List Ty)
  | .named id => r.declaredSupertypes id (.named id)
  | .primitive _ => return []
  | .array c => do return r.arraySupertypes (← r.classSupertypes c)

/-- The direct supertypes of a type: the declared ones of a class, superclass
first, the bounds of a variable or capture, and for an array the arrays of its
component's supertypes and then the types above all arrays. -/
def directSupertypes (r : Resolver) : Ty → Resolve (List Ty)
  | .nominal c => r.classSupertypes c
  | .parameterized id args owner =>
      r.declaredSupertypes id (.parameterized id args owner)
  | .var v => do
      let p ← r.env.getTypeParam v
      return if p.upperBounds.isEmpty then [r.env.top] else p.upperBounds
  | .wildcard upper _ => return upper
  | .genericArray t => do return r.arraySupertypes (← r.directSupertypes t)
  | .capture id => do return (← Resolve.captureDef id).upper

/-- The first answer that a question has on one of several types, in order. -/
def firstAnswer {α : Type} (ask : Ty → Resolve (Option α)) :
    List Ty → Resolve (Option α)
  | [] => return none
  | t :: ts => do
      match ← ask t with
      | some a => return some a
      | none => firstAnswer ask ts

/-- Whether a search for `target` ends at `t`, and how: at the target itself, or
where the erasure shows that the target cannot be reached. `none` is to go
on. -/
def settledBy (r : Resolver) (t : Ty) (target : Class) :
    Outcome (Option (Option Ty)) := do
  match ← r.env.erasure? t with
  | some c =>
      if c = target then return some (some t)
      else if r.env.assignable target c then return none
      else return some none
  | none => return none

/-- The first type met above `t`, or `t` itself, that erases to `target`, in a
depth-first search no deeper than `depth`. -/
def exactSupertype (r : Resolver) : Nat → Ty → Class → Resolve (Option Ty)
  | 0, _, _ => Resolve.exhausted
  | depth + 1, t, target => do
      match ← r.settledBy t target with
      | some found => return found
      | none =>
          let supertypes ← r.directSupertypes t
          firstAnswer (fun s => do
            Resolve.emit (.searching t s)
            r.exactSupertype depth s target) supertypes

/-- The argument that `t` supplies for a type variable of a class: the argument
at the variable's place in the exact supertype of `t` for that class. There is
none where the variable belongs to a method, `t` is not below the class, or it
reaches the class raw. -/
def typeArgument (r : Resolver) (depth : Nat) (t : Ty) (v : TypeVarId) :
    Resolve (Option Ty) := do
  let p ← r.env.getTypeParam v
  match p.declaringClass with
  | none => return none
  | some id =>
      match ← r.exactSupertype depth t (.named id) with
      | some (.parameterized _ args _) => do
          let c ← r.env.getClass id
          return do
            let place ← c.typeParams.findIdx? (· == v)
            args[place]?
      | _ => return none

/-- Add a class at the end unless it is listed already. -/
def insertClass (found : List Class) (c : Class) : List Class :=
  if found.contains c then found else found ++ [c]

/-- Thread what was found through a step for each type, in order. -/
def collectEach (step : Ty → List Class → Resolve (List Class)) :
    List Ty → List Class → Resolve (List Class)
  | [], found => return found
  | t :: ts, found => do
      let found ← step t found
      collectEach step ts found

/-- Add the bounding classes of a type to those found, looking no deeper than
`depth`. -/
def collectBounds (r : Resolver) : Nat → Ty → List Class → Resolve (List Class)
  | 0, _, _ => Resolve.exhausted
  | depth + 1, t, found =>
      match t with
      | .nominal _ | .parameterized _ _ _ => do
          return insertClass found (← r.env.erase t)
      | .var _ | .wildcard _ _ | .genericArray _ | .capture _ => do
          let supertypes ← r.directSupertypes t
          collectEach (r.collectBounds depth) supertypes found

/-- The classes that bound a type, each once, in the order first met: its own
erasure for a class or parameterized type, and those of its direct supertypes
for any other. -/
def boundingClasses (r : Resolver) (depth : Nat) (t : Ty) :
    Resolve (List Class) :=
  r.collectBounds depth t []

end Resolver

end GenericTypes
