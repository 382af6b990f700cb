import GenericTypes.Resolver.Supertype

/-!
# Subtyping and containment

Whether one type is a supertype of another, and whether one type argument
contains another, are asked of each other: arguments are compared by
containment, and a wildcard contains what lies between its bounds. Containment
is written over any test of supertypes, so that one recursion on the depth
serves for both.

The right side is captured before it is looked at; the left side is taken as it
stands.
-/

namespace GenericTypes

namespace Resolver

/-- Whether a test says yes on one of several types, asked in order up to the
first yes. -/
def anyHolds {α : Type} (test : α → Resolve Bool) : List α → Resolve Bool
  | [] => return false
  | a :: as => do
      if ← test a then return true else anyHolds test as

/-- Whether a test says yes on all of several things, asked in order up to the
first no. -/
def allHold {α : Type} (test : α → Resolve Bool) : List α → Resolve Bool
  | [] => return true
  | a :: as => do
      if ← test a then allHold test as else return false

/-- Whether the type argument `outer` contains `inner`: a wildcard contains what
is below all its upper bounds and above all its lower ones, any other argument
only itself. -/
def containsBy (isSup : Ty → Ty → Resolve Bool) (outer inner : Ty) :
    Resolve Bool :=
  match outer with
  | .wildcard upper lower => do
      if ← allHold (fun bound => isSup bound inner) upper then
        allHold (fun bound => isSup inner bound) lower
      else return false
  | .nominal _ | .parameterized _ _ _ | .var _ | .genericArray _ | .capture _ =>
      return outer = inner

/-- Whether a parameterized type is above another of the same class: each
argument contains its counterpart, and the owners, where both are there, are in
the same relation. -/
def argumentsMatch (isSup : Ty → Ty → Resolve Bool) (id : ClassId)
    (args : List Ty) (owner : Option Ty) (args' : List Ty)
    (owner' : Option Ty) : Resolve Bool := do
  if args.length = args'.length then
    if ← allHold (fun pair => containsBy isSup pair.1 pair.2)
        (args.zip args') then
      match owner, owner' with
      | some o, some o' => isSup o o'
      | _, _ => return true
    else return false
  else
    Resolve.fail (.arityMismatch (some id) args.length args'.length)

/-- Whether `sup` is above `found`, the supertype of the other side that erases
to the same class. A raw or plain class on either side settles it. -/
def matchesView (isSup : Ty → Ty → Resolve Bool) (sup found : Ty) :
    Resolve Bool :=
  match sup, found with
  | .nominal _, _ => return true
  | _, .nominal _ => return true
  | _, .genericArray component' =>
      match sup.component? with
      | some component => isSup component component'
      | none => return false
  | .parameterized id args owner, .parameterized _ args' owner' =>
      argumentsMatch isSup id args owner args' owner'
  | _, _ => return false

/-- What the erasures of two types say of whether the first is above the second:
no where they exclude it, yes where they allow it and the first has no arguments
to compare. -/
def settledByErasure (r : Resolver) (sup sub : Ty) (superClass : Class) :
    Outcome (Option Bool) := do
  match ← r.env.erasure? sub with
  | some subClass =>
      if r.env.assignable superClass subClass then
        match sup with
        | .nominal _ => return some true
        | _ => return none
      else return some false
  | none => return none

/-- Whether the capture of `sub` is a subtype of `sup`, looking no deeper than
`depth`. -/
def isSupertype (r : Resolver) : Nat → Ty → Ty → Resolve Bool
  | 0, _, _ => Resolve.exhausted
  | depth + 1, sup, sub =>
      match sup with
      | .nominal _ | .parameterized _ _ _ | .genericArray _ => do
          let superClass ← r.env.erase sup
          match ← r.settledByErasure sup sub superClass with
          | some answer => return answer
          | none =>
              let captured ← r.capture sub
              match ← r.exactSupertype depth captured superClass with
              | some found => matchesView (r.isSupertype depth) sup found
              | none => return false
      | .capture id => do
          if sup = sub then return true
          else
            let c ← Resolve.captureDef id
            anyHolds (fun bound => r.isSupertype depth bound sub) c.lower
      | .var _ => do
          if sup = sub then return true
          else
            match sub with
            | .var _ | .capture _ => do
                let bounds ← r.directSupertypes sub
                anyHolds (fun bound => r.isSupertype depth sup bound) bounds
            | _ => return false
      | .wildcard _ _ => Resolve.fail .unexpectedWildcard

/-- Whether the type argument `outer` contains `inner`, looking no deeper than
`depth`. -/
def contains (r : Resolver) (depth : Nat) (outer inner : Ty) : Resolve Bool :=
  containsBy (r.isSupertype depth) outer inner

end Resolver

end GenericTypes
