import GenericTypes.Resolver

/-!
# Capture conversion

Capturing a parameterized type puts a fresh capture in the place of each
wildcard argument, at every level of its owner chain. The bounds of a capture
mention its siblings, which may be captures themselves, so a level is captured
in two phases: every capture is opened first, under placeholder bounds, and
then each is settled with all siblings known. A failure in the second phase
leaves the captures not yet settled as they were opened.
-/

namespace GenericTypes

namespace Resolver

/-- Bind the parameters of every class along an owner chain to the arguments
given there, outermost last. The chain ends at the first type that is not
parameterized. -/
def bindChain (d : Declarations) : Ty → Substitution → Except Error Substitution
  | .parameterized id args owner, σ => do
      let c ← d.getClass id
      if c.typeParams.length = args.length then
        let σ := σ.bindZip c.typeParams args
        match owner with
        | some o => bindChain d o σ
        | none => return σ
      else
        throw (.arityMismatch (some id) c.typeParams.length args.length)
  | .nominal _, σ | .var _, σ | .wildcard _ _, σ | .genericArray _, σ
  | .capture _, σ => .ok σ

/-- `bindChain` for an owner, if there is one. -/
def bindOwner (d : Declarations) (owner : Option Ty) :
    Except Error Substitution :=
  match owner with
  | some o => bindChain d o .empty
  | none => .ok .empty

/-- Open a capture for a wildcard, under placeholder bounds. -/
def openCapture (r : Resolver) (v : TypeVarId) (w : Wildcard) :
    Resolve CaptureId := do
  let id ← Resolve.read fun ctx => (⟨ctx.captures.size⟩ : CaptureId)
  Resolve.modify fun ctx =>
    { ctx with captures := ctx.captures.push ⟨w, v, [r.env.top], []⟩ }
  return id

/-- The first phase: open a capture for each wildcard among the arguments, left
to right, and bind each parameter to its argument so captured. -/
def openArguments (r : Resolver) :
    List TypeVarId → List Ty → Substitution →
      Resolve (List Ty × Substitution × List CaptureId)
  | v :: vs, .wildcard upper lower :: args, σ => do
      let id ← r.openCapture v ⟨upper, lower⟩
      let (args, σ, ids) ← r.openArguments vs args (σ.bind v (.capture id))
      return (.capture id :: args, σ, id :: ids)
  | v :: vs, arg :: args, σ => do
      let (args, σ, ids) ← r.openArguments vs args (σ.bind v arg)
      return (arg :: args, σ, ids)
  | _, _, σ => return ([], σ, [])

/-- Declared bounds followed by those of the wildcard, where bounds that say no
more than the top type are dropped if the other side says more. -/
def mergeBounds (r : Resolver) (declared wildcard : List Ty) : List Ty :=
  if r.env.isTop wildcard then
    if declared.isEmpty then [r.env.top] else declared
  else if r.env.isTop declared then wildcard
  else declared ++ wildcard

/-- The second phase for one capture: give it the declared bounds of its
variable, the siblings put in, merged with those of its wildcard. -/
def settleCapture (r : Resolver) (σ : Substitution) (id : CaptureId) :
    Resolve Unit := do
  let c ← Resolve.captureDef id
  let p ← r.env.getTypeParam c.typeVar
  let declared ← σ.resolveAll p.upperBounds
  let upper := r.mergeBounds declared c.wildcard.upper
  let lower := c.wildcard.lower
  Resolve.emit (.captured id upper.length lower.length)
  Resolve.modify fun ctx =>
    { ctx with
      captures := ctx.captures.modify id.index fun c =>
        { c with upper := upper, lower := lower } }

/-- Settle captures in the order they were opened. -/
def settleCaptures (r : Resolver) (σ : Substitution) :
    List CaptureId → Resolve Unit
  | [] => return ()
  | id :: ids => do
      r.settleCapture σ id
      r.settleCaptures σ ids

/-- Capture one level of a parameterized type whose owner is captured
already. -/
def captureLevel (r : Resolver) (id : ClassId) (args : List Ty)
    (owner : Option Ty) : Resolve Ty := do
  let c ← r.env.getClass id
  if c.typeParams.length = args.length then
    let σ ← bindOwner r.env.toDeclarations owner
    let (args, σ, ids) ← r.openArguments c.typeParams args σ
    r.settleCaptures σ ids
    return .parameterized id args owner
  else
    Resolve.fail (.arityMismatch (some id) c.typeParams.length args.length)

/-- Put a fresh capture in the place of each wildcard argument of a
parameterized type, owners first; any other type is its own capture. -/
def capture (r : Resolver) : Ty → Resolve Ty
  | .parameterized id args (some owner) => do
      let owner ← r.capture owner
      r.captureLevel id args (some owner)
  | .parameterized id args none => r.captureLevel id args none
  | t => return t

end Resolver

end GenericTypes
