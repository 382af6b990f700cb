import GenericTypes.Declaration

/-!
# Ancestors, assignability and member lookup

The declared hierarchy is a graph on class numbers, and nothing keeps it from
having circles or from mentioning classes that are not defined. A breadth-first
walk takes both in its stride: a class is expanded once, on the first visit, and
an undefined class is never expanded. No walk expands more classes than there
are, which is the fuel it gets.

Two questions read the walk. A class is assignable to another when the walk from
it meets the other, and a member is found on the first class of the walk that
declares it, which is a nearest one.
-/

namespace GenericTypes

namespace Declarations

/-- Whether a class is defined. -/
def isDefined (d : Declarations) (id : ClassId) : Bool := (d.class? id).isSome

/-- Extend the classes visited so far by those reached from the waiting ones,
in breadth-first order, expanding at most `fuel` classes. -/
def visit (d : Declarations) : Nat → List ClassId → List ClassId → List ClassId
  | 0, visited, _ => visited
  | fuel + 1, visited, waiting =>
      match waiting.dropWhile fun c => visited.contains c || !d.isDefined c with
      | [] => visited
      | c :: rest => d.visit fuel (visited ++ [c]) (rest ++ d.superclasses c)

/-- The defined classes reached from a class by declared supertypes, the class
itself among them, in breadth-first order. -/
def ancestors (d : Declarations) (id : ClassId) : List ClassId :=
  d.visit d.classes.size [] [id]

/-- Whether one named class reaches another by declared supertypes. The last
class of a path may be undefined. -/
def reaches (d : Declarations) (source target : ClassId) : Bool :=
  source = target ||
    (d.ancestors source).any fun c => (d.superclasses c).contains target

/-- Whether a value of class `source` may stand where `target` is asked for, by
the declared hierarchy alone. Arrays are covariant in components that are not
primitive. -/
def isAssignable (d : Declarations) : Class → Class → Bool
  | target, .primitive p => target = .primitive p
  | .primitive _, _ => false
  | .named t, .named s => t = d.wellKnown.object || d.reaches s t
  | .named t, .array _ => d.wellKnown.aboveArrays.contains t
  | .array t, .array s =>
      t = s || !t.isPrimitive && !s.isPrimitive && d.isAssignable t s
  | .array _, .named _ => false

/-- The nearest class at or above `id` on which `find` finds something, with
what it finds there. -/
def lookup {α : Type} (d : Declarations) (id : ClassId)
    (find : ClassDecl → Option α) : Option (ClassId × α) :=
  (d.ancestors id).findSome? fun c => do
    let member ← find (← d.class? c)
    return (c, member)

/-- The nearest field of a name, with the class that declares it. -/
def lookupField (d : Declarations) (id : ClassId) (name : String) :
    Option (ClassId × FieldDecl) :=
  d.lookup id (·.field? name)

/-- The nearest method of a name, with the class that declares it. -/
def lookupMethod (d : Declarations) (id : ClassId) (name : String) :
    Option (ClassId × MethodDecl) :=
  d.lookup id (·.method? name)

end Declarations

end GenericTypes
