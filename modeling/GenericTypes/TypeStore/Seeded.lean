import GenericTypes.TypeStore

/-!
# Seeded stores

Two stores to start from. `core` has the top type, the types above arrays, the
comparison interface, numbers, strings and enumerations; `collections` adds the
collection interfaces and classes that most hierarchies end in. Each is written
as the list of steps that builds it, the numbers being the ones those steps hand
out, so whatever holds after every construction holds of these two.
-/

namespace GenericTypes

namespace TypeStore

namespace Seed

def object : ClassId := ⟨0⟩
def cloneable : ClassId := ⟨1⟩
def serializable : ClassId := ⟨2⟩
def comparable : ClassId := ⟨3⟩
def charSequence : ClassId := ⟨4⟩
def number : ClassId := ⟨5⟩
def integer : ClassId := ⟨6⟩
def long : ClassId := ⟨7⟩
def double : ClassId := ⟨8⟩
def string : ClassId := ⟨9⟩
def enum : ClassId := ⟨10⟩

def iterator : ClassId := ⟨11⟩
def iterable : ClassId := ⟨12⟩
def collection : ClassId := ⟨13⟩
def list : ClassId := ⟨14⟩
def set : ClassId := ⟨15⟩
def randomAccess : ClassId := ⟨16⟩
def abstractCollection : ClassId := ⟨17⟩
def abstractList : ClassId := ⟨18⟩
def arrayList : ClassId := ⟨19⟩
def map : ClassId := ⟨20⟩
def mapEntry : ClassId := ⟨21⟩
def hashMap : ClassId := ⟨22⟩

/-- The classes known by what they are for. -/
def wellKnown : WellKnown :=
  ⟨object, cloneable, serializable, string, number, integer⟩

/-- The type variable of a number. -/
def tv (n : Nat) : Ty := .var ⟨n⟩

/-- A class applied to arguments, with no owner. -/
def applied (id : ClassId) (args : List Ty) : Ty := .parameterized id args none

/-- A method of instances, without type parameters of its own. -/
def method (name : String) (params : List Ty) (returnType : Ty) : MethodDecl :=
  ⟨name, [], params, some returnType, false⟩

/-- A class outside any other. -/
def classDecl (name : String) (typeParams : List Nat) (superClass : Ty)
    (interfaces : List Ty) (fields : List FieldDecl)
    (methods : List MethodDecl) : ClassDecl :=
  ⟨name, .ordinary, typeParams.map .mk, some superClass, interfaces, none,
    fields, methods⟩

/-- An interface outside any other. -/
def interfaceDecl (name : String) (typeParams : List Nat) (interfaces : List Ty)
    (methods : List MethodDecl) : ClassDecl :=
  ⟨name, .interface, typeParams.map .mk, none, interfaces, none, [], methods⟩

/-- The number of a box class, comparable with itself. -/
def box (id : ClassId) (name : String) : Edit :=
  .defineClass id
    (classDecl name [] (.named number) [applied comparable [.named id]] [] [])

/-- The steps that build the core package. -/
def coreEdits : List Edit :=
  [ .intern "java.lang.Object",
    .intern "java.lang.Cloneable",
    .intern "java.io.Serializable",
    .intern "java.lang.Comparable",
    .intern "java.lang.CharSequence",
    .intern "java.lang.Number",
    .intern "java.lang.Integer",
    .intern "java.lang.Long",
    .intern "java.lang.Double",
    .intern "java.lang.String",
    .intern "java.lang.Enum",
    .defineClass object
      ⟨"java.lang.Object", .ordinary, [], none, [], none, [],
        [ method "hashCode" [] (.primitive .int),
          method "toString" [] (.named string),
          method "equals" [.named object] (.primitive .boolean) ]⟩,
    .defineClass cloneable (interfaceDecl "java.lang.Cloneable" [] [] []),
    .defineClass serializable (interfaceDecl "java.io.Serializable" [] [] []),
    .addTypeParam "T" [.named object],
    .defineClass comparable
      (interfaceDecl "java.lang.Comparable" [0] []
        [method "compareTo" [tv 0] (.primitive .int)]),
    .defineClass charSequence
      (interfaceDecl "java.lang.CharSequence" [] []
        [method "length" [] (.primitive .int)]),
    .defineClass number
      (classDecl "java.lang.Number" [] (.named object) [.named serializable] []
        [method "intValue" [] (.primitive .int)]),
    box integer "java.lang.Integer",
    box long "java.lang.Long",
    box double "java.lang.Double",
    .defineClass string
      (classDecl "java.lang.String" [] (.named object)
        [.named serializable, applied comparable [.named string],
          .named charSequence] [] []),
    .addTypeParam "E" [.named object],
    .defineTypeParam ⟨1⟩ ⟨"E", [applied enum [tv 1]], none⟩,
    .defineClass enum
      (classDecl "java.lang.Enum" [1] (.named object)
        [applied comparable [tv 1], .named serializable] []
        [method "name" [] (.named string),
          method "ordinal" [] (.primitive .int)]) ]

/-- The steps that add the collections to the core package. -/
def collectionEdits : List Edit :=
  [ .intern "java.util.Iterator",
    .intern "java.lang.Iterable",
    .intern "java.util.Collection",
    .intern "java.util.List",
    .intern "java.util.Set",
    .intern "java.util.RandomAccess",
    .intern "java.util.AbstractCollection",
    .intern "java.util.AbstractList",
    .intern "java.util.ArrayList",
    .intern "java.util.Map",
    .intern "java.util.Map$Entry",
    .intern "java.util.HashMap",
    .addTypeParam "E" [.named object],
    .defineClass iterator
      (interfaceDecl "java.util.Iterator" [2] []
        [method "hasNext" [] (.primitive .boolean), method "next" [] (tv 2)]),
    .addTypeParam "T" [.named object],
    .defineClass iterable
      (interfaceDecl "java.lang.Iterable" [3] []
        [method "iterator" [] (applied iterator [tv 3])]),
    .addTypeParam "E" [.named object],
    .defineClass collection
      (interfaceDecl "java.util.Collection" [4] [applied iterable [tv 4]]
        [method "size" [] (.primitive .int),
          method "add" [tv 4] (.primitive .boolean)]),
    .addTypeParam "E" [.named object],
    .defineClass list
      (interfaceDecl "java.util.List" [5] [applied collection [tv 5]]
        [ method "get" [.primitive .int] (tv 5),
          method "set" [.primitive .int, tv 5] (tv 5) ]),
    .addTypeParam "E" [.named object],
    .defineClass set (interfaceDecl "java.util.Set" [6]
      [applied collection [tv 6]] []),
    .defineClass randomAccess (interfaceDecl "java.util.RandomAccess" [] [] []),
    .addTypeParam "E" [.named object],
    .defineClass abstractCollection
      (classDecl "java.util.AbstractCollection" [7] (.named object)
        [applied collection [tv 7]] [] []),
    .addTypeParam "E" [.named object],
    .defineClass abstractList
      (classDecl "java.util.AbstractList" [8]
        (applied abstractCollection [tv 8]) [applied list [tv 8]]
        [⟨"modCount", .primitive .int, false⟩] []),
    .addTypeParam "E" [.named object],
    .defineClass arrayList
      (classDecl "java.util.ArrayList" [9] (applied abstractList [tv 9])
        [applied list [tv 9], .named randomAccess, .named cloneable,
          .named serializable]
        [⟨"elementData", (Ty.named object).arrayOf, false⟩] []),
    .addTypeParam "K" [.named object],
    .addTypeParam "V" [.named object],
    .defineClass map
      (interfaceDecl "java.util.Map" [10, 11] []
        [ method "get" [.named object] (tv 11),
          method "put" [tv 10, tv 11] (tv 11),
          method "entrySet" []
            (applied set [.parameterized mapEntry [tv 10, tv 11]
              (some (.named map))]) ]),
    .addTypeParam "K" [.named object],
    .addTypeParam "V" [.named object],
    .defineClass mapEntry
      ⟨"java.util.Map$Entry", .interface, [⟨12⟩, ⟨13⟩], none, [], some map, [],
        [method "getKey" [] (tv 12), method "getValue" [] (tv 13)]⟩,
    .addTypeParam "K" [.named object],
    .addTypeParam "V" [.named object],
    .defineClass hashMap
      (classDecl "java.util.HashMap" [14, 15] (.named object)
        [applied map [tv 14, tv 15], .named cloneable, .named serializable]
        [] []) ]

end Seed

/-- The core package. -/
def core : TypeStore := (empty Seed.wellKnown).applyAll Seed.coreEdits

/-- The core package and the collections. -/
def collections : TypeStore := core.applyAll Seed.collectionEdits

end TypeStore

end GenericTypes
