import Assemblage.Definition.Member

/-!
# Type definitions

A type with its members and the types nested in it.  What kind of type it is
follows from its flags and its base: `System.Enum` is the base of every
enumeration and `System.ValueType` of every other value type, and a class that
is both abstract and sealed is static.
-/

namespace Assemblage

/-- The assembly and the module that a definition was read from. -/
structure Scope where
  assembly : String := ""
  module : String := ""
deriving DecidableEq, Inhabited

structure TypeDef where
  space : String
  name : String
  flags : Flags
  base : Option Signature
  interfaces : List Signature
  fields : List FieldDef
  methods : List MethodDef
  properties : List PropertyDef
  nested : List TypeDef
  generics : List String
  attributes : List Attribute
  scope : Scope
  /-- Full name of the enclosing type. -/
  outer : Option String
deriving Inhabited

namespace TypeDef

/-- `Space.Name`, or `Outer/Name` for a nested type. -/
def fullName (definition : TypeDef) : String :=
  match definition.outer with
  | some outer => outer ++ "/" ++ definition.name
  | none =>
    if definition.space.isEmpty then definition.name
    else definition.space ++ "." ++ definition.name

/-- The full name without the namespace in front. -/
def path (definition : TypeDef) : String :=
  if definition.space.isEmpty then definition.fullName
  else String.ofList (definition.fullName.toList.drop (definition.space.length + 1))

def typeName (definition : TypeDef) : TypeName :=
  { scope := some definition.scope.assembly
    space := definition.space
    path := definition.path }

def typeId (definition : TypeDef) : TypeId :=
  TypeId.ofFullName definition.fullName

def isInterface (definition : TypeDef) : Bool :=
  definition.flags.contains TypeFlag.isInterface

def hasBase (definition : TypeDef) (name : String) : Bool :=
  definition.base.any (·.fullName == name)

def isEnum (definition : TypeDef) : Bool :=
  definition.hasBase "System.Enum"

def isValueType (definition : TypeDef) : Bool :=
  definition.isEnum || definition.hasBase "System.ValueType"

def isStaticClass (definition : TypeDef) : Bool :=
  !definition.isInterface &&
    definition.flags.contains (TypeFlag.isAbstract ||| TypeFlag.isSealed)

def isNested (definition : TypeDef) : Bool :=
  definition.outer.isSome

/-- A reference to the definition itself. -/
def signature (definition : TypeDef) : Signature :=
  if definition.isValueType then .value definition.typeName else .reference definition.typeName

def staticConstructor? (definition : TypeDef) : Option MethodDef :=
  definition.methods.find? (·.isStaticConstructor)

def field? (definition : TypeDef) (name : String) : Option FieldDef :=
  definition.fields.find? (·.name == name)

def methodsNamed (definition : TypeDef) (name : String) : List MethodDef :=
  definition.methods.filter (·.name == name)

def marks (definition : TypeDef) : Marks :=
  Marks.ofAttributes definition.attributes

/-- The references to the base and the interfaces. -/
def parents (definition : TypeDef) : List Signature :=
  definition.base.toList ++ definition.interfaces

mutual

/-- The type and all types inside it, each before those it encloses. -/
def withNested : TypeDef → List TypeDef
  | ⟨space, name, flags, base, interfaces, fields, methods, properties, nested, generics,
      attributes, scope, outer⟩ =>
    ⟨space, name, flags, base, interfaces, fields, methods, properties, nested, generics,
      attributes, scope, outer⟩ :: withNestedAll nested

def withNestedAll : List TypeDef → List TypeDef
  | [] => []
  | definition :: rest => definition.withNested ++ withNestedAll rest

end

end TypeDef

inductive TypeKind where
  | interface | enumeration | reference | struct | staticClass
deriving DecidableEq, Inhabited

namespace TypeKind

def text : TypeKind → String
  | interface => "Interface"
  | enumeration => "Enum"
  | reference => "Class"
  | struct => "Struct"
  | staticClass => "StaticClass"

/-- Whether the first declaration of such a type already says everything about it. -/
def isDeclaredInFull : TypeKind → Bool
  | interface | enumeration => true
  | _ => false

end TypeKind

def TypeDef.kind (definition : TypeDef) : TypeKind :=
  if definition.isInterface then .interface
  else if definition.isEnum then .enumeration
  else if definition.isValueType then .struct
  else if definition.isStaticClass then .staticClass
  else .reference

end Assemblage
