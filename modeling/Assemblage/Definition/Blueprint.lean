import Assemblage.Definition.Assembly
import Assemblage.Tree.Visit

/-!
# Blueprints

Types, modules and assemblies as they are put together by hand, before anything
knows where it belongs.  Building a blueprint gives every type its scope and
every member the full name of its type; a nested type takes the namespace of
the type around it, and its public visibility becomes that of a nested type.
-/

namespace Assemblage

namespace FieldDef

def addFlags (field : FieldDef) (flags : Flags) : FieldDef :=
  { field with flags := field.flags ||| flags }

def asStatic (field : FieldDef) : FieldDef :=
  field.addFlags FieldFlag.isStatic

def asLiteral (field : FieldDef) (value : Constant) : FieldDef :=
  { field.addFlags (FieldFlag.isStatic ||| FieldFlag.literal ||| FieldFlag.hasDefault) with
    constant := some value }

end FieldDef

namespace MethodDef

def addFlags (method : MethodDef) (flags : Flags) : MethodDef :=
  { method with flags := method.flags ||| flags }

def asStatic (method : MethodDef) : MethodDef :=
  method.addFlags MethodFlag.isStatic

def asAbstract (method : MethodDef) : MethodDef :=
  method.addFlags (MethodFlag.isAbstract ||| MethodFlag.isVirtual)

def constructor : MethodDef :=
  ({ name := ".ctor" } : MethodDef).addFlags
    (MethodFlag.specialName ||| MethodFlag.runtimeSpecialName)

/-- A private static method, whatever else methods are by default. -/
def staticConstructor : MethodDef :=
  let method := ({ name := ".cctor" } : MethodDef).addFlags
    (MethodFlag.isStatic ||| MethodFlag.specialName ||| MethodFlag.runtimeSpecialName)
  { method with flags := method.flags.remove MethodFlag.isPublic ||| MethodFlag.isPrivate }

/-- Gives the method a body and counts its instructions. -/
def withTree (method : MethodDef) (tree : MethodTree) : MethodDef :=
  { method with body := some (.tree tree.instructionCount tree) }

/-- Replaces the body by the reason why there is no tree for it. -/
def undecompilable (method : MethodDef) (message : String) : MethodDef :=
  let count := (method.body.map Body.count).getD 0
  { method with body := some (.undecompilable count message) }

def withCount (method : MethodDef) (count : Nat) : MethodDef :=
  { method with body := method.body.map (Body.withCount count) }

end MethodDef

/-- A property whose accessors are given by the names of methods. -/
structure PropertyBlueprint where
  name : String
  type : Signature
  getter : Option String := none
  setter : Option String := none
  attributes : List Attribute := []
deriving Inhabited

def PropertyBlueprint.build (blueprint : PropertyBlueprint) (declaring : String)
    (methods : List MethodDef) : PropertyDef :=
  let method? (name : Option String) : Option MethodDef :=
    name.bind fun name => methods.find? (·.name == name)
  { name := blueprint.name
    type := blueprint.type
    getter := method? blueprint.getter
    setter := method? blueprint.setter
    attributes := blueprint.attributes
    declaring }

structure TypeBlueprint where
  space : String
  name : String
  flags : Flags := TypeFlag.isPublic
  base : Option Signature := some (.primitive .object)
  interfaces : List Signature := []
  fields : List FieldDef := []
  methods : List MethodDef := []
  properties : List PropertyBlueprint := []
  nested : List TypeBlueprint := []
  generics : List String := []
  attributes : List Attribute := []
deriving Inhabited

namespace TypeBlueprint

def systemType (name : String) : Signature :=
  .reference { space := "System", path := name }

def struct (space name : String) : TypeBlueprint :=
  { space, name
    flags := TypeFlag.isPublic ||| TypeFlag.isSealed
    base := some (systemType "ValueType") }

/-- The field that holds the value of an enumeration. -/
def valueField : FieldDef :=
  ({ name := "value__", type := .primitive .int32 } : FieldDef).addFlags
    (FieldFlag.isPublic ||| FieldFlag.specialName ||| FieldFlag.runtimeSpecialName)

def enumeration (space name : String) : TypeBlueprint :=
  { space, name
    flags := TypeFlag.isPublic ||| TypeFlag.isSealed
    base := some (systemType "Enum")
    fields := [valueField] }

def interface (space name : String) : TypeBlueprint :=
  { space, name
    flags := TypeFlag.isPublic ||| TypeFlag.isInterface ||| TypeFlag.isAbstract
    base := none }

def staticClass (space name : String) : TypeBlueprint :=
  { space, name
    flags := TypeFlag.isPublic ||| TypeFlag.isAbstract ||| TypeFlag.isSealed }

def addField (blueprint : TypeBlueprint) (field : FieldDef) : TypeBlueprint :=
  { blueprint with fields := blueprint.fields ++ [field] }

/-- Adds a constant of the enumeration's own type. -/
def addEnumValue (blueprint : TypeBlueprint) (name : String) (value : Int) : TypeBlueprint :=
  let type : Signature := .value { space := blueprint.space, path := blueprint.name }
  blueprint.addField (({ name, type } : FieldDef).asLiteral (.int value))

end TypeBlueprint

/-! ## Building -/

/-- The namespace and the full name of an enclosing type. -/
structure Enclosing where
  space : String
  fullName : String

namespace TypeDef

/-- A definition without members. -/
def shell (scope : Scope) (enclosing : Option Enclosing) (space name : String) (flags : Flags)
    (base : Option Signature) (interfaces : List Signature) (generics : List String)
    (attributes : List Attribute) : TypeDef :=
  let visible :=
    if enclosing.isSome && flags.contains TypeFlag.isPublic then
      flags.remove TypeFlag.isPublic ||| TypeFlag.nestedPublic
    else flags
  { space := (enclosing.map Enclosing.space).getD space
    name
    flags := visible
    base, interfaces
    fields := []
    methods := []
    properties := []
    nested := []
    generics, attributes, scope
    outer := enclosing.map Enclosing.fullName }

/-- Whether a reference without a scope names the definition itself. -/
def isNamedBy (definition : TypeDef) : Signature → Bool
  | .value name =>
    name.scope.isNone && name.space == definition.space && name.path == definition.name
  | _ => false

/-- Puts a field into its type.  A constant of the type itself was declared
before the scope was known and gets the final signature. -/
def placeField (definition : TypeDef) (field : FieldDef) : FieldDef :=
  let type :=
    if field.isLiteral && definition.isNamedBy field.type then definition.signature
    else field.type
  { field with type, declaring := definition.fullName }

def placeMethod (definition : TypeDef) (method : MethodDef) : MethodDef :=
  { method with declaring := definition.fullName }

end TypeDef

namespace TypeBlueprint

mutual

def build (scope : Scope) (enclosing : Option Enclosing) : TypeBlueprint → TypeDef
  | ⟨space, name, flags, base, interfaces, fields, methods, properties, nested, generics,
      attributes⟩ =>
    let shell :=
      TypeDef.shell scope enclosing space name flags base interfaces generics attributes
    let placed := methods.map shell.placeMethod
    { shell with
      fields := fields.map shell.placeField
      methods := placed
      properties := properties.map fun property => property.build shell.fullName placed
      nested := buildAll scope (some ⟨shell.space, shell.fullName⟩) nested }

def buildAll (scope : Scope) (enclosing : Option Enclosing) : List TypeBlueprint → List TypeDef
  | [] => []
  | blueprint :: rest => blueprint.build scope enclosing :: buildAll scope enclosing rest

end

/-- The type outside any assembly. -/
def buildDetached (blueprint : TypeBlueprint) : TypeDef :=
  blueprint.build {} none

end TypeBlueprint

structure ModuleBlueprint where
  name : String
  types : List TypeBlueprint := []
  attributes : List Attribute := []
deriving Inhabited

def ModuleBlueprint.build (blueprint : ModuleBlueprint) (assembly : String) : ModuleDef :=
  { name := blueprint.name
    assembly
    types := TypeBlueprint.buildAll { assembly, module := blueprint.name } none blueprint.types
    attributes := blueprint.attributes }

/-- An assembly with a main module, named after it, and further modules. -/
structure AssemblyBlueprint where
  identity : AssemblyIdentity
  references : List AssemblyIdentity := []
  attributes : List Attribute := []
  mainAttributes : List Attribute := []
  mainTypes : List TypeBlueprint := []
  modules : List ModuleBlueprint := []
  hasSymbols : Bool := true
deriving Inhabited

namespace AssemblyBlueprint

def mainModule (blueprint : AssemblyBlueprint) : ModuleBlueprint :=
  { name := blueprint.identity.name ++ ".dll"
    types := blueprint.mainTypes
    attributes := blueprint.mainAttributes }

def build (blueprint : AssemblyBlueprint) : AssemblyDef :=
  { identity := blueprint.identity
    modules := (blueprint.mainModule :: blueprint.modules).map
      (·.build blueprint.identity.name)
    references := blueprint.references
    attributes := blueprint.attributes
    hasSymbols := blueprint.hasSymbols }

end AssemblyBlueprint

end Assemblage
