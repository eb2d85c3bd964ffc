import Assemblage.Definition.Type
import Assemblage.Identity.Assembly

/-!
# Assemblies and modules
-/

namespace Assemblage

structure ModuleDef where
  name : String
  /-- Simple name of the assembly. -/
  assembly : String
  types : List TypeDef
  attributes : List Attribute
deriving Inhabited

namespace ModuleDef

def isIgnored (module : ModuleDef) : Bool :=
  Attribute.has module.attributes Attribute.ignore

/-- Every type of the module, nested ones after the types that enclose them. -/
def allTypes (module : ModuleDef) : List TypeDef :=
  TypeDef.withNestedAll module.types

end ModuleDef

structure AssemblyDef where
  identity : AssemblyIdentity
  modules : List ModuleDef
  references : List AssemblyIdentity
  attributes : List Attribute
  /-- Whether symbols for debugging came with the assembly. -/
  hasSymbols : Bool
deriving Inhabited

namespace AssemblyDef

def name (assembly : AssemblyDef) : String :=
  assembly.identity.name

/-- The display name. -/
def fullName (assembly : AssemblyDef) : String :=
  assembly.identity.displayName

def allTypes (assembly : AssemblyDef) : List TypeDef :=
  assembly.modules.flatMap ModuleDef.allTypes

end AssemblyDef

end Assemblage
