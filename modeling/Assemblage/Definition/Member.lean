import Assemblage.Attribute
import Assemblage.Definition.Flags
import Assemblage.Identity.Member
import Assemblage.Tree.Stmt

/-!
# Member definitions

Fields, methods and properties.  Every member knows the full name of the type
that declares it.
-/

namespace Assemblage

/-- The value of a constant field. -/
inductive Constant where
  | null
  | boolean (value : Bool)
  | char (value : Char)
  | int (value : Int)
  /-- A value of an unsigned type. -/
  | unsigned (value : Nat)
  | float (bits : UInt64)
  | string (value : String)
deriving DecidableEq, Inhabited

/-- The value as a signed number of 64 bits, for the members of an enumeration. -/
def Constant.int? : Constant → Option Int
  | .int value => some value
  | .unsigned value => if value < Nat.pow 2 63 then some value else none
  | .char value => some value.toNat
  | .boolean value => some (if value then 1 else 0)
  | _ => none

structure FieldDef where
  name : String
  type : Signature
  flags : Flags := FieldFlag.isPublic
  constant : Option Constant := none
  attributes : List Attribute := []
  declaring : String := ""
deriving Inhabited

namespace FieldDef

def isStatic (field : FieldDef) : Bool :=
  field.flags.contains FieldFlag.isStatic

/-- Whether the field is a constant with a known value. -/
def isLiteral (field : FieldDef) : Bool :=
  field.flags.contains FieldFlag.literal && field.constant.isSome

def fullName (field : FieldDef) : String :=
  field.type.fullName ++ " " ++ field.declaring ++ "::" ++ field.name

def marks (field : FieldDef) : Marks :=
  Marks.ofAttributes field.attributes

def id (field : FieldDef) : MemberId :=
  .field field.name

end FieldDef

structure Parameter where
  name : String
  type : Signature
deriving Inhabited

/-- The body of a method with the number of its instructions. -/
inductive Body where
  | tree (count : Nat) (tree : MethodTree)
  | undecompilable (count : Nat) (message : String)
deriving Inhabited

namespace Body

def count : Body → Nat
  | .tree count _ | .undecompilable count _ => count

def withCount (count : Nat) : Body → Body
  | .tree _ content => .tree count content
  | .undecompilable _ message => .undecompilable count message

end Body

structure MethodDef where
  name : String
  flags : Flags := MethodFlag.isPublic ||| MethodFlag.hideBySignature
  implementationFlags : Flags := {}
  result : Signature := .primitive .void
  parameters : List Parameter := []
  generics : List String := []
  body : Option Body := none
  attributes : List Attribute := []
  declaring : String := ""
deriving Inhabited

namespace MethodDef

def isStatic (method : MethodDef) : Bool :=
  method.flags.contains MethodFlag.isStatic

def isAbstract (method : MethodDef) : Bool :=
  method.flags.contains MethodFlag.isAbstract

def isConstructor (method : MethodDef) : Bool :=
  method.name == ".ctor" && !method.isStatic

def isStaticConstructor (method : MethodDef) : Bool :=
  method.name == ".cctor" && method.isStatic

/-- Whether the implementation lies outside the assembly. -/
def isRuntimeImplemented (method : MethodDef) : Bool :=
  method.implementationFlags.contains ImplementationFlag.internalCall ||
    method.implementationFlags.contains ImplementationFlag.runtime ||
    (method.flags.contains MethodFlag.foreignImport && method.body.isNone)

def fullName (method : MethodDef) : String :=
  method.result.fullName ++ " " ++ method.declaring ++ "::" ++ method.name ++ "(" ++
    ",".intercalate (method.parameters.map (·.type.fullName)) ++ ")"

def marks (method : MethodDef) : Marks :=
  Marks.ofAttributes method.attributes

def id (method : MethodDef) : MemberId :=
  MemberId.ofMethod method.name method.generics.length method.result
    (method.parameters.map (·.type))

end MethodDef

structure PropertyDef where
  name : String
  type : Signature
  getter : Option MethodDef := none
  setter : Option MethodDef := none
  attributes : List Attribute := []
  declaring : String := ""
deriving Inhabited

namespace PropertyDef

/-- A property is static if its getter is, or where it has none its setter. -/
def isStatic (property : PropertyDef) : Bool :=
  (property.getter.or property.setter).any (·.isStatic)

def marks (property : PropertyDef) : Marks :=
  Marks.ofAttributes property.attributes

def id (property : PropertyDef) : MemberId :=
  .property property.name

end PropertyDef

end Assemblage
