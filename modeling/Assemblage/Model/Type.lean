import Assemblage.Definition.Type
import Assemblage.Model.Group
import Assemblage.Model.Proxy

/-!
# Type models

All that has to be known about one type: its members, patched by the
proxies that apply to it, whether it is ignored, and its method groups.  The
groups are empty until the members have been checked for ignored types.
-/

namespace Assemblage

/-- The module of a model. -/
structure ModuleModel where
  name : String
  assembly : String
  ignored : Bool
deriving DecidableEq, Inhabited

def ModuleModel.of (module : ModuleDef) : ModuleModel :=
  { name := module.name, assembly := module.assembly, ignored := module.isIgnored }

structure EnumMember where
  name : String
  value : Int
deriving DecidableEq

structure TypeModel where
  id : TypeId
  definition : TypeDef
  module : Option ModuleModel
  proxies : List Proxy
  /-- Fields, methods and properties, then what proxies add, then what is made up. -/
  members : List Member
  marks : Marks
  ignored : Bool
  groups : List MethodGroup := []
deriving Inhabited

namespace TypeModel

def fullName (model : TypeModel) : String :=
  model.definition.fullName

def kind (model : TypeModel) : TypeKind :=
  model.definition.kind

def isExternal (model : TypeModel) : Bool :=
  model.marks.external

def isStruct (model : TypeModel) : Bool :=
  model.kind == .struct

/-- Whether the type is an enumeration of bits. -/
def isFlags (model : TypeModel) : Bool :=
  Attribute.has model.definition.attributes Attribute.flags

/-- The last member with an identifier. -/
def member? (model : TypeModel) (id : MemberId) : Option Member :=
  model.members.reverse.find? (·.id == id)

def fields (model : TypeModel) : List Member :=
  model.members.filter (·.kind == .field)

def methods (model : TypeModel) : List Member :=
  model.members.filter (·.kind == .method)

def properties (model : TypeModel) : List Member :=
  model.members.filter (·.kind == .property)

def enumMember? (field : FieldDef) : Option EnumMember :=
  if field.isLiteral && field.isStatic then
    (field.constant.bind Constant.int?).map fun value => { name := field.name, value }
  else none

/-- The values of an enumeration. -/
def enumMembers (model : TypeModel) : List EnumMember :=
  if model.kind = .enumeration then model.definition.fields.filterMap enumMember? else []

/-- The fields that get their first value in the static constructor. -/
def staticConstructorFields (model : TypeModel) : List FieldDef :=
  (model.members.filter (·.setByStaticConstructor)).filterMap (·.definition.field?)

def isStaticConstructor (member : Member) : Bool :=
  member.definition.method?.any (·.isStaticConstructor)

/-- The first static constructor among the members. -/
def staticConstructor? (model : TypeModel) : Option Member :=
  model.members.find? isStaticConstructor

/-- The member that is found under the identifier of the static constructor. -/
def staticConstructorMember? (model : TypeModel) : Option Member :=
  model.staticConstructor?.bind fun member => model.member? member.id

/-- Whether the runtime has to be told that the type is complete. -/
def needsSeal (model : TypeModel) : Bool :=
  !model.kind.isDeclaredInFull && model.staticConstructorMember?.any (!·.isIgnored)

/-- The group of a method with its position there. -/
def groupOf? (model : TypeModel) (id : MemberId) : Option (MethodGroup × Nat) :=
  model.groups.findSome? fun group => (group.indexOf? id).map fun index => (group, index)

/-- The name of a method in the script. -/
def emittedName (model : TypeModel) (member : Member) : String :=
  match model.groupOf? member.id with
  | some (group, index) => group.mangledName index
  | none => member.name

end TypeModel

end Assemblage
