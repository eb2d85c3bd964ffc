import Assemblage.Definition.Type

/-!
# Members of a model

A member definition with what decides on its place in the script: its marks, those
of proxies included, the method whose body counts, and whether it is ignored.
-/

namespace Assemblage

inductive MemberDef where
  | field (definition : FieldDef)
  | method (definition : MethodDef)
  | property (definition : PropertyDef)
deriving Inhabited

namespace MemberDef

def name : MemberDef → String
  | .field definition => definition.name
  | .method definition => definition.name
  | .property definition => definition.name

def id : MemberDef → MemberId
  | .field definition => definition.id
  | .method definition => definition.id
  | .property definition => definition.id

def marks : MemberDef → Marks
  | .field definition => definition.marks
  | .method definition => definition.marks
  | .property definition => definition.marks

def isStatic : MemberDef → Bool
  | .field definition => definition.isStatic
  | .method definition => definition.isStatic
  | .property definition => definition.isStatic

/-- The types of the signature, a method's return type first. -/
def types : MemberDef → List Signature
  | .field definition => [definition.type]
  | .method definition => definition.result :: definition.parameters.map (·.type)
  | .property definition => [definition.type]

def field? : MemberDef → Option FieldDef
  | .field definition => some definition
  | _ => none

def method? : MemberDef → Option MethodDef
  | .method definition => some definition
  | _ => none

def property? : MemberDef → Option PropertyDef
  | .property definition => some definition
  | _ => none

end MemberDef

/-- Where a member of a model comes from. -/
inductive Origin where
  | declared
  /-- Added by the proxy with this full name. -/
  | proxy (name : String)
  /-- Made up, as the type needs it and has none. -/
  | synthesized
deriving DecidableEq, Inhabited

structure Member where
  definition : MemberDef
  origin : Origin := .declared
  marks : Marks := definition.marks
  /-- Whether the runtime supplies all members of the type. -/
  typeExternal : Bool
  /-- The method of a proxy that replaces the body. -/
  replacement : Option MethodDef := none
  /-- Whether the static constructor gives the field its first value. -/
  setByStaticConstructor : Bool := false
  /-- Whether the member is ignored, once this has been decided. -/
  ignored? : Option Bool := none
deriving Inhabited

namespace Member

def id (member : Member) : MemberId :=
  member.definition.id

def kind (member : Member) : MemberKind :=
  member.id.kind

def name (member : Member) : String :=
  member.definition.name

def isStatic (member : Member) : Bool :=
  member.definition.isStatic

def types (member : Member) : List Signature :=
  member.definition.types

/-- Until it has been decided, the marks alone tell. -/
def isIgnored (member : Member) : Bool :=
  member.ignored?.getD member.marks.ignored

/-- Decides whether the member is ignored.  The first decision is the last. -/
def resolveIgnored (member : Member) (mentionsIgnoredType : Bool) : Member :=
  { member with
    ignored? := some (member.ignored?.getD (member.marks.ignored || mentionsIgnoredType)) }

def isReplaced (member : Member) : Bool :=
  member.marks.replaced

/-- Whether the runtime supplies the member.  The mark counts first; a body from
a proxy then outweighs what the type and the definition say. -/
def isExternal (member : Member) : Bool :=
  member.marks.external ||
    member.replacement.isNone &&
      (member.typeExternal || member.definition.method?.any (·.isRuntimeImplemented))

/-- The method whose body is translated. -/
def implementation? (member : Member) : Option MethodDef :=
  member.definition.method?.map fun method => member.replacement.getD method

def hasTree (method : MethodDef) : Bool :=
  match method.body with
  | some (.tree ..) => true
  | _ => false

/-- Applies a member of a proxy with the same identifier: its marks are added,
and a method with a body that is not external supplies the body. -/
def patch (member : Member) (patching : MemberDef) : Member :=
  let marks := member.marks.merge patching.marks
  match patching with
  | .method method =>
    if hasTree method && !method.marks.external then
      { member with marks, replacement := some method }
    else { member with marks }
  | _ => { member with marks }

end Member

/-- The fields, methods and properties of a type, in this order. -/
def TypeDef.memberDefs (definition : TypeDef) : List MemberDef :=
  definition.fields.map .field ++ definition.methods.map .method ++
    definition.properties.map .property

end Assemblage
