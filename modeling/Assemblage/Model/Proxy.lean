import Assemblage.Graph.Walk
import Assemblage.Model.Member

/-!
# Proxies

A proxy is a type that patches others.  Its attribute names them by reference or
by full name.  An inheritable proxy also applies to whatever derives from the
types it names.
-/

namespace Assemblage

structure Proxy where
  definition : TypeDef
  types : List Signature
  names : List String
  inheritable : Bool
deriving Inhabited

namespace Proxy

/-- The named argument that says whether a proxy is inheritable. -/
def inheritableArgument : String :=
  "Inheritable"

def argumentTypes : Argument → List Signature
  | .type value => [value]
  | .types values => values
  | _ => []

def argumentNames : Argument → List String
  | .string value => [value]
  | .strings values => values
  | _ => []

/-- Proxies are inheritable unless they say otherwise. -/
def isInheritable (marker : Attribute) : Bool :=
  match marker.named? inheritableArgument with
  | some (.boolean value) => value
  | _ => true

/-- Reads a type that carries the given attribute as a proxy. -/
def ofDefinition? (definition : TypeDef) (attributeName : String) : Option Proxy :=
  (Attribute.find? definition.attributes attributeName).map fun marker =>
    { definition
      types := marker.positional.flatMap argumentTypes
      names := marker.positional.flatMap argumentNames
      inheritable := isInheritable marker }

def fullName (proxy : Proxy) : String :=
  proxy.definition.fullName

/-- The marks it adds to the types it patches. -/
def marks (proxy : Proxy) : Marks :=
  proxy.definition.marks

def matchesType (proxy : Proxy) (graph : Graph) (target : TypeDef) (named : Signature) : Bool :=
  if proxy.inheritable then graph.isAssignableTo target named.typeId
  else named.typeId == target.typeId

def matchesName (proxy : Proxy) (graph : Graph) (target : TypeDef) : Bool :=
  proxy.names.contains target.fullName ||
    (proxy.inheritable && !proxy.names.isEmpty &&
      (graph.ancestorNames target).any proxy.names.contains)

/-- Whether the proxy applies to a type. -/
def applies (proxy : Proxy) (graph : Graph) (target : TypeDef) : Bool :=
  proxy.types.any (proxy.matchesType graph target) || proxy.matchesName graph target

/-- Whether a proxy of the given name is among those registered. -/
def isRegistered (proxies : List Proxy) (fullName : String) : Bool :=
  proxies.any (·.fullName == fullName)

/-- Adds a proxy unless one of the same name is there. -/
def register (proxies : List Proxy) (proxy : Proxy) : List Proxy :=
  if isRegistered proxies proxy.fullName then proxies else proxies ++ [proxy]

/-- The proxies that apply to a type, in the order of their registration. -/
def applying (proxies : List Proxy) (graph : Graph) (target : TypeDef) : List Proxy :=
  proxies.filter (·.applies graph target)

/-- The members a proxy patches with.  A constructor takes part only if it
carries an attribute. -/
def memberDefs (proxy : Proxy) : List MemberDef :=
  let methods := proxy.definition.methods.filter fun method =>
    !method.isConstructor || !method.attributes.isEmpty
  proxy.definition.fields.map .field ++ methods.map .method ++
    proxy.definition.properties.map .property

end Proxy

end Assemblage
