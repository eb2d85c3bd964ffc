import Assemblage.Script.Location
import Assemblage.Tree.Render

/-!
# Declarations

The script is a sequence of declarations, each a call of the runtime library or
an assignment that stands on its own.  Paths and names of members are stored as
identifiers of the script; full names of types are stored as they are and
written as quoted text.
-/

namespace Assemblage.Script

/-- The object that a member is attached to: the type, or its prototype. -/
structure Owner where
  path : String
  onPrototype : Bool
deriving DecidableEq, Inhabited

namespace Owner

/-- Static members belong to the type, all others to its prototype. -/
def ofMember (path : String) (isStatic : Bool) : Owner :=
  { path, onPrototype := !isStatic }

def text (owner : Owner) : String :=
  if owner.onPrototype then owner.path ++ ".prototype" else owner.path

end Owner

/-- What a member of an interface is. -/
inductive InterfaceMember where
  | function | property
deriving DecidableEq, Inhabited

def InterfaceMember.text : InterfaceMember → String
  | function => "Function"
  | property => "Property"

/-- One method of a group: its name in the script and its parameter types. -/
structure Overload where
  name : String
  parameters : List String
deriving DecidableEq, Inhabited

inductive Declaration where
  | namespaceObject (path : String)
  /-- A class without its members. -/
  | classShell (base : String) (location : Location) (fullName : String)
  | structShell (location : Location) (fullName : String)
  | staticClassShell (location : Location) (fullName : String)
  /-- An interface with its members. -/
  | interface (location : Location) (fullName : String)
      (members : List (String × InterfaceMember))
  /-- An enumeration with its values. -/
  | enumeration (location : Location) (fullName : String) (values : List (String × Int))
      (isFlags : Bool)
  | implementedInterfaces (path : String) (interfaces : List String)
  /-- A method that the runtime supplies. -/
  | external (owner : Owner) (name : String)
  | method (owner : Owner) (name : String) (function : Function)
  /-- Stands where the body of a method could not be translated. -/
  | untranslatable (owner : Owner) (name fullName : String)
  /-- The methods among which a call by the common name chooses. -/
  | overloads (owner : Owner) (name : String) (methods : List Overload)
  | property (owner : Owner) (name : String) (getter setter : Option String)
  /-- The fields of an object that hold structs, each with its type. -/
  | structFields (path : String) (fields : List (String × String))
  | constant (owner : Owner) (name value : String)
  /-- The first value of a field. -/
  | initializer (owner : Owner) (name value : String)
  /-- Says that the static members of a type are complete. -/
  | sealed (location : Location)

inductive DeclarationKind where
  | namespaceObject | classShell | structShell | staticClassShell | interface | enumeration
  | implementedInterfaces | external | method | untranslatable | overloads | property
  | structFields | constant | initializer | sealed
deriving DecidableEq, Inhabited

def DeclarationKind.text : DeclarationKind → String
  | namespaceObject => "DeclareNamespace"
  | classShell => "MakeClass"
  | structShell => "MakeStruct"
  | staticClassShell => "MakeStaticClass"
  | interface => "MakeInterface"
  | enumeration => "MakeEnum"
  | implementedInterfaces => "ImplementInterfaces"
  | external => "ExternalMember"
  | method => "DefineMethod"
  | untranslatable => "UntranslatableFunction"
  | overloads => "OverloadedMethod"
  | property => "MakeProperty"
  | structFields => "StructFields"
  | constant => "DefineConstant"
  | initializer => "FieldInitializer"
  | sealed => "SealType"

namespace Declaration

def kind : Declaration → DeclarationKind
  | namespaceObject _ => .namespaceObject
  | classShell .. => .classShell
  | structShell .. => .structShell
  | staticClassShell .. => .staticClassShell
  | interface .. => .interface
  | enumeration .. => .enumeration
  | implementedInterfaces .. => .implementedInterfaces
  | external .. => .external
  | method .. => .method
  | untranslatable .. => .untranslatable
  | overloads .. => .overloads
  | property .. => .property
  | structFields .. => .structFields
  | constant .. => .constant
  | initializer .. => .initializer
  | sealed _ => .sealed

/-- Full name of the type that a declaration brings into being. -/
def declaredType? : Declaration → Option String
  | classShell _ _ fullName | structShell _ fullName | staticClassShell _ fullName
  | interface _ fullName _ | enumeration _ fullName _ _ => some fullName
  | _ => none

/-! ## Text -/

def quoted (text : String) : String :=
  Text.Quoted.string text

/-- Items between brackets. -/
def listed (items : List String) : String :=
  "[" ++ ", ".intercalate items ++ "]"

/-- Keys with their values between braces. -/
def keyed (entries : List (String × String)) : String :=
  "\x7b" ++ ", ".intercalate (entries.map fun (key, value) => quoted key ++ ": " ++ value) ++ "\x7d"

/-- A call of the runtime library. -/
def call (function : String) (arguments : List String) : String :=
  "JSIL." ++ function ++ "(" ++ ", ".intercalate arguments ++ ")"

/-- The arguments by which a type is named. -/
def typeArguments (location : Location) (fullName : String) : List String :=
  [location.parent, quoted location.name, quoted fullName]

def memberPath (owner : Owner) (name : String) : String :=
  owner.text ++ "." ++ name

def accessor (owner : Owner) (name : Option String) : String :=
  (name.map (memberPath owner)).getD "null"

def overloadText (overload : Overload) : String :=
  listed [quoted overload.name, listed (overload.parameters.map quoted)]

def body : Declaration → String
  | namespaceObject path => call "DeclareNamespace" [quoted path]
  | classShell base location fullName =>
    call "MakeClass" (quoted base :: typeArguments location fullName)
  | structShell location fullName => call "MakeStruct" (typeArguments location fullName)
  | staticClassShell location fullName => call "MakeStaticClass" (typeArguments location fullName)
  | interface location fullName members =>
    call "MakeInterface" (typeArguments location fullName ++
      [keyed (members.map fun (name, member) => (name, member.text))])
  | enumeration location fullName values isFlags =>
    call "MakeEnum" (typeArguments location fullName ++
      [keyed (values.map fun (name, value) => (name, toString value)),
       if isFlags then "true" else "false"])
  | implementedInterfaces path interfaces =>
    call "ImplementInterfaces" [path, listed (interfaces.map quoted)]
  | external owner name => call "ExternalMember" [owner.text, quoted name]
  | method owner name function => memberPath owner name ++ " = " ++ function.text
  | untranslatable owner name fullName =>
    memberPath owner name ++ " = " ++ call "UntranslatableFunction" [quoted fullName]
  | overloads owner name methods =>
    call "OverloadedMethod" [owner.text, quoted name, listed (methods.map overloadText)]
  | property owner name getter setter =>
    call "MakeProperty" [owner.text, quoted name, accessor owner getter, accessor owner setter]
  | structFields path fields =>
    path ++ ".prototype.__StructFields__ = " ++
      keyed (fields.map fun (name, type) => (name, quoted type))
  | constant owner name value => call "MakeConstant" [owner.text, quoted name, value]
  | initializer owner name value => memberPath owner name ++ " = " ++ value
  | sealed location => call "SealType" [location.parent, quoted location.name]

def text (declaration : Declaration) : String :=
  declaration.body ++ ";"

/-- Declarations one below the other. -/
def lines (declarations : List Declaration) : String :=
  String.join (declarations.map fun declaration => declaration.text ++ "\n")

end Declaration

end Assemblage.Script
