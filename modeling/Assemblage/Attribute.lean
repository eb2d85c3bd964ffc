import Assemblage.Signature

/-!
# Attributes

Attributes are attached to modules, types and members, and recognised by the
full names of their types.  A few of them decide how something is translated;
those are read off as marks.
-/

namespace Assemblage

inductive Argument where
  | boolean (value : Bool)
  | int (value : Int)
  | string (value : String)
  | strings (values : List String)
  | type (value : Signature)
  | types (values : List Signature)
deriving Inhabited

structure Attribute where
  typeName : String
  positional : List Argument := []
  named : List (String × Argument) := []
deriving Inhabited

namespace Attribute

/-- Leaves a module, type or member out of the script. -/
def ignore : String := "JSIL.Meta.JSIgnore"

/-- Leaves a type or member to the runtime. -/
def external : String := "JSIL.Meta.JSExternal"

/-- Replaces the calls of a method by an expression of the runtime. -/
def replacement : String := "JSIL.Meta.JSReplacement"

/-- Declares a proxy, unless another attribute is chosen for that. -/
def proxy : String := "JSIL.Proxy.JSProxy"

/-- Makes an enumeration a set of bits. -/
def flags : String := "System.FlagsAttribute"

def find? (attributes : List Attribute) (typeName : String) : Option Attribute :=
  attributes.find? (·.typeName == typeName)

def has (attributes : List Attribute) (typeName : String) : Bool :=
  (find? attributes typeName).isSome

def named? (mark : Attribute) (name : String) : Option Argument :=
  (mark.named.find? (·.1 == name)).map (·.2)

end Attribute

/-- What the attributes of a type or member say about its place in the script. -/
structure Marks where
  ignored : Bool := false
  external : Bool := false
  replaced : Bool := false
deriving DecidableEq, Inhabited

namespace Marks

def ofAttributes (attributes : List Attribute) : Marks :=
  { ignored := Attribute.has attributes Attribute.ignore
    external := Attribute.has attributes Attribute.external
    replaced := Attribute.has attributes Attribute.replacement }

def isEmpty (marks : Marks) : Bool :=
  !marks.ignored && !marks.external && !marks.replaced

/-- A mark set on either side is set. -/
def merge (left right : Marks) : Marks :=
  { ignored := left.ignored || right.ignored
    external := left.external || right.external
    replaced := left.replaced || right.replaced }

end Marks

end Assemblage
