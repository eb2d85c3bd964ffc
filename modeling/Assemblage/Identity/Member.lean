import Assemblage.Identity.Type

/-!
# Member identifiers

The key of a member within its type.  Fields and properties go by their names;
a method also by its generic arity, its return type and its parameter types, so
that overloads are told apart.  Types count by their full names, with generic
arguments and without the assembly they were read from.
-/

namespace Assemblage

inductive MemberKind where
  | field | method | property
deriving DecidableEq

namespace MemberKind

def text : MemberKind → String
  | field => "Field"
  | method => "Method"
  | property => "Property"

def order : MemberKind → Nat
  | field => 0
  | method => 1
  | property => 2

end MemberKind

inductive MemberId where
  | field (name : String)
  | method (name : String) (arity : Nat) (result : String) (parameters : List String)
  | property (name : String)
deriving DecidableEq, Inhabited

namespace MemberId

def ofMethod (name : String) (arity : Nat) (result : Signature)
    (parameters : List Signature) : MemberId :=
  .method name arity result.fullName (parameters.map Signature.fullName)

def kind : MemberId → MemberKind
  | .field _ => .field
  | .method .. => .method
  | .property _ => .property

def name : MemberId → String
  | .field name | .method name .. | .property name => name

def arity : MemberId → Nat
  | .method _ arity .. => arity
  | _ => 0

/-- The full names of the parameter types, none for other members than methods. -/
def parameters : MemberId → List String
  | .method _ _ _ parameters => parameters
  | _ => []

/-- The full name of the return type of a method. -/
def result : MemberId → Option String
  | .method _ _ result _ => some result
  | _ => none

def text : MemberId → String
  | .field name | .property name => name
  | .method name arity result parameters =>
    let suffix := if arity = 0 then "" else "\x60" ++ toString arity
    result ++ " " ++ name ++ suffix ++ "(" ++ ",".intercalate parameters ++ ")"

def compareResults : Option String → Option String → Ordering
  | none, none => .eq
  | none, some _ => .lt
  | some _, none => .gt
  | some left, some right => compareTexts left right

def compare (left right : MemberId) : Ordering :=
  (compareOfLessAndEq left.kind.order right.kind.order).then
    ((compareTexts left.name right.name).then
      ((compareOfLessAndEq left.arity right.arity).then
        ((compareResults left.result right.result).then
          (compareLists compareTexts left.parameters right.parameters))))

end MemberId

end Assemblage
