import Assemblage.Definition.Type
import Assemblage.Script.Identifier

/-!
# Locations

Where a type lives in the script: the path of the namespace object around it and
its own name.  A nested type is kept beside the type around it, with the whole
of `Outer/Inner` as its name.
-/

namespace Assemblage.Script

structure Location where
  parent : String
  name : String
deriving DecidableEq, Inhabited

namespace Location

/-- The object around the types without a namespace. -/
def globalParent : String :=
  "this"

def path (location : Location) : String :=
  location.parent ++ "." ++ location.name

/-- Cuts a full name at the last period of its outermost type. -/
def ofFullName (fullName : String) : Location :=
  let outermost := Text.firstSegment '/' fullName.toList
  let inner := fullName.toList.drop outermost.length
  let pieces := Text.segments '.' outermost
  match pieces.dropLast with
  | [] => { parent := globalParent, name := Identifier.escape fullName }
  | spaces =>
    { parent := Identifier.escapePath (String.ofList (Text.joinWith '.' spaces))
      name := Identifier.escape (String.ofList (Text.lastSegment '.' outermost ++ inner)) }

end Location

end Assemblage.Script

namespace Assemblage

def TypeDef.location (definition : TypeDef) : Script.Location :=
  Script.Location.ofFullName definition.fullName

end Assemblage
