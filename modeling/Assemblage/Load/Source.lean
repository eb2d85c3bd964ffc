import Assemblage.Definition.Assembly
import Assemblage.Error

/-!
# Sources

The assemblies that can be read.  A reference is answered with the first
assembly of its simple name that satisfies it, or else with the first of that
name at all; whoever asked sees the difference in the version.
-/

namespace Assemblage

structure Source where
  assemblies : List AssemblyDef := []
deriving Inhabited

namespace Source

def size (source : Source) : Nat :=
  source.assemblies.length

def candidates (source : Source) (name : String) : List AssemblyDef :=
  source.assemblies.filter fun assembly => Text.equalIgnoringCase assembly.name name

def find? (source : Source) (required : AssemblyIdentity) : Option AssemblyDef :=
  let candidates := source.candidates required.name
  (candidates.find? (·.identity.satisfies required)).or candidates.head?

/-- Reads the assembly for a reference.  Symbols that are asked for have to be
there. -/
def read (source : Source) (required : AssemblyIdentity) (withSymbols : Bool) :
    Except Error AssemblyDef :=
  match source.find? required with
  | none => .error (.assemblyNotResolved required.displayName)
  | some assembly =>
    if withSymbols && !assembly.hasSymbols then .error (.symbolsUnavailable assembly.fullName)
    else .ok assembly

end Source

end Assemblage
