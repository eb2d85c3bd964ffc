import Assemblage.Error
import Assemblage.Graph.Basic

/-!
# Loaded assemblies

What came of loading an assembly with those it refers to: the assemblies in the
order in which they were read, the references that were passed over or could
not be resolved, and those that were met by another version.
-/

namespace Assemblage

/-- A reference and the assembly that had to do for it. -/
structure Mismatch where
  required : AssemblyIdentity
  actual : AssemblyIdentity
deriving DecidableEq, Inhabited

structure Loaded where
  /-- The primary assembly comes first. -/
  assemblies : List AssemblyDef := []
  /-- Display names of unresolved references, each with the reason. -/
  failures : List (String × Error) := []
  /-- Display names of the references that were not to be loaded. -/
  skipped : List String := []
  mismatches : List Mismatch := []
deriving Inhabited

namespace Loaded

def primary? (loaded : Loaded) : Option AssemblyDef :=
  loaded.assemblies.head?

/-- The loaded assembly with a simple name in any case. -/
def find? (loaded : Loaded) (name : String) : Option AssemblyDef :=
  loaded.assemblies.find? fun assembly => Text.equalIgnoringCase assembly.name name

def missing (loaded : Loaded) : List String :=
  loaded.failures.map (·.1)

def isComplete (loaded : Loaded) : Bool :=
  loaded.failures.isEmpty

def graph (loaded : Loaded) : Graph :=
  Graph.ofAssemblies loaded.assemblies

/-- Adds an assembly unless one with its display name is there. -/
def add (loaded : Loaded) (assembly : AssemblyDef) : Loaded :=
  if loaded.assemblies.any (·.fullName == assembly.fullName) then loaded
  else { loaded with assemblies := loaded.assemblies ++ [assembly] }

def skip (loaded : Loaded) (displayName : String) : Loaded :=
  { loaded with skipped := loaded.skipped ++ [displayName] }

def fail (loaded : Loaded) (displayName : String) (error : Error) : Loaded :=
  { loaded with failures := loaded.failures ++ [(displayName, error)] }

/-- Records a reference that an assembly does not satisfy. -/
def compare (loaded : Loaded) (required actual : AssemblyIdentity) : Loaded :=
  if actual.satisfies required then loaded
  else { loaded with mismatches := loaded.mismatches ++ [{ required, actual }] }

end Loaded

end Assemblage
