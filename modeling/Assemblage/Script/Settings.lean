import Assemblage.Load.Loader
import Assemblage.Pattern.Search
import Assemblage.Script.Session

/-!
# Settings

All that can be chosen about a run: what is loaded, what is left out of the
script, and which of the optional passes take place.
-/

namespace Assemblage.Script

structure Settings where
  eliminatesTemporaries : Bool := true
  shortensOperators : Bool := true
  followsReferences : Bool := true
  readsSymbols : Bool := true
  /-- Full names of types that are left out. -/
  ignoredTypes : List String := []
  /-- Assemblies with a display name in which one of these occurs are not loaded. -/
  ignoredAssemblies : List Pattern := []
  /-- From how many instructions on a method counts as large. -/
  largeMethod : Nat := 1024
  maxEliminations : Nat := 100
  /-- The attribute that declares a proxy. -/
  proxyAttribute : String := Attribute.proxy
deriving DecidableEq

namespace Settings

def ignores (settings : Settings) (displayName : String) : Bool :=
  settings.ignoredAssemblies.any (·.occursIn displayName)

def loader (settings : Settings) : Loader :=
  { followsReferences := settings.followsReferences
    readsSymbols := settings.readsSymbols
    ignores := settings.ignores }

def pipeline (settings : Settings) : Lowering.Pipeline :=
  { eliminatesTemporaries := settings.eliminatesTemporaries
    shortensOperators := settings.shortensOperators
    maxEliminations := settings.maxEliminations }

/-- A translator for the types of a graph.  What it reports is added to the
given diagnostics. -/
def translator (settings : Settings) (graph : Graph) (diagnostics : Diagnostics) : Translator :=
  { pipeline := settings.pipeline
    store :=
      { program := { graph, ignoredTypes := settings.ignoredTypes }
        proxyAttribute := settings.proxyAttribute
        diagnostics } }

end Settings

end Assemblage.Script
