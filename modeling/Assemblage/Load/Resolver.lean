import Assemblage.Load.Source

/-!
# Resolvers

A resolver answers a reference from the assemblies it has read before: with the
one kept under the display name that is asked for, or else with the latest that
satisfies the reference.  Only then is the source asked, and its answer kept
under the name asked for and under its own.
-/

namespace Assemblage

/-- A question that was put to the source. -/
structure Read where
  displayName : String
  withSymbols : Bool
deriving DecidableEq, Inhabited

structure Resolver where
  source : Source
  /-- Assemblies under their keys, in the order in which the keys were first used. -/
  cache : List (String × AssemblyDef) := []
  /-- What the source has been asked, oldest first. -/
  reads : List Read := []
deriving Inhabited

namespace Resolver

def cached? (resolver : Resolver) (displayName : String) : Option AssemblyDef :=
  resolver.cache.lookup displayName

/-- Keeps an assembly under a key, instead of the one that may be there. -/
def keep (key : String) (assembly : AssemblyDef) :
    List (String × AssemblyDef) → List (String × AssemblyDef)
  | [] => [(key, assembly)]
  | entry :: rest =>
    if entry.1 = key then (key, assembly) :: rest else entry :: keep key assembly rest

def insert (resolver : Resolver) (assembly : AssemblyDef) : Resolver :=
  { resolver with cache := keep assembly.fullName assembly resolver.cache }

/-- Number of different assemblies in the cache. -/
def size (resolver : Resolver) : Nat :=
  ((resolver.cache.map (·.2.fullName)).eraseDups).length

/-- What the cache knows about a reference. -/
def remembered? (resolver : Resolver) (required : AssemblyIdentity) : Option AssemblyDef :=
  (resolver.cached? required.displayName).or
    ((resolver.cache.map (·.2)).filter (·.identity.satisfies required)).getLast?

def resolve (resolver : Resolver) (required : AssemblyIdentity) (withSymbols : Bool) :
    Except Error AssemblyDef × Resolver :=
  match resolver.remembered? required with
  | some assembly => (.ok assembly, resolver)
  | none =>
    let asked := { displayName := required.displayName, withSymbols }
    let resolver := { resolver with reads := resolver.reads ++ [asked] }
    match resolver.source.read required withSymbols with
    | .error error => (.error error, resolver)
    | .ok assembly =>
      let cache := keep required.displayName assembly resolver.cache
      (.ok assembly, { resolver with cache := keep assembly.fullName assembly cache })

end Resolver

end Assemblage
