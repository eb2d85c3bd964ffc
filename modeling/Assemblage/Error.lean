import Assemblage.Identity.Assembly

/-!
# Errors

Why loading or translating fails.  Three of the causes concern a single method;
a run records those and goes on.
-/

namespace Assemblage

/-- Why a name given for an assembly is refused. -/
inductive NameFault where
  | identity (fault : IdentityFault)
  | version (fault : VersionFault)
  | described (reason : String)
deriving DecidableEq

/-- Where in a program a broken invariant was noticed. -/
structure Place where
  file : String
  line : Nat
deriving DecidableEq

def Place.text (place : Place) : String :=
  place.file ++ ":" ++ toString place.line ++ ": "

inductive Error where
  | assemblyNotResolved (displayName : String)
  | symbolsUnavailable (displayName : String)
  | file (message : String)
  | format
  | decompilation (method message : String)
  | ignoredTypeUsage (method typeName : String)
  | transform (pass method message : String)
  | invalidAssemblyName (fault : NameFault)
  | pattern
  | invariant (place : Option Place) (message : String)
  | other (message : String)
deriving DecidableEq

def VersionFault.message : VersionFault → String
  | .tooManyParts text => "invalid version format '" ++ text ++ "'"
  | .badPart part => "invalid version component '" ++ part ++ "'"

def IdentityFault.message : IdentityFault → String
  | .emptyName displayName => "empty name in '" ++ displayName ++ "'"
  | .badToken token => "PublicKeyToken must be 16 hex digits, got '" ++ token ++ "'"
  | .version fault => fault.message

def NameFault.message : NameFault → String
  | .identity fault => fault.message
  | .version fault => fault.message
  | .described reason => reason

namespace Error

def message : Error → String
  | assemblyNotResolved displayName => "Could not resolve assembly '" ++ displayName ++ "'"
  | symbolsUnavailable displayName => "Could not load debug symbols for '" ++ displayName ++ "'"
  | file message => message
  | format => "an error occurred when formatting an argument"
  | decompilation method message => "Could not decompile " ++ method ++ ": " ++ message
  | ignoredTypeUsage method typeName => method ++ " references ignored type " ++ typeName
  | transform pass method message =>
    "Pass '" ++ pass ++ "' failed on " ++ method ++ ": " ++ message
  | invalidAssemblyName fault => "Invalid assembly name - " ++ fault.message
  | pattern => "Invalid pattern"
  | invariant place message =>
    "Invariant violated - " ++ (place.map Place.text).getD "" ++ message
  | other message => message

/-- The message of an error, and of a broken invariant only its own part. -/
def detail : Error → String
  | invariant _ message => message
  | error => error.message

/-- Whether only a single method is affected. -/
def isMethodLocal : Error → Bool
  | decompilation .. | ignoredTypeUsage .. | transform .. => true
  | _ => false

def isInvariant : Error → Bool
  | invariant .. => true
  | _ => false

end Error

end Assemblage
