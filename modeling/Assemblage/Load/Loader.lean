import Assemblage.Diagnostic
import Assemblage.Load.Loaded
import Assemblage.Load.Resolver

/-!
# Loading

An assembly is loaded together with all that it refers to, nearest references
first.  References with one display name are followed once, and of several
assemblies with one simple name only the first is loaded.  Where symbols cannot
be read, the assembly is read without them; a reference that cannot be resolved
is reported, and ends the load only in strict mode.
-/

namespace Assemblage

structure Loader where
  followsReferences : Bool := true
  readsSymbols : Bool := true
  strict : Bool := false
  /-- Which display names are not to be loaded. -/
  ignores : String → Bool := fun _ => false

/-- What loading leaves behind, whether it succeeds or not. -/
structure LoadState where
  resolver : Resolver
  diagnostics : Diagnostics := {}
deriving Inhabited

namespace LoadState

def report (state : LoadState) (entry : Diagnostic) : LoadState :=
  { state with diagnostics := state.diagnostics.push entry }

def resolve (state : LoadState) (required : AssemblyIdentity) (withSymbols : Bool) :
    Except Error AssemblyDef × LoadState :=
  let (answer, resolver) := state.resolver.resolve required withSymbols
  (answer, { state with resolver })

end LoadState

namespace Loader

def withoutSymbols (displayName : String) : Diagnostic :=
  { severity := .warning
    category := .symbols
    message := "debug symbols unavailable; loaded without symbols"
    subject := some displayName }

def unresolved (displayName : String) (error : Error) : Diagnostic :=
  { severity := .error
    category := .assembly
    message := error.message
    subject := some displayName }

/-- Reads one assembly, if need be without its symbols. -/
def read (loader : Loader) (state : LoadState) (required : AssemblyIdentity) :
    Except Error AssemblyDef × LoadState :=
  if loader.readsSymbols then
    match state.resolve required true with
    | (.error (.symbolsUnavailable displayName), state) =>
      (state.report (withoutSymbols displayName)).resolve required false
    | answer => answer
  else state.resolve required false

def without (name : String) (names : List String) : List String :=
  names.filter (· ≠ name)

theorem length_without_lt {name : String} {names : List String} (h : name ∈ names) :
    (without name names).length < names.length := by
  rw [without, List.length_filter_lt_length_iff_exists]
  exact ⟨name, h, by simp⟩

/-- Follows the references in a queue.  `names` are the display names that have
not been followed yet. -/
def follow (loader : Loader) (names : List String) (queue : List AssemblyIdentity)
    (loaded : Loaded) (state : LoadState) : Except Error Loaded × LoadState :=
  match queue with
  | [] => (.ok loaded, state)
  | reference :: rest =>
    let name := reference.displayName
    if _h : name ∈ names then
      let names := without name names
      if loader.ignores name then follow loader names rest (loaded.skip name) state
      else
        match loaded.find? reference.name with
        | some assembly =>
          follow loader names rest (loaded.compare reference assembly.identity) state
        | none =>
          match loader.read state reference with
          | (.ok assembly, state) =>
            follow loader names (rest ++ assembly.references)
              ((loaded.compare reference assembly.identity).add assembly) state
          | (.error error, state) =>
            if loader.strict then (.error error, state)
            else
              follow loader names rest (loaded.fail name error)
                (state.report (unresolved name error))
    else follow loader names rest loaded state
termination_by (names.length, queue.length)
decreasing_by
  · exact Prod.Lex.left _ _ (length_without_lt _h)
  · exact Prod.Lex.left _ _ (length_without_lt _h)
  · exact Prod.Lex.left _ _ (length_without_lt _h)
  · exact Prod.Lex.left _ _ (length_without_lt _h)
  · exact Prod.Lex.right _ (Nat.lt_succ_self _)

/-- The display names of all references that a load can come across. -/
def referenceNames (resolver : Resolver) (primary : AssemblyDef) : List String :=
  let known := primary :: resolver.source.assemblies ++ resolver.cache.map (·.2)
  (known.flatMap (·.references)).map (·.displayName)

def followAll (loader : Loader) (state : LoadState) (primary : AssemblyDef) :
    Except Error Loaded × LoadState :=
  let loaded : Loaded := { assemblies := [primary] }
  if loader.followsReferences then
    loader.follow (referenceNames state.resolver primary) primary.references loaded state
  else (.ok loaded, state)

/-- Loads the assembly for a reference and all that it refers to. -/
def load (loader : Loader) (state : LoadState) (primary : AssemblyIdentity) :
    Except Error Loaded × LoadState :=
  match loader.read state primary with
  | (.ok assembly, state) => loader.followAll state assembly
  | (.error error, state) => (.error error, state)

/-- Loads all that an assembly refers to which has been read before. -/
def loadFrom (loader : Loader) (state : LoadState) (primary : AssemblyDef) :
    Except Error Loaded × LoadState :=
  loader.followAll { state with resolver := state.resolver.insert primary } primary

end Loader

end Assemblage
