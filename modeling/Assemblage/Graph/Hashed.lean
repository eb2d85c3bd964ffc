import Assemblage.Graph.Basic
import Std.Data.HashMap

/-!
# The graph in hash maps

A graph is asked for types far more often than assemblies are added to it.  Here the
types stand in a hash map under their full names, each with the position of its
assembly, and the modules under the names of their assemblies and their own.
-/

namespace Assemblage

namespace TypeDef

theorem withNestedAll_append (left right : List TypeDef) :
    withNestedAll (left ++ right) = withNestedAll left ++ withNestedAll right := by
  induction left with
  | nil => rfl
  | cons definition rest ih =>
    rw [List.cons_append, withNestedAll, ih, withNestedAll, List.append_assoc]

/-- A type comes before what is nested in it, and that before what waits. -/
theorem withNestedAll_cons_eq (current : TypeDef) (waiting : List TypeDef) :
    withNestedAll (current :: waiting) =
      current :: withNestedAll (current.nested ++ waiting) := by
  cases current
  rw [withNestedAll, withNested, List.cons_append, withNestedAll_append]

/-- The types on a stack and all inside them.  The types that are nested in the one
taken from the stack go on top of those that wait. -/
def walk : List TypeDef → List TypeDef
  | [] => []
  | current :: waiting => current :: walk (current.nested ++ waiting)
termination_by stack => (withNestedAll stack).length
decreasing_by
  rw [withNestedAll_cons_eq, List.length_cons]
  exact Nat.lt_succ_self _

end TypeDef

structure HashedGraph where
  assemblies : Array AssemblyDef := #[]
  /-- The candidates for each full name, with the positions of their assemblies. -/
  types : Std.HashMap String (Array (Nat × TypeDef)) := {}
  modules : Std.HashMap (String × String) ModuleDef := {}

namespace HashedGraph

def contains (graph : HashedGraph) (fullName : String) : Bool :=
  graph.assemblies.any (·.fullName == fullName)

/-- Adds a type to the candidates for its name. -/
def register (position : Nat) (types : Std.HashMap String (Array (Nat × TypeDef)))
    (definition : TypeDef) : Std.HashMap String (Array (Nat × TypeDef)) :=
  types.alter definition.fullName fun candidates? =>
    some ((candidates?.getD #[]).push (position, definition))

def addModule (position : Nat) (assembly : AssemblyDef) (graph : HashedGraph)
    (part : ModuleDef) : HashedGraph :=
  { graph with
    types := (TypeDef.walk part.types).foldl (register position) graph.types
    modules := graph.modules.insert (assembly.name, part.name) part }

/-- Adds an assembly, and says whether it was added: one whose display name is there
already is not. -/
def add (graph : HashedGraph) (assembly : AssemblyDef) : Bool × HashedGraph :=
  if graph.contains assembly.fullName then (false, graph)
  else
    let filled := assembly.modules.foldl (addModule graph.assemblies.size assembly) graph
    (true, { filled with assemblies := filled.assemblies.push assembly })

def ofAssemblies (assemblies : List AssemblyDef) : HashedGraph :=
  assemblies.foldl (fun graph assembly => (graph.add assembly).2) {}

def findType? (graph : HashedGraph) (fullName : String) : Option TypeDef := do
  let candidates ← graph.types[fullName]?
  let (_, definition) ← candidates[0]?
  return definition

/-- Whether a position is that of an assembly with the given simple name in any case. -/
def isNamed (graph : HashedGraph) (name : String) (position : Nat) : Bool :=
  graph.assemblies[position]?.any fun assembly => Text.equalIgnoringCase assembly.name name

/-- The definition a reference stands for. -/
def resolve? (graph : HashedGraph) (signature : Signature) : Option TypeDef := do
  let name ← signature.definitionName?
  let candidates ← graph.types[name.fullName]?
  let scoped? := name.scope.bind fun scope =>
    candidates.find? fun (position, _) => graph.isNamed scope position
  let (_, definition) ← scoped?.or candidates[0]?
  return definition

def moduleOf? (graph : HashedGraph) (definition : TypeDef) : Option ModuleDef :=
  graph.modules[(definition.scope.assembly, definition.scope.module)]?

/-- The type around a nested one, from the same module where there is one. -/
def declaringType? (graph : HashedGraph) (definition : TypeDef) : Option TypeDef := do
  let outer ← definition.outer
  let candidates ← graph.types[outer]?
  let near? := candidates.find? fun (_, candidate) => candidate.scope == definition.scope
  let (_, candidate) ← near?.or candidates[0]?
  return candidate

end HashedGraph

end Assemblage
