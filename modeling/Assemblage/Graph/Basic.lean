import Assemblage.Definition.Assembly

/-!
# The graph of assemblies

All loaded assemblies with an index of their types.  A reference resolves to the
first definition of its name in the assembly that its scope names, and where
there is none, to the first definition of that name at all.
-/

namespace Assemblage

/-- A type in the index, with the simple name of the assembly that holds it. -/
structure Entry where
  assembly : String
  definition : TypeDef
deriving Inhabited

/-- The index lists the types in the order in which they were added.  Of two
modules with one name in assemblies of one name the one added last is found. -/
structure Graph where
  assemblies : List AssemblyDef := []
  index : List Entry := []
  modules : List ((String × String) × ModuleDef) := []
deriving Inhabited

namespace Graph

def contains (graph : Graph) (fullName : String) : Bool :=
  graph.assemblies.any (·.fullName == fullName)

def entriesOf (assembly : AssemblyDef) : List Entry :=
  assembly.allTypes.map fun definition => { assembly := assembly.name, definition }

/-- Adds an assembly unless one with its display name is there. -/
def add (graph : Graph) (assembly : AssemblyDef) : Graph :=
  if graph.contains assembly.fullName then graph
  else
    { assemblies := graph.assemblies ++ [assembly]
      index := graph.index ++ entriesOf assembly
      modules := (assembly.modules.map fun part => ((assembly.name, part.name), part)).reverse ++
        graph.modules }

def ofAssemblies (assemblies : List AssemblyDef) : Graph :=
  assemblies.foldl add {}

/-- The first assembly with the given simple name in any case. -/
def assembly? (graph : Graph) (name : String) : Option AssemblyDef :=
  graph.assemblies.find? fun assembly => Text.equalIgnoringCase assembly.name name

/-- Every definition of a name, in the order of the index. -/
def candidates (graph : Graph) (fullName : String) : List Entry :=
  graph.index.filter (·.definition.fullName == fullName)

def findType? (graph : Graph) (fullName : String) : Option TypeDef :=
  (graph.candidates fullName).head?.map (·.definition)

/-- The candidate that a scope asks for, or else the first. -/
def select? (scope : Option String) (candidates : List Entry) : Option Entry :=
  (scope.bind fun scope =>
    candidates.find? fun entry => Text.equalIgnoringCase entry.assembly scope).or
    candidates.head?

def resolveName? (graph : Graph) (name : TypeName) : Option TypeDef :=
  (select? name.scope (graph.candidates name.fullName)).map (·.definition)

/-- The definition a reference stands for. -/
def resolve? (graph : Graph) (signature : Signature) : Option TypeDef :=
  signature.definitionName?.bind graph.resolveName?

def moduleOf? (graph : Graph) (definition : TypeDef) : Option ModuleDef :=
  graph.modules.lookup (definition.scope.assembly, definition.scope.module)

/-- The type around a nested one, from the same module where there is one. -/
def declaringType? (graph : Graph) (definition : TypeDef) : Option TypeDef :=
  definition.outer.bind fun outer =>
    let candidates := graph.candidates outer
    ((candidates.find? (·.definition.scope == definition.scope)).or candidates.head?).map
      (·.definition)

def baseType? (graph : Graph) (definition : TypeDef) : Option TypeDef :=
  definition.base.bind graph.resolve?

/-- Whether a reference can stand for a struct by its form. -/
def hasStructForm : Signature → Bool
  | .byRef _ | .pointer _ | .vector _ | .array .. | .typeParameter _ | .methodParameter _ => false
  | _ => true

/-- Whether a reference stands for a value type that is neither a primitive nor
an enumeration.  One that cannot be resolved counts by its encoding. -/
def isStruct (graph : Graph) (signature : Signature) : Bool :=
  hasStructForm signature && signature.primitive?.isNone &&
    match graph.resolve? signature with
    | some definition => definition.isValueType && !definition.isEnum
    | none => signature.isValueType

def isEnum (graph : Graph) (signature : Signature) : Bool :=
  (graph.resolve? signature).any (·.isEnum)

end Graph

namespace TypeDef

def sameAssembly (left right : TypeDef) : Bool :=
  Text.equalIgnoringCase left.scope.assembly right.scope.assembly

def sameModule (left right : TypeDef) : Bool :=
  left.sameAssembly right && left.scope.module == right.scope.module

end TypeDef

namespace Graph

theorem mem_candidates_iff {graph : Graph} {fullName : String} {entry : Entry} :
    entry ∈ graph.candidates fullName ↔
      entry ∈ graph.index ∧ entry.definition.fullName = fullName := by
  simp [candidates]

theorem mem_of_select? {scope : Option String} {candidates : List Entry} {entry : Entry}
    (h : select? scope candidates = some entry) : entry ∈ candidates := by
  unfold select? at h
  rw [Option.or_eq_some_iff] at h
  rcases h with h | ⟨-, h⟩
  · obtain ⟨name, -, hfind⟩ := Option.bind_eq_some_iff.1 h
    exact List.mem_of_find?_eq_some hfind
  · exact List.mem_of_head? h

/-- A reference resolves to an indexed definition of the name it asks for. -/
theorem exists_entry_of_resolve? {graph : Graph} {signature : Signature} {definition : TypeDef}
    (h : graph.resolve? signature = some definition) :
    ∃ name entry, signature.definitionName? = some name ∧ entry ∈ graph.index ∧
      entry.definition = definition ∧ definition.fullName = name.fullName := by
  obtain ⟨name, hname, hresolve⟩ := Option.bind_eq_some_iff.1 h
  obtain ⟨entry, hselect, rfl⟩ := Option.map_eq_some_iff.1 hresolve
  obtain ⟨hmem, hfull⟩ := mem_candidates_iff.1 (mem_of_select? hselect)
  exact ⟨name, entry, hname, hmem, rfl, hfull⟩

/-- What is found around a nested type is an indexed definition of the name it asks for. -/
theorem exists_entry_of_declaringType? {graph : Graph} {definition outer : TypeDef}
    (h : graph.declaringType? definition = some outer) :
    ∃ entry ∈ graph.index, entry.definition = outer ∧ definition.outer = some outer.fullName := by
  obtain ⟨name, hname, hfind⟩ := Option.bind_eq_some_iff.1 h
  obtain ⟨entry, hentry, rfl⟩ := Option.map_eq_some_iff.1 hfind
  have hcandidate : entry ∈ graph.candidates name := by
    rcases Option.or_eq_some_iff.1 hentry with h | ⟨-, h⟩
    · exact List.mem_of_find?_eq_some h
    · exact List.mem_of_head? h
  obtain ⟨hmem, hfull⟩ := mem_candidates_iff.1 hcandidate
  exact ⟨entry, hmem, rfl, hfull ▸ hname⟩

end Graph

end Assemblage
