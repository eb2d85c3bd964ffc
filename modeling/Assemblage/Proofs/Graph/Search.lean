import Assemblage.Graph.Hashed
import Assemblage.Proofs.Graph.Loaded

/-!
# Looking types up

What a graph answers is what a search through all types of its assemblies finds, one
assembly after the other and in each a type before those inside it.  That holds of
the graph that lists its types as well as of the one in hash maps, whatever the order
in which assemblies were added and however often a name occurs.
-/

namespace Assemblage

/-- The first of all types of the assemblies that has the full name. -/
def search? (assemblies : List AssemblyDef) (fullName : String) : Option TypeDef :=
  (assemblies.flatMap AssemblyDef.allTypes).find? (·.fullName == fullName)

/-- The assemblies that have the simple name in any case. -/
def named (name : String) (assemblies : List AssemblyDef) : List AssemblyDef :=
  assemblies.filter fun assembly => Text.equalIgnoringCase assembly.name name

/-- The first type of the name in an assembly that the scope names, or else the first
at all. -/
def searchReference? (assemblies : List AssemblyDef) (name : TypeName) : Option TypeDef :=
  (name.scope.bind fun scope => search? (named scope assemblies) name.fullName).or
    (search? assemblies name.fullName)

/-- The search fails exactly if no assembly has the name. -/
theorem search?_eq_none_iff {assemblies : List AssemblyDef} {fullName : String} :
    search? assemblies fullName = none ↔
      ∀ assembly ∈ assemblies, ∀ definition ∈ assembly.allTypes,
        definition.fullName ≠ fullName := by
  simp only [search?, List.find?_eq_none, List.forall_mem_flatMap, beq_iff_eq, ne_eq]

theorem search?_named_eq_none {assemblies : List AssemblyDef} {fullName : String}
    (h : search? assemblies fullName = none) (scope : String) :
    search? (named scope assemblies) fullName = none :=
  search?_eq_none_iff.2 fun assembly hassembly =>
    search?_eq_none_iff.1 h assembly (List.mem_of_mem_filter hassembly)

/-- The scope decides which type is found, and not whether one is. -/
theorem searchReference?_eq_none_iff {assemblies : List AssemblyDef} {name : TypeName} :
    searchReference? assemblies name = none ↔ search? assemblies name.fullName = none := by
  rw [searchReference?, Option.or_eq_none_iff]
  refine ⟨And.right, fun h => ⟨?_, h⟩⟩
  cases name.scope with
  | none => rfl
  | some scope => exact search?_named_eq_none h scope

namespace Graph

theorem map_definition_flatMap_entriesOf (assemblies : List AssemblyDef) :
    (assemblies.flatMap entriesOf).map (·.definition) =
      assemblies.flatMap AssemblyDef.allTypes := by
  rw [List.map_flatMap]
  apply List.flatMap_congr
  intro assembly _
  rw [entriesOf, List.map_map]
  exact List.map_id _

theorem filter_flatMap_entriesOf (scope : String) (assemblies : List AssemblyDef) :
    (assemblies.flatMap entriesOf).filter (Text.equalIgnoringCase ·.assembly scope) =
      (named scope assemblies).flatMap entriesOf := by
  have hentries : ∀ assembly : AssemblyDef,
      (entriesOf assembly).filter (Text.equalIgnoringCase ·.assembly scope) =
        if Text.equalIgnoringCase assembly.name scope then entriesOf assembly else [] := by
    intro assembly
    rw [entriesOf, List.filter_map]
    cases hname : Text.equalIgnoringCase assembly.name scope with
    | true => simp [Function.comp_def, hname]
    | false => simp [Function.comp_def, hname]
  induction assemblies with
  | nil => rfl
  | cons assembly rest ih =>
    rw [List.flatMap_cons, List.filter_append, ih, hentries, named, named, List.filter_cons]
    split
    · rw [List.flatMap_cons]
    · rw [List.nil_append]

/-- The first entry of a name is what the search finds. -/
theorem map_definition_find? (assemblies : List AssemblyDef) (fullName : String) :
    ((assemblies.flatMap entriesOf).find? (·.definition.fullName == fullName)).map
      (·.definition) = search? assemblies fullName := by
  rw [search?, ← map_definition_flatMap_entriesOf, List.find?_map]
  rfl

variable {graph : Graph}

/-- A loaded graph finds a type as the search does. -/
theorem Loaded.findType?_eq (h : graph.Loaded) (fullName : String) :
    graph.findType? fullName = search? graph.assemblies fullName := by
  rw [findType?, candidates, List.head?_filter, h.index_eq, map_definition_find?]

theorem Loaded.resolveName?_eq (h : graph.Loaded) (name : TypeName) :
    graph.resolveName? name = searchReference? graph.assemblies name := by
  have hscoped : ∀ scope : String,
      ((graph.candidates name.fullName).find? (Text.equalIgnoringCase ·.assembly scope)).map
        (·.definition) = search? (named scope graph.assemblies) name.fullName := by
    intro scope
    rw [← map_definition_find?, ← filter_flatMap_entriesOf, ← h.index_eq, candidates,
      List.find?_filter, List.find?_filter]
    simp only [Bool.decide_and, Bool.and_comm]
  have hfirst := h.findType?_eq name.fullName
  rw [findType?] at hfirst
  rw [resolveName?, select?, Option.map_or, hfirst, searchReference?]
  cases name.scope with
  | none => rfl
  | some scope => rw [Option.bind_some, Option.bind_some, hscoped]

/-- A loaded graph resolves a reference as the search does. -/
theorem Loaded.resolve?_eq (h : graph.Loaded) (signature : Signature) :
    graph.resolve? signature =
      signature.definitionName?.bind (searchReference? graph.assemblies) := by
  rw [resolve?, funext h.resolveName?_eq]

/-- A graph holds the first assembly of each display name, in the order in which they
were added. -/
theorem assemblies_ofAssemblies (added : List AssemblyDef) :
    (ofAssemblies added).assemblies =
      added.eraseDupsBy fun left right => left.fullName == right.fullName := by
  induction added using List.reverseRecOn with
  | nil => rfl
  | append_singleton before last ih =>
    have hknown : ((ofAssemblies before).contains last.fullName) =
        (ofAssemblies before).assemblies.any (last.fullName == ·.fullName) := by
      simp only [contains, BEq.comm]
    rw [eraseDupsBy_concat, ← ih, ← hknown, ofAssemblies, List.foldl_append, List.foldl_cons,
      List.foldl_nil, ← ofAssemblies, add]
    split <;> rfl

/-- The display names that are taken are those of all assemblies there were. -/
theorem contains_ofAssemblies (added : List AssemblyDef) (assembly : AssemblyDef) :
    (ofAssemblies added).contains assembly.fullName =
      added.any (·.fullName == assembly.fullName) := by
  have hany := any_eraseDupsBy AssemblyDef.fullName added assembly
  rw [← assemblies_ofAssemblies] at hany
  simpa only [contains, BEq.comm] using hany

end Graph

end Assemblage
