import Assemblage.Proofs.Graph.Search

/-!
# Graphs in hash maps

A graph in hash maps represents one that lists its types: under each name it has the
types of that name, in the order of the list and each with the place of its assembly.
An addition changes both alike.  So both give the same answers, and those are what a
search through all types finds.
-/

namespace Assemblage

/-- The stack goes through the types in the order in which they enclose each other. -/
theorem TypeDef.walk_eq (stack : List TypeDef) : walk stack = withNestedAll stack := by
  fun_induction walk stack with
  | case1 => rfl
  | case2 current waiting ih => rw [ih, withNestedAll_cons_eq current]

namespace HashedGraph

def candidates (graph : HashedGraph) (fullName : String) : List (Nat × TypeDef) :=
  (graph.types.getD fullName #[]).toList

/-- The candidate that is preferred, or else the first, found in the hash map and in
the list of candidates. -/
theorem bind_types_eq (graph : HashedGraph) (fullName : String)
    (preferred? : List (Nat × TypeDef) → Option (Nat × TypeDef)) (hnil : preferred? [] = none) :
    (graph.types[fullName]?.bind fun found =>
        ((preferred? found.toList).or found[0]?).bind fun candidate => some candidate.2) =
      ((preferred? (graph.candidates fullName)).or (graph.candidates fullName).head?).map
        (·.2) := by
  rw [candidates, Std.HashMap.getD_eq_getD_getElem?]
  cases graph.types[fullName]? with
  | none => simp [hnil]
  | some found =>
    rw [Option.bind_some, Option.getD_some, List.head?_eq_getElem?, Array.getElem?_toList]
    exact Option.map_eq_bind.symm

theorem findType?_eq_head? (graph : HashedGraph) (fullName : String) :
    graph.findType? fullName = (graph.candidates fullName).head?.map (·.2) :=
  graph.bind_types_eq fullName (fun _ => none) rfl

theorem resolve?_eq_find? (graph : HashedGraph) (signature : Signature) :
    graph.resolve? signature = signature.definitionName?.bind fun name =>
      ((name.scope.bind fun scope =>
          (graph.candidates name.fullName).find? fun candidate =>
            graph.isNamed scope candidate.1).or
        (graph.candidates name.fullName).head?).map (·.2) := by
  rw [resolve?, Option.bind_eq_bind]
  congr 1
  funext name
  simp only [← Array.find?_toList]
  refine graph.bind_types_eq name.fullName (fun candidates => name.scope.bind fun scope =>
    candidates.find? fun candidate => graph.isNamed scope candidate.1) ?_
  cases name.scope <;> rfl

theorem declaringType?_eq_find? (graph : HashedGraph) (definition : TypeDef) :
    graph.declaringType? definition = definition.outer.bind fun outer =>
      (((graph.candidates outer).find? fun candidate => candidate.2.scope == definition.scope).or
        (graph.candidates outer).head?).map (·.2) := by
  rw [declaringType?, Option.bind_eq_bind]
  congr 1
  funext outer
  simp only [← Array.find?_toList]
  exact graph.bind_types_eq outer
    (·.find? fun candidate => candidate.2.scope == definition.scope) rfl

/-- The types that are registered under a name are those of that name, in order. -/
theorem getD_foldl_register (position : Nat) (definitions : List TypeDef)
    (types : Std.HashMap String (Array (Nat × TypeDef))) (fullName : String) :
    ((definitions.foldl (register position) types).getD fullName #[]).toList =
      (types.getD fullName #[]).toList ++
        (definitions.filter (·.fullName == fullName)).map (position, ·) := by
  induction definitions generalizing types with
  | nil => simp
  | cons definition rest ih =>
    rw [List.foldl_cons, ih, register, Std.HashMap.getD_alter, List.filter_cons]
    cases hname : definition.fullName == fullName with
    | true =>
      obtain rfl := eq_of_beq hname
      simp [Std.HashMap.getD_eq_getD_getElem?]
    | false => simp

theorem foldl_addModule (position : Nat) (assembly : AssemblyDef) (parts : List ModuleDef)
    (graph : HashedGraph) :
    parts.foldl (addModule position assembly) graph =
      { graph with
        types := (parts.flatMap ModuleDef.allTypes).foldl (register position) graph.types
        modules := parts.foldl
          (fun modules part => modules.insert (assembly.name, part.name) part) graph.modules } := by
  induction parts generalizing graph with
  | nil => rfl
  | cons part rest ih =>
    rw [List.foldl_cons, ih, List.flatMap_cons, List.foldl_append, List.foldl_cons, addModule,
      TypeDef.walk_eq, ModuleDef.allTypes]

/-- A later module takes the place of an earlier one of the same name. -/
theorem getElem?_foldl_insert (assembly : AssemblyDef) (parts : List ModuleDef)
    {modules : Std.HashMap (String × String) ModuleDef}
    {listed : List ((String × String) × ModuleDef)}
    (h : ∀ key, modules[key]? = listed.lookup key) (key : String × String) :
    (parts.foldl (fun modules part => modules.insert (assembly.name, part.name) part) modules)[key]?
      = ((parts.map fun part => ((assembly.name, part.name), part)).reverse ++ listed).lookup
        key := by
  induction parts generalizing modules listed with
  | nil => exact h key
  | cons part rest ih =>
    rw [List.foldl_cons, List.map_cons, List.reverse_cons, List.append_assoc]
    apply ih
    intro key
    rw [Std.HashMap.getElem?_insert, List.singleton_append, List.lookup_cons, h key, BEq.comm]
    cases key == (assembly.name, part.name) <;> rfl

/-- A candidate stands for an entry with its type, and with the name of the assembly
that is at its position. -/
def StandsFor (graph : HashedGraph) (candidate : Nat × TypeDef) (entry : Entry) : Prop :=
  candidate.2 = entry.definition ∧
    ∃ assembly, graph.assemblies[candidate.1]? = some assembly ∧ assembly.name = entry.assembly

structure Represents (hashed : HashedGraph) (graph : Graph) : Prop where
  assemblies : hashed.assemblies.toList = graph.assemblies
  types : ∀ fullName,
    List.Forall₂ hashed.StandsFor (hashed.candidates fullName) (graph.candidates fullName)
  modules : ∀ key, hashed.modules[key]? = graph.modules.lookup key

variable {hashed : HashedGraph} {graph : Graph}

theorem represents_empty : Represents {} {} where
  assemblies := rfl
  types fullName := by simp [candidates, Graph.candidates]
  modules key := by simp

theorem Represents.contains_eq (h : hashed.Represents graph) (fullName : String) :
    hashed.contains fullName = graph.contains fullName := by
  rw [contains, ← Array.any_toList, h.assemblies, Graph.contains]

theorem StandsFor.push {candidate : Nat × TypeDef} {entry : Entry}
    (h : hashed.StandsFor candidate entry) {grown : HashedGraph} {assembly : AssemblyDef}
    (hgrown : grown.assemblies = hashed.assemblies.push assembly) :
    grown.StandsFor candidate entry := by
  obtain ⟨hdefinition, holder, hholder, hname⟩ := h
  obtain ⟨hbound, -⟩ := Array.getElem?_eq_some_iff.1 hholder
  refine ⟨hdefinition, holder, ?_, hname⟩
  rw [hgrown, Array.getElem?_push, if_neg (Nat.ne_of_lt hbound), hholder]

theorem Represents.add (h : hashed.Represents graph) (assembly : AssemblyDef) :
    (hashed.add assembly).2.Represents (graph.add assembly) := by
  rw [HashedGraph.add, Graph.add, h.contains_eq]
  split
  · exact h
  · rw [foldl_addModule]
    constructor
    · simp [h.assemblies]
    · intro fullName
      have hadded : (Graph.entriesOf assembly).filter (·.definition.fullName == fullName) =
          (assembly.allTypes.filter (·.fullName == fullName)).map fun definition =>
            { assembly := assembly.name, definition } := by
        rw [Graph.entriesOf, List.filter_map]
        rfl
      rw [candidates, getD_foldl_register, Graph.candidates, List.filter_append, hadded]
      apply List.rel_append
      · exact (h.types fullName).imp fun _ _ hstands => hstands.push rfl
      · rw [List.forall₂_map_left_iff, List.forall₂_map_right_iff]
        refine List.forall₂_same.2 fun definition _ => ⟨rfl, assembly, ?_, rfl⟩
        exact Array.getElem?_push_size
    · exact getElem?_foldl_insert assembly assembly.modules h.modules

/-- The two graphs of a list of assemblies are in step. -/
theorem represents_ofAssemblies (added : List AssemblyDef) :
    (ofAssemblies added).Represents (Graph.ofAssemblies added) := by
  induction added using List.reverseRecOn with
  | nil => exact represents_empty
  | append_singleton before last ih =>
    rw [ofAssemblies, Graph.ofAssemblies, List.foldl_append, List.foldl_append]
    exact ih.add last

/-! ## Answers -/

theorem Represents.head?_eq (h : hashed.Represents graph) (fullName : String) :
    (hashed.candidates fullName).head?.map (·.2) =
      (graph.candidates fullName).head?.map (·.definition) := by
  have htypes := h.types fullName
  revert htypes
  generalize hashed.candidates fullName = candidates
  generalize graph.candidates fullName = entries
  rintro (- | ⟨hfirst, -⟩)
  · rfl
  · exact congrArg some hfirst.1

theorem Represents.findType?_eq (h : hashed.Represents graph) (fullName : String) :
    hashed.findType? fullName = graph.findType? fullName := by
  rw [findType?_eq_head?, h.head?_eq, Graph.findType?]

/-- Both graphs resolve a reference alike. -/
theorem Represents.resolve?_eq (h : hashed.Represents graph) (signature : Signature) :
    hashed.resolve? signature = graph.resolve? signature := by
  have hscoped : ∀ fullName scope : String,
      ((hashed.candidates fullName).find? fun candidate => hashed.isNamed scope candidate.1).map
          (·.2) =
        ((graph.candidates fullName).find? (Text.equalIgnoringCase ·.assembly scope)).map
          (·.definition) := by
    intro fullName scope
    refine map_find?_of_forall₂ (h.types fullName) ?_ fun _ _ hstands => hstands.1
    rintro candidate entry ⟨-, assembly, hassembly, hname⟩
    rw [isNamed, hassembly, Option.any_some, hname]
  rw [resolve?_eq_find?, Graph.resolve?]
  congr 1
  funext name
  rw [Graph.resolveName?, Graph.select?, Option.map_or, Option.map_or, h.head?_eq]
  cases name.scope with
  | none => rfl
  | some scope => rw [Option.bind_some, Option.bind_some, hscoped]

theorem Represents.declaringType?_eq (h : hashed.Represents graph) (definition : TypeDef) :
    hashed.declaringType? definition = graph.declaringType? definition := by
  rw [declaringType?_eq_find?, Graph.declaringType?]
  congr 1
  funext outer
  have hnear := map_find?_of_forall₂ (h.types outer)
    (p := fun candidate => candidate.2.scope == definition.scope)
    (q := fun entry => entry.definition.scope == definition.scope)
    (fun _ _ hstands => by rw [hstands.1]) fun _ _ hstands => hstands.1
  rw [Option.map_or, Option.map_or, hnear, h.head?_eq]

/-- Both graphs find the same module. -/
theorem Represents.moduleOf?_eq (h : hashed.Represents graph) (definition : TypeDef) :
    hashed.moduleOf? definition = graph.moduleOf? definition :=
  h.modules _

/-- The graph has the first assembly of each full name. -/
theorem assemblies_ofAssemblies (added : List AssemblyDef) :
    (ofAssemblies added).assemblies.toList =
      added.eraseDupsBy fun left right => left.fullName == right.fullName := by
  rw [(represents_ofAssemblies added).assemblies, Graph.assemblies_ofAssemblies]

theorem contains_ofAssemblies_iff {added : List AssemblyDef} {assembly : AssemblyDef} :
    (ofAssemblies added).contains assembly.fullName = true ↔
      assembly.fullName ∈ added.map AssemblyDef.fullName := by
  rw [(represents_ofAssemblies added).contains_eq, Graph.contains_ofAssemblies]
  simp

/-- An assembly is not added twice. -/
theorem add_of_contains {assembly : AssemblyDef} (h : hashed.contains assembly.fullName = true) :
    hashed.add assembly = (false, hashed) := by
  rw [add, if_pos h]

theorem add_of_not_contains {assembly : AssemblyDef}
    (h : ¬hashed.contains assembly.fullName = true) :
    (hashed.add assembly).1 = true ∧
      (hashed.add assembly).2.assemblies = hashed.assemblies.push assembly := by
  rw [add, if_neg h, foldl_addModule]
  exact ⟨rfl, rfl⟩

/-- A type is found where the search through the assemblies finds it. -/
theorem findType?_ofAssemblies (added : List AssemblyDef) (fullName : String) :
    (ofAssemblies added).findType? fullName =
      search? (ofAssemblies added).assemblies.toList fullName := by
  have hrepresents := represents_ofAssemblies added
  rw [hrepresents.findType?_eq, (Graph.loaded_ofAssemblies added).findType?_eq,
    hrepresents.assemblies]

/-- A reference is resolved as the search through the assemblies resolves it. -/
theorem resolve?_ofAssemblies (added : List AssemblyDef) (signature : Signature) :
    (ofAssemblies added).resolve? signature =
      signature.definitionName?.bind
        (searchReference? (ofAssemblies added).assemblies.toList) := by
  have hrepresents := represents_ofAssemblies added
  rw [hrepresents.resolve?_eq, (Graph.loaded_ofAssemblies added).resolve?_eq,
    hrepresents.assemblies]

/-- Additions to the empty graph leave the first assembly of each display name, in order,
and one with a name that is taken changes nothing.  What is then found under a name, or for
a reference, is what a search through all types of those assemblies finds, and nothing is
found for a reference only if it has no name or no type has that name.  The graph that
lists its types gives the same answers. -/
theorem answers_search (added : List AssemblyDef) :
    let kept := added.eraseDupsBy fun left right => left.fullName == right.fullName
    (ofAssemblies added).assemblies.toList = kept ∧
      (∀ assembly, assembly.fullName ∈ added.map AssemblyDef.fullName →
        (ofAssemblies added).add assembly = (false, ofAssemblies added)) ∧
      (∀ assembly, assembly.fullName ∉ added.map AssemblyDef.fullName →
        ((ofAssemblies added).add assembly).1 = true ∧
          ((ofAssemblies added).add assembly).2.assemblies =
            (ofAssemblies added).assemblies.push assembly) ∧
      (∀ fullName, (ofAssemblies added).findType? fullName = search? kept fullName) ∧
      (∀ signature, (ofAssemblies added).resolve? signature =
        signature.definitionName?.bind (searchReference? kept)) ∧
      (∀ signature, (ofAssemblies added).resolve? signature = none ↔
        ∀ name, signature.definitionName? = some name → ∀ assembly ∈ kept,
          ∀ definition ∈ assembly.allTypes, definition.fullName ≠ name.fullName) ∧
      (Graph.ofAssemblies added).assemblies = kept ∧
      (∀ fullName, (Graph.ofAssemblies added).findType? fullName = search? kept fullName) ∧
      ∀ signature, (Graph.ofAssemblies added).resolve? signature =
        signature.definitionName?.bind (searchReference? kept) := by
  intro kept
  have hkept : (ofAssemblies added).assemblies.toList = kept := assemblies_ofAssemblies added
  have hresolve : ∀ signature, (ofAssemblies added).resolve? signature =
      signature.definitionName?.bind (searchReference? kept) :=
    hkept ▸ resolve?_ofAssemblies added
  have hrepresents := represents_ofAssemblies added
  refine ⟨hkept, fun _ htaken => add_of_contains (contains_ofAssemblies_iff.2 htaken),
    fun _ hnew => add_of_not_contains fun htaken => hnew (contains_ofAssemblies_iff.1 htaken),
    hkept ▸ findType?_ofAssemblies added, hresolve, fun signature => ?_,
    Graph.assemblies_ofAssemblies added, fun fullName => ?_, fun signature => ?_⟩
  · simp only [hresolve, Option.bind_eq_none_iff, searchReference?_eq_none_iff,
      search?_eq_none_iff]
  · rw [← hrepresents.findType?_eq, findType?_ofAssemblies, hkept]
  · rw [← hrepresents.resolve?_eq, hresolve]

/-- An assembly with one type. -/
def pointAssembly (name : String) : AssemblyBlueprint :=
  { identity := { name }, mainTypes := [.struct "Geo" "Point"] }

/-- Two assemblies define one type, and one of them is added twice.  A scope in any case
decides between them, and one that is no assembly's gives the first. -/
theorem answers_search_pointAssembly :
    let west := (pointAssembly "West").build
    let east := (pointAssembly "East").build
    let graph := ofAssemblies [west, east, west]
    let point : TypeName := { space := "Geo", path := "Point" }
    graph.assemblies.toList = [west, east] ∧
      graph.add east = (false, graph) ∧
      (graph.findType? "Geo.Point").map (·.scope.assembly) = some "West" ∧
      (graph.resolve? (.value { point with scope := some "EAST" })).map (·.scope.assembly) =
        some "East" ∧
      (graph.resolve? (.value { point with scope := some "North" })).map (·.scope.assembly) =
        some "West" ∧
      graph.resolve? (.vector (.value point)) = none := by
  intro west east graph point
  obtain ⟨hkept, htaken, -, hfind, hresolve, hnone, -⟩ := answers_search [west, east, west]
  have hdiffer : (east.fullName == west.fullName) = false := by decide +kernel
  have htwice : [west, east, west].eraseDupsBy
      (fun left right => left.fullName == right.fullName) = [west, east] := by
    simp [List.eraseDupsBy, List.eraseDupsBy.loop, hdiffer]
  rw [htwice] at hkept
  refine ⟨hkept, htaken east (by simp), ?_, ?_, ?_, ?_⟩
  · rw [hfind, htwice]
    decide +kernel
  · rw [hresolve, htwice]
    decide +kernel
  · rw [hresolve, htwice]
    decide +kernel
  · exact (hnone _).2 fun name hname => nomatch hname

end HashedGraph

end Assemblage
