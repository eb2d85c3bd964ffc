import Assemblage.Proofs.Graph.Loaded

/-!
# Modules and the types they declare

The module of a type is looked up by the simple name of its assembly and by its own.
Versions of one assembly share that name, and modules of one assembly may share theirs; of
the modules under one pair of names the graph finds the one that was added last, whichever
of them declares the type.  So a type is found in its own module exactly if no module under
the same names was added after that one.
-/

namespace Assemblage

/-- The names of the assembly and of the module that a type was read from. -/
def TypeDef.moduleKey (definition : TypeDef) : String × String :=
  (definition.scope.assembly, definition.scope.module)

theorem lookup_eq_findIdx? {κ α : Type} [BEq κ] [LawfulBEq κ] (entries : List (κ × α)) (key : κ) :
    entries.lookup key =
      (entries.findIdx? (·.1 == key)).bind fun place => (entries[place]?).map (·.2) := by
  induction entries with
  | nil => rfl
  | cons head rest ih =>
    rw [List.lookup_cons, List.findIdx?_cons, BEq.comm]
    cases hkey : head.1 == key with
    | true => rfl
    | false =>
      rw [if_neg Bool.false_ne_true, Option.bind_map]
      exact ih

namespace Graph

variable {graph : Graph} {definition : TypeDef} {part : ModuleDef} {place : Nat}

/-- The names under which the module at a place is kept. -/
def keyAt? (graph : Graph) (place : Nat) : Option (String × String) :=
  (graph.modules[place]?).map (·.1)

/-- Where the module is that is found for a type.  Places count from the module that was
added last. -/
def modulePlace? (graph : Graph) (definition : TypeDef) : Option Nat :=
  graph.modules.findIdx? (·.1 == definition.moduleKey)

theorem moduleOf?_eq_bind (graph : Graph) (definition : TypeDef) :
    graph.moduleOf? definition =
      (graph.modulePlace? definition).bind fun place => (graph.modules[place]?).map (·.2) :=
  lookup_eq_findIdx? _ _

/-- The module of a definition is the newest one with its key. -/
theorem modulePlace?_eq_some_iff :
    graph.modulePlace? definition = some place ↔
      graph.keyAt? place = some definition.moduleKey ∧
        ∀ newer < place, graph.keyAt? newer ≠ some definition.moduleKey := by
  rw [modulePlace?, List.findIdx?_eq_some_iff_getElem]
  constructor
  · rintro ⟨hlt, hkey, hnewer⟩
    refine ⟨?_, fun newer hlater => ?_⟩
    · rw [keyAt?, List.getElem?_eq_getElem hlt, Option.map_some, eq_of_beq hkey]
    · have hne := hnewer newer hlater
      rw [keyAt?, List.getElem?_eq_getElem (Nat.lt_trans hlater hlt), Option.map_some, Ne,
        Option.some.injEq]
      exact fun heq => hne (beq_iff_eq.2 heq)
  · rintro ⟨hkey, hnewer⟩
    obtain ⟨entry, hentry, heq⟩ := Option.map_eq_some_iff.1 hkey
    obtain ⟨hlt, rfl⟩ := List.getElem?_eq_some_iff.1 hentry
    refine ⟨hlt, beq_iff_eq.2 heq, fun newer hlater hbeq => hnewer newer hlater ?_⟩
    rw [keyAt?, List.getElem?_eq_getElem (Nat.lt_trans hlater hlt), Option.map_some, eq_of_beq hbeq]

/-- The module at a place is the given one, and the type is in it, at any depth. -/
structure Declares (graph : Graph) (place : Nat) (part : ModuleDef) (definition : TypeDef) :
    Prop where
  stands : (graph.modules[place]?).map (·.2) = some part
  inside : definition ∈ part.allTypes

/-- The modules of a loaded graph are those of its assemblies. -/
theorem Loaded.mem_modules_iff (h : graph.Loaded) {entry : (String × String) × ModuleDef} :
    entry ∈ graph.modules ↔
      ∃ assembly ∈ graph.assemblies, ∃ part ∈ assembly.modules,
        entry = ((assembly.name, part.name), part) := by
  simp only [h.modules_eq, List.mem_reverse, List.mem_flatMap, modulesOf, List.mem_map, eq_comm]

/-- A type carries the names under which its module is kept. -/
theorem Declares.getElem?_eq (h : graph.Declares place part definition)
    (hgraph : graph.WellFormed) :
    graph.modules[place]? = some (definition.moduleKey, part) := by
  obtain ⟨⟨key, found⟩, hentry, rfl⟩ := Option.map_eq_some_iff.1 h.stands
  obtain ⟨assembly, hassembly, source, hsource, heq⟩ :=
    hgraph.mem_modules_iff.1 (List.mem_of_getElem? hentry)
  obtain ⟨rfl, rfl⟩ := Prod.mk.inj heq
  obtain ⟨top, htop, hinside⟩ := TypeDef.mem_withNestedAll_iff.1 h.inside
  have hscope :=
    (hgraph.assemblies assembly hassembly).scope_eq hsource htop definition hinside
  rw [hentry, TypeDef.moduleKey, hscope]

theorem Declares.keyAt?_eq (h : graph.Declares place part definition) (hgraph : graph.WellFormed) :
    graph.keyAt? place = some definition.moduleKey := by
  rw [keyAt?, h.getElem?_eq hgraph, Option.map_some]

/-- Every type of the graph is declared by some module of it. -/
theorem Loaded.exists_declares (h : graph.Loaded) (hindexed : graph.Indexes definition) :
    ∃ place part, graph.Declares place part definition := by
  obtain ⟨assembly, hassembly, hdefinition⟩ := h.indexes_iff.1 hindexed
  obtain ⟨part, hpart, hinside⟩ := List.mem_flatMap.1 hdefinition
  have hmem := h.mem_modules_iff.2 ⟨assembly, hassembly, part, hpart, rfl⟩
  obtain ⟨place, hplace⟩ := List.mem_iff_getElem?.1 hmem
  exact ⟨place, part, by rw [hplace, Option.map_some], hinside⟩

/-- What is found for a type stands where its own module stands, or was added later. -/
theorem Declares.exists_modulePlace? (h : graph.Declares place part definition)
    (hgraph : graph.WellFormed) :
    ∃ found other, graph.modulePlace? definition = some found ∧ found ≤ place ∧
      graph.modules[found]? = some (definition.moduleKey, other) := by
  have hkey := h.keyAt?_eq hgraph
  cases hfound : graph.modulePlace? definition with
  | none =>
    have hnone := List.findIdx?_eq_none_iff.1 hfound _ (List.mem_of_getElem? (h.getElem?_eq hgraph))
    rw [beq_self_eq_true] at hnone
    exact absurd hnone.symm Bool.false_ne_true
  | some found =>
    obtain ⟨hfirst, hnewer⟩ := modulePlace?_eq_some_iff.1 hfound
    obtain ⟨⟨key, other⟩, hentry, rfl⟩ := Option.map_eq_some_iff.1 hfirst
    exact ⟨found, other, rfl, Nat.le_of_not_lt fun hlater => hnewer place hlater hkey, hentry⟩

/-- A type is found in the module that declares it, and is ignored through its module
just if that one is ignored. -/
structure FindsOwnModule (graph : Graph) (place : Nat) (part : ModuleDef) (definition : TypeDef) :
    Prop where
  place_eq : graph.modulePlace? definition = some place
  module_eq : graph.moduleOf? definition = some part
  ignored_eq : ∀ program : Program, program.graph = graph →
    (program.moduleOf? definition).any (·.ignored) = part.isIgnored

theorem any_ignored_of_moduleOf? (h : graph.moduleOf? definition = some part) {program : Program}
    (hprogram : program.graph = graph) :
    (program.moduleOf? definition).any (·.ignored) = part.isIgnored := by
  subst hprogram
  rw [Program.moduleOf?, h]
  rfl

/-- A definition finds its own module exactly if no newer one has the key. -/
theorem Declares.findsOwnModule_iff (h : graph.Declares place part definition)
    (hgraph : graph.WellFormed) :
    graph.FindsOwnModule place part definition ↔
      ∀ newer < place, graph.keyAt? newer ≠ some definition.moduleKey := by
  constructor
  · intro hfinds
    exact (modulePlace?_eq_some_iff.1 hfinds.place_eq).2
  · intro hnewer
    have hplace := modulePlace?_eq_some_iff.2 ⟨h.keyAt?_eq hgraph, hnewer⟩
    have hmodule : graph.moduleOf? definition = some part := by
      rw [moduleOf?_eq_bind, hplace, Option.bind_some, h.stands]
    exact ⟨hplace, hmodule, fun _ => any_ignored_of_moduleOf? hmodule⟩

theorem wellFormed_of_forall {assemblies : List AssemblyDef}
    (h : ∀ assembly ∈ assemblies, assembly.WellFormed) : (ofAssemblies assemblies).WellFormed :=
  ⟨loaded_ofAssemblies assemblies, fun assembly hmem => h assembly (ofAssemblies_subset _ hmem)⟩

/-- However assemblies were added, each type of the graph is declared by a module of it.
That module is found for the type, and decides whether the type is ignored through its
module, exactly if no module under its names was added after it.  Otherwise the last of
those is found and decides. -/
theorem moduleOf?_own_iff (assemblies : List AssemblyDef)
    (hassemblies : ∀ assembly ∈ assemblies, assembly.WellFormed) :
    let graph := ofAssemblies assemblies
    (∀ definition, graph.Indexes definition →
      ∃ place part, graph.Declares place part definition) ∧
    ∀ place part definition, graph.Declares place part definition →
      (graph.FindsOwnModule place part definition ↔
        ∀ newer < place, graph.keyAt? newer ≠ some definition.moduleKey) ∧
      ∃ found other, graph.modulePlace? definition = some found ∧ found ≤ place ∧
        graph.modules[found]? = some (definition.moduleKey, other) ∧
        (∀ newer < found, graph.keyAt? newer ≠ some definition.moduleKey) ∧
        graph.moduleOf? definition = some other ∧
        ∀ program : Program, program.graph = graph →
          (program.moduleOf? definition).any (·.ignored) = other.isIgnored := by
  intro graph
  have hgraph : graph.WellFormed := wellFormed_of_forall hassemblies
  refine ⟨fun definition => hgraph.exists_declares, fun place part definition hdeclares =>
    ⟨hdeclares.findsOwnModule_iff hgraph, ?_⟩⟩
  obtain ⟨found, other, hplace, hle, hentry⟩ := hdeclares.exists_modulePlace? hgraph
  have hmodule : graph.moduleOf? definition = some other := by
    rw [moduleOf?_eq_bind, hplace, Option.bind_some, hentry, Option.map_some]
  exact ⟨found, other, hplace, hle, hentry, (modulePlace?_eq_some_iff.1 hplace).2, hmodule,
    fun _ => any_ignored_of_moduleOf? hmodule⟩

/-- A version of one assembly with a class of its own. -/
def versionBlueprint (major : UInt16) (name : String) (attributes : List Attribute) :
    AssemblyBlueprint :=
  { identity := { name := "App", version := ⟨major, 0, 0, 0⟩ }
    mainAttributes := attributes
    mainTypes := [{ space := "App", name }] }

/-- The first version, and then a second one that is ignored as a whole. -/
def versions : List AssemblyDef :=
  [(versionBlueprint 1 "Widget" []).build,
   (versionBlueprint 2 "Gadget" [{ typeName := Attribute.ignore }]).build]

theorem wellFormed_of_mem_versions : ∀ assembly ∈ versions, assembly.WellFormed := by
  rw [versions, List.forall_mem_cons, List.forall_mem_singleton]
  exact ⟨AssemblyBlueprint.wellFormed_build _, AssemblyBlueprint.wellFormed_build _⟩

/-- The class of the second version is found in its own module, as that one came last. -/
theorem moduleOf?_own_iff_versions :
    let graph := ofAssemblies versions
    let scope : Scope := { assembly := "App", module := "App.dll" }
    let gadget := ({ space := "App", name := "Gadget" } : TypeBlueprint).build scope none
    ∃ part, graph.Declares 0 part gadget ∧ graph.FindsOwnModule 0 part gadget ∧
      part.isIgnored = true := by
  intro graph scope gadget
  have hdeclares : graph.Declares 0 _ gadget := ⟨rfl, List.mem_singleton_self gadget⟩
  obtain ⟨-, hmodules⟩ := moduleOf?_own_iff versions wellFormed_of_mem_versions
  exact ⟨_, hdeclares, (hmodules 0 _ gadget hdeclares).1.2 fun _ h => absurd h (Nat.not_lt_zero _),
    by decide⟩

/-- The class of the first version is taken for one of the second, and ignored with it. -/
theorem not_findsOwnModule_versions :
    let graph := ofAssemblies versions
    let scope : Scope := { assembly := "App", module := "App.dll" }
    let widget := ({ space := "App", name := "Widget" } : TypeBlueprint).build scope none
    graph.Indexes widget ∧
      ∃ part other, graph.Declares 1 part widget ∧ part.isIgnored = false ∧
        graph.moduleOf? widget = some other ∧ other.isIgnored = true ∧
        widget ∉ other.allTypes ∧
        ({ graph } : Program).ignoresDefinition widget = true ∧
        ¬graph.FindsOwnModule 1 part widget := by
  intro graph scope widget
  have hplace : graph.modulePlace? widget = some 0 := by decide
  refine ⟨⟨⟨"App", widget⟩, List.mem_cons_self, rfl⟩, _, _,
    ⟨rfl, List.mem_singleton_self widget⟩, by decide, rfl, by decide, ?_, by decide +kernel, ?_⟩
  · intro hinside
    have hname : widget.name = "Gadget" := congrArg TypeDef.name (List.mem_singleton.1 hinside)
    exact absurd hname (by decide)
  · intro hfinds
    rw [hfinds.place_eq] at hplace
    exact absurd hplace (by decide)

end Graph

end Assemblage
