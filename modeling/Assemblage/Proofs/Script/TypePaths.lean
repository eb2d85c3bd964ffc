import Assemblage.Proofs.Graph.References
import Assemblage.Proofs.Script.Attribution

/-!
# Paths of types

A full name can be told from the path under which its type is kept: the last period
of the path stands where the full name was cut, and what is around it is escaped in ways
that can be undone.  The word for the object around types without a namespace is no
identifier, so no namespace is mistaken for it.  Declarations for types with different
full names therefore never have the same path.
-/

namespace Assemblage

namespace TypeDef

/-- What is nested in a definition that was built was built with it. -/
theorem IsBuilt.nested {definition inner : TypeDef} (h : definition.IsBuilt)
    (hinner : inner ∈ definition.nested) : inner.IsBuilt := by
  obtain ⟨scope, blueprint, hinside⟩ := h
  exact ⟨scope, blueprint, mem_withNested_of_nested hinside hinner⟩

/-- The namespace of a type is not the object around the types without one, whatever it
is called. -/
theorem StartsWithSpace.parent_location_ne {definition : TypeDef} (h : definition.StartsWithSpace)
    (hspace : definition.space ≠ "") (hslash : '/' ∉ definition.space.toList) :
    definition.location.parent ≠ Script.Location.globalParent := by
  obtain ⟨path, hfull⟩ := h.resolve_left hspace
  rw [location, Ne, Script.Location.parent_ofFullName_eq_globalParent_iff, not_not, hfull]
  have htext : (definition.space ++ "." ++ path).toList =
      definition.space.toList ++ '.' :: path.toList := by simp
  rw [htext, Text.firstSegment_append_of_not_mem hslash]
  exact List.mem_append_right _ List.mem_cons_self

end TypeDef

namespace Script

/-- The types that were built, as the realm of runs over a program. -/
def Realm.built (program : Program) : Realm where
  program := program
  admits := TypeDef.IsBuilt

/-- The built definitions of a graph of built assemblies are a closed realm. -/
theorem Realm.closed_built {program : Program} {blueprints : List AssemblyBlueprint}
    (hgraph : program.graph = .ofAssemblies (blueprints.map AssemblyBlueprint.build)) :
    (built program).Closed where
  indexed _ hindexed := Graph.isBuilt_of_indexes (hgraph ▸ hindexed)
  nested _ houter _ hinner := houter.nested hinner

/-- Paths tell types apart: those of types with different full names differ, also that of
a type without a namespace and that of a type in a namespace called like the object
around it.  Namespaces apart, a run over assemblies that were built declares only what
belongs to a type that was built, and whatever belongs to types with different full
names has different paths. -/
theorem path_identifies_type (blueprints listed : List AssemblyBlueprint) (translator : Translator)
    (hgraph : translator.store.graph = .ofAssemblies (blueprints.map AssemblyBlueprint.build))
    (hlearned : translator.store.program.FinishesAll TypeDef.IsBuilt translator.store.cache)
    (sink : Sink) :
    (∀ left right : TypeDef,
      left.location.path = right.location.path ↔ left.fullName = right.fullName) ∧
    (∀ global spaced : TypeDef, global.location.parent = Location.globalParent →
      spaced.IsBuilt → spaced.space = Location.globalParent →
      global.location.path ≠ spaced.location.path) ∧
    (∀ declaration ∈ (translator.translate sink (listed.map AssemblyBlueprint.build)).output,
      (∃ path, declaration = .namespaceObject path) ∨
        ∃ model, translator.store.program.Finishes model ∧ model.definition.IsBuilt ∧
          declaration.BelongsTo model) ∧
    ∀ (left right : TypeModel) (declaration other : Declaration), declaration.BelongsTo left →
      other.BelongsTo right → declaration.place? = other.place? →
        left.fullName = right.fullName := by
  have hpath : ∀ left right : TypeDef, left.location.path = right.location.path →
      left.fullName = right.fullName :=
    fun left right heq => Location.path_ofFullName_injective heq
  refine ⟨fun left right => ⟨hpath left right, fun heq => ?_⟩, ?_, ?_, ?_⟩
  · rw [TypeDef.location, heq, TypeDef.location]
  · intro global spaced hglobal hbuilt hspace heq
    have hparent : spaced.location.parent = Location.globalParent := by
      rw [← hglobal, TypeDef.location, TypeDef.location, hpath _ _ heq]
    refine hbuilt.startsWithSpace.parent_location_ne ?_ ?_ hparent
    all_goals
      rw [hspace]
      decide
  · intro declaration hmem
    have hroots : ∀ assembly ∈ listed.map AssemblyBlueprint.build, ∀ top ∈ Run.roots assembly,
        top.IsBuilt := by
      intro assembly hassembly top htop
      obtain ⟨blueprint, -, rfl⟩ := List.mem_map.1 hassembly
      exact AssemblyBlueprint.isBuilt_of_mem_allTypes
        (Run.mem_allTypes_of_mem_roots (Run.mem_withNestedAll_of_mem htop))
    have hclosed : (Realm.built translator.store.program).Closed := Realm.closed_built hgraph
    obtain ⟨-, -, howns⟩ := hclosed.holds_translate rfl hlearned sink hroots
    refine (howns declaration hmem).imp_right fun hbelongs => ?_
    obtain ⟨model, hknows, hbelongs⟩ := hbelongs
    exact ⟨model, hknows.finishes, hknows.admits, hbelongs⟩
  · intro left right declaration other hleft hright heq
    rw [hleft.place?_eq, hright.place?_eq] at heq
    exact hpath _ _ (Option.some.inj heq)

/-- Two types of one name, the namespace of one called like the object around the other. -/
def programBlueprint (space : String) : TypeBlueprint :=
  { space, name := "Program" }

def programAssembly : AssemblyBlueprint :=
  { identity := { name := "App" }
    mainTypes := [programBlueprint "", programBlueprint Location.globalParent] }

/-- A global type and one in a namespace called like the global parent have different paths. -/
theorem path_identifies_type_programAssembly :
    let scope : Scope := { assembly := "App", module := "App.dll" }
    let global := (programBlueprint "").build scope none
    let spaced := (programBlueprint Location.globalParent).build scope none
    let translator := Translator.ofBlueprint programAssembly
    global.location.path ≠ spaced.location.path ∧
      ∀ declaration ∈ (translator.translate .collecting [programAssembly.build]).output,
        (∃ path, declaration = .namespaceObject path) ∨
          ∃ model, translator.store.program.Finishes model ∧ model.definition.IsBuilt ∧
            declaration.BelongsTo model := by
  intro scope global spaced translator
  have hlearned : translator.store.program.FinishesAll TypeDef.IsBuilt translator.store.cache :=
    Program.finishesAll_empty
  obtain ⟨-, hglobal, houtput, -⟩ :=
    path_identifies_type [programAssembly] [programAssembly] translator rfl hlearned .collecting
  have hparent : global.location.parent = Location.globalParent :=
    (Location.parent_ofFullName_eq_globalParent_iff _).2 (by decide)
  exact ⟨hglobal global spaced hparent ⟨scope, _, TypeDef.mem_withNested_self _⟩ rfl, houtput⟩

end Script

end Assemblage
