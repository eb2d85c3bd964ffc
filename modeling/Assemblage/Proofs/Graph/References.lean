import Assemblage.Proofs.Definition.FullNames
import Assemblage.Proofs.Graph.Loaded

/-!
# References to definitions

A reference has the identifier of the definition that it resolves to, whatever it
says about assemblies, arguments and encodings, and wherever it splits the name.
The reference has its arity from the path it carries and the definition has its
own from the path that is left of its full name; both are that of the full name.
-/

namespace Assemblage

/-- The identifier of a definition is that of its name, split at its namespace. -/
theorem TypeDef.StartsWithSpace.typeId_eq {definition : TypeDef}
    (h : definition.StartsWithSpace) : definition.typeId = TypeId.ofName definition.typeName := by
  rw [TypeId.ofName_eq, h.fullName_typeName, TypeDef.typeId]

namespace Graph

variable {graph : Graph} {signature other : Signature} {definition found : TypeDef}

/-- A graph of built assemblies has built definitions only. -/
theorem isBuilt_of_indexes {blueprints : List AssemblyBlueprint}
    (h : (ofAssemblies (blueprints.map AssemblyBlueprint.build)).Indexes definition) :
    definition.IsBuilt := by
  obtain ⟨assembly, hassembly, hdefinition⟩ := (loaded_ofAssemblies _).indexes_iff.1 h
  obtain ⟨blueprint, -, rfl⟩ := List.mem_map.1 (ofAssemblies_subset _ hassembly)
  exact AssemblyBlueprint.isBuilt_of_mem_allTypes hdefinition

/-- In a graph of assemblies that were built a reference has the identifier of its
definition, which is that of the definition's own name; and references have one
identifier exactly if their definitions have one full name. -/
theorem typeId_stable {blueprints : List AssemblyBlueprint}
    (h : (ofAssemblies (blueprints.map AssemblyBlueprint.build)).resolve? signature =
      some definition)
    (hother : (ofAssemblies (blueprints.map AssemblyBlueprint.build)).resolve? other =
      some found) :
    signature.typeId = definition.typeId ∧
      definition.typeId = TypeId.ofName definition.typeName ∧
      (signature.typeId = other.typeId ↔ definition.fullName = found.fullName) := by
  have hbuilt : definition.IsBuilt := isBuilt_of_indexes (exists_index_of_resolve? h)
  refine ⟨(typeId_of_resolve? h).symm, hbuilt.startsWithSpace.typeId_eq, ?_⟩
  rw [← typeId_of_resolve? h, ← typeId_of_resolve? hother]
  constructor
  · exact congrArg TypeId.fullName
  · intro hfull
    rw [TypeDef.typeId, hfull, TypeDef.typeId]

/-- A generic type inside another one. -/
def drawerBlueprint : TypeBlueprint :=
  { space := "", name := "Drawer\x602", generics := ["K", "V"] }

def cabinetBlueprint : TypeBlueprint :=
  { space := "Store.Room", name := "Cabinet\x601", nested := [drawerBlueprint], generics := ["T"] }

def cabinetAssembly : AssemblyBlueprint :=
  { identity := { name := "Store" }, mainTypes := [cabinetBlueprint] }

/-- An instance of the drawer, its name split after `Store`, and the drawer itself,
its name not split at all. -/
theorem typeId_stable_cabinetAssembly :
    let graph := ofAssemblies ([cabinetAssembly].map AssemblyBlueprint.build)
    let scope : Scope := { assembly := "Store", module := "Store.dll" }
    let drawer := drawerBlueprint.build scope (some ⟨"Store.Room", "Store.Room.Cabinet\x601"⟩)
    let left : Signature := .generic
      (.value { scope := some "Shop", space := "Store", path := "Room.Cabinet\x601/Drawer\x602" })
      [.primitive .int32, .primitive .string]
    let right : Signature :=
      .reference { space := "", path := "Store.Room.Cabinet\x601/Drawer\x602" }
    graph.resolve? left = some drawer ∧ graph.resolve? right = some drawer ∧
      drawer.typeName.path = "Cabinet\x601/Drawer\x602" ∧ drawer.typeId.arity = 2 ∧
      left.typeId = drawer.typeId ∧ drawer.typeId = TypeId.ofName drawer.typeName ∧
      (left.typeId = right.typeId ↔ drawer.fullName = drawer.fullName) := by
  intro graph scope drawer left right
  have hleft : graph.resolve? left = some drawer := rfl
  have hright : graph.resolve? right = some drawer := rfl
  exact ⟨hleft, hright, by decide +kernel, by decide +kernel, typeId_stable hleft hright⟩

end Graph

end Assemblage
