import Assemblage.Graph.Walk
import Assemblage.Proofs.Definition.Bodies

/-!
# Graphs with other bodies

References are resolved by names and scopes, so it makes no difference to them what
the bodies of methods are: in a graph with other bodies each finds the definition
that it found before, with other bodies.
-/

namespace Assemblage

variable {f : Body → Body}

def Entry.mapBodies (f : Body → Body) (entry : Entry) : Entry :=
  { entry with definition := entry.definition.mapBodies f }

@[simp]
theorem Entry.assembly_mapBodies (entry : Entry) :
    (entry.mapBodies f).assembly = entry.assembly := rfl

@[simp]
theorem Entry.definition_mapBodies (entry : Entry) :
    (entry.mapBodies f).definition = entry.definition.mapBodies f := rfl

theorem lookup_map_snd {κ α β : Type} [BEq κ] (g : α → β) (key : κ) (items : List (κ × α)) :
    (items.map fun item => (item.1, g item.2)).lookup key = (items.lookup key).map g := by
  induction items with
  | nil => rfl
  | cons item rest ih =>
    rw [List.map_cons, List.lookup_cons, List.lookup_cons, ih]
    cases key == item.1 <;> rfl

namespace Graph

def mapBodies (f : Body → Body) (graph : Graph) : Graph :=
  { assemblies := graph.assemblies.map (·.mapBodies f)
    index := graph.index.map (·.mapBodies f)
    modules := graph.modules.map fun item => (item.1, item.2.mapBodies f) }

variable (graph : Graph)

@[simp]
theorem mapBodies_id : (graph.mapBodies fun body => body) = graph := by
  simp [mapBodies, Entry.mapBodies]

theorem entriesOf_mapBodies (assembly : AssemblyDef) :
    entriesOf (assembly.mapBodies f) = (entriesOf assembly).map (·.mapBodies f) := by
  simp [entriesOf, AssemblyDef.allTypes_mapBodies, Entry.mapBodies]

theorem add_mapBodies (assembly : AssemblyDef) :
    (graph.mapBodies f).add (assembly.mapBodies f) = (graph.add assembly).mapBodies f := by
  have hcontains : (graph.mapBodies f).contains (assembly.mapBodies f).fullName =
      graph.contains assembly.fullName := by
    simp [contains, mapBodies, List.any_map, Function.comp_def]
  rw [add, add, hcontains]
  split
  · rfl
  · rw [entriesOf_mapBodies]
    simp [mapBodies, AssemblyDef.mapBodies, AssemblyDef.name, ModuleDef.mapBodies]

/-- A graph of changed assemblies is the changed graph. -/
theorem ofAssemblies_mapBodies (assemblies : List AssemblyDef) :
    ofAssemblies (assemblies.map (·.mapBodies f)) = (ofAssemblies assemblies).mapBodies f := by
  rw [ofAssemblies, ofAssemblies, List.foldl_map]
  have hfold : ∀ start : Graph,
      assemblies.foldl (fun graph assembly => graph.add (assembly.mapBodies f))
        (start.mapBodies f) = (assemblies.foldl add start).mapBodies f := by
    induction assemblies with
    | nil => exact fun _ => rfl
    | cons assembly rest ih =>
      intro start
      rw [List.foldl_cons, List.foldl_cons, add_mapBodies, ih]
  exact hfold {}

theorem candidates_mapBodies (fullName : String) :
    (graph.mapBodies f).candidates fullName =
      (graph.candidates fullName).map (·.mapBodies f) := by
  simp [candidates, mapBodies, List.filter_map, Function.comp_def]

theorem select?_mapBodies (scope : Option String) (candidates : List Entry) :
    select? scope (candidates.map (·.mapBodies f)) =
      (select? scope candidates).map (·.mapBodies f) := by
  cases scope <;> simp [select?, List.find?_map, Function.comp_def, Option.map_or]

theorem resolveName?_mapBodies (name : TypeName) :
    (graph.mapBodies f).resolveName? name =
      (graph.resolveName? name).map (·.mapBodies f) := by
  simp [resolveName?, candidates_mapBodies, select?_mapBodies, Function.comp_def]

/-- References are resolved to the same definitions, with their bodies changed. -/
theorem resolve?_mapBodies (signature : Signature) :
    (graph.mapBodies f).resolve? signature = (graph.resolve? signature).map (·.mapBodies f) := by
  rw [resolve?, resolve?, Option.map_bind]
  exact congrArg _ (funext (graph.resolveName?_mapBodies ·))

theorem moduleOf?_mapBodies (definition : TypeDef) :
    (graph.mapBodies f).moduleOf? (definition.mapBodies f) =
      (graph.moduleOf? definition).map (·.mapBodies f) := by
  rw [moduleOf?, TypeDef.scope_mapBodies]
  exact lookup_map_snd (ModuleDef.mapBodies f) _ graph.modules

theorem declaringType?_mapBodies (definition : TypeDef) :
    (graph.mapBodies f).declaringType? (definition.mapBodies f) =
      (graph.declaringType? definition).map (·.mapBodies f) := by
  simp [declaringType?, Option.map_bind, candidates_mapBodies, List.find?_map, Function.comp_def,
    Option.map_or]

theorem baseType?_mapBodies (definition : TypeDef) :
    (graph.mapBodies f).baseType? (definition.mapBodies f) =
      (graph.baseType? definition).map (·.mapBodies f) := by
  rw [baseType?, baseType?, TypeDef.base_mapBodies, Option.map_bind]
  exact congrArg _ (funext (graph.resolve?_mapBodies ·))

@[simp]
theorem isStruct_mapBodies (signature : Signature) :
    (graph.mapBodies f).isStruct signature = graph.isStruct signature := by
  rw [isStruct, isStruct, resolve?_mapBodies]
  cases graph.resolve? signature <;> simp

@[simp]
theorem isEnum_mapBodies (signature : Signature) :
    (graph.mapBodies f).isEnum signature = graph.isEnum signature := by
  rw [isEnum, isEnum, resolve?_mapBodies]
  cases graph.resolve? signature <;> simp

theorem ancestorNamesFrom_mapBodies (seen : List String) (base : Option Signature) :
    (graph.mapBodies f).ancestorNamesFrom seen base = graph.ancestorNamesFrom seen base := by
  fun_induction ancestorNamesFrom graph seen base with
  | case1 seen => rw [ancestorNamesFrom]
  | case2 seen base hname =>
    rw [ancestorNamesFrom]
    split
    · rfl
    · rename_i hsome
      simp [hname] at hsome
  | case3 seen base name hname hseen =>
    rw [ancestorNamesFrom]
    split
    · rfl
    · rename_i other hother
      obtain rfl := Option.some.inj (hname.symm.trans hother)
      exact dif_pos hseen
  | case4 seen base name hname hseen ih =>
    rw [ancestorNamesFrom]
    split
    · rename_i hnone
      simp [hname] at hnone
    · rename_i other hother
      obtain rfl := Option.some.inj (hname.symm.trans hother)
      rw [dif_neg hseen]
      congr 1
      split
      · rename_i parent hparent
        rw [resolve?_mapBodies] at hparent
        obtain ⟨own, hown, rfl⟩ := Option.map_eq_some_iff.1 hparent
        rw [TypeDef.base_mapBodies, ih own hown]
        split
        · rename_i found hfound
          rw [Option.some.inj (hown.symm.trans hfound)]
        · rename_i hnone
          simp [hown] at hnone
      · rename_i hnone
        rw [resolve?_mapBodies, Option.map_eq_none_iff] at hnone
        split
        · rename_i found hfound
          simp [hfound] at hnone
        · rfl

@[simp]
theorem ancestorNames_mapBodies (definition : TypeDef) :
    (graph.mapBodies f).ancestorNames (definition.mapBodies f) =
      graph.ancestorNames definition := by
  simp [ancestorNames, ancestorNamesFrom_mapBodies]

theorem reaches_mapBodies (target : TypeId) (seen : List TypeId) (pending : List Signature) :
    (graph.mapBodies f).reaches target seen pending = graph.reaches target seen pending := by
  fun_induction reaches graph target seen pending with
  | case1 => rw [reaches]
  | case2 seen reference rest htarget => rw [reaches, if_pos htarget]
  | case3 seen reference rest htarget hseen ih => rw [reaches, if_neg htarget, dif_pos hseen, ih]
  | case4 seen reference rest htarget hseen parent hresolve ih =>
    rw [reaches, if_neg htarget, dif_neg hseen]
    split
    · rename_i found hfound
      rw [resolve?_mapBodies, hresolve] at hfound
      obtain rfl := Option.some.inj hfound
      rw [TypeDef.parents_mapBodies, ih]
    · rename_i hnone
      simp [resolve?_mapBodies, hresolve] at hnone
  | case5 seen reference rest htarget hseen hresolve ih =>
    rw [reaches, if_neg htarget, dif_neg hseen]
    split
    · rename_i found hfound
      simp [resolve?_mapBodies, hresolve] at hfound
    · exact ih

@[simp]
theorem isAssignableTo_mapBodies (definition : TypeDef) (target : TypeId) :
    (graph.mapBodies f).isAssignableTo (definition.mapBodies f) target =
      graph.isAssignableTo definition target := by
  simp [isAssignableTo, reaches_mapBodies]

end Graph

end Assemblage
