import Assemblage.Proofs.Model.Bodies
import Assemblage.Script.Assembly

/-!
# What declarations say with other bodies

Apart from the functions of methods no part of a declaration depends on what the
bodies in a program are.
-/

namespace Assemblage.Script

variable {f : Body → Body}

@[simp]
theorem interfaceMember?_mapBodies (member : Member) :
    interfaceMember? (member.mapBodies f) = interfaceMember? member := by
  rw [interfaceMember?, interfaceMember?, Member.isIgnored_mapBodies, Member.definition_mapBodies]
  cases member.definition <;> rfl

/-- The declaration of a type does not depend on bodies. -/
@[simp]
theorem typeDeclaration_mapBodies (model : TypeModel) :
    typeDeclaration (model.mapBodies f) = typeDeclaration model := by
  have hmembers : interfaceMembers (model.mapBodies f) = interfaceMembers model := by
    simp [interfaceMembers, List.filterMap_map]
  simp only [typeDeclaration, TypeModel.kind_mapBodies, TypeModel.fullName_mapBodies,
    TypeModel.definition_mapBodies, TypeDef.location_mapBodies, TypeDef.base_mapBodies,
    TypeModel.isFlags_mapBodies, hmembers, enumerationValues, TypeModel.enumMembers_mapBodies]

theorem sameAssembly_mapBodies (left right : TypeDef) :
    (left.mapBodies f).sameAssembly (right.mapBodies f) = left.sameAssembly right := by
  simp [TypeDef.sameAssembly]

theorem ownBase?_mapBodies (graph : Graph) (definition : TypeDef) :
    Run.ownBase? (graph.mapBodies f) (definition.mapBodies f) =
      (Run.ownBase? graph definition).map (·.mapBodies f) := by
  rw [Run.ownBase?, Run.ownBase?, Graph.baseType?_mapBodies]
  cases graph.baseType? definition with
  | none => rfl
  | some base => simp [Option.filter, sameAssembly_mapBodies]

theorem baseCycle_mapBodies (definition : TypeDef) :
    Run.baseCycle (definition.mapBodies f) = Run.baseCycle definition := by
  simp [Run.baseCycle]

@[simp]
theorem methodName_mapBodies (model : TypeModel) (member : Member) :
    methodName (model.mapBodies f) (member.mapBodies f) = methodName model member := by
  simp [methodName]

theorem overloadsOf_mapBodies (group : MethodGroup) :
    overloadsOf (group.mapBodies f) = overloadsOf group := by
  apply List.ext_getElem?
  intro index
  rw [overloadsOf, overloadsOf, List.getElem?_mapIdx, List.getElem?_mapIdx, MethodGroup.mapBodies,
    List.getElem?_map, Option.map_map]
  simp only [Function.comp_def, Member.id_mapBodies]
  rfl

theorem parameterTypes_mapBodies (graph : Graph) (definition : TypeDef) (group : MethodGroup) :
    parameterTypes (graph.mapBodies f) (definition.mapBodies f) (group.mapBodies f) =
      (parameterTypes graph definition group).map (·.mapBodies f) := by
  have hparameters : ((group.mapBodies f).methods.filterMap (·.definition.method?)).flatMap
      (·.parameters) = (group.methods.filterMap (·.definition.method?)).flatMap (·.parameters) := by
    have hmethod : ∀ member : Member, (member.mapBodies f).definition.method? =
        member.definition.method?.map (·.mapBodies f) :=
      fun member => member.definition.method?_mapBodies
    rw [MethodGroup.mapBodies, List.filterMap_map]
    simp only [Function.comp_def, hmethod, ← List.map_filterMap, List.flatMap_map,
      MethodDef.parameters_mapBodies]
  have hsame : ∀ type : TypeDef, (type.mapBodies f).sameModule (definition.mapBodies f) =
      type.sameModule definition := by
    intro type
    simp [TypeDef.sameModule, sameAssembly_mapBodies]
  simp only [parameterTypes, hparameters, Graph.resolve?_mapBodies, ← List.map_filterMap,
    List.filter_map, Function.comp_def, hsame]

theorem accessorName?_mapBodies (model : TypeModel) (accessor : MethodDef) :
    accessorName? (model.mapBodies f) (accessor.mapBodies f) = accessorName? model accessor := by
  rw [accessorName?, accessorName?, MethodDef.id_mapBodies, TypeModel.member?_mapBodies]
  cases model.member? accessor.id with
  | none => rfl
  | some member => simp [Option.filter]

theorem propertyDeclaration?_mapBodies (model : TypeModel) (path : String) (member : Member) :
    propertyDeclaration? (model.mapBodies f) path (member.mapBodies f) =
      propertyDeclaration? model path member := by
  have haccessor : ∀ accessor : Option MethodDef,
      (accessor.map (·.mapBodies f)).bind (accessorName? (model.mapBodies f)) =
        accessor.bind (accessorName? model) := by
    intro accessor
    cases accessor with
    | none => rfl
    | some method => exact accessorName?_mapBodies model method
  rw [propertyDeclaration?, propertyDeclaration?, Member.isIgnored_mapBodies,
    Member.definition_mapBodies, MemberDef.property?_mapBodies, Option.map_map]
  simp only [Function.comp_def, PropertyDef.getter_mapBodies, PropertyDef.setter_mapBodies,
    haccessor, PropertyDef.isStatic_mapBodies, PropertyDef.name_mapBodies]

theorem interfaceDeclarations_mapBodies {left : Store} (store : Store) (path : String)
    (definition : TypeDef)
    (hprogram : left.program = store.program.mapBodies f)
    (hcache : left.cache = store.cache.mapBodies f) :
    interfaceDeclarations left path (definition.mapBodies f) =
      interfaceDeclarations store path definition := by
  simp [interfaceDeclarations, Store.ignores, hprogram, hcache]

theorem fieldDeclarations_mapBodies (graph : Graph) (path : String) (model : TypeModel) :
    fieldDeclarations (graph.mapBodies f) path (model.mapBodies f) =
      fieldDeclarations graph path model := by
  have hdefault : ∀ type, defaultText (graph.mapBodies f) type = defaultText graph type := by
    intro type
    simp only [defaultText, Graph.isEnum_mapBodies]
  have hprovided : ∀ member : Member, providedField? (member.mapBodies f) =
      providedField? member := by
    intro member
    simp [providedField?]
  have hfield : ∀ member : Member,
      fieldDeclaration? (graph.mapBodies f) path (member.mapBodies f) =
        fieldDeclaration? graph path member := by
    intro member
    simp only [fieldDeclaration?, hprovided, hdefault, Graph.isStruct_mapBodies,
      Member.setByStaticConstructor_mapBodies]
  have hstruct : ∀ member : Member,
      structField? (graph.mapBodies f) (member.mapBodies f) = structField? graph member := by
    intro member
    simp only [structField?, hprovided, Graph.isStruct_mapBodies]
  simp only [fieldDeclarations, TypeModel.fields_mapBodies, List.filterMap_map, Function.comp_def,
    hfield, hstruct]

theorem fieldInitializers_mapBodies (model : TypeModel) :
    fieldInitializers (model.mapBodies f) = fieldInitializers model := by
  simp [fieldInitializers]

theorem roots_mapBodies (assembly : AssemblyDef) :
    Run.roots (assembly.mapBodies f) = (Run.roots assembly).map (·.mapBodies f) := by
  simp [Run.roots, AssemblyDef.mapBodies, List.filter_map, List.flatMap_map, List.map_flatMap,
    Function.comp_def]
  rfl

end Assemblage.Script
