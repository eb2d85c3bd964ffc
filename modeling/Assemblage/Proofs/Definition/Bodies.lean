import Assemblage.Definition.Type
import Assemblage.Proofs.Definition.Nesting
import Assemblage.Script.Location

/-!
# Definitions with other bodies

The bodies of methods can be exchanged throughout a definition.  Whether a method
has a body stays as it is, and so does everything else: names, identifiers, flags
and kinds do not depend on what the bodies are.
-/

namespace Assemblage

variable {f : Body → Body}

theorem map_eq_self {α : Type} {g : α → α} {items : List α} (h : ∀ item ∈ items, g item = item) :
    items.map g = items :=
  (List.map_congr_left h).trans (List.map_id' items)

theorem mem_middle {α : Type} {item other : α} {before after : List α} :
    item ∈ before ++ other :: after ↔ item = other ∨ item ∈ before ++ after :=
  List.perm_middle.mem_iff.trans List.mem_cons

/-- What leaves all other items alone changes one. -/
theorem map_middle {α : Type} {g : α → α} {item : α} {before after : List α}
    (h : ∀ other ∈ before ++ after, g other = other) :
    (before ++ item :: after).map g = before ++ g item :: after := by
  rw [List.forall_mem_append] at h
  rw [List.map_append, List.map_cons, map_eq_self h.1, map_eq_self h.2]

namespace MethodDef

def mapBodies (f : Body → Body) (method : MethodDef) : MethodDef :=
  { method with body := method.body.map f }

variable (method : MethodDef)

@[simp]
theorem name_mapBodies : (method.mapBodies f).name = method.name := rfl

@[simp]
theorem body_mapBodies : (method.mapBodies f).body = method.body.map f := rfl

@[simp]
theorem parameters_mapBodies : (method.mapBodies f).parameters = method.parameters := rfl

@[simp]
theorem attributes_mapBodies : (method.mapBodies f).attributes = method.attributes := rfl

@[simp]
theorem isStatic_mapBodies : (method.mapBodies f).isStatic = method.isStatic := rfl

@[simp]
theorem isAbstract_mapBodies : (method.mapBodies f).isAbstract = method.isAbstract := rfl

@[simp]
theorem isStaticConstructor_mapBodies :
    (method.mapBodies f).isStaticConstructor = method.isStaticConstructor := rfl

@[simp]
theorem isRuntimeImplemented_mapBodies :
    (method.mapBodies f).isRuntimeImplemented = method.isRuntimeImplemented := by
  simp [isRuntimeImplemented, mapBodies]

@[simp]
theorem fullName_mapBodies : (method.mapBodies f).fullName = method.fullName := rfl

@[simp]
theorem marks_mapBodies : (method.mapBodies f).marks = method.marks := rfl

@[simp]
theorem id_mapBodies : (method.mapBodies f).id = method.id := rfl

theorem mapBodies_eq_self (h : ∀ body, method.body = some body → f body = body) :
    method.mapBodies f = method := by
  have hbody : method.body.map f = method.body := by
    cases hcase : method.body with
    | none => rfl
    | some body => rw [Option.map_some, h body hcase]
  rw [mapBodies, hbody]

@[simp]
theorem mapBodies_id : (method.mapBodies fun body => body) = method :=
  method.mapBodies_eq_self fun _ _ => rfl

end MethodDef

namespace PropertyDef

def mapBodies (f : Body → Body) (property : PropertyDef) : PropertyDef :=
  { property with
    getter := property.getter.map (·.mapBodies f)
    setter := property.setter.map (·.mapBodies f) }

variable (property : PropertyDef)

@[simp]
theorem name_mapBodies : (property.mapBodies f).name = property.name := rfl

@[simp]
theorem getter_mapBodies :
    (property.mapBodies f).getter = property.getter.map (·.mapBodies f) := rfl

@[simp]
theorem setter_mapBodies :
    (property.mapBodies f).setter = property.setter.map (·.mapBodies f) := rfl

@[simp]
theorem marks_mapBodies : (property.mapBodies f).marks = property.marks := rfl

@[simp]
theorem id_mapBodies : (property.mapBodies f).id = property.id := rfl

@[simp]
theorem isStatic_mapBodies : (property.mapBodies f).isStatic = property.isStatic := by
  rw [isStatic, isStatic, getter_mapBodies, setter_mapBodies, ← Option.map_or, Option.any_map]
  rfl

/-- The bodies of the accessors. -/
def bodies (property : PropertyDef) : List Body :=
  (property.getter.toList ++ property.setter.toList).flatMap (·.body.toList)

theorem mapBodies_eq_self (h : ∀ body ∈ property.bodies, f body = body) :
    property.mapBodies f = property := by
  have haccessor : ∀ accessor : Option MethodDef,
      accessor.toList ⊆ property.getter.toList ++ property.setter.toList →
        accessor.map (·.mapBodies f) = accessor := by
    intro accessor haccessor
    cases accessor with
    | none => rfl
    | some method =>
      have hmethod := haccessor (List.mem_singleton_self method)
      rw [Option.map_some, method.mapBodies_eq_self fun body hbody =>
        h body (List.mem_flatMap.2 ⟨method, hmethod, Option.mem_toList.2 hbody⟩)]
  rw [mapBodies, haccessor _ (List.subset_append_left _ _),
    haccessor _ (List.subset_append_right _ _)]

@[simp]
theorem mapBodies_id : (property.mapBodies fun body => body) = property :=
  property.mapBodies_eq_self fun _ _ => rfl

end PropertyDef

/-! ## Types -/

namespace TypeDef

mutual

def mapBodies (f : Body → Body) : TypeDef → TypeDef
  | ⟨space, name, flags, base, interfaces, fields, methods, properties, nested, generics,
      attributes, scope, outer⟩ =>
    ⟨space, name, flags, base, interfaces, fields, methods.map (·.mapBodies f),
      properties.map (·.mapBodies f), mapBodiesAll f nested, generics, attributes, scope, outer⟩

def mapBodiesAll (f : Body → Body) : List TypeDef → List TypeDef
  | [] => []
  | definition :: rest => mapBodies f definition :: mapBodiesAll f rest

end

theorem mapBodiesAll_eq_map (definitions : List TypeDef) :
    mapBodiesAll f definitions = definitions.map (mapBodies f) := by
  induction definitions with
  | nil => rfl
  | cons definition rest ih => rw [mapBodiesAll, ih, List.map_cons]

/-- A change of bodies goes through the methods, the properties and the nested types. -/
theorem mapBodies_eq (definition : TypeDef) :
    definition.mapBodies f =
      { definition with
        methods := definition.methods.map (·.mapBodies f)
        properties := definition.properties.map (·.mapBodies f)
        nested := definition.nested.map (mapBodies f) } := by
  cases definition
  rw [mapBodies, mapBodiesAll_eq_map]

variable (definition : TypeDef)

@[simp]
theorem space_mapBodies : (definition.mapBodies f).space = definition.space := by
  rw [mapBodies_eq]

@[simp]
theorem name_mapBodies : (definition.mapBodies f).name = definition.name := by
  rw [mapBodies_eq]

@[simp]
theorem flags_mapBodies : (definition.mapBodies f).flags = definition.flags := by
  rw [mapBodies_eq]

@[simp]
theorem base_mapBodies : (definition.mapBodies f).base = definition.base := by
  rw [mapBodies_eq]

@[simp]
theorem interfaces_mapBodies : (definition.mapBodies f).interfaces = definition.interfaces := by
  rw [mapBodies_eq]

@[simp]
theorem fields_mapBodies : (definition.mapBodies f).fields = definition.fields := by
  rw [mapBodies_eq]

@[simp]
theorem methods_mapBodies :
    (definition.mapBodies f).methods = definition.methods.map (·.mapBodies f) := by
  rw [mapBodies_eq]

@[simp]
theorem properties_mapBodies :
    (definition.mapBodies f).properties = definition.properties.map (·.mapBodies f) := by
  rw [mapBodies_eq]

@[simp]
theorem nested_mapBodies :
    (definition.mapBodies f).nested = definition.nested.map (mapBodies f) := by
  rw [mapBodies_eq]

@[simp]
theorem attributes_mapBodies : (definition.mapBodies f).attributes = definition.attributes := by
  rw [mapBodies_eq]

@[simp]
theorem scope_mapBodies : (definition.mapBodies f).scope = definition.scope := by
  rw [mapBodies_eq]

@[simp]
theorem outer_mapBodies : (definition.mapBodies f).outer = definition.outer := by
  rw [mapBodies_eq]

@[simp]
theorem fullName_mapBodies : (definition.mapBodies f).fullName = definition.fullName := by
  simp [fullName]

@[simp]
theorem typeId_mapBodies : (definition.mapBodies f).typeId = definition.typeId := by
  simp [typeId]

@[simp]
theorem location_mapBodies : (definition.mapBodies f).location = definition.location := by
  simp [location]

@[simp]
theorem isEnum_mapBodies : (definition.mapBodies f).isEnum = definition.isEnum := by
  simp [isEnum, hasBase]

@[simp]
theorem isValueType_mapBodies : (definition.mapBodies f).isValueType = definition.isValueType := by
  simp [isValueType, hasBase]

@[simp]
theorem isNested_mapBodies : (definition.mapBodies f).isNested = definition.isNested := by
  simp [isNested]

@[simp]
theorem kind_mapBodies : (definition.mapBodies f).kind = definition.kind := by
  simp [kind, isInterface, isStaticClass]

@[simp]
theorem marks_mapBodies : (definition.mapBodies f).marks = definition.marks := by
  simp [marks]

@[simp]
theorem parents_mapBodies : (definition.mapBodies f).parents = definition.parents := by
  simp [parents]

@[simp]
theorem signature_mapBodies : (definition.mapBodies f).signature = definition.signature := by
  simp [signature, typeName, path]

/-- The types inside a changed type are those inside the type, changed. -/
@[simp]
theorem withNested_mapBodies :
    (definition.mapBodies f).withNested = definition.withNested.map (mapBodies f) := by
  induction definition using induction_nested with
  | step definition ih =>
    rw [withNested_eq_cons, withNested_eq_cons, nested_mapBodies, List.flatMap_map, List.map_cons,
      List.map_flatMap]
    exact congrArg _ (List.flatMap_congr ih)

theorem withNestedAll_mapBodies (types : List TypeDef) :
    withNestedAll (types.map (mapBodies f)) = (withNestedAll types).map (mapBodies f) := by
  simp [withNestedAll_eq_flatMap, List.flatMap_map, List.map_flatMap]

/-- Every body in a definition, those of nested types included. -/
def bodies (definition : TypeDef) : List Body :=
  definition.withNested.flatMap fun inside =>
    inside.methods.flatMap (·.body.toList) ++ inside.properties.flatMap PropertyDef.bodies

/-- A type is left alone by a change that leaves its bodies alone. -/
theorem mapBodies_eq_self {definition : TypeDef} (h : ∀ body ∈ definition.bodies, f body = body) :
    definition.mapBodies f = definition := by
  induction definition using induction_nested with
  | step definition ih =>
    rw [bodies, withNested_eq_cons, List.flatMap_cons, List.flatMap_assoc,
      List.forall_mem_append, List.forall_mem_append] at h
    obtain ⟨⟨hown, haccessors⟩, hinside⟩ := h
    have hmethods : definition.methods.map (·.mapBodies f) = definition.methods :=
      map_eq_self fun method hmethod => method.mapBodies_eq_self fun body hbody =>
        hown body (List.mem_flatMap.2 ⟨method, hmethod, Option.mem_toList.2 hbody⟩)
    have hproperties : definition.properties.map (·.mapBodies f) = definition.properties :=
      map_eq_self fun property hproperty => property.mapBodies_eq_self fun body hbody =>
        haccessors body (List.mem_flatMap.2 ⟨property, hproperty, hbody⟩)
    have hnested : definition.nested.map (mapBodies f) = definition.nested :=
      map_eq_self fun inner hinner => ih inner hinner fun body hbody =>
        hinside body (List.mem_flatMap.2 ⟨inner, hinner, hbody⟩)
    rw [mapBodies_eq, hmethods, hproperties, hnested]
    cases definition
    rfl

@[simp]
theorem mapBodies_id : (definition.mapBodies fun body => body) = definition :=
  mapBodies_eq_self fun _ _ => rfl

end TypeDef

namespace ModuleDef

def mapBodies (f : Body → Body) (part : ModuleDef) : ModuleDef :=
  { part with types := part.types.map (·.mapBodies f) }

variable (part : ModuleDef)

@[simp]
theorem isIgnored_mapBodies : (part.mapBodies f).isIgnored = part.isIgnored := rfl

@[simp]
theorem mapBodies_id : (part.mapBodies fun body => body) = part := by
  simp [mapBodies]

theorem allTypes_mapBodies : (part.mapBodies f).allTypes = part.allTypes.map (·.mapBodies f) := by
  simp [allTypes, mapBodies, TypeDef.withNestedAll_mapBodies]

end ModuleDef

namespace AssemblyDef

def mapBodies (f : Body → Body) (assembly : AssemblyDef) : AssemblyDef :=
  { assembly with modules := assembly.modules.map (·.mapBodies f) }

variable (assembly : AssemblyDef)

@[simp]
theorem name_mapBodies : (assembly.mapBodies f).name = assembly.name := rfl

@[simp]
theorem fullName_mapBodies : (assembly.mapBodies f).fullName = assembly.fullName := rfl

@[simp]
theorem mapBodies_id : (assembly.mapBodies fun body => body) = assembly := by
  simp [mapBodies]

theorem allTypes_mapBodies :
    (assembly.mapBodies f).allTypes = assembly.allTypes.map (·.mapBodies f) := by
  simp [allTypes, mapBodies, List.flatMap_map, List.map_flatMap, ModuleDef.allTypes_mapBodies]

end AssemblyDef

end Assemblage
