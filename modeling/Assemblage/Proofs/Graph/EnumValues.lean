import Assemblage.Proofs.Definition.FullNames
import Assemblage.Proofs.Graph.Loaded

/-!
# The type of an enumeration's values

A value that is added to an enumeration gets its type from the namespace and the name that
the blueprint has at that time.  When the blueprint is built, the type is replaced by a
reference to the finished definition if it has the namespace and the name of that one.  A
nested type takes its namespace from the outermost type around it, so this goes wrong
exactly for values of nested enumerations whose blueprints have another namespace: these
keep a reference that never leads to the enumeration.
-/

namespace Assemblage

namespace TypeBlueprint

/-- `BuiltFrom scope root source definition` says that the part `source` of the blueprint
`root` becomes `definition` when that is built. -/
inductive BuiltFrom (scope : Scope) (root : TypeBlueprint) : TypeBlueprint → TypeDef → Prop
  | root : BuiltFrom scope root root (root.build scope none)
  | nested {source part : TypeBlueprint} {definition : TypeDef}
      (h : BuiltFrom scope root source definition) (hpart : part ∈ source.nested) :
    BuiltFrom scope root part (part.build scope
      (some { space := definition.space, fullName := definition.fullName }))

section

variable {scope : Scope} {root source : TypeBlueprint} {definition : TypeDef}

theorem BuiltFrom.exists_build (h : BuiltFrom scope root source definition) :
    ∃ enclosing, definition = source.build scope enclosing := by
  cases h with
  | root => exact ⟨none, rfl⟩
  | nested => exact ⟨_, rfl⟩

/-- The namespace is that of the outermost blueprint. -/
theorem BuiltFrom.space_eq (h : BuiltFrom scope root source definition) :
    definition.space = root.space := by
  induction h with
  | root =>
    cases root
    rfl
  | nested _ _ ih => rw [space_build, ih]

theorem BuiltFrom.mem_withNested (h : BuiltFrom scope root source definition) :
    definition ∈ (root.build scope none).withNested := by
  induction h with
  | root => exact TypeDef.mem_withNested_self _
  | nested hsource hpart ih =>
    obtain ⟨enclosing, rfl⟩ := hsource.exists_build
    refine TypeDef.mem_withNested_of_nested ih ?_
    rw [nested_build]
    exact List.mem_map_of_mem hpart

/-- Whatever is inside a type that was built comes from a part of its blueprint. -/
theorem exists_builtFrom :
    ∀ inside ∈ (root.build scope none).withNested, ∃ part, BuiltFrom scope root part inside := by
  refine TypeDef.forall_withNested ?_ ⟨root, .root⟩
  rintro outer - ⟨source, houter⟩ inner hinner
  obtain ⟨enclosing, rfl⟩ := houter.exists_build
  rw [nested_build] at hinner
  obtain ⟨part, hpart, rfl⟩ := List.mem_map.1 hinner
  exact ⟨part, houter.nested hpart⟩

theorem fields_build (scope : Scope) (enclosing : Option Enclosing) (blueprint : TypeBlueprint) :
    (blueprint.build scope enclosing).fields =
      blueprint.fields.map (blueprint.build scope enclosing).placeField := by
  cases blueprint
  rfl

theorem name_build (scope : Scope) (enclosing : Option Enclosing) (blueprint : TypeBlueprint) :
    (blueprint.build scope enclosing).name = blueprint.name := by
  cases blueprint
  rfl

end

/-- The name by which a blueprint refers to itself. -/
def ownName (blueprint : TypeBlueprint) : TypeName :=
  { space := blueprint.space, path := blueprint.name }

/-- The field that is added for a value. -/
def enumValue (blueprint : TypeBlueprint) (name : String) (value : Int) : FieldDef :=
  ({ name, type := .value blueprint.ownName } : FieldDef).asLiteral (.int value)

/-- A value becomes the last field of the blueprint that it is added to. -/
theorem getElem?_fields_addEnumValue (blueprint : TypeBlueprint) (name : String) (value : Int) :
    (blueprint.addEnumValue name value).fields[blueprint.fields.length]? =
      some ((blueprint.addEnumValue name value).enumValue name value) :=
  List.getElem?_concat_length

/-- The values of an enum are constants. -/
theorem isLiteral_enumValue (blueprint : TypeBlueprint) (name : String) (value : Int) :
    (blueprint.enumValue name value).isLiteral = true := by
  change ((FieldFlag.isPublic |||
    (FieldFlag.isStatic ||| FieldFlag.literal ||| FieldFlag.hasDefault)).contains
      FieldFlag.literal && true) = true
  decide

section

variable {scope : Scope} {root source : TypeBlueprint} {definition : TypeDef}

/-- The type of a value is replaced if the namespace has stayed the same. -/
theorem BuiltFrom.type_placeField_enumValue (h : BuiltFrom scope root source definition)
    (name : String) (value : Int) :
    (definition.placeField (source.enumValue name value)).type =
      if source.space = root.space then definition.signature else .value source.ownName := by
  obtain ⟨enclosing, heq⟩ := h.exists_build
  have hname : definition.name = source.name := heq ▸ name_build scope enclosing source
  have hself : definition.isNamedBy (source.enumValue name value).type =
      decide (source.space = root.space) := by
    change ((source.space == definition.space) && (source.name == definition.name)) = _
    rw [hname, h.space_eq, beq_self_eq_true, Bool.and_true, beq_eq_decide]
  rw [TypeDef.placeField, isLiteral_enumValue, hself, Bool.true_and]
  simp only [decide_eq_true_eq]
  rfl

/-- A reference to a definition says which assembly it is from. -/
theorem signature_ne_ownName (definition : TypeDef) (blueprint : TypeBlueprint) :
    definition.signature ≠ .value blueprint.ownName := by
  intro heq
  have hscope := congrArg (fun signature => signature.definitionName?.map TypeName.scope) heq
  rw [TypeDef.signature] at hscope
  split at hscope <;> exact absurd (Option.some.inj hscope) (Option.some_ne_none _)

/-- A nested type is never called by a namespace and its simple name alone. -/
theorem fullName_ownName_ne (scope : Scope) (enclosing : Enclosing) (blueprint : TypeBlueprint) :
    (blueprint.build scope (some enclosing)).fullName ≠ blueprint.ownName.fullName := by
  intro heq
  rw [TypeDef.fullName, outer_build, Option.map_some, name_build, TypeName.fullName, ownName] at heq
  dsimp only at heq
  split at heq
  · have hlength := congrArg String.length heq
    have hslash : "/".length = 1 := by decide
    rw [String.length_append, String.length_append, hslash] at hlength
    omega
  · have htext := congrArg String.toList heq
    simp only [String.toList_append] at htext
    have hends := congrArg List.getLast? (List.append_cancel_right htext)
    simp at hends

end

end TypeBlueprint

namespace TypeDef

/-- The definition is in the graph, and no other one has its full name. -/
structure IsSoleIn (definition : TypeDef) (graph : Graph) : Prop where
  indexed : graph.Indexes definition
  sole : ∀ other, graph.Indexes other → other.fullName = definition.fullName → other = definition

theorem isSoleIn_singleton (assembly : String) (definition : TypeDef) :
    definition.IsSoleIn { index := [⟨assembly, definition⟩] } := by
  refine ⟨⟨_, List.mem_singleton_self _, rfl⟩, ?_⟩
  rintro other ⟨entry, hentry, rfl⟩ -
  rw [List.mem_singleton.1 hentry]

theorem definitionName?_signature (definition : TypeDef) :
    definition.signature.definitionName? = some definition.typeName := by
  rw [signature]
  split <;> rfl

/-- Wherever a definition is indexed, its own signature leads to one of its full name. -/
theorem StartsWithSpace.exists_resolve?_signature {definition : TypeDef}
    (h : definition.StartsWithSpace) {graph : Graph} (hindexed : graph.Indexes definition) :
    ∃ found, graph.resolve? definition.signature = some found ∧ graph.Indexes found ∧
      found.fullName = definition.fullName := by
  have hname := definition.definitionName?_signature
  cases hresolve : graph.resolve? definition.signature with
  | none =>
    obtain ⟨entry, hentry, rfl⟩ := hindexed
    exact absurd h.fullName_typeName.symm
      ((Graph.resolve?_eq_none_iff hname).1 hresolve entry hentry)
  | some found =>
    obtain ⟨name, entry, hfound, hentry, rfl, hfull⟩ := Graph.exists_entry_of_resolve? hresolve
    obtain rfl := Option.some.inj (hname.symm.trans hfound)
    exact ⟨_, rfl, ⟨entry, hentry, rfl⟩, hfull.trans h.fullName_typeName⟩

end TypeDef

namespace TypeBlueprint

/-- Whatever part of a blueprint a value was added to, the field that is built for it keeps
its name and its number, and has the signature of the definition that contains it exactly
if the part has the namespace of the outermost blueprint, so wherever it is the outermost
one itself.  Such a field leads to a definition of the same full name in every graph that
holds the one it is in, so to this one unless the name is defined twice.  The type of any
other value leads to the definition that contains it in no graph. -/
theorem enumValue_type_eq_signature_iff (scope : Scope) (root : TypeBlueprint) :
    (∀ definition, definition ∈ (root.build scope none).withNested ↔
      ∃ source, BuiltFrom scope root source definition) ∧
    ∀ source definition, BuiltFrom scope root source definition →
      ∀ (index : Nat) (name : String) (value : Int),
      source.fields[index]? = some (source.enumValue name value) →
      ∃ field, definition.fields[index]? = some field ∧ field.name = name ∧
        field.constant = some (.int value) ∧ field.isLiteral = true ∧
        (field.type = definition.signature ↔ source.space = root.space) ∧
        (source.space = root.space → ∀ graph : Graph,
          (graph.Indexes definition → ∃ found, graph.resolve? field.type = some found ∧
            found.fullName = definition.fullName) ∧
          (definition.IsSoleIn graph → graph.resolve? field.type = some definition)) ∧
        (source.space ≠ root.space → ∀ graph : Graph,
          graph.resolve? field.type ≠ some definition) := by
  refine ⟨fun definition => ⟨exists_builtFrom definition, fun ⟨_, h⟩ => h.mem_withNested⟩, ?_⟩
  intro source definition h index name value hfield
  have hplaced : definition.fields[index]? =
      some (definition.placeField (source.enumValue name value)) := by
    obtain ⟨enclosing, rfl⟩ := h.exists_build
    rw [fields_build, List.getElem?_map, hfield, Option.map_some]
  have htype := h.type_placeField_enumValue name value
  refine ⟨_, hplaced, rfl, rfl, isLiteral_enumValue source name value, ?own, ?leads, ?strays⟩
  case own =>
    rw [htype]
    split
    · rename_i hspace
      exact iff_of_true rfl hspace
    · rename_i hspace
      exact iff_of_false (signature_ne_ownName definition source).symm hspace
  case leads =>
    intro hspace graph
    have hstarts : definition.StartsWithSpace :=
      TypeDef.IsBuilt.startsWithSpace ⟨scope, root, h.mem_withNested⟩
    rw [htype, if_pos hspace]
    constructor
    · intro hindexed
      obtain ⟨found, hresolve, -, hfull⟩ := hstarts.exists_resolve?_signature hindexed
      exact ⟨found, hresolve, hfull⟩
    · intro hsole
      obtain ⟨found, hresolve, hfound, hfull⟩ := hstarts.exists_resolve?_signature hsole.indexed
      rw [hresolve, hsole.sole found hfound hfull]
  case strays =>
    intro hspace graph
    rw [htype, if_neg hspace]
    intro hresolve
    obtain ⟨found, -, hname, -, -, hfull⟩ := Graph.exists_entry_of_resolve? hresolve
    obtain rfl : source.ownName = found := Option.some.inj hname
    cases h with
    | root => exact hspace rfl
    | nested => exact fullName_ownName_ne scope _ source hfull

/-- An enumeration of one color whose blueprint has the given namespace. -/
def colorBlueprint (space : String) : TypeBlueprint :=
  (enumeration space "Color").addEnumValue "Red" 0

/-- A class around it. -/
def paletteBlueprint (space : String) : TypeBlueprint :=
  { space := "Gfx", name := "Palette", nested := [colorBlueprint space] }

def colorDefinition (space : String) : TypeDef :=
  (colorBlueprint space).build {} (some { space := "Gfx", fullName := "Gfx.Palette" })

theorem builtFrom_paletteBlueprint (space : String) :
    BuiltFrom {} (paletteBlueprint space) (colorBlueprint space) (colorDefinition space) :=
  .nested .root (List.mem_singleton_self _)

/-- Within the namespace of the class the color has the type of the enumeration. -/
theorem enumValue_type_eq_signature_iff_paletteBlueprint :
    let color := colorDefinition "Gfx"
    let graph : Graph := { index := [⟨"App", color⟩] }
    ∃ red, color.fields[1]? = some red ∧ red.name = "Red" ∧ red.type = color.signature ∧
      color.fullName = "Gfx.Palette/Color" ∧ graph.resolve? red.type = some color := by
  intro color graph
  obtain ⟨-, hparts⟩ := enumValue_type_eq_signature_iff {} (paletteBlueprint "Gfx")
  obtain ⟨red, hred, hname, -, -, hown, hleads, -⟩ :=
    hparts _ _ (builtFrom_paletteBlueprint "Gfx") 1 "Red" 0
      (getElem?_fields_addEnumValue (enumeration "Gfx" "Color") "Red" 0)
  have hsole : color.IsSoleIn graph := TypeDef.isSoleIn_singleton "App" color
  exact ⟨red, hred, hname, hown.2 rfl, by decide +kernel, (hleads rfl graph).2 hsole⟩

/-- With a namespace of its own, which the definition loses, its color is of another type,
which the graph does not have. -/
theorem not_enumValue_type_eq_signature :
    let color := colorDefinition "Web"
    let graph : Graph := { index := [⟨"App", color⟩] }
    color ∈ ((paletteBlueprint "Web").build {} none).withNested ∧ color.space = "Gfx" ∧
      color.IsSoleIn graph ∧
      ∃ red, color.fields[1]? = some red ∧ red.isLiteral = true ∧
        red.type = .value { space := "Web", path := "Color" } ∧ red.type ≠ color.signature ∧
        graph.resolve? red.type = none := by
  intro color graph
  have hbuilt := builtFrom_paletteBlueprint "Web"
  have htype : (color.placeField ((colorBlueprint "Web").enumValue "Red" 0)).type =
      .value (colorBlueprint "Web").ownName := by
    rw [hbuilt.type_placeField_enumValue]
    exact if_neg (by decide)
  have hsole : color.IsSoleIn graph := TypeDef.isSoleIn_singleton "App" color
  refine ⟨hbuilt.mem_withNested, rfl, hsole,
    color.placeField ((colorBlueprint "Web").enumValue "Red" 0), rfl,
    isLiteral_enumValue _ _ _, htype, ?_, ?_⟩
  · rw [htype]
    exact (signature_ne_ownName color _).symm
  · rw [htype]
    rfl

end TypeBlueprint

end Assemblage
