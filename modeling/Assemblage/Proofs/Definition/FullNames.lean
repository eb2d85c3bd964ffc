import Assemblage.Proofs.Definition.Nesting

/-!
# Full names and namespaces

A definition that was built has a full name that begins with its namespace,
however deep it is nested: the namespace and the full name both come from the
outermost type.  So its full name can be cut into a namespace and a path and
put together again.
-/

namespace Assemblage

namespace TypeDef

variable {definition inner : TypeDef}

/-- The full name is the namespace, a period and a path, or there is no namespace. -/
def StartsWithSpace (definition : TypeDef) : Prop :=
  definition.space = "" ∨ ∃ path, definition.fullName = definition.space ++ "." ++ path

theorem startsWithSpace_of_outer (h : definition.outer = none) : definition.StartsWithSpace := by
  rw [StartsWithSpace, fullName, h]
  by_cases hspace : definition.space = ""
  · exact .inl hspace
  · exact .inr ⟨definition.name, if_neg (by simpa using hspace)⟩

/-- A nested type goes on with the full name of the type around it. -/
theorem StartsWithSpace.nested (h : definition.StartsWithSpace) (hencloses : definition.Encloses)
    (hinner : inner ∈ definition.nested) : inner.StartsWithSpace := by
  obtain ⟨houter, hspace, -⟩ := hencloses inner hinner
  rw [StartsWithSpace, hspace]
  refine h.imp_right ?_
  rintro ⟨path, hfull⟩
  refine ⟨path ++ "/" ++ inner.name, ?_⟩
  rw [fullName, houter, hfull]
  simp only [String.append_assoc]

/-- The namespace and the path make up the full name again. -/
theorem StartsWithSpace.fullName_typeName (h : definition.StartsWithSpace) :
    definition.typeName.fullName = definition.fullName := by
  rw [TypeName.fullName, typeName, path]
  dsimp only
  by_cases hempty : definition.space.isEmpty = true
  · rw [if_pos hempty, if_pos hempty]
  rw [if_neg hempty, if_neg hempty]
  obtain hspace | ⟨path, hfull⟩ := h
  · exact absurd (by simp [hspace]) hempty
  · have htext : (definition.space ++ "." ++ path).toList =
        (definition.space.toList ++ ['.']) ++ path.toList := by simp
    rw [hfull, htext, List.drop_left' (by simp [String.length]), String.ofList_toList]

/-- The definition was built, on its own or as part of an assembly, or is nested in
one that was. -/
def IsBuilt (definition : TypeDef) : Prop :=
  ∃ (scope : Scope) (blueprint : TypeBlueprint),
    definition ∈ (blueprint.build scope none).withNested

theorem IsBuilt.startsWithSpace (h : definition.IsBuilt) : definition.StartsWithSpace := by
  obtain ⟨scope, blueprint, hinside⟩ := h
  refine forall_withNested ?_ (startsWithSpace_of_outer (TypeBlueprint.outer_build _ _ _)) _ hinside
  intro outer houter hstarts inner hinner
  obtain ⟨around, source, rfl⟩ := TypeBlueprint.exists_build_of_mem_withNested outer houter
  exact hstarts.nested (TypeBlueprint.encloses_build _ around source) hinner

end TypeDef

/-- The types of a built assembly are built. -/
theorem AssemblyBlueprint.isBuilt_of_mem_allTypes {blueprint : AssemblyBlueprint}
    {definition : TypeDef} (h : definition ∈ blueprint.build.allTypes) : definition.IsBuilt := by
  obtain ⟨part, hpart, top, htop, hinside⟩ := AssemblyDef.mem_allTypes_iff.1 h
  obtain ⟨outline, -, rfl⟩ := List.mem_map.1 hpart
  rw [ModuleBlueprint.build, TypeBlueprint.buildAll_eq_map] at htop
  obtain ⟨source, -, rfl⟩ := List.mem_map.1 htop
  exact ⟨_, source, hinside⟩

end Assemblage
