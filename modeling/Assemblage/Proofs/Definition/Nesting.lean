import Assemblage.Definition.Blueprint
import Mathlib.Data.List.Nodup
import Mathlib.Data.List.Perm.Basic

/-!
# Nested types

A type stands for itself and all types inside it.  In a well-formed assembly the
types know where they are: each has the scope of its module, and a nested type
has the namespace of the type around it and carries its full name.  Assemblies
that are built from blueprints are well formed.
-/

namespace Assemblage

namespace TypeDef

/-- Induction over a type from its nested types outwards. -/
theorem induction_nested {P : TypeDef → Prop}
    (step : ∀ definition : TypeDef, (∀ inner ∈ definition.nested, P inner) → P definition) :
    ∀ definition : TypeDef, P definition
  | ⟨_, _, _, _, _, _, _, _, nested, _, _, _, _⟩ =>
    step _ fun inner (_ : inner ∈ nested) => induction_nested step inner

theorem withNestedAll_eq_flatMap (definitions : List TypeDef) :
    withNestedAll definitions = definitions.flatMap withNested := by
  induction definitions with
  | nil => rfl
  | cons definition rest ih => rw [withNestedAll, ih, List.flatMap_cons]

theorem withNested_eq_cons (definition : TypeDef) :
    definition.withNested = definition :: definition.nested.flatMap withNested := by
  cases definition
  rw [withNested, withNestedAll_eq_flatMap]

theorem mem_withNested_self (definition : TypeDef) : definition ∈ definition.withNested := by
  rw [withNested_eq_cons]
  exact List.mem_cons_self

/-- Inside a type are the type and what is inside its nested types. -/
theorem mem_withNested_iff {inside definition : TypeDef} :
    inside ∈ definition.withNested ↔
      inside = definition ∨ ∃ inner ∈ definition.nested, inside ∈ inner.withNested := by
  rw [withNested_eq_cons, List.mem_cons, List.mem_flatMap]

theorem mem_withNestedAll_iff {inside : TypeDef} {definitions : List TypeDef} :
    inside ∈ withNestedAll definitions ↔
      ∃ definition ∈ definitions, inside ∈ definition.withNested := by
  rw [withNestedAll_eq_flatMap, List.mem_flatMap]

/-- What is nested in a type inside another is inside that one too. -/
theorem mem_withNested_of_nested {definition : TypeDef} :
    ∀ {outer inner : TypeDef}, outer ∈ definition.withNested → inner ∈ outer.nested →
      inner ∈ definition.withNested := by
  induction definition using induction_nested with
  | step definition ih =>
    intro outer inner houter hinner
    rw [mem_withNested_iff] at houter ⊢
    rcases houter with rfl | ⟨next, hnext, houter⟩
    · exact .inr ⟨inner, hinner, mem_withNested_self inner⟩
    · exact .inr ⟨next, hnext, ih next hnext houter hinner⟩

/-- A fact about a type that passes on to its nested types holds of everything inside. -/
theorem forall_withNested {P : TypeDef → Prop} {definition : TypeDef}
    (hstep : ∀ outer ∈ definition.withNested, P outer → ∀ inner ∈ outer.nested, P inner)
    (h : P definition) : ∀ inside ∈ definition.withNested, P inside := by
  induction definition using induction_nested with
  | step definition ih =>
    intro inside hinside
    rcases mem_withNested_iff.1 hinside with rfl | ⟨inner, hinner, hinside⟩
    · exact h
    · refine ih inner hinner ?_ (hstep definition (mem_withNested_self definition) h inner hinner)
        inside hinside
      intro outer houter
      exact hstep outer (mem_withNested_iff.2 (.inr ⟨inner, hinner, houter⟩))

/-- What is inside a type inside another is inside that one. -/
theorem withNested_subset {definition outer : TypeDef} (h : outer ∈ definition.withNested) :
    outer.withNested ⊆ definition.withNested :=
  forall_withNested (fun _ _ hmem _ hinner => mem_withNested_of_nested hmem hinner) h

mutual

/-- The type and all types inside it, each after those it encloses. -/
def innerFirst : TypeDef → List TypeDef
  | ⟨space, name, flags, base, interfaces, fields, methods, properties, nested, generics,
      attributes, scope, outer⟩ =>
    innerFirstAll nested ++ [⟨space, name, flags, base, interfaces, fields, methods, properties,
      nested, generics, attributes, scope, outer⟩]

def innerFirstAll : List TypeDef → List TypeDef
  | [] => []
  | definition :: rest => definition.innerFirst ++ innerFirstAll rest

end

theorem innerFirst_eq_append (definition : TypeDef) :
    definition.innerFirst = innerFirstAll definition.nested ++ [definition] := by
  cases definition
  rw [innerFirst]

theorem innerFirstAll_eq_flatMap (definitions : List TypeDef) :
    innerFirstAll definitions = definitions.flatMap innerFirst := by
  induction definitions with
  | nil => rfl
  | cons definition rest ih => rw [innerFirstAll, ih, List.flatMap_cons]

/-- Both orders have the same types. -/
theorem innerFirst_perm (definition : TypeDef) :
    definition.innerFirst.Perm definition.withNested := by
  induction definition using induction_nested with
  | step definition ih =>
    rw [innerFirst_eq_append, withNested_eq_cons, innerFirstAll_eq_flatMap]
    exact (List.perm_append_singleton _ _).trans (.cons _ (List.Perm.flatMap_left _ ih))

theorem innerFirstAll_perm (definitions : List TypeDef) :
    (innerFirstAll definitions).Perm (withNestedAll definitions) := by
  rw [innerFirstAll_eq_flatMap, withNestedAll_eq_flatMap]
  exact List.Perm.flatMap_left _ fun definition _ => definition.innerFirst_perm

/-- Types that come from the inside out one by one do so together. -/
theorem pairwise_innerFirstAll_of_forall {definitions : List TypeDef}
    (hnodup : (withNestedAll definitions).Nodup)
    (h : ∀ definition ∈ definitions, definition.withNested.Nodup →
      definition.innerFirst.Pairwise fun earlier later => later ∉ earlier.withNested) :
    (innerFirstAll definitions).Pairwise fun earlier later => later ∉ earlier.withNested := by
  induction definitions with
  | nil => exact .nil
  | cons definition rest ih =>
    rw [withNestedAll, List.nodup_append'] at hnodup
    obtain ⟨hfirst, hrest, hdisjoint⟩ := hnodup
    rw [innerFirstAll, List.pairwise_append]
    refine ⟨h definition List.mem_cons_self hfirst,
      ih hrest fun other hother => h other (List.mem_cons_of_mem _ hother), ?_⟩
    intro earlier hearlier later hlater hinside
    have hmem := withNested_subset (definition.innerFirst_perm.mem_iff.1 hearlier) hinside
    exact hdisjoint hmem ((innerFirstAll_perm rest).mem_iff.1 hlater)

/-- From the inside out, no type comes after one that encloses it. -/
theorem pairwise_innerFirst (definition : TypeDef) (hnodup : definition.withNested.Nodup) :
    definition.innerFirst.Pairwise fun earlier later => later ∉ earlier.withNested := by
  induction definition using induction_nested with
  | step definition ih =>
    rw [withNested_eq_cons, ← withNestedAll_eq_flatMap, List.nodup_cons] at hnodup
    rw [innerFirst_eq_append, List.pairwise_append]
    refine ⟨pairwise_innerFirstAll_of_forall hnodup.2 ih, List.pairwise_singleton _ _, ?_⟩
    intro earlier hearlier later hlater hinside
    obtain rfl := List.mem_singleton.1 hlater
    obtain ⟨inner, hinner, hmem⟩ :=
      mem_withNestedAll_iff.1 ((innerFirstAll_perm _).mem_iff.1 hearlier)
    exact hnodup.1 (mem_withNestedAll_iff.2 ⟨inner, hinner, withNested_subset hmem hinside⟩)

/-- With inner types first, no type comes after one that it is inside of. -/
theorem pairwise_innerFirstAll {definitions : List TypeDef}
    (hnodup : (withNestedAll definitions).Nodup) :
    (innerFirstAll definitions).Pairwise fun earlier later => later ∉ earlier.withNested :=
  pairwise_innerFirstAll_of_forall hnodup fun definition _ => definition.pairwise_innerFirst

/-- The nested types carry the scope and namespace of the type around them, and
its full name. -/
def Encloses (definition : TypeDef) : Prop :=
  ∀ inner ∈ definition.nested, inner.outer = some definition.fullName ∧
    inner.space = definition.space ∧ inner.scope = definition.scope

end TypeDef

namespace AssemblyDef

/-- Every type of the assembly knows its module and what it is nested in. -/
structure WellFormed (assembly : AssemblyDef) : Prop where
  top : ∀ part ∈ assembly.modules, ∀ definition ∈ part.types,
    definition.outer = none ∧ definition.scope = { assembly := assembly.name, module := part.name }
  encloses : ∀ definition ∈ assembly.allTypes, definition.Encloses

/-- The types of an assembly are those inside the top-level types of its modules. -/
theorem mem_allTypes_iff {assembly : AssemblyDef} {definition : TypeDef} :
    definition ∈ assembly.allTypes ↔
      ∃ part ∈ assembly.modules, ∃ top ∈ part.types, definition ∈ top.withNested := by
  simp only [allTypes, List.mem_flatMap, ModuleDef.allTypes, TypeDef.mem_withNestedAll_iff]

theorem mem_allTypes_of_nested {assembly : AssemblyDef} {outer inner : TypeDef}
    (houter : outer ∈ assembly.allTypes) (hinner : inner ∈ outer.nested) :
    inner ∈ assembly.allTypes := by
  obtain ⟨part, hpart, top, htop, houter⟩ := mem_allTypes_iff.1 houter
  exact mem_allTypes_iff.2 ⟨part, hpart, top, htop, TypeDef.mem_withNested_of_nested houter hinner⟩

/-- All types of a module have its scope. -/
theorem WellFormed.scope_eq {assembly : AssemblyDef} (h : assembly.WellFormed) {part : ModuleDef}
    (hpart : part ∈ assembly.modules) {top : TypeDef} (htop : top ∈ part.types) :
    ∀ definition ∈ top.withNested,
      definition.scope = { assembly := assembly.name, module := part.name } := by
  refine TypeDef.forall_withNested ?_ (h.top part hpart top htop).2
  intro outer houter hscope inner hinner
  have hmem : outer ∈ assembly.allTypes := mem_allTypes_iff.2 ⟨part, hpart, top, htop, houter⟩
  rw [(h.encloses outer hmem inner hinner).2.2, hscope]

theorem WellFormed.scope_assembly {assembly : AssemblyDef} (h : assembly.WellFormed)
    {definition : TypeDef} (hdefinition : definition ∈ assembly.allTypes) :
    definition.scope.assembly = assembly.name := by
  obtain ⟨part, hpart, top, htop, hinside⟩ := mem_allTypes_iff.1 hdefinition
  rw [h.scope_eq hpart htop definition hinside]

end AssemblyDef

namespace TypeBlueprint

theorem buildAll_eq_map (scope : Scope) (enclosing : Option Enclosing)
    (blueprints : List TypeBlueprint) :
    buildAll scope enclosing blueprints = blueprints.map (build scope enclosing) := by
  induction blueprints with
  | nil => rfl
  | cons blueprint rest ih => rw [buildAll, ih, List.map_cons]

theorem scope_build (scope : Scope) (enclosing : Option Enclosing) (blueprint : TypeBlueprint) :
    (blueprint.build scope enclosing).scope = scope := by
  cases blueprint
  rfl

theorem outer_build (scope : Scope) (enclosing : Option Enclosing) (blueprint : TypeBlueprint) :
    (blueprint.build scope enclosing).outer = enclosing.map Enclosing.fullName := by
  cases blueprint
  rfl

theorem space_build (scope : Scope) (enclosing : Enclosing) (blueprint : TypeBlueprint) :
    (blueprint.build scope (some enclosing)).space = enclosing.space := by
  cases blueprint
  rfl

theorem nested_build (scope : Scope) (enclosing : Option Enclosing) (blueprint : TypeBlueprint) :
    (blueprint.build scope enclosing).nested =
      blueprint.nested.map (build scope (some
        { space := (blueprint.build scope enclosing).space
          fullName := (blueprint.build scope enclosing).fullName })) := by
  cases blueprint
  exact buildAll_eq_map scope _ _

/-- A built type encloses its nested types. -/
theorem encloses_build (scope : Scope) (enclosing : Option Enclosing) (blueprint : TypeBlueprint) :
    (blueprint.build scope enclosing).Encloses := by
  intro inner hinner
  rw [nested_build] at hinner
  obtain ⟨source, -, rfl⟩ := List.mem_map.1 hinner
  exact ⟨outer_build scope _ source, space_build scope _ source, by
    rw [scope_build, scope_build]⟩

/-- Everything inside a type that was built was built as well. -/
theorem exists_build_of_mem_withNested {scope : Scope} {enclosing : Option Enclosing}
    {blueprint : TypeBlueprint} :
    ∀ inside ∈ (blueprint.build scope enclosing).withNested,
      ∃ around source, inside = build scope around source := by
  refine TypeDef.forall_withNested ?_ ⟨enclosing, blueprint, rfl⟩
  rintro outer - ⟨around, source, rfl⟩ inner hinner
  rw [nested_build] at hinner
  obtain ⟨part, -, rfl⟩ := List.mem_map.1 hinner
  exact ⟨_, part, rfl⟩

end TypeBlueprint

/-- Built assemblies are well-formed. -/
theorem AssemblyBlueprint.wellFormed_build (blueprint : AssemblyBlueprint) :
    blueprint.build.WellFormed := by
  have hbuilt : ∀ part ∈ blueprint.build.modules, ∀ definition ∈ part.types,
      ∃ source : TypeBlueprint, definition =
        source.build { assembly := blueprint.build.name, module := part.name } none := by
    intro part hpart definition hdefinition
    obtain ⟨outline, -, rfl⟩ := List.mem_map.1 hpart
    rw [ModuleBlueprint.build, TypeBlueprint.buildAll_eq_map] at hdefinition
    obtain ⟨source, -, rfl⟩ := List.mem_map.1 hdefinition
    exact ⟨source, rfl⟩
  constructor
  · intro part hpart definition hdefinition
    obtain ⟨source, rfl⟩ := hbuilt part hpart definition hdefinition
    exact ⟨TypeBlueprint.outer_build _ _ source, TypeBlueprint.scope_build _ _ source⟩
  · intro definition hdefinition
    obtain ⟨part, hpart, top, htop, hinside⟩ := AssemblyDef.mem_allTypes_iff.1 hdefinition
    obtain ⟨source, rfl⟩ := hbuilt part hpart top htop
    obtain ⟨around, inner, rfl⟩ := TypeBlueprint.exists_build_of_mem_withNested definition hinside
    exact TypeBlueprint.encloses_build _ around inner

end Assemblage
