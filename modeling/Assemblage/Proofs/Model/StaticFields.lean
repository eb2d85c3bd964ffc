import Assemblage.Proofs.Model.OrderIndependence

/-!
# Fields that the static constructor sets

Which fields get their first value in the static constructor is decided while the
members of a model are built, before it is known which members are ignored.  For a
field that turns out not to be ignored the decision is that of its type and flags,
and where there is such a field, there is a static constructor.
-/

namespace Assemblage

namespace Member

/-- A mark of the definition is a mark of the member. -/
def KeepsMark (member : Member) : Prop :=
  member.definition.marks.ignored = true → member.marks.ignored = true

theorem KeepsMark.patch {member : Member} (h : member.KeepsMark) (patching : MemberDef) :
    (member.patch patching).KeepsMark := by
  intro hignored
  rw [definition_patch] at hignored
  rw [marks_patch, Marks.merge, h hignored, Bool.true_or]

end Member

namespace Program

variable {program : Program} {definition : TypeDef}

theorem keepsMark_patchedMembers (program : Program) (definition : TypeDef) :
    ∀ member ∈ program.patchedMembers definition, member.KeepsMark :=
  forall_patchedMembers (fun _ _ _ h => h) (fun _ patching h => h.patch patching) program definition

/-- A type that stands for a struct needs the static constructor. -/
theorem needsStaticConstructor_of_isStruct {signature : Signature}
    (h : program.graph.isStruct signature = true) :
    program.needsStaticConstructor signature = true := by
  have hparts := h
  simp only [Graph.isStruct, Bool.and_eq_true] at hparts
  obtain ⟨⟨hform, hnone⟩, -⟩ := hparts
  have hplain : signature.primitive?.isSome = false := by
    rw [← Option.not_isNone, hnone]
    rfl
  cases signature with
  | byRef | pointer | vector | array | typeParameter | methodParameter => cases hform
  | primitive | reference | value | generic =>
    simp only [needsStaticConstructor, hplain, h, Bool.true_or]
    rfl

/-- The static constructor of a type that has none of its own. -/
def synthesizedMember (declaring : String) : Member :=
  { definition := .method (synthesizedConstructor declaring)
    origin := .synthesized
    typeExternal := false }

/-- A static constructor is made if there is none and a field needs it. -/
theorem withStaticConstructor_cases (declaring : String) (members : List Member) :
    (members.any TypeModel.isStaticConstructor = false ∧
      members.any (·.setByStaticConstructor) = true ∧
      withStaticConstructor declaring members = members ++ [synthesizedMember declaring]) ∨
    ((members.any TypeModel.isStaticConstructor = false →
        members.any (·.setByStaticConstructor) = false) ∧
      withStaticConstructor declaring members = members) := by
  rw [withStaticConstructor]
  cases members.any TypeModel.isStaticConstructor with
  | true => exact .inr ⟨fun hlacks => (by cases hlacks), rfl⟩
  | false =>
    cases members.any (·.setByStaticConstructor) with
    | true => exact .inl ⟨rfl, rfl, rfl⟩
    | false => exact .inr ⟨fun _ => rfl, rfl⟩

/-- The members of a type with those of its proxies, once it is told which fields are set. -/
def suppliedMembers (program : Program) (definition : TypeDef) : List Member :=
  if definition.kind.isDeclaredInFull then program.patchedMembers definition
  else (program.patchedMembers definition).map (program.markField {})

theorem members_modelOf (program : Program) (definition : TypeDef) :
    (program.modelOf definition).members =
      (withStaticConstructor definition.fullName (program.suppliedMembers definition)).map
        (program.checkMember {}) := rfl

/-- All members but a static constructor that has been made up are supplied. -/
theorem mem_suppliedMembers_or_eq {built : Member}
    (h : built ∈ withStaticConstructor definition.fullName (program.suppliedMembers definition)) :
    built ∈ program.suppliedMembers definition ∨ built = synthesizedMember definition.fullName := by
  rcases withStaticConstructor_cases definition.fullName (program.suppliedMembers definition) with
    ⟨-, -, heq⟩ | ⟨-, heq⟩
  · rw [heq] at h
    exact (List.mem_append.1 h).imp_right List.mem_singleton.1
  · exact .inl (heq ▸ h)

/-- A member of a finished model is a patched member, checked, or a static constructor
that has been made up. -/
theorem exists_patched_of_mem_modelOf {member : Member}
    (hmember : member ∈ (program.modelOf definition).members)
    (hkind : definition.kind.isDeclaredInFull = false) :
    (∃ patched ∈ program.patchedMembers definition,
      member = program.checkMember {} (program.markField {} patched)) ∨
    member.definition = .method (synthesizedConstructor definition.fullName) := by
  rw [members_modelOf] at hmember
  obtain ⟨built, hbuilt, rfl⟩ := List.mem_map.1 hmember
  rcases mem_suppliedMembers_or_eq hbuilt with hsupplied | rfl
  · rw [suppliedMembers, hkind, if_neg Bool.false_ne_true] at hsupplied
    obtain ⟨patched, hpatched, rfl⟩ := List.mem_map.1 hsupplied
    exact .inl ⟨patched, hpatched, rfl⟩
  · exact .inr rfl

/-- Whether the static constructor sets a field that is not ignored is told by the
field alone. -/
theorem setByStaticConstructor_eq {member : Member} {field : FieldDef}
    (hmember : member ∈ (program.modelOf definition).members)
    (hkind : definition.kind.isDeclaredInFull = false) (hignored : member.isIgnored = false)
    (hfield : member.definition.field? = some field) :
    member.setByStaticConstructor =
      (field.isStatic && !field.isLiteral && program.needsStaticConstructor field.type) := by
  rcases exists_patched_of_mem_modelOf hmember hkind with ⟨patched, hpatched, rfl⟩ | hmade
  · have hdefinition : patched.definition = .field field := by
      change patched.definition.field? = some field at hfield
      cases hsame : patched.definition with
      | field found =>
        rw [hsame] at hfield
        exact congrArg _ (Option.some.inj hfield)
      | method | property =>
        rw [hsame] at hfield
        cases hfield
    -- What counts for the decision is what the check finds later on.
    have hundecided : (program.markField {} patched).Undecided :=
      program.undecided_patchedMembers definition patched hpatched
    rw [checkMember, Member.isIgnored, hundecided.ignored?_resolveIgnored, Option.getD_some,
      Bool.or_eq_false_iff] at hignored
    obtain ⟨hmarks, htypes⟩ := hignored
    have hown : field.marks.ignored = false := by
      have hkeeps := program.keepsMark_patchedMembers definition patched hpatched
      rw [Member.KeepsMark, hdefinition] at hkeeps
      exact Bool.eq_false_iff.2 fun hmark => Bool.eq_false_iff.1 hmarks (hkeeps hmark)
    have htype : program.ignores {} field.type = false := by
      have hall : (MemberDef.field field).types.any (program.ignores {}) = false := by
        rw [← hdefinition]
        exact htypes
      simpa [MemberDef.types] using hall
    change patched.definition.field?.any (program.isSetByStaticConstructor {}) = _
    rw [hdefinition]
    change program.isSetByStaticConstructor {} field = _
    simp [isSetByStaticConstructor, hown, htype]
  · rw [hmade] at hfield
    cases hfield

theorem isStaticConstructor_synthesized (declaring : String) :
    (synthesizedConstructor declaring).isStaticConstructor = true := by
  have hflags : (MethodFlag.isStatic ||| MethodFlag.isPrivate ||| MethodFlag.specialName |||
      MethodFlag.runtimeSpecialName).contains MethodFlag.isStatic = true := by decide
  have hstatic : (synthesizedConstructor declaring).isStatic = true := hflags
  rw [MethodDef.isStaticConstructor, hstatic]
  rfl

/-- Where a field is set by the static constructor, there is one. -/
theorem exists_staticConstructor {member : Member}
    (hmember : member ∈ (program.modelOf definition).members)
    (hset : member.setByStaticConstructor = true) :
    (program.modelOf definition).staticConstructor?.isSome = true := by
  rw [members_modelOf] at hmember
  obtain ⟨built, hbuilt, rfl⟩ := List.mem_map.1 hmember
  rw [TypeModel.staticConstructor?, members_modelOf, List.find?_isSome]
  rcases withStaticConstructor_cases definition.fullName (program.suppliedMembers definition) with
    ⟨-, -, heq⟩ | ⟨hunset, heq⟩
  · rw [heq]
    exact ⟨_, List.mem_map_of_mem (List.mem_append_right _ (List.mem_singleton_self _)),
      isStaticConstructor_synthesized _⟩
  · rw [heq] at hbuilt ⊢
    have hany : (program.suppliedMembers definition).any (·.setByStaticConstructor) = true :=
      List.any_eq_true.2 ⟨built, hbuilt, hset⟩
    have hholds : (program.suppliedMembers definition).any TypeModel.isStaticConstructor = true :=
      eq_true_of_ne_false fun hlacks => Bool.eq_false_iff.1 (hunset hlacks) hany
    obtain ⟨constructor, hconstructor, hstatic⟩ := List.any_eq_true.1 hholds
    exact ⟨_, List.mem_map_of_mem hconstructor, hstatic⟩

end Program

end Assemblage
