import Assemblage.Proofs.Model.StaticFields
import Assemblage.Proofs.Model.Provenance

/-!
# What proxies add to members

A member of the table is one of the type or one that a proxy has added, and further
proxies patch it under its identifier.  Its marks are those of its definition merged
with those of the patches.  Which fields the static constructor sets is told by the
definitions alone, so that a patch never takes a field out.
-/

namespace Assemblage

theorem exists_of_mem_updateLast? {α : Type} {p : α → Bool} {f : α → α} {items updated : List α}
    {item : α} (h : updateLast? p f items = some updated) (hmem : item ∈ updated) :
    item ∈ items ∨ ∃ old ∈ items, p old = true ∧ item = f old := by
  obtain ⟨before, last, after, rfl, hlast, -, rfl⟩ := exists_split_of_updateLast? h
  rcases List.mem_append.1 hmem with hmem | hmem
  · exact .inl (List.mem_append_left _ hmem)
  · rcases List.mem_cons.1 hmem with rfl | hmem
    · exact .inr ⟨last, List.mem_append_right _ List.mem_cons_self, hlast, rfl⟩
    · exact .inl (List.mem_append_right _ (List.mem_cons_of_mem _ hmem))

namespace Member

/-- A patch is under the identifier of its member. -/
theorem exists_of_mem_patchTable {proxy : String} {typeExternal : Bool} {members : List Member}
    {patching : MemberDef} {member : Member}
    (h : member ∈ patchTable proxy typeExternal members patching) :
    member ∈ members ∨ (∃ old ∈ members, old.id = patching.id ∧ member = old.patch patching) ∨
      member = { definition := patching, origin := .proxy proxy, typeExternal } := by
  rw [patchTable] at h
  split at h
  · rename_i patched hpatched
    rcases exists_of_mem_updateLast? hpatched h with hkept | ⟨old, hold, hid, heq⟩
    · exact .inl hkept
    · exact .inr (.inl ⟨old, hold, beq_iff_eq.1 hid, heq⟩)
  · rcases List.mem_append.1 h with hold | hnew
    · exact .inl hold
    · exact .inr (.inr (List.mem_singleton.1 hnew))

/-- A member with marks that patches from the given ones have been added to. -/
structure Patched (patchings : List MemberDef) (typeExternal : Bool) (member : Member) :
    Prop where
  origin : member.origin ≠ .synthesized
  typeExternal_eq : member.typeExternal = typeExternal
  unset : member.setByStaticConstructor = false
  /-- Only a method gets another body. -/
  replacement : member.definition.field?.isSome = true → member.replacement = none
  marks : ∃ patches ⊆ patchings, (∀ patching ∈ patches, patching.id = member.id) ∧
    member.marks = (patches.map MemberDef.marks).foldl Marks.merge member.definition.marks

variable {patchings : List MemberDef} {typeExternal : Bool} {member : Member}

theorem patched_new {origin : Origin} (h : origin ≠ .synthesized) (definition : MemberDef) :
    Patched patchings typeExternal { definition, origin, typeExternal } where
  origin := h
  typeExternal_eq := rfl
  unset := rfl
  replacement _ := rfl
  marks := ⟨[], List.nil_subset _, fun _ hnone => absurd hnone List.not_mem_nil, rfl⟩

/-- Fields are not replaced. -/
theorem replacement_patch_field {member : Member} {patching : MemberDef}
    (hfield : member.definition.field?.isSome = true) (hid : member.id = patching.id) :
    (member.patch patching).replacement = member.replacement := by
  obtain ⟨field, hdefinition⟩ : ∃ field, member.definition = .field field := by
    cases hdefinition : member.definition with
    | field field => exact ⟨field, rfl⟩
    | method | property =>
      rw [hdefinition] at hfield
      cases hfield
  cases patching with
  | field | property => rfl
  | method method =>
    have hkinds := congrArg MemberId.kind hid
    rw [Member.id, hdefinition] at hkinds
    cases hkinds

theorem Patched.patch (h : Patched patchings typeExternal member) {patching : MemberDef}
    (hpatching : patching ∈ patchings) (hid : member.id = patching.id) :
    Patched patchings typeExternal (member.patch patching) := by
  have hsame : (member.patch patching).origin = member.origin ∧
      (member.patch patching).typeExternal = member.typeExternal ∧
      (member.patch patching).setByStaticConstructor = member.setByStaticConstructor := by
    rw [patch_eq]
    exact ⟨rfl, rfl, rfl⟩
  refine ⟨hsame.1 ▸ h.origin, hsame.2.1.trans h.typeExternal_eq, hsame.2.2.trans h.unset, ?_, ?_⟩
  · rw [definition_patch]
    intro hfield
    rw [replacement_patch_field hfield hid]
    exact h.replacement hfield
  · obtain ⟨patches, hsubset, hids, hmarks⟩ := h.marks
    refine ⟨patches ++ [patching], ?_, ?_, ?_⟩
    · exact List.append_subset.2 ⟨hsubset, List.cons_subset.2 ⟨hpatching, List.nil_subset _⟩⟩
    · rw [List.forall_mem_append, List.forall_mem_singleton, id_patch]
      exact ⟨hids, hid.symm⟩
    · rw [marks_patch, definition_patch, hmarks, List.map_append, List.foldl_append]
      rfl

end Member

namespace Program

variable {program : Program} {definition : TypeDef} {member : Member}

/-- The members that proxies have for a type, in the order in which they take effect. -/
def patchings (program : Program) (definition : TypeDef) : List MemberDef :=
  (program.proxiesFor definition).flatMap (·.memberDefs)

/-- All members of a patched definition come from it or from its proxies. -/
theorem patched_patchedMembers (program : Program) (definition : TypeDef) :
    ∀ member ∈ program.patchedMembers definition,
      member.Patched (program.patchings definition) (program.marksOf definition).external := by
  rw [patchedMembers]
  apply List.foldlRecOn (motive := fun table => ∀ member ∈ table,
    Member.Patched (program.patchings definition) (program.marksOf definition).external member)
  · rw [List.forall_mem_map]
    exact fun declared _ => Member.patched_new (by simp) declared
  · intro table htable proxy hproxy
    rw [Member.applyProxy]
    apply List.foldlRecOn (motive := fun table => ∀ member ∈ table,
      Member.Patched (program.patchings definition) (program.marksOf definition).external member)
    · exact htable
    · intro patched hpatched patching hpatching member hmember
      rcases Member.exists_of_mem_patchTable hmember with hold | ⟨old, hold, hid, rfl⟩ | rfl
      · exact hpatched member hold
      · exact (hpatched old hold).patch (List.mem_flatMap.2 ⟨proxy, hproxy, hpatching⟩) hid
      · exact Member.patched_new (by simp) patching

/-- Supplied members are declared or come from a proxy. -/
theorem origin_of_mem_suppliedMembers (h : member ∈ program.suppliedMembers definition) :
    member.origin ≠ .synthesized := by
  have hpatched := program.patched_patchedMembers definition
  rw [suppliedMembers] at h
  split at h
  · exact (hpatched member h).origin
  · obtain ⟨patched, hmem, rfl⟩ := List.mem_map.1 h
    exact (hpatched patched hmem).origin

/-- A field that the static constructor sets is told by its definition. -/
theorem exists_field_of_mem_suppliedMembers (h : member ∈ program.suppliedMembers definition)
    (hset : member.setByStaticConstructor = true) :
    definition.kind.isDeclaredInFull = false ∧ ∃ patched ∈ program.patchedMembers definition,
      ∃ field, patched.definition = .field field ∧
        program.isSetByStaticConstructor {} field = true ∧
        member = program.markField {} patched := by
  rw [suppliedMembers] at h
  split at h
  · rw [(program.patched_patchedMembers definition member h).unset] at hset
    cases hset
  · rename_i hkind
    obtain ⟨patched, hmem, rfl⟩ := List.mem_map.1 h
    obtain ⟨field, hfield, hneeds⟩ := (Option.any_eq_true _ _).1 hset
    refine ⟨Bool.eq_false_iff.2 hkind, patched, hmem, field, ?_, hneeds, rfl⟩
    cases hdefinition : patched.definition with
    | field found =>
      rw [hdefinition] at hfield
      exact congrArg _ (Option.some.inj hfield)
    | method | property =>
      rw [hdefinition] at hfield
      cases hfield

theorem mem_suppliedMembers_of_set {built : Member}
    (h : built ∈ withStaticConstructor definition.fullName (program.suppliedMembers definition))
    (hset : built.setByStaticConstructor = true) : built ∈ program.suppliedMembers definition := by
  rcases mem_suppliedMembers_or_eq h with hsupplied | rfl
  · exact hsupplied
  · cases hset

theorem subset_withStaticConstructor (declaring : String) (members : List Member) :
    members ⊆ withStaticConstructor declaring members := by
  rcases withStaticConstructor_cases declaring members with ⟨-, -, heq⟩ | ⟨-, heq⟩
  · rw [heq]
    exact List.subset_append_left _ _
  · rw [heq]
    exact List.Subset.refl _

/-- Some field is set, in a type that is not declared in full at once. -/
theorem staticConstructorFields_ne_nil_iff :
    (program.modelOf definition).staticConstructorFields ≠ [] ↔
      (program.suppliedMembers definition).any (·.setByStaticConstructor) = true := by
  rw [TypeModel.staticConstructorFields, Ne, List.filterMap_eq_nil_iff, members_modelOf,
    List.any_eq_true]
  constructor
  · intro h
    by_contra hnone
    refine h fun member hmember => ?_
    obtain ⟨hmem, hset⟩ := List.mem_filter.1 hmember
    obtain ⟨built, hbuilt, rfl⟩ := List.mem_map.1 hmem
    exact absurd ⟨built, mem_suppliedMembers_of_set hbuilt hset, hset⟩ hnone
  · rintro ⟨built, hbuilt, hset⟩ hall
    obtain ⟨-, patched, -, field, hfield, -, rfl⟩ :=
      exists_field_of_mem_suppliedMembers hbuilt hset
    have hchecked := List.mem_map_of_mem (f := program.checkMember {})
      (subset_withStaticConstructor definition.fullName _ hbuilt)
    have hlost := hall _ (List.mem_filter.2 ⟨hchecked, hset⟩)
    change patched.definition.field? = none at hlost
    rw [hfield] at hlost
    cases hlost

/-- A static constructor is made up exactly if fields have to be set, and neither the type nor
a proxy has one. -/
theorem staticConstructor?_synthesized_iff :
    (∃ member, (program.modelOf definition).staticConstructor? = some member ∧
        member.origin = .synthesized) ↔
      (program.modelOf definition).staticConstructorFields ≠ [] ∧
      (∀ member ∈ (program.modelOf definition).members,
        TypeModel.isStaticConstructor member = true → member.origin = .synthesized) ∧
      definition.kind.isDeclaredInFull = false := by
  have hcases :=
    withStaticConstructor_cases definition.fullName (program.suppliedMembers definition)
  rw [staticConstructorFields_ne_nil_iff, TypeModel.staticConstructor?, members_modelOf]
  constructor
  · rintro ⟨member, hfound, horigin⟩
    obtain ⟨built, hbuilt, rfl⟩ := List.mem_map.1 (List.mem_of_find?_eq_some hfound)
    rcases hcases with ⟨hlacks, hset, heq⟩ | ⟨-, heq⟩
    · rw [List.any_eq_false] at hlacks
      refine ⟨hset, ?_, ?_⟩
      · rw [heq, List.forall_mem_map, List.forall_mem_append, List.forall_mem_singleton]
        exact ⟨fun other hother hstatic => absurd hstatic (hlacks other hother), fun _ => rfl⟩
      · obtain ⟨other, hother, hset⟩ := List.any_eq_true.1 hset
        exact (exists_field_of_mem_suppliedMembers hother hset).1
    · have hgiven : built.origin ≠ .synthesized := origin_of_mem_suppliedMembers (heq ▸ hbuilt)
      exact absurd horigin hgiven
  · rintro ⟨hset, hmade, -⟩
    have hlacks :
      (program.suppliedMembers definition).any TypeModel.isStaticConstructor = false := by
      rw [List.any_eq_false]
      intro other hother hstatic
      have hchecked := List.mem_map_of_mem (f := program.checkMember {})
        (subset_withStaticConstructor definition.fullName _ hother)
      exact origin_of_mem_suppliedMembers hother
        (hmade (program.checkMember {} other) hchecked hstatic)
    rcases hcases with ⟨-, -, heq⟩ | ⟨hunset, -⟩
    · have hnone : ((program.suppliedMembers definition).map (program.checkMember {})).find?
          TypeModel.isStaticConstructor = none := by
        rw [List.find?_eq_none, List.forall_mem_map]
        exact List.any_eq_false.1 hlacks
      rw [heq, List.map_append, List.find?_append, hnone, Option.none_or]
      exact ⟨_, List.find?_cons_of_pos (isStaticConstructor_synthesized _), rfl⟩
    · exact absurd hset (Bool.eq_false_iff.1 (hunset hlacks))

/-- What a member that the static constructor sets has of its definition, and what of its
patches. -/
structure SetField (program : Program) (definition : TypeDef) (member : Member)
    (field : FieldDef) : Prop where
  definition_eq : member.definition = .field field
  needed : program.isSetByStaticConstructor {} field = true
  marks : ∃ patches ⊆ program.patchings definition,
    (∀ patching ∈ patches, patching.id = member.id) ∧
      member.marks = (patches.map MemberDef.marks).foldl Marks.merge field.marks
  isIgnored_eq : member.isIgnored = member.marks.ignored
  isExternal_eq : member.isExternal =
    (member.marks.external || (program.marksOf definition).external)

/-- A member that the static constructor sets is a field that needs it, with the marks of all
its patches. -/
theorem exists_setField (hmember : member ∈ (program.modelOf definition).members)
    (hset : member.setByStaticConstructor = true) :
    ∃ field, program.SetField definition member field := by
  rw [members_modelOf] at hmember
  obtain ⟨built, hbuilt, rfl⟩ := List.mem_map.1 hmember
  obtain ⟨-, patched, hpatched, field, hfield, hneeded, rfl⟩ :=
    exists_field_of_mem_suppliedMembers (mem_suppliedMembers_of_set hbuilt hset) hset
  have htraced := program.patched_patchedMembers definition patched hpatched
  have hundecided : (program.markField {} patched).Undecided :=
    program.undecided_patchedMembers definition patched hpatched
  have hkept : (MemberDef.field field).types.any (program.ignores {}) = false := by
    have hparts := hneeded
    simp only [isSetByStaticConstructor, Bool.and_eq_true, Bool.not_eq_true'] at hparts
    simpa [MemberDef.types] using hparts.1.2
  obtain ⟨patches, hsubset, hids, hmarks⟩ := htraced.marks
  rw [hfield] at hmarks
  refine ⟨field, hfield, hneeded, ⟨patches, hsubset, hids, hmarks⟩, ?_, ?_⟩
  · change (program.checkMember {} (program.markField {} patched)).ignored?.getD _ = _
    rw [checkMember, hundecided.ignored?_resolveIgnored, Option.getD_some]
    change (patched.marks.ignored || patched.definition.types.any (program.ignores {})) = _
    rw [hfield, hkept, Bool.or_false]
    rfl
  · have hbody : patched.replacement = none := htraced.replacement (by rw [hfield]; rfl)
    change patched.isExternal = (patched.marks.external || _)
    rw [Member.isExternal, hbody, htraced.typeExternal_eq, hfield]
    simp [MemberDef.method?]

end Program

end Assemblage
