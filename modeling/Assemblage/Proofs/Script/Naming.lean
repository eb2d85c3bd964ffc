import Assemblage.Definition.Blueprint
import Assemblage.Proofs.Model.Groups
import Assemblage.Proofs.Model.Provenance
import Assemblage.Proofs.Model.Service
import Assemblage.Proofs.Model.StaticFields
import Assemblage.Script.Members

/-!
# The names of methods

An overload table and a property name methods that are declared elsewhere.  The
table counts the positions in one group, while the name a method is declared
under is found by its identifier among all groups.  This module shows when the
two agree for the models that a store builds, and that they need not where a
static method and one of an object share their identifier.
-/

namespace Assemblage

namespace TypeDef

/-- Methods with the same identifier differ in their staticness. -/
def MethodsApart (definition : TypeDef) : Prop :=
  definition.methods.Pairwise fun left right => left.id = right.id → left.isStatic ≠ right.isStatic

/-- The accessors of the properties are methods of the type. -/
def OwnsAccessors (definition : TypeDef) : Prop :=
  ∀ property ∈ definition.properties,
    property.getter.toList ++ property.setter.toList ⊆ definition.methods

end TypeDef

/-- A property looks its accessors up among the methods of its type. -/
theorem TypeBlueprint.ownsAccessors_build (scope : Scope) (enclosing : Option Enclosing)
    (blueprint : TypeBlueprint) : (blueprint.build scope enclosing).OwnsAccessors := by
  obtain ⟨space, name, flags, base, interfaces, fields, methods, properties, nested, generics,
    attributes⟩ := blueprint
  rw [TypeBlueprint.build]
  intro property hproperty
  obtain ⟨given, -, rfl⟩ := List.mem_map.1 hproperty
  intro accessor haccessor
  rw [List.mem_append, Option.mem_toList, Option.mem_toList] at haccessor
  cases haccessor with
  | inl hgetter =>
    obtain ⟨found, -, hfind⟩ := Option.bind_eq_some_iff.1 hgetter
    exact List.mem_of_find?_eq_some hfind
  | inr hsetter =>
    obtain ⟨found, -, hfind⟩ := Option.bind_eq_some_iff.1 hsetter
    exact List.mem_of_find?_eq_some hfind

namespace Program

variable {program : Program}

/-- Without proxies the members are those of the definition and at most a static
constructor that the type does not have. -/
theorem definitions_membersOf (hproxies : program.proxies = []) (cache : Cache)
    (definition : TypeDef) :
    ∃ made : List MethodDef,
      (program.membersOf cache definition).map Member.definition =
        definition.memberDefs ++ made.map .method ∧
      (made = [] ∨ made = [synthesizedConstructor definition.fullName] ∧
        ∀ method ∈ definition.methods, method.isStaticConstructor = false) := by
  have hpatched : (program.patchedMembers definition).map Member.definition =
      definition.memberDefs := by
    rw [patchedMembers, proxiesFor, hproxies]
    exact List.map_map.trans (List.map_id _)
  have hmarked : (if definition.kind.isDeclaredInFull then program.patchedMembers definition
      else (program.patchedMembers definition).map (program.markField cache)).map
        Member.definition = definition.memberDefs := by
    split
    · exact hpatched
    · rw [List.map_map]
      exact hpatched
  rw [membersOf, withStaticConstructor]
  generalize (if definition.kind.isDeclaredInFull then program.patchedMembers definition
    else (program.patchedMembers definition).map (program.markField cache)) = members at hmarked
  split
  · rename_i hneeds
    refine ⟨[synthesizedConstructor definition.fullName], ?_, .inr ⟨rfl, ?_⟩⟩
    · rw [List.map_append, hmarked]
      rfl
    · intro method hmethod
      have hmem : .method method ∈ members.map Member.definition := by
        rw [hmarked, TypeDef.memberDefs]
        exact List.mem_append_left _ (List.mem_append_right _ (List.mem_map_of_mem hmethod))
      obtain ⟨member, hmember, hdefinition⟩ := List.mem_map.1 hmem
      simp only [Bool.and_eq_true, Bool.not_eq_true', List.any_eq_false] at hneeds
      simpa [TypeModel.isStaticConstructor, hdefinition, MemberDef.method?] using
        hneeds.1 member hmember
  · exact ⟨[], by rw [hmarked, List.map_nil, List.append_nil], .inl rfl⟩

/-- The members of a finished model are those of its definition and at most a
static constructor that the type does not have. -/
theorem Finishes.definitions_members (hproxies : program.proxies = []) {model : TypeModel}
    (h : program.Finishes model) :
    ∃ made : List MethodDef,
      model.members.map Member.definition =
        model.definition.memberDefs ++ made.map .method ∧
      (made = [] ∨ made = [synthesizedConstructor model.definition.fullName] ∧
        ∀ method ∈ model.definition.methods, method.isStaticConstructor = false) := by
  obtain ⟨earlier, later, id, definition, rfl⟩ := h
  obtain ⟨made, hmembers, hmade⟩ := definitions_membersOf hproxies earlier definition
  exact ⟨made, Eq.trans List.map_map hmembers, hmade⟩

/-- Without proxies the methods of a model are those of its definition, and perhaps a static
constructor that was made. -/
theorem Finishes.definitions_methods (hproxies : program.proxies = []) {model : TypeModel}
    (h : program.Finishes model) :
    ∃ made : List MethodDef,
      model.methods.map Member.definition = (model.definition.methods ++ made).map .method ∧
      (made = [] ∨ made = [synthesizedConstructor model.definition.fullName] ∧
        ∀ method ∈ model.definition.methods, method.isStaticConstructor = false) := by
  obtain ⟨made, hmembers, hmade⟩ := h.definitions_members hproxies
  refine ⟨made, ?_, hmade⟩
  have hmethods : (made.map MemberDef.method).filter (·.id.kind == .method) =
      made.map .method := by
    simp [List.filter_eq_self, MemberDef.id, MethodDef.id, MemberId.ofMethod, MemberId.kind]
  calc
    _ = (model.members.map Member.definition).filter (·.id.kind == .method) :=
      List.filter_map.symm
    _ = _ := by rw [hmembers, List.filter_append, filter_method_memberDefs, hmethods,
      List.map_append]

/-- The methods of a finished model differ in their staticness as those of its
definition do. -/
theorem Finishes.grouped (hproxies : program.proxies = []) {model : TypeModel}
    (h : program.Finishes model) (hapart : model.definition.MethodsApart) : model.Grouped where
  groups := by
    obtain ⟨earlier, later, id, definition, rfl⟩ := h
    rfl
  apart := by
    obtain ⟨made, hmethods, hmade⟩ := h.definitions_methods hproxies
    have hall : (model.definition.methods ++ made).Pairwise fun left right =>
        left.id = right.id → left.isStatic ≠ right.isStatic := by
      cases hmade with
      | inl hnone => rw [hnone, List.append_nil]; exact hapart
      | inr hone =>
        obtain ⟨rfl, hlacks⟩ := hone
        rw [List.pairwise_append]
        refine ⟨hapart, List.pairwise_singleton _ _, ?_⟩
        intro method hmethod other hother hid hstatic
        rw [List.mem_singleton.1 hother] at hid hstatic
        have hname : method.name = ".cctor" := congrArg MemberId.name hid
        have hconstructor := hlacks method hmethod
        rw [MethodDef.isStaticConstructor, hname, hstatic] at hconstructor
        exact Bool.noConfusion ((isStaticConstructor_synthesized _).symm.trans hconstructor)
    have hdefinitions : ((model.definition.methods ++ made).map MemberDef.method).Pairwise
        fun left right => left.id = right.id → left.isStatic ≠ right.isStatic :=
      List.pairwise_map.2 hall
    rw [← hmethods] at hdefinitions
    exact List.pairwise_map.1 hdefinitions

theorem Finishes.mem_properties (hproxies : program.proxies = []) {model : TypeModel}
    (h : program.Finishes model) {member : Member} {property : PropertyDef}
    (hmember : member ∈ model.members) (hproperty : member.definition = .property property) :
    property ∈ model.definition.properties := by
  obtain ⟨made, hmembers, -⟩ := h.definitions_members hproxies
  have hmem : member.definition ∈ model.members.map Member.definition :=
    List.mem_map_of_mem hmember
  rw [hmembers, hproperty] at hmem
  simpa [TypeDef.memberDefs] using hmem

end Program

namespace Script

/-! ## The names in the declarations of a type -/

/-- The name of an accessor is that of a method declared for it. -/
def NamesAccessor (model : TypeModel) (accessor : Option MethodDef) (name : Option String) :
    Prop :=
  ∀ text, name = some text → ∃ method member, accessor = some method ∧ member ∈ model.methods ∧
    member.definition = .method method ∧ member.isIgnored = false ∧
      methodName model member = text

/-- Whatever names a method of the model does so by the name that the method is
declared under. -/
structure NamesMethods (model : TypeModel) : Prop where
  mangled : ∀ group ∈ model.groups, ∀ index member, group.methods[index]? = some member →
    model.emittedName member = group.mangledName index
  overload : ∀ group ∈ model.groups, ∀ (index : Nat) (entry : Overload),
    (overloadsOf group)[index]? = some entry →
    ∃ member ∈ model.methods, group.methods[index]? = some member ∧ member.isIgnored = false ∧
      member.isStatic = group.isStatic ∧ methodName model member = entry.name ∧
        member.id.parameters = entry.parameters
  /-- No other method of the name and staticness of a group takes a name of its table. -/
  alone : ∀ group ∈ model.groups, ∀ index, ∀ member ∈ model.methods,
    MethodGroup.key member = group.sharedKey → model.emittedName member = group.mangledName index →
      group.methods[index]? = some member
  plain : ∀ member ∈ model.methods, (∀ group ∈ model.groups, member ∉ group.methods) →
    model.emittedName member = member.name
  accessor : ∀ path, ∀ member ∈ model.properties, ∀ owner name getter setter,
    propertyDeclaration? model path member = some (.property owner name getter setter) →
      ∃ property, member.definition = .property property ∧
        NamesAccessor model property.getter getter ∧ NamesAccessor model property.setter setter

variable {model : TypeModel}

/-- An entry of a group is a method of the model, at the index of the entry. -/
theorem overload_of_mem (h : model.Grouped) (hshares : model.SharesPositions)
    {group : MethodGroup} (hgroup : group ∈ model.groups) {index : Nat} {entry : Overload}
    (hentry : (overloadsOf group)[index]? = some entry) :
    ∃ member ∈ model.methods, group.methods[index]? = some member ∧ member.isIgnored = false ∧
      member.isStatic = group.isStatic ∧ methodName model member = entry.name ∧
        member.id.parameters = entry.parameters := by
  rw [overloadsOf, List.getElem?_mapIdx, Option.map_eq_some_iff] at hentry
  obtain ⟨member, hmember, rfl⟩ := hentry
  have hmem := List.mem_of_getElem? hmember
  exact ⟨member, (h.sublist_methods hgroup).mem hmem, hmember, h.isIgnored_eq_false hgroup hmem,
    congrArg Prod.snd (h.key_eq hgroup hmem),
    congrArg Identifier.escape (h.emittedName_of_mem hshares hgroup hmember), rfl⟩

/-- Methods with the same identifier are declared under the same name. -/
theorem methodName_eq_of_id {left right : Member} (hid : left.id = right.id) :
    methodName model left = methodName model right := by
  have hname : left.name = right.name := by rw [← Member.name_id, hid, Member.name_id]
  rw [methodName, methodName, TypeModel.emittedName, TypeModel.emittedName, hid, hname]

/-- An accessor is found by its identifier, which another method may share. -/
theorem namesAccessor_of_methods (hshares : model.SharesPositions) {accessor : MethodDef}
    (haccessor : ∃ member ∈ model.methods, member.definition = .method accessor) :
    NamesAccessor model (some accessor) (accessorName? model accessor) := by
  intro text htext
  obtain ⟨member, hmember, hdefinition⟩ := haccessor
  obtain ⟨found, hfilter, rfl⟩ := Option.map_eq_some_iff.1 htext
  rw [Option.filter_eq_some_iff] at hfilter
  obtain ⟨hfind, hnot⟩ := hfilter
  have hid : found.id = accessor.id := by simpa using List.find?_some hfind
  have hown : member.id = accessor.id := by rw [Member.id, hdefinition]; rfl
  have hfound : found ∈ model.methods := by
    rw [TypeModel.mem_methods_iff, Member.kind, hid]
    exact ⟨List.mem_reverse.1 (List.mem_of_find?_eq_some hfind), rfl⟩
  have hsame := (hshares member hmember found hfound (hown.trans hid.symm)).1
  refine ⟨accessor, member, rfl, hmember, hdefinition, ?_, ?_⟩
  · rw [hsame]
    simpa using hnot
  · exact methodName_eq_of_id (hown.trans hid.symm)

theorem namesAccessor_bind (hshares : model.SharesPositions) {accessor : Option MethodDef}
    (haccessor : ∀ method ∈ accessor,
      ∃ member ∈ model.methods, member.definition = .method method) :
    NamesAccessor model accessor (accessor.bind (accessorName? model)) := by
  cases accessor with
  | none => intro text htext; exact absurd htext.symm (Option.some_ne_none text)
  | some method => exact namesAccessor_of_methods hshares (haccessor method rfl)

/-- The models of a store without proxies name their methods as they are declared. -/
theorem namesMethods_of_finishes {program : Program} (hproxies : program.proxies = [])
    (hfinishes : program.Finishes model) (hapart : model.definition.MethodsApart)
    (howns : model.definition.OwnsAccessors) (hshares : model.SharesPositions) :
    NamesMethods model := by
  have h : model.Grouped := hfinishes.grouped hproxies hapart
  have haccessor : ∀ method ∈ model.definition.methods,
      ∃ member ∈ model.methods, member.definition = .method method := by
    intro method hmethod
    obtain ⟨made, hmethods, -⟩ := hfinishes.definitions_methods hproxies
    have hmem : .method method ∈ model.methods.map Member.definition := by
      rw [hmethods, List.map_append]
      exact List.mem_append_left _ (List.mem_map_of_mem hmethod)
    exact List.mem_map.1 hmem
  refine ⟨fun group hgroup index member => h.emittedName_of_mem hshares hgroup,
    fun group hgroup index entry => overload_of_mem h hshares hgroup, ?_,
    fun member => h.emittedName_of_not_mem hshares, ?_⟩
  · intro group hgroup index member hmember hkey
    exact (h.emittedName_eq_mangledName_iff hshares hgroup hmember hkey index).1
  · intro path member hmember owner name getter setter hdeclaration
    rw [propertyDeclaration?] at hdeclaration
    split at hdeclaration
    · exact absurd hdeclaration.symm (Option.some_ne_none _)
    · obtain ⟨property, hproperty, heq⟩ := Option.map_eq_some_iff.1 hdeclaration
      have hdefinition : member.definition = .property property := by
        cases hcase : member.definition <;> simp_all [MemberDef.property?]
      cases heq
      have hmem := hfinishes.mem_properties hproxies (List.mem_filter.1 hmember).1 hdefinition
      have hsubset := howns property hmem
      refine ⟨property, hdefinition, namesAccessor_bind hshares ?_, namesAccessor_bind hshares ?_⟩
      · intro method hmethod
        exact haccessor method (hsubset (List.mem_append_left _ (Option.mem_toList.2 hmethod)))
      · intro method hmethod
        exact haccessor method (hsubset (List.mem_append_right _ (Option.mem_toList.2 hmethod)))

/-- Whatever a new store without proxies has been asked for, its models name their
methods as they are declared, provided that methods with the same identifier are
ignored together and have the same position. -/
theorem namesMethods_answerAll (store : Store) (hfresh : store.cache = {})
    (hproxies : store.program.proxies = []) (requests : List Request) {id : TypeId}
    (hmodel : (store.answerAll requests).model? id = some model)
    (hapart : model.definition.MethodsApart) (howns : model.definition.OwnsAccessors)
    (hshares : model.SharesPositions) : NamesMethods model := by
  have hfinishes := (Store.finishesAll_answerAll hfresh requests).2
  have hfinished := (hfinishes id model (Cache.model?_eq_some_iff.1 hmodel)).1
  exact namesMethods_of_finishes hproxies hfinished hapart howns hshares

/-- A store over one type alone. -/
def soleStore (definition : TypeDef) : Store :=
  { program := { graph := { index := [⟨"App", definition⟩] } } }

theorem model?_soleStore (definition : TypeDef) :
    ((soleStore definition).answerAll [.definition definition]).model? definition.typeId =
      some ((soleStore definition).program.modelOf definition) := by
  have hindexed : (soleStore definition).graph.Indexes definition :=
    ⟨_, List.mem_singleton_self _, rfl⟩
  exact Store.model?_answerAll_definition rfl (List.nodup_singleton _) hindexed

/-- A method `Find` with one parameter, or `get_Count` without any. -/
def sampleMethod (flags : Flags) (name : String) (parameters : List Primitive) : MethodDef :=
  { name, flags
    parameters := parameters.map fun type => { name := "value", type := .primitive type } }

def onType : Flags :=
  MethodFlag.isPublic ||| MethodFlag.isStatic

/-- Overloads on the type and on its objects, in the same order. -/
def pairedClass : TypeBlueprint :=
  { space := "App", name := "Paired"
    methods :=
      [sampleMethod onType "Find" [.int32], sampleMethod MethodFlag.isPublic "Find" [.int32],
       sampleMethod onType "Find" [.string], sampleMethod MethodFlag.isPublic "Find" [.string],
       sampleMethod MethodFlag.isPublic "get_Count" []]
    properties := [{ name := "Count", type := .primitive .int32, getter := some "get_Count" }] }

/-- Overloads on the type and on its objects, in opposite orders. -/
def crossedClass : TypeBlueprint :=
  { space := "App", name := "Crossed"
    methods :=
      [sampleMethod onType "Find" [.int32], sampleMethod onType "Find" [.string],
       sampleMethod MethodFlag.isPublic "Find" [.string],
       sampleMethod MethodFlag.isPublic "Find" [.int32]] }

/-- Overloads on the type and on its objects, in the same order, are named as the groups list
them. -/
theorem namesMethods_answerAll_pairedClass :
    let definition := pairedClass.buildDetached
    let store := soleStore definition
    ∃ model, (store.answerAll [.definition definition]).model? definition.typeId = some model ∧
      model.definition.MethodsApart ∧ model.definition.OwnsAccessors ∧ model.SharesPositions ∧
      model.groups.length = 2 ∧ NamesMethods model := by
  intro definition store
  have hmodel := model?_soleStore definition
  have hapart : definition.MethodsApart := by
    rw [TypeDef.MethodsApart]
    decide +kernel
  have howns : definition.OwnsAccessors := TypeBlueprint.ownsAccessors_build _ _ pairedClass
  have hshares : (store.program.modelOf definition).SharesPositions := by
    rw [TypeModel.SharesPositions]
    decide +kernel
  exact ⟨store.program.modelOf definition, hmodel, hapart, howns, hshares, by decide +kernel,
    namesMethods_answerAll store rfl rfl [.definition definition] hmodel hapart howns hshares⟩

/-- The table of the objects' overloads starts with `Find(String)`, which is declared
under the name that the table of the type gives it. -/
theorem emittedName_crossedClass :
    let definition := crossedClass.buildDetached
    let model := (soleStore definition).program.modelOf definition
    (model.groups[1]?.bind fun group => group.methods[0]?.map fun member =>
      (model.emittedName member, group.mangledName 0)) = some ("Find$1", "Find$0") := by
  decide +kernel

/-- In opposite orders they are not: an instance overload is named by its position among the
static ones. -/
theorem not_namesMethods_answerAll :
    ¬∀ (store : Store) (requests : List Request) (id : TypeId) (model : TypeModel),
      store.cache = {} → store.program.proxies = [] →
      (store.answerAll requests).model? id = some model → model.definition.MethodsApart →
      model.definition.OwnsAccessors → NamesMethods model := by
  intro h
  have hapart : crossedClass.buildDetached.MethodsApart := by
    rw [TypeDef.MethodsApart]
    decide +kernel
  have hnames := h (soleStore crossedClass.buildDetached) [.definition crossedClass.buildDetached]
    _ _ rfl rfl (model?_soleStore _) hapart (TypeBlueprint.ownsAccessors_build _ _ crossedClass)
  obtain ⟨group, hgroup, hfirst⟩ := Option.bind_eq_some_iff.1 emittedName_crossedClass
  obtain ⟨member, hmember, hpair⟩ := Option.map_eq_some_iff.1 hfirst
  have hmangled := hnames.mangled group (List.mem_of_getElem? hgroup) 0 member hmember
  rw [Prod.mk.injEq, hmangled] at hpair
  exact absurd (hpair.1.symm.trans hpair.2) (by decide)

end Script

end Assemblage
