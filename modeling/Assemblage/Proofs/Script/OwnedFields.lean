import Assemblage.Proofs.Model.Patches
import Assemblage.Proofs.Script.FirstValues

/-!
# Fields that are not the script's own

The static constructor may set only fields that the script provides for.  Fields are
chosen by their definitions, before patches and the marks of the type are looked at,
so one that a proxy ignores, or that the runtime supplies, is set all the same.
Without such marks the choice is right.  A static constructor is made up where fields
are to be set and neither the type nor a proxy has one.
-/

namespace Assemblage

theorem TypeKind.isDeclaredInFull_eq_false_iff {kind : TypeKind} :
    kind.isDeclaredInFull = false ↔ kind = .reference ∨ kind = .struct ∨ kind = .staticClass := by
  cases kind <;> decide

namespace Store

variable {store : Store}

/-- Whatever was requested before, a model is the one the program gives for its definition. -/
theorem eq_modelOf_of_model? (hfresh : store.cache = {}) (honce : store.graph.DefinesOnce)
    {requests : List Request} (hindexed : ∀ request ∈ requests, request.IsIndexed store.graph)
    {id : TypeId} {model : TypeModel} (hmodel : (store.answerAll requests).model? id = some model) :
    model = store.program.modelOf model.definition := by
  obtain ⟨definition, -, -, rfl⟩ :=
    canonical_answerAll hfresh honce hindexed id model (Cache.model?_eq_some_iff.1 hmodel)
  rfl

end Store

namespace Script

/-- Each field that the static constructor sets is one that the script provides for. -/
def SetsOwnedFields (model : TypeModel) : Prop :=
  ∀ member ∈ model.members, member.setByStaticConstructor = true →
    (providedField? member).isSome = true

/-- No mark of the definition, of a patch or of the type takes out a field that the static
constructor sets. -/
def LeavesSetFields (model : TypeModel) : Prop :=
  ∀ member ∈ model.members, member.setByStaticConstructor = true →
    member.marks.ignored = false ∧ member.marks.external = false ∧ model.isExternal = false

section

variable {program : Program} {definition : TypeDef} {model : TypeModel}

theorem setsOwnedFields_modelOf_iff :
    SetsOwnedFields (program.modelOf definition) ↔
      LeavesSetFields (program.modelOf definition) := by
  refine forall₃_congr fun member hmember hset => ?_
  obtain ⟨field, hfield⟩ := Program.exists_setField hmember hset
  rw [providedField?, hfield.isIgnored_eq, hfield.isExternal_eq, hfield.definition_eq]
  change _ ↔ _ ∧ _ ∧ (program.marksOf definition).external = false
  cases member.marks.ignored <;> cases member.marks.external <;>
    cases (program.marksOf definition).external <;> simp [MemberDef.field?]

/-- Each first value is the default of a field that is provided. -/
theorem exists_member_of_mem_fieldInitializers (howned : SetsOwnedFields model)
    {statement : Stmt} (h : statement ∈ fieldInitializers model) :
    ∃ member ∈ model.members, ∃ field, providedField? member = some field ∧
      statement = defaultAssignment model field := by
  obtain ⟨field, hfield, rfl⟩ := List.mem_map.1 h
  obtain ⟨member, hmember, hdefinition⟩ := List.mem_filterMap.1 hfield
  obtain ⟨hmem, hset⟩ := List.mem_filter.1 hmember
  obtain ⟨found, hprovided⟩ := Option.isSome_iff_exists.1 (howned member hmem hset)
  obtain rfl := Option.some.inj ((field?_of_providedField? hprovided).2.symm.trans hdefinition)
  exact ⟨member, hmem, found, hprovided, rfl⟩

/-- The statements put before those of a method come first in its function. -/
theorem Translator.exists_own_of_function {translator : Translator} {name : String}
    {declared implementation : MethodDef} {initializers : Block} {function : Function}
    (h : translator.function name declared implementation initializers = .ok function) :
    ∃ own, translator.function name declared implementation [] = .ok own ∧
      function = own.prepend initializers := by
  cases hown : translator.function name declared implementation [] with
  | ok own =>
    rw [translator.function_prepend hown] at h
    exact ⟨own, rfl, (Except.ok.inj h).symm⟩
  | error error =>
    -- A failure comes before the statements are put in.
    rw [Translator.function] at h hown
    cases htree : translator.decompile implementation with
    | error reason =>
      rw [htree] at h
      cases h
    | ok tree =>
      simp only [htree, bind, Except.bind] at h hown
      split at h
      · cases h
      · rename_i made hmade
        simp only [hmade] at hown
        cases hown

end

/-- In every model that a new store comes to, the static constructor sets static fields by
what their definitions say, and keeps to fields of the script exactly if the marks of
patches, of the fields and of the type leave those alone.  Then whatever static
constructor is declared starts with first values for such fields only.  A static
constructor is made up where there are fields to be set and no other is supplied. -/
theorem setsOwnedFields_iff {store : Store} (hfresh : store.cache = {})
    (honce : store.graph.DefinesOnce) {requests : List Request}
    (hindexed : ∀ request ∈ requests, request.IsIndexed store.graph) {id : TypeId}
    {model : TypeModel} (hmodel : (store.answerAll requests).model? id = some model) :
    (SetsOwnedFields model ↔ LeavesSetFields model) ∧
    (∀ member ∈ model.members, member.setByStaticConstructor = true →
      ∃ field, store.program.SetField model.definition member field) ∧
    (SetsOwnedFields model → ∀ (translator : Translator) name declared implementation function,
      translator.function name declared implementation (fieldInitializers model) = .ok function →
      ∃ own, translator.function name declared implementation [] = .ok own ∧
        function = own.prepend (fieldInitializers model) ∧
        ∀ statement ∈ fieldInitializers model, ∃ member ∈ model.members, ∃ field,
          providedField? member = some field ∧ statement = defaultAssignment model field) ∧
    ((∃ member, model.staticConstructor? = some member ∧ member.origin = .synthesized) ↔
      model.staticConstructorFields ≠ [] ∧
      (∀ member ∈ model.members, TypeModel.isStaticConstructor member = true →
        member.origin = .synthesized) ∧
      (model.kind = .reference ∨ model.kind = .struct ∨ model.kind = .staticClass)) := by
  have heq := Store.eq_modelOf_of_model? hfresh honce hindexed hmodel
  generalize model.definition = definition at heq
  subst heq
  refine ⟨setsOwnedFields_modelOf_iff, fun member => Program.exists_setField, ?_, ?_⟩
  · intro howned translator name declared implementation function hfunction
    obtain ⟨own, hown, hprepend⟩ := Translator.exists_own_of_function hfunction
    exact ⟨own, hown, hprepend, fun statement => exists_member_of_mem_fieldInitializers howned⟩
  · rw [← TypeKind.isDeclaredInFull_eq_false_iff]
    exact Program.staticConstructor?_synthesized_iff

/-- A class with a counter that a static constructor has to set. -/
def gaugeClass : TypeBlueprint :=
  { space := "App", name := "Gauge"
    fields := [({ name := "level", type := .primitive .int32 } : FieldDef).asStatic] }

/-- A store over the class and a proxy that patches the counter with attributes. -/
def gaugeStore (attributes : List Attribute) : Store :=
  let patching : TypeBlueprint :=
    { space := "Patches", name := "Gauge"
      fields := [{ name := "level", type := .primitive .int32, attributes }] }
  let proxy : Proxy :=
    { definition := patching.buildDetached, types := [], names := ["App.Gauge"],
      inheritable := true }
  { program := { graph := { index := [⟨"App", gaugeClass.buildDetached⟩] }, proxies := [proxy] } }

theorem model?_gaugeStore (attributes : List Attribute) :
    ((gaugeStore attributes).answerAll [.definition gaugeClass.buildDetached]).model?
        gaugeClass.buildDetached.typeId =
      some ((gaugeStore attributes).program.modelOf gaugeClass.buildDetached) :=
  Store.model?_answerAll_definition rfl (List.nodup_singleton _)
    ⟨_, List.mem_singleton_self _, rfl⟩

/-- A class with a static field and a proxy that ignores nothing is given a static constructor
for the field. -/
theorem setsOwnedFields_iff_gaugeStore :
    let store := gaugeStore []
    let definition := gaugeClass.buildDetached
    ∃ model, (store.answerAll [.definition definition]).model? definition.typeId = some model ∧
      model.proxies.length = 1 ∧ model.staticConstructorFields.map (·.name) = ["level"] ∧
      SetsOwnedFields model ∧
      ∃ member, model.staticConstructor? = some member ∧ member.origin = .synthesized := by
  intro store definition
  have hindexed : ∀ request ∈ [Request.definition definition], request.IsIndexed store.graph := by
    rw [List.forall_mem_singleton]
    exact ⟨_, List.mem_singleton_self _, rfl⟩
  have hfresh : store.cache = {} := rfl
  obtain ⟨howned, -, -, hmade⟩ :=
    setsOwnedFields_iff hfresh (List.nodup_singleton _) hindexed (model?_gaugeStore [])
  refine ⟨_, model?_gaugeStore [], by decide +kernel, by decide +kernel, ?_, ?_⟩
  · refine howned.2 ?_
    rw [LeavesSetFields]
    decide +kernel
  · refine hmade.2 ⟨?_, ?_, ?_⟩
    · decide +kernel
    · decide +kernel
    · decide +kernel

/-- The field is set although the proxy has it ignored. -/
theorem not_setsOwnedFields_gaugeStore :
    let store := gaugeStore [{ typeName := Attribute.ignore }]
    let definition := gaugeClass.buildDetached
    store.cache = {} ∧ store.graph.DefinesOnce ∧
      ∃ model, (store.answerAll [.definition definition]).model? definition.typeId = some model ∧
        model.staticConstructorFields.map (·.name) = ["level"] ∧
        (fieldInitializers model).length = 1 ∧
        (model.fields.filterMap providedField?).length = 0 ∧
        ¬SetsOwnedFields model := by
  intro store definition
  refine ⟨rfl, List.nodup_singleton _, _, model?_gaugeStore _, ?_, ?_, ?_, ?_⟩
  · decide +kernel
  · decide +kernel
  · decide +kernel
  · rw [SetsOwnedFields]
    decide +kernel

end Script

end Assemblage
