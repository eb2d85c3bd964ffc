import Assemblage.Proofs.Model.Completed
import Assemblage.Proofs.Model.OrderIndependence
import Assemblage.Proofs.Model.Settled

/-!
# Models on demand

A run asks for models by the definitions of indexed types only.  Such a request
always finds or builds a model, and where types are defined once it is the one
model of the definition that was asked for.
-/

namespace Assemblage

namespace Program

/-- What a cache keeps while models are asked for by definition. -/
structure Orderly (program : Program) (cache : Cache) : Prop where
  faithful : cache.Faithful program
  honest : program.Honest cache
  canonical : program.graph.DefinesOnce → program.Canonical cache

variable {program : Program} {cache : Cache} {definition : TypeDef}

theorem orderly_empty (program : Program) : program.Orderly {} where
  faithful := Store.faithful_empty program
  honest := honest_empty
  canonical _ _ _ h := absurd h.symm (Option.some_ne_none _)

theorem Orderly.construct (h : program.Orderly cache)
    (hindexed : program.graph.Indexes definition) :
    program.Orderly (program.construct cache definition) := by
  have hconstruct := constructed_construct h.faithful hindexed
  refine ⟨hconstruct.faithful, ?_, ?_⟩
  · intro id hid
    rcases hconstruct.entry id none hid with hold | ⟨-, hlacks⟩ | ⟨model, heq, -⟩
    · exact h.honest id hold
    · exact hlacks
    · exact absurd heq.symm (Option.some_ne_none model)
  · intro honce id model hmodel
    rcases hconstruct.entry id (some model) hmodel with hold | ⟨hno, -⟩ | ⟨made, heq, hmade⟩
    · exact h.canonical honce id model hold
    · exact absurd hno (Option.some_ne_none model)
    · rw [← Option.some.inj heq] at hmade
      exact hmade.eq_modelOf honce

/-- An indexed type is never recorded as absent. -/
theorem Orderly.exists_model (h : program.Orderly cache)
    (hindexed : program.graph.Indexes definition)
    {entry : Option TypeModel} (hentry : cache.find? definition.typeId = some entry) :
    ∃ model, entry = some model := by
  cases entry with
  | none => exact absurd rfl (h.honest definition.typeId hentry definition hindexed)
  | some model => exact ⟨model, rfl⟩

/-- A model under the identifier of a type that is defined once is its model. -/
theorem Orderly.eq_modelOf (h : program.Orderly cache) (honce : program.graph.DefinesOnce)
    (hindexed : program.graph.Indexes definition) {model : TypeModel}
    (hmodel : cache.find? definition.typeId = some (some model)) :
    model = program.modelOf definition := by
  obtain ⟨found, hfound, hid, rfl⟩ := h.canonical honce definition.typeId model hmodel
  rw [honce.eq_of_typeId_eq hfound hindexed hid]

end Program

namespace Store

/-- A request for an indexed type comes to a model and leaves the cache in order. -/
theorem exists_requestDefinition {store : Store} {definition : TypeDef}
    (h : store.program.Orderly store.cache) (hindexed : store.graph.Indexes definition) :
    ∃ cache model, store.requestDefinition definition = ({ store with cache }, some model) ∧
      store.program.Orderly cache ∧
      TypeModel.Faithful store.program definition.typeId model ∧
      (store.graph.DefinesOnce → model = store.program.modelOf definition) := by
  have hanswer : ∀ cache, store.program.Orderly cache → ∀ model,
      cache.find? definition.typeId = some (some model) →
        TypeModel.Faithful store.program definition.typeId model ∧
          (store.graph.DefinesOnce → model = store.program.modelOf definition) :=
    fun cache hcache model hmodel =>
      ⟨hcache.faithful _ model hmodel, fun honce => hcache.eq_modelOf honce hindexed hmodel⟩
  rw [requestDefinition]
  cases hfind : store.cache.find? definition.typeId with
  | some entry =>
    obtain ⟨model, rfl⟩ := h.exists_model hindexed hfind
    exact ⟨store.cache, model, rfl, h, hanswer _ h model hfind⟩
  | none =>
    have hafter := h.construct hindexed
    have hroot := (Program.constructed_construct h.faithful hindexed).root
    obtain ⟨entry, hentry⟩ := Cache.contains_iff.1 hroot
    obtain ⟨model, rfl⟩ := hafter.exists_model hindexed hentry
    have hmodel := Cache.model?_eq_some_iff.2 hentry
    refine ⟨_, model, ?_, hafter, hanswer _ hafter model hentry⟩
    simp only [hmodel]

/-- A new store that is asked for one type has its model. -/
theorem model?_answerAll_definition {store : Store} {definition : TypeDef}
    (hfresh : store.cache = {}) (honce : store.graph.DefinesOnce)
    (hindexed : store.graph.Indexes definition) :
    (store.answerAll [.definition definition]).model? definition.typeId =
      some (store.program.modelOf definition) := by
  have horderly : store.program.Orderly store.cache := hfresh ▸ Program.orderly_empty store.program
  obtain ⟨cache, model, hrequest, -, -, hmodel⟩ := exists_requestDefinition horderly hindexed
  calc
    _ = (store.requestDefinition definition).1.model? definition.typeId := rfl
    _ = (store.requestDefinition definition).2 := model?_requestDefinition ..
    _ = _ := by rw [hrequest, hmodel honce]

end Store

end Assemblage
