import Assemblage.Proofs.Model.Requests

/-!
# Finished models

A construction builds the models of an agenda and completes exactly those.  So
every model that a store hands out has been completed once, over whatever cache
there was at that time, also where a definition is asked for that the graph does
not hold.
-/

namespace Assemblage

namespace Program

/-- A model as a store hands it out: built over one cache and completed over
another one. -/
def Finishes (program : Program) (model : TypeModel) : Prop :=
  ∃ (earlier later : Cache) (id : TypeId) (definition : TypeDef),
    model = program.complete later (program.build earlier id definition)

/-- All models in the cache are finished, each for a type that may come up and has the
identifier under which the model is kept. -/
def FinishesAll (program : Program) (admits : TypeDef → Prop) (cache : Cache) : Prop :=
  ∀ id model, cache.find? id = some (some model) →
    program.Finishes model ∧ model.definition.typeId = id ∧ admits model.definition

/-- The models of a later cache are those of an earlier one and finished ones, each for a type
that may come up and under its identifier. -/
def Gains (program : Program) (admits : TypeDef → Prop) (earlier later : Cache) : Prop :=
  ∀ id model, later.find? id = some (some model) →
    earlier.find? id = some (some model) ∨
      program.Finishes model ∧ model.definition.typeId = id ∧ admits model.definition

variable {program : Program} {admits : TypeDef → Prop}

theorem finishesAll_empty : program.FinishesAll admits {} :=
  fun _ _ h => absurd h.symm (Option.some_ne_none _)

theorem Gains.refl (cache : Cache) : program.Gains admits cache cache :=
  fun _ _ h => .inl h

theorem Gains.mono {others : TypeDef → Prop} {earlier later : Cache}
    (h : program.Gains admits earlier later) (hadmits : ∀ definition, admits definition →
      others definition) : program.Gains others earlier later :=
  fun id model hmodel => (h id model hmodel).imp_right fun ⟨hfinishes, hid, hdefinition⟩ =>
    ⟨hfinishes, hid, hadmits _ hdefinition⟩

/-- A cache of finished models that gains finished models has finished models only. -/
theorem FinishesAll.gains {earlier later : Cache} (h : program.FinishesAll admits earlier)
    (hgains : program.Gains admits earlier later) : program.FinishesAll admits later := by
  intro id model hmodel
  rcases hgains id model hmodel with hold | hnew
  · exact h id model hold
  · exact hnew

/-- How the first pass goes on from a cache and the identifiers of the models it
has built: a model in the result was in the cache or is one of those built, and no
type with an entry is built. -/
structure BuildsOn (program : Program) (admits : TypeDef → Prop) (cache : Cache)
    (built : List TypeId) (result : Cache × List TypeId) : Prop where
  extend : result.1.Extends cache
  model : ∀ id model, result.1.find? id = some (some model) →
    cache.find? id = some (some model) ∨
      id ∈ result.2 ∧ ∃ earlier definition, definition.typeId = id ∧ admits definition ∧
        model = program.build earlier id definition
  new : ∀ id ∈ result.2, id ∈ built ∨ cache.contains id = false
  old : built ⊆ result.2

/-- The models that are built from an agenda are of its definitions and of definitions of the
graph. -/
theorem buildsOn_buildAll
    (hgraph : ∀ definition, program.graph.Indexes definition → admits definition)
    (cache : Cache) (agenda : Agenda) (built : List TypeId)
    (hagenda : ∀ item ∈ agenda.queue, item.2.typeId = item.1 ∧ admits item.2) :
    program.BuildsOn admits cache built (program.buildAll cache agenda built) := by
  fun_induction buildAll program cache agenda built with
  | case1 cache agenda built hqueue =>
    exact ⟨.refl cache, fun _ _ h => .inl h, fun _ h => .inl h, List.Subset.refl _⟩
  | case2 cache agenda built id definition rest hqueue hcontains ih =>
    rw [hqueue, List.forall_mem_cons] at hagenda
    exact ih hagenda.2
  | case3 cache agenda built id definition rest hqueue hcontains model added ih =>
    rw [hqueue, List.forall_mem_cons] at hagenda
    obtain ⟨hdefinition, hrest⟩ := hagenda
    have hgrown := Agenda.grown_addAll program.graph cache { agenda with queue := rest }
      model.relatedTypes
    have hextends : (added.1.insert id (some model)).Extends cache :=
      hgrown.extend.trans (Cache.extends_insert added.1 id (some model))
    have hbuilds := ih (by
      obtain ⟨further, hfurther, hitems⟩ := hgrown.queue
      rw [hfurther, List.forall_mem_append]
      refine ⟨hrest, fun item hitem => ?_⟩
      obtain ⟨-, named, -, hkey, hresolve⟩ := hitems item hitem
      exact ⟨(Graph.typeId_of_resolve? hresolve).trans hkey,
        hgraph _ (Graph.exists_index_of_resolve? hresolve)⟩)
    have hself := hbuilds.old (List.mem_append_right built (List.mem_singleton_self id))
    refine ⟨hextends.trans hbuilds.extend, ?_, ?_,
      fun other hother => hbuilds.old (List.mem_append_left [id] hother)⟩
    · intro other found hfound
      rcases hbuilds.model other found hfound with hbefore | hbuilt
      · rcases Cache.find?_insert_cases hbefore with hbefore | ⟨-, rfl, heq⟩
        · rcases hgrown.new_entry other _ hbefore with hbefore | ⟨habsent, -⟩
          · exact .inl hbefore
          · exact absurd habsent (Option.some_ne_none found)
        · exact .inr ⟨hself, cache, definition, hdefinition.1, hdefinition.2,
            Option.some.inj heq⟩
      · exact .inr hbuilt
    · intro other hother
      rcases hbuilds.new other hother with hother | hnew
      · rcases List.mem_append.1 hother with hother | hother
        · exact .inl hother
        · rw [List.mem_singleton.1 hother]
          exact .inr (Bool.eq_false_iff.2 hcontains)
      · apply Or.inr
        by_contra hold
        rw [hextends.contains (Bool.not_eq_false _ ▸ hold)] at hnew
        exact Bool.noConfusion hnew

section

variable {cache : Cache} {definition : TypeDef}

/-- The first pass of a construction. -/
theorem buildsOn_start
    (hgraph : ∀ definition, program.graph.Indexes definition → admits definition)
    (hdefinition : admits definition) :
    program.BuildsOn admits cache [] (program.buildAll cache (Agenda.start definition) []) := by
  apply buildsOn_buildAll hgraph
  intro item hitem
  rw [List.mem_singleton.1 hitem]
  exact ⟨rfl, hdefinition⟩

/-- Only models that were not there before are completed. -/
theorem extends_construct (cache : Cache) (definition : TypeDef) :
    (program.construct cache definition).Extends cache := by
  have hbuilds : program.BuildsOn (fun _ => True) cache []
      (program.buildAll cache (Agenda.start definition) []) :=
    buildsOn_start (fun _ _ => trivial) trivial
  rw [Program.construct]
  intro id entry hentry
  rw [Cache.find?_update_of_not_mem _ _ fun hid => ?_]
  · exact hbuilds.extend id entry hentry
  · rcases hbuilds.new id hid with hnone | hnew
    · exact absurd hnone List.not_mem_nil
    · rw [Cache.contains_eq_false_iff, hentry] at hnew
      exact absurd hnew (Option.some_ne_none _)

/-- A construction gains models of the definition and of the graph. -/
theorem gains_construct
    (hgraph : ∀ definition, program.graph.Indexes definition → admits definition)
    (cache : Cache) (hdefinition : admits definition) :
    program.Gains admits cache (program.construct cache definition) := by
  have hbuilds : program.BuildsOn admits cache []
      (program.buildAll cache (Agenda.start definition) []) := buildsOn_start hgraph hdefinition
  rw [Program.construct]
  generalize program.buildAll cache (Agenda.start definition) [] = result at hbuilds ⊢
  obtain ⟨final, built⟩ := result
  intro id model hmodel
  by_cases hid : id ∈ built
  · rw [Cache.find?_update] at hmodel
    obtain ⟨entry, hentry, heq⟩ := Option.map_eq_some_iff.1 hmodel
    rw [if_pos (List.contains_iff_mem.2 hid)] at heq
    obtain ⟨raw, rfl, rfl⟩ := Option.map_eq_some_iff.1 heq
    rcases hbuilds.model id raw hentry with hold | ⟨-, earlier, definition, hkey, hadmits, rfl⟩
    · rcases hbuilds.new id hid with hnone | hnew
      · exact absurd hnone List.not_mem_nil
      · rw [Cache.contains_eq_false_iff, hold] at hnew
        exact absurd hnew (Option.some_ne_none _)
    · exact .inr ⟨⟨earlier, final, id, definition, rfl⟩, hkey, hadmits⟩
  · rw [Cache.find?_update_of_not_mem final _ hid] at hmodel
    exact (hbuilds.model id model hmodel).imp_right fun hbuilt => absurd hbuilt.1 hid

theorem FinishesAll.construct (h : program.FinishesAll admits cache)
    (hgraph : ∀ definition, program.graph.Indexes definition → admits definition)
    (hdefinition : admits definition) :
    program.FinishesAll admits (program.construct cache definition) :=
  h.gains (gains_construct hgraph cache hdefinition)

end

end Program

namespace Store

variable {store : Store}

theorem program_answer (store : Store) (request : Request) :
    (store.answer request).program = store.program := by
  have htype : ∀ signature, (store.request signature).1.program = store.program := by
    intro signature
    rw [Store.request]
    split
    · rfl
    · split
      · rw [recordAbsent]
        split <;> rfl
      · rfl
  cases request with
  | type signature => exact htype signature
  | definition definition =>
    rw [answer, requestDefinition]
    split <;> rfl
  | member owner id =>
    rcases store.requestMember_cases owner id with heq | ⟨entry, heq⟩ <;> rw [answer, heq]
    · exact htype owner
    · exact htype owner

/-- What a request for a definition answers is what the store keeps. -/
theorem model?_requestDefinition (store : Store) (definition : TypeDef) :
    (store.requestDefinition definition).1.model? definition.typeId =
      (store.requestDefinition definition).2 := by
  rw [requestDefinition]
  split
  · rename_i entry hentry
    exact congrArg Option.join hentry
  · rfl

theorem cache_requestMember (store : Store) (owner : Signature) (id : MemberId) :
    (store.requestMember owner id).1.cache = (store.request owner).1.cache := by
  rcases store.requestMember_cases owner id with heq | ⟨entry, heq⟩ <;> rw [heq]
  rfl

theorem gains_request (store : Store) (signature : Signature) :
    store.program.Gains store.graph.Indexes store.cache (store.request signature).1.cache := by
  intro id model hmodel
  rw [request] at hmodel
  split at hmodel
  · exact .inl hmodel
  · split at hmodel
    · have hinsert : (store.cache.insert signature.typeId none).find? id = some (some model) := by
        rw [recordAbsent] at hmodel
        split at hmodel <;> exact hmodel
      rcases Cache.find?_insert_cases hinsert with hold | ⟨-, -, hnone⟩
      · exact .inl hold
      · exact absurd hnone (Option.some_ne_none model)
    · rename_i definition hresolve
      have hgains := Program.gains_construct (fun _ hindexed => hindexed) store.cache
        (Graph.exists_index_of_resolve? hresolve : store.graph.Indexes definition)
      rcases Cache.find?_insert_cases hmodel with hnew | ⟨-, rfl, heq⟩
      · exact hgains id model hnew
      · rw [← Graph.typeId_of_resolve? hresolve]
        exact hgains _ model (Cache.model?_eq_some_iff.1 heq.symm)

/-- A request leaves the models there are, and adds those of types of the graph and of the
definition that it is about. -/
theorem gains_answer (store : Store) (request : Request) :
    store.program.Gains
      (fun definition => store.graph.Indexes definition ∨ request = .definition definition)
      store.cache (store.answer request).cache := by
  cases request with
  | type signature => exact (gains_request store signature).mono fun _ => .inl
  | definition definition =>
    rw [answer, requestDefinition]
    split
    · exact .refl _
    · exact Program.gains_construct (fun _ => .inl) store.cache (.inr rfl)
  | member owner id =>
    rw [answer, cache_requestMember]
    exact (gains_request store owner).mono fun _ => .inl

/-- A request leaves every entry as it is, whatever it is about. -/
theorem extends_answer (store : Store) (request : Request) :
    (store.answer request).cache.Extends store.cache := by
  have htype : ∀ signature, (store.request signature).1.cache.Extends store.cache := by
    intro signature
    rw [Store.request]
    split
    · exact .refl _
    · split
      · rw [recordAbsent]
        split <;> exact Cache.extends_insert _ _ _
      · exact (Program.extends_construct _ _).trans (Cache.extends_insert _ _ _)
  cases request with
  | type signature => exact htype signature
  | definition definition =>
    rw [answer, requestDefinition]
    split
    · exact .refl _
    · exact Program.extends_construct _ _
  | member owner id =>
    rw [answer, cache_requestMember]
    exact htype owner

/-- A request keeps all models finished. -/
theorem finishesAll_answer (h : store.program.FinishesAll (fun _ => True) store.cache)
    (request : Request) :
    (store.answer request).program.FinishesAll (fun _ => True) (store.answer request).cache := by
  rw [program_answer]
  exact h.gains ((gains_answer store request).mono fun _ _ => trivial)

/-- Whatever a new store has been asked for, the models it keeps are finished. -/
theorem finishesAll_answerAll (hfresh : store.cache = {}) (requests : List Request) :
    (store.answerAll requests).program = store.program ∧
      store.program.FinishesAll (fun _ => True) (store.answerAll requests).cache := by
  induction requests using List.reverseRecOn with
  | nil =>
    refine ⟨rfl, ?_⟩
    rw [answerAll, List.foldl_nil, hfresh]
    exact Program.finishesAll_empty
  | append_singleton requests request ih =>
    obtain ⟨hprogram, hfinishes⟩ := ih
    rw [answerAll_append_singleton]
    have hsame := program_answer (store.answerAll requests) request
    rw [hprogram] at hsame
    refine ⟨hsame, ?_⟩
    rw [← hsame]
    exact finishesAll_answer (by rwa [hprogram]) request

end Store

end Assemblage
