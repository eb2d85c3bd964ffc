import Assemblage.Proofs.Model.Requests
import Mathlib.Data.List.Nodup

/-!
# Models do not hang on the order of requests

While models are built, the cache is asked which types are ignored, and what it
holds at that moment hangs on what was asked for before.  Where every type name
is defined once, a model in the cache is that of the one type under its
identifier, and so the cache answers as the graph does without it.
-/

namespace Assemblage

/-- Every full type name is defined at most once. -/
def Graph.DefinesOnce (graph : Graph) : Prop :=
  (graph.index.map (·.definition.fullName)).Nodup

/-- Where types are defined once, an id determines the definition. -/
theorem Graph.DefinesOnce.eq_of_typeId_eq {graph : Graph} (h : graph.DefinesOnce)
    {left right : TypeDef} (hleft : graph.Indexes left) (hright : graph.Indexes right)
    (hid : left.typeId = right.typeId) : left = right := by
  obtain ⟨entry, hentry, rfl⟩ := hleft
  obtain ⟨other, hother, rfl⟩ := hright
  have hname : entry.definition.fullName = other.definition.fullName :=
    congrArg TypeId.fullName hid
  rw [List.inj_on_of_nodup_map h hentry hother hname]

/-- A reference with the identifier of a type is one to that type. -/
theorem Graph.DefinesOnce.resolve?_eq {graph : Graph} (h : graph.DefinesOnce)
    {definition : TypeDef} (hindexed : graph.Indexes definition) {reference : Signature}
    (hnamed : reference.definitionName?.isSome = true)
    (hid : reference.typeId = definition.typeId) : graph.resolve? reference = some definition := by
  cases hresolve : graph.resolve? reference with
  | none =>
    obtain ⟨name, hname⟩ := Option.isSome_iff_exists.1 hnamed
    exact absurd hid.symm (lacks_of_resolve?_eq_none hname hresolve definition hindexed)
  | some found =>
    have hfound : graph.Indexes found := exists_index_of_resolve? hresolve
    have hsame : found.typeId = definition.typeId := (typeId_of_resolve? hresolve).trans hid
    rw [h.eq_of_typeId_eq hfound hindexed hsame]

namespace Program

variable {program : Program} {cache : Cache}

/-- Looking at the models first changes no answer. -/
theorem ignoresNamed_eq (honce : program.graph.DefinesOnce) (hcache : cache.Faithful program)
    (signature : Signature) :
    program.ignoresNamed cache signature = program.ignoresNamed {} signature := by
  rw [ignoresNamed, ignoresNamed]
  cases hresolve : program.graph.resolve? signature with
  | none => rfl
  | some definition =>
    cases hmodel : cache.model? definition.typeId with
    | none => simp only [hmodel]; rfl
    | some model =>
      have hfaithful := hcache _ model (Cache.model?_eq_some_iff.1 hmodel)
      have hindexed : program.graph.Indexes definition := Graph.exists_index_of_resolve? hresolve
      have hsame : model.definition = definition :=
        honce.eq_of_typeId_eq hfaithful.indexed hindexed hfaithful.typeId_eq
      simp only [hmodel]
      rw [hfaithful.ignored_eq, hsame]
      rfl

/-- A faithful cache does not change what is ignored. -/
theorem ignores_eq (honce : program.graph.DefinesOnce) (hcache : cache.Faithful program) :
    program.ignores cache = program.ignores {} :=
  funext fun _ => ignores_congr fun named _ _ => ignoresNamed_eq honce hcache named

/-- Building depends on the cache only by what is ignored. -/
theorem build_congr {left right : Cache} (h : program.ignores left = program.ignores right)
    (id : TypeId) (definition : TypeDef) :
    program.build left id definition = program.build right id definition := by
  have hset : program.isSetByStaticConstructor left = program.isSetByStaticConstructor right := by
    funext field
    rw [isSetByStaticConstructor, isSetByStaticConstructor, h]
  have hmark : program.markField left = program.markField right := by
    funext member
    rw [markField, markField, hset]
  rw [build, build, membersOf, membersOf, hmark]

/-- Completing depends on the cache only by what is ignored. -/
theorem complete_congr {left right : Cache} (h : program.ignores left = program.ignores right)
    (model : TypeModel) : program.complete left model = program.complete right model := by
  have hcheck : program.checkMember left = program.checkMember right := by
    funext member
    rw [checkMember, checkMember, h]
  rw [complete, complete, hcheck]

/-- The model of a definition, as an empty cache gives it. -/
def modelOf (program : Program) (definition : TypeDef) : TypeModel :=
  program.complete {} (program.build {} definition.typeId definition)

@[simp]
theorem definition_modelOf (program : Program) (definition : TypeDef) :
    (program.modelOf definition).definition = definition := rfl

/-- Every model in the cache is the one that its definition has. -/
def Canonical (program : Program) (cache : Cache) : Prop :=
  ∀ id model, cache.find? id = some (some model) →
    ∃ definition, program.graph.Indexes definition ∧ definition.typeId = id ∧
      model = program.modelOf definition

/-- A model that was made is the canonical one of its definition. -/
theorem Made.eq_modelOf {final : Cache} {id : TypeId} {model : TypeModel}
    (honce : program.graph.DefinesOnce) (h : Made program final id model) :
    ∃ definition, program.graph.Indexes definition ∧ definition.typeId = id ∧
      model = program.modelOf definition := by
  obtain ⟨definition, earlier, later, hindexed, rfl, hearlier, hlater, -, rfl⟩ := h.exists_build
  refine ⟨definition, hindexed, rfl, ?_⟩
  rw [modelOf, build_congr (ignores_eq honce hearlier), complete_congr (ignores_eq honce hlater)]

end Program

namespace Store

/-- One step adds only models that are the same in every cache. -/
theorem Step.canonical {store after : Store} (h : Step store after)
    (honce : store.graph.DefinesOnce) (hcache : store.cache.Faithful store.program)
    (hcanonical : store.program.Canonical store.cache) : after.program.Canonical after.cache := by
  rw [h.program_eq]
  intro id model hmodel
  cases h with
  | kept program cache =>
    rw [cache] at hmodel
    exact hcanonical id model hmodel
  | absent signature program unresolved new cache =>
    rw [cache] at hmodel
    rcases Cache.find?_insert_cases hmodel with hold | ⟨-, -, hno⟩
    · exact hcanonical id model hold
    · exact absurd hno (Option.some_ne_none model)
  | constructed definition program indexed cache =>
    rw [cache] at hmodel
    rcases (Program.constructed_construct hcache indexed).entry id _ hmodel with
      hold | ⟨hno, -⟩ | ⟨made, heq, hmade⟩
    · exact hcanonical id model hold
    · exact absurd hno (Option.some_ne_none model)
    · rw [← Option.some.inj heq] at hmade
      exact hmade.eq_modelOf honce

/-- Any requests leave canonical models. -/
theorem canonical_answerAll {store : Store} (hfresh : store.cache = {})
    (honce : store.graph.DefinesOnce) {requests : List Request}
    (hindexed : ∀ request ∈ requests, request.IsIndexed store.graph) :
    store.program.Canonical (store.answerAll requests).cache := by
  have hcache : store.cache.Faithful store.program := by
    rw [hfresh]
    exact faithful_empty store.program
  obtain ⟨hprogram, -, hcanonical⟩ := answerAll_induction requests hcache hindexed
    (motive := fun current => current.program.Canonical current.cache)
    (by rw [hfresh]; exact fun _ _ h => absurd h.symm (Option.some_ne_none _))
    (fun current next hsame hfaithful hstep hcurrent =>
      hstep.canonical (by rw [graph, hsame]; exact honce) hfaithful hcurrent)
  rw [hprogram] at hcanonical
  exact hcanonical

/-- Two fresh stores over one program end up with equal models wherever both have
one, whatever each has been asked for. -/
theorem model?_order_independent (left right : Store) (hprogram : left.program = right.program)
    (hleft : left.cache = {}) (hright : right.cache = {}) (honce : left.graph.DefinesOnce)
    (requests others : List Request)
    (hrequests : ∀ request ∈ requests, request.IsIndexed left.graph)
    (hothers : ∀ request ∈ others, request.IsIndexed left.graph)
    (id : TypeId) (model other : TypeModel)
    (hmodel : (left.answerAll requests).model? id = some model)
    (hother : (right.answerAll others).model? id = some other) : model = other := by
  have hgraph : right.graph = left.graph := by
    rw [graph, graph, hprogram]
  have hone := canonical_answerAll hleft honce hrequests
  have htwo := canonical_answerAll hright (hgraph ▸ honce) (hgraph ▸ hothers)
  obtain ⟨definition, hindexed, hid, rfl⟩ :=
    hone id model (Cache.model?_eq_some_iff.1 hmodel)
  obtain ⟨found, hfound, hkey, rfl⟩ := htwo id other (Cache.model?_eq_some_iff.1 hother)
  rw [← hprogram] at hfound
  rw [← hprogram, honce.eq_of_typeId_eq hindexed hfound (hid.trans hkey.symm)]

/-- The node comes first in one run; in the other its leaf and a member of a type
that is missing do. -/
theorem model?_order_independent_sampleStore :
    let leaf := Request.definition sampleLeaf
    let node := Request.type (.reference (sampleName "Node"))
    let lost := Request.member (.reference (sampleName "Lost")) (.field "next")
    sampleStore.graph.DefinesOnce ∧
      ∃ model other, (sampleStore.answerAll [node]).model? sampleNode.typeId = some model ∧
        (sampleStore.answerAll [leaf, lost, node]).model? sampleNode.typeId = some other ∧
          model = other := by
  intro leaf node lost
  have honce : sampleStore.graph.DefinesOnce := by
    rw [Graph.DefinesOnce]
    decide +kernel
  have hleft : ((sampleStore.answerAll [node]).model? sampleNode.typeId).isSome = true := by
    decide +kernel
  have hright :
      ((sampleStore.answerAll [leaf, lost, node]).model? sampleNode.typeId).isSome = true := by
    decide +kernel
  obtain ⟨model, hmodel⟩ := Option.isSome_iff_exists.1 hleft
  obtain ⟨other, hother⟩ := Option.isSome_iff_exists.1 hright
  refine ⟨honce, model, other, hmodel, hother, ?_⟩
  refine model?_order_independent sampleStore sampleStore rfl rfl rfl honce [node]
    [leaf, lost, node] ?_ ?_ _ model other hmodel hother
  · intro request hrequest
    rw [List.mem_singleton.1 hrequest]
    trivial
  · intro request hrequest
    cases List.mem_cons.1 hrequest with
    | inl heq =>
      subst heq
      exact ⟨⟨"Sample", sampleLeaf⟩, List.mem_cons_of_mem _ List.mem_cons_self, rfl⟩
    | inr hrequest =>
      cases List.mem_cons.1 hrequest with
      | inl heq =>
        subst heq
        trivial
      | inr hrequest =>
        rw [List.mem_singleton.1 hrequest]
        trivial

end Store

end Assemblage
