import Assemblage.Model.Store
import Assemblage.Proofs.Model.Construction
import Mathlib.Data.List.Induction

/-!
# Requests

A store is asked for the model of a reference, of a definition, or of the type
that should have a member.  Whatever is asked, the cache stays as it is, records
one more type as absent, or goes through one construction.  So faithful caches
stay faithful over every run of requests.
-/

namespace Assemblage

/-- What a store can be asked for. -/
inductive Request where
  | type (signature : Signature)
  | definition (definition : TypeDef)
  | member (owner : Signature) (id : MemberId)

/-- A request for a definition is about one of the graph. -/
def Request.IsIndexed (graph : Graph) : Request → Prop
  | .definition target => graph.Indexes target
  | .type _ | .member _ _ => True

namespace Store

/-- The store after a request. -/
def answer (store : Store) : Request → Store
  | .type signature => (store.request signature).1
  | .definition definition => (store.requestDefinition definition).1
  | .member owner id => (store.requestMember owner id).1

def answerAll (store : Store) (requests : List Request) : Store :=
  requests.foldl answer store

theorem answerAll_append_singleton (store : Store) (requests : List Request) (request : Request) :
    store.answerAll (requests ++ [request]) = (store.answerAll requests).answer request :=
  List.foldl_append

/-- The ways in which a request changes a store. -/
inductive Step (store : Store) : Store → Prop
  | kept {after : Store} (program : after.program = store.program)
      (cache : after.cache = store.cache) : Step store after
  | absent {after : Store} (signature : Signature) (program : after.program = store.program)
      (unresolved : store.graph.resolve? signature = none)
      (new : store.cache.contains signature.typeId = false)
      (cache : after.cache = store.cache.insert signature.typeId none) : Step store after
  | constructed {after : Store} (definition : TypeDef) (program : after.program = store.program)
      (indexed : store.graph.Indexes definition)
      (cache : after.cache = store.program.construct store.cache definition) : Step store after

variable {store : Store}

theorem Step.report {after : Store} (h : Step store after) (entry : Diagnostic) :
    Step store (after.report entry) := by
  cases h with
  | kept program cache => exact .kept program cache
  | absent signature program unresolved new cache =>
    exact .absent signature program unresolved new cache
  | constructed definition program indexed cache =>
    exact .constructed definition program indexed cache

theorem step_recordAbsent {signature : Signature}
    (hresolve : store.graph.resolve? signature = none)
    (hnew : store.cache.contains signature.typeId = false) :
    Step store (store.recordAbsent signature) := by
  refine .absent signature ?_ hresolve hnew ?_
  all_goals
    rw [recordAbsent]
    split <;> rfl

theorem step_request (hcache : store.cache.Faithful store.program) (signature : Signature) :
    Step store (store.request signature).1 := by
  rw [request]
  split
  · exact .kept rfl rfl
  · rename_i hnew
    split
    · rename_i hresolve
      exact step_recordAbsent hresolve (Cache.contains_eq_false_iff.2 hnew)
    · rename_i definition hresolve
      have hindexed : store.graph.Indexes definition := Graph.exists_index_of_resolve? hresolve
      have hroot := (Program.constructed_construct hcache hindexed).root
      -- The construction has left an entry under the identifier, so the insertion does nothing.
      rw [Graph.typeId_of_resolve? hresolve] at hroot
      exact .constructed definition rfl hindexed (Cache.insert_of_contains _ hroot)

theorem step_requestDefinition {definition : TypeDef} (hindexed : store.graph.Indexes definition) :
    Step store (store.requestDefinition definition).1 := by
  rw [requestDefinition]
  split
  · exact .kept rfl rfl
  · exact .constructed definition rfl hindexed rfl

/-- A request for a member asks for its owner, and leaves but a report beyond that. -/
theorem requestMember_cases (store : Store) (owner : Signature) (id : MemberId) :
    (store.requestMember owner id).1 = (store.request owner).1 ∨
      ∃ entry, (store.requestMember owner id).1 = (store.request owner).1.report entry := by
  rw [requestMember]
  split
  · rename_i heq
    rw [heq]
    exact .inr ⟨_, rfl⟩
  · rename_i heq
    rw [heq]
    split
    · exact .inl rfl
    · exact .inr ⟨_, rfl⟩

theorem step_requestMember (hcache : store.cache.Faithful store.program) (owner : Signature)
    (id : MemberId) : Step store (store.requestMember owner id).1 := by
  have hstep := step_request hcache owner
  rcases store.requestMember_cases owner id with heq | ⟨entry, heq⟩ <;> rw [heq]
  · exact hstep
  · exact hstep.report entry

/-- Every request is one of the steps. -/
theorem step_answer {request : Request} (hcache : store.cache.Faithful store.program)
    (hindexed : request.IsIndexed store.graph) : Step store (store.answer request) := by
  cases request with
  | type signature => exact step_request hcache signature
  | definition definition => exact step_requestDefinition hindexed
  | member owner id => exact step_requestMember hcache owner id

/-- Steps leave the program as it is. -/
theorem Step.program_eq {after : Store} (h : Step store after) :
    after.program = store.program := by
  cases h <;> assumption

/-- A request leaves every entry as it is. -/
theorem Step.extends {after : Store} (h : Step store after)
    (hcache : store.cache.Faithful store.program) : after.cache.Extends store.cache := by
  cases h with
  | kept program cache => exact cache ▸ Cache.Extends.refl _
  | absent signature program unresolved new cache => exact cache ▸ Cache.extends_insert _ _ _
  | constructed definition program indexed cache =>
    exact cache ▸ (Program.constructed_construct hcache indexed).extend

/-- Steps keep the cache faithful. -/
theorem Step.faithful {after : Store} (h : Step store after)
    (hcache : store.cache.Faithful store.program) : after.cache.Faithful after.program := by
  rw [h.program_eq]
  cases h with
  | kept program cache => exact cache ▸ hcache
  | absent signature program unresolved new cache =>
    rw [cache]
    exact hcache.insert fun model heq => absurd heq.symm (Option.some_ne_none model)
  | constructed definition program indexed cache =>
    rw [cache]
    exact (Program.constructed_construct hcache indexed).faithful

/-- What every step keeps holds after every run of requests. -/
theorem answerAll_induction {motive : Store → Prop} (requests : List Request)
    (hcache : store.cache.Faithful store.program)
    (hindexed : ∀ request ∈ requests, request.IsIndexed store.graph)
    (hstart : motive store)
    (hstep : ∀ before after, before.program = store.program →
      before.cache.Faithful before.program → Step before after → motive before → motive after) :
    (store.answerAll requests).program = store.program ∧
      (store.answerAll requests).cache.Faithful (store.answerAll requests).program ∧
      motive (store.answerAll requests) := by
  -- From the last request back, as the steps lead away from the first store.
  induction requests using List.reverseRecOn with
  | nil => exact ⟨rfl, hcache, hstart⟩
  | append_singleton requests request ih =>
    obtain ⟨hprogram, hfaithful, hmotive⟩ :=
      ih fun other hother => hindexed other (List.mem_append_left _ hother)
    have hlast : Step (store.answerAll requests) (store.answerAll (requests ++ [request])) := by
      rw [answerAll_append_singleton]
      apply step_answer hfaithful
      rw [graph, hprogram]
      exact hindexed request (List.mem_append_right _ (List.mem_singleton.2 rfl))
    exact ⟨hlast.program_eq.trans hprogram, hlast.faithful hfaithful,
      hstep _ _ hprogram hfaithful hlast hmotive⟩

/-- A class or struct with the given fields only. -/
def sampleType (name : String) (base : Option Signature) (fields : List FieldDef) : TypeDef :=
  { space := "Sample", name, flags := {}, base, interfaces := [], fields, methods := [],
    properties := [], nested := [], generics := [], attributes := [], scope := {}, outer := none }

def sampleName (name : String) : TypeName :=
  { space := "Sample", path := name }

def sampleLeaf : TypeDef :=
  sampleType "Leaf" (some (.reference { space := "System", path := "ValueType" })) []

/-- A node refers to itself, has a leaf of its own, and mentions a type that is
nowhere defined. -/
def sampleNode : TypeDef :=
  sampleType "Node" none
    [{ name := "next", type := .reference (sampleName "Node") },
     { name := "leaf", type := .value (sampleName "Leaf"),
       flags := FieldFlag.isPublic ||| FieldFlag.isStatic },
     { name := "lost", type := .vector (.reference (sampleName "Lost")) }]

def sampleStore : Store :=
  { program :=
      { graph := { index := [⟨"Sample", sampleNode⟩, ⟨"Sample", sampleLeaf⟩] } } }

theorem indexes_sampleStore {definition : TypeDef} (h : sampleStore.graph.Indexes definition) :
    definition = sampleNode ∨ definition = sampleLeaf := by
  obtain ⟨entry, hentry, rfl⟩ := h
  cases List.mem_cons.1 hentry with
  | inl heq =>
    subst heq
    exact .inl rfl
  | inr hentry =>
    rw [List.mem_singleton.1 hentry]
    exact .inr rfl

theorem faithful_empty (program : Program) : ({} : Cache).Faithful program := by
  intro id model hmodel
  rw [Cache.find?_empty] at hmodel
  exact absurd hmodel.symm (Option.some_ne_none _)

end Store

end Assemblage
