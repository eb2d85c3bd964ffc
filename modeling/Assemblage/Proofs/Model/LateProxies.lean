import Assemblage.Proofs.Model.Completed
import Assemblage.Proofs.Model.Ignoring

/-!
# Proxies that come late

A store learns proxies and answers requests in any order.  Whether a type is ignored is
asked of the proxies known by then, but a model stays as it was built.  So a reference to a
type with a model counts as it did at that time, and any other one as the graph says; the
two agree exactly as long as no proxy came too late for a model.
-/

namespace Assemblage

/-- The later program has further proxies, and is the same otherwise. -/
structure Program.Grows (earlier later : Program) : Prop where
  graph_eq : later.graph = earlier.graph
  ignoredTypes_eq : later.ignoredTypes = earlier.ignoredTypes
  proxies : earlier.proxies ⊆ later.proxies

namespace Program

variable {earlier middle later : Program} {definition : TypeDef}

theorem Grows.refl (program : Program) : program.Grows program :=
  ⟨rfl, rfl, List.Subset.refl _⟩

theorem Grows.trans (h : earlier.Grows middle) (hlater : middle.Grows later) :
    earlier.Grows later where
  graph_eq := hlater.graph_eq.trans h.graph_eq
  ignoredTypes_eq := hlater.ignoredTypes_eq.trans h.ignoredTypes_eq
  proxies := List.Subset.trans h.proxies hlater.proxies

/-- A definition that is ignored stays so when proxies are added. -/
theorem IgnoredAlone.grows (h : earlier.IgnoredAlone definition) (hgrows : earlier.Grows later) :
    later.IgnoredAlone definition := by
  cases h with
  | listed hlisted => exact .listed (hgrows.ignoredTypes_eq ▸ hlisted)
  | marked hmarked => exact .marked hmarked
  | patched proxy hproxy happlies hmarked =>
    exact .patched proxy (hgrows.proxies hproxy) (hgrows.graph_eq ▸ happlies) hmarked
  | inModule assembly hassembly part hpart hinside hignored =>
    exact .inModule assembly (hgrows.graph_eq ▸ hassembly) part hpart hinside hignored

/-- What is ignored stays so, whatever proxies come. -/
theorem LiesInIgnored.grows (h : earlier.LiesInIgnored definition) (hgrows : earlier.Grows later) :
    later.LiesInIgnored definition := by
  obtain ⟨around, hindexed, hinside, halone⟩ := h
  exact ⟨around, hgrows.graph_eq ▸ hindexed, hinside, halone.grows hgrows⟩

end Program

/-- What happens to a store: it learns a type as a proxy if that is one, or is asked. -/
inductive Event where
  | proxy (definition : TypeDef)
  | request (request : Request)

namespace Store

def handle (store : Store) : Event → Store
  | .proxy definition => store.addProxy definition
  | .request request => store.answer request

def handleAll (store : Store) (events : List Event) : Store :=
  events.foldl handle store

variable {start store : Store} {events before : List Event}

theorem handleAll_append_singleton (store : Store) (events : List Event) (event : Event) :
    store.handleAll (events ++ [event]) = (store.handleAll events).handle event :=
  List.foldl_append

theorem cache_addProxy (store : Store) (definition : TypeDef) :
    (store.addProxy definition).cache = store.cache := by
  rw [addProxy]
  split <;> rfl

theorem cache_handleAll_proxies (store : Store) (definitions : List TypeDef) :
    (store.handleAll (definitions.map .proxy)).cache = store.cache := by
  induction definitions using List.reverseRecOn with
  | nil => rfl
  | append_singleton definitions definition ih =>
    rw [List.map_append, List.map_singleton, handleAll_append_singleton, handle, cache_addProxy, ih]

theorem grows_addProxy (store : Store) (definition : TypeDef) :
    store.program.Grows (store.addProxy definition).program := by
  rw [addProxy]
  split
  · refine ⟨rfl, rfl, ?_⟩
    simp only [Proxy.register]
    split
    · exact List.Subset.refl _
    · exact List.subset_append_left _ _
  · exact .refl _

theorem grows_handle (store : Store) (event : Event) :
    store.program.Grows (store.handle event).program := by
  cases event with
  | proxy definition => exact store.grows_addProxy definition
  | request request =>
    rw [handle, program_answer]
    exact .refl _

theorem grows_handleAll (store : Store) (events : List Event) :
    store.program.Grows (store.handleAll events).program := by
  induction events using List.reverseRecOn with
  | nil => exact .refl _
  | append_singleton events event ih =>
    rw [handleAll_append_singleton]
    exact ih.trans (grows_handle _ event)

/-- The program at the end has all the proxies of the program before. -/
theorem grows_between (h : before <+: events) :
    (start.handleAll before).program.Grows (start.handleAll events).program := by
  obtain ⟨after, rfl⟩ := h
  rw [handleAll, handleAll, List.foldl_append]
  exact grows_handleAll _ after

theorem graph_handleAll (store : Store) (events : List Event) :
    (store.handleAll events).graph = store.graph :=
  (store.grows_handleAll events).graph_eq

/-- A walk over a definition decides as the program does. -/
theorem walkDefinition_eq (store : Store) (definition : TypeDef) :
    store.walkDefinition definition = store.program.ignoresDefinition definition :=
  Program.walkOutwards_eq fun _ hname => absurd hname List.not_mem_nil

theorem walkSignature_eq (store : Store) (signature : Signature) :
    store.walkSignature signature = store.ignores signature := by
  rw [walkSignature, Program.walkStack_eq, List.any_cons, List.any_nil, Bool.or_false, ignores]

/-- A model is for a type of the graph or for one that was asked for.  It came with some
request, and says whether its type was ignored at that time. -/
structure Remembers (start : Store) (events : List Event) (model : TypeModel) : Prop where
  source : start.graph.Indexes model.definition ∨
    .request (.definition model.definition) ∈ events
  built : ∃ before request, before ++ [.request request] <+: events ∧
    (start.handleAll before).model? model.definition.typeId = none ∧
    (start.handleAll (before ++ [.request request])).model? model.definition.typeId =
      some model ∧
    model.ignored = (start.handleAll before).walkDefinition model.definition

namespace Remembers

variable {model : TypeModel}

theorem concat (h : start.Remembers events model) (event : Event) :
    start.Remembers (events ++ [event]) model where
  source := h.source.imp_right fun hmem => List.mem_append_left _ hmem
  built := by
    obtain ⟨before, request, hbefore, hbuilt⟩ := h.built
    exact ⟨before, request, hbefore.trans (List.prefix_append _ _), hbuilt⟩

/-- A model is ignored as the walk had it at some time before. -/
theorem exists_past (h : start.Remembers events model) :
    ∃ before, before <+: events ∧
      model.ignored = (start.handleAll before).walkDefinition model.definition := by
  obtain ⟨before, request, hbefore, -, -, hignored⟩ := h.built
  exact ⟨before, (List.prefix_append _ _).trans hbefore, hignored⟩

end Remembers

/-- A model that a request brings about remembers the time before it. -/
theorem remembers_of_new {request : Request} {id : TypeId} {model : TypeModel}
    (hnew : (start.handleAll events).cache.find? id = none)
    (hmodel : ((start.handleAll events).answer request).cache.find? id = some (some model)) :
    model.definition.typeId = id ∧ start.Remembers (events ++ [.request request]) model := by
  rcases gains_answer _ request id model hmodel with hold | ⟨hfinishes, hid, hsource⟩
  · rw [hnew] at hold
    cases hold
  · subst hid
    refine ⟨rfl, ?source, events, request, List.prefix_rfl, ?_, ?_, ?_⟩
    case source =>
      rw [graph_handleAll] at hsource
      refine hsource.imp_right fun heq => ?_
      rw [heq]
      exact List.mem_append_right _ List.mem_cons_self
    · rw [model?, Cache.model?, hnew, Option.join_none]
    · rw [handleAll_append_singleton]
      exact Cache.model?_eq_some_iff.2 hmodel
    · obtain ⟨earlier, later, key, definition, rfl⟩ := hfinishes
      exact (walkDefinition_eq _ _).symm

/-- Every model that a new store has at some time is kept under its own identifier, and
remembers. -/
theorem remembers_handleAll (hfresh : start.cache = {}) (events : List Event) :
    ∀ id model, (start.handleAll events).cache.find? id = some (some model) →
      model.definition.typeId = id ∧ start.Remembers events model := by
  -- From the last event back, which finds every entry or brings it about.
  induction events using List.reverseRecOn with
  | nil =>
    intro id model hmodel
    rw [handleAll, List.foldl_nil, hfresh, Cache.find?_empty] at hmodel
    cases hmodel
  | append_singleton events event ih =>
    intro id model hmodel
    rw [handleAll_append_singleton] at hmodel
    have hold : (start.handleAll events).cache.find? id = some (some model) →
        model.definition.typeId = id ∧ start.Remembers (events ++ [event]) model :=
      fun hfind => (ih id model hfind).imp_right fun hmodel => hmodel.concat event
    cases event with
    | proxy definition =>
      rw [handle, cache_addProxy] at hmodel
      exact hold hmodel
    | request request =>
      cases hfind : (start.handleAll events).cache.find? id with
      | none => exact remembers_of_new hfind hmodel
      | some entry =>
        have hkept := extends_answer _ request id entry hfind
        have hsame : some (some model) = some entry := hmodel.symm.trans hkept
        exact hold (hfind.trans hsame.symm)

/-- A reference is ignored just as the graph and the proxies that are known now say. -/
def AnswersByGraph (store : Store) : Prop :=
  ∀ signature, store.walkSignature signature = true ↔
    store.program.Ignores store.program.LiesInIgnored signature

/-- What the answers of a store follow from. -/
structure IgnoresByStructure (store : Store) : Prop where
  /-- A type is ignored if it lies in one that is ignored on its own account. -/
  definition : ∀ definition, store.graph.Indexes definition →
    (store.walkDefinition definition = true ↔ store.program.LiesInIgnored definition)
  nested : ∀ outer, store.graph.Indexes outer → store.walkDefinition outer = true →
    ∀ inside ∈ outer.withNested, store.walkDefinition inside = true
  /-- The names in a definition tell what is around it, also where the graph lacks it. -/
  detached : ∀ definition, store.walkDefinition definition = true ↔
    store.program.ignoresItself definition = true ∨
      ∃ outer, store.graph.declaringType? definition = some outer ∧
        store.program.LiesInIgnored outer
  reference : ∀ signature, store.walkSignature signature = true ↔
    store.program.Ignores (store.program.CountsAsIgnored store.cache) signature
  /-- Only a model that says otherwise can stand between a reference and the graph. -/
  answersByGraph_iff : store.AnswersByGraph ↔
    ∀ definition, store.graph.Indexes definition →
      Primitive.ofFullName? definition.fullName = none →
      ∀ model, store.model? definition.typeId = some model →
        (model.ignored = true ↔ store.program.LiesInIgnored definition)

section

variable (hgraph : store.graph.WellFormed) (honce : store.graph.DefinesOnce)
  (hnames : store.graph.NamesDiffer)

include hgraph honce hnames

/-- A walk over a definition of the graph is exact. -/
theorem walkDefinition_iff {definition : TypeDef} (hindexed : store.graph.Indexes definition) :
    store.walkDefinition definition = true ↔ store.program.LiesInIgnored definition := by
  rw [walkDefinition_eq]
  exact Program.ignoresDefinition_iff_liesInIgnored hgraph honce hnames hindexed

/-- A walk over a signature is exact with the models that are cached. -/
theorem walkSignature_iff (signature : Signature) :
    store.walkSignature signature = true ↔
      store.program.Ignores (store.program.CountsAsIgnored store.cache) signature := by
  rw [walkSignature_eq]
  exact Program.ignores_iff hgraph honce hnames store.cache signature

/-- A definition from elsewhere is asked itself, and then what the graph has around it. -/
theorem walkDefinition_detached_iff (definition : TypeDef) :
    store.walkDefinition definition = true ↔
      store.program.ignoresItself definition = true ∨
        ∃ outer, store.graph.declaringType? definition = some outer ∧
          store.program.LiesInIgnored outer := by
  rw [walkDefinition_eq, Program.ignoresDefinition_eq, Bool.or_eq_true, Option.any_eq_true]
  refine or_congr_right (exists_congr fun outer => and_congr_right fun houter => ?_)
  exact Program.ignoresDefinition_iff_liesInIgnored hgraph honce hnames
    (Graph.indexes_of_declaringType? houter)

end

/-- If the models agree with the graph, so do the answers. -/
theorem answersByGraph_of_models (hgraph : store.graph.WellFormed) (honce : store.graph.DefinesOnce)
    (hnames : store.graph.NamesDiffer)
    (hmodels : ∀ definition, store.graph.Indexes definition →
      Primitive.ofFullName? definition.fullName = none →
      ∀ model, store.model? definition.typeId = some model →
        (model.ignored = true ↔ store.program.LiesInIgnored definition)) :
    store.AnswersByGraph := by
  have hcounts : ∀ definition, store.graph.Indexes definition →
      Primitive.ofFullName? definition.fullName = none →
      (store.program.CountsAsIgnored store.cache definition ↔
        store.program.LiesInIgnored definition) := by
    intro definition hindexed hname
    rw [Program.CountsAsIgnored]
    split
    · rename_i model hmodel
      exact hmodels definition hindexed hname model hmodel
    · exact .rfl
  intro signature
  rw [walkSignature_iff hgraph honce hnames]
  exact ⟨fun h => h.mono fun definition hindexed hname => (hcounts definition hindexed hname).1,
    fun h => h.mono fun definition hindexed hname => (hcounts definition hindexed hname).2⟩

end Store

/-- A reference by the full name of a type. -/
def TypeDef.byFullName (definition : TypeDef) : Signature :=
  .reference { space := "", path := definition.fullName }

theorem TypeDef.typeId_byFullName (definition : TypeDef) :
    definition.byFullName.typeId = definition.typeId := by
  rw [byFullName, Signature.typeId, TypeId.ofName_eq]
  rfl

/-- Such a reference is ignored through its type, unless the name is listed. -/
theorem Program.ignores_byFullName_iff {program : Program} {counts : TypeDef → Prop}
    {definition : TypeDef} (honce : program.graph.DefinesOnce)
    (hindexed : program.graph.Indexes definition)
    (hname : Primitive.ofFullName? definition.fullName = none) :
    program.Ignores counts definition.byFullName ↔
      definition.fullName ∈ program.ignoredTypes ∨ counts definition := by
  have hprimitive : definition.byFullName.primitive? = none := hname
  rw [ignores_named_iff rfl, honce.resolve?_eq hindexed rfl definition.typeId_byFullName]
  simp only [Option.some.injEq, forall_eq', hprimitive, true_and]
  rfl

namespace Store

variable {start store : Store} {events : List Event}

/-- What a reference by full name is answered tells what the model says. -/
theorem AnswersByGraph.model_iff (h : store.AnswersByGraph) (hgraph : store.graph.WellFormed)
    (honce : store.graph.DefinesOnce) (hnames : store.graph.NamesDiffer) {definition : TypeDef}
    (hindexed : store.graph.Indexes definition)
    (hname : Primitive.ofFullName? definition.fullName = none) {model : TypeModel}
    (hmodel : store.model? definition.typeId = some model)
    (hlisted : definition.fullName ∈ store.program.ignoredTypes → model.ignored = true) :
    model.ignored = true ↔ store.program.LiesInIgnored definition := by
  have hcounts : store.program.CountsAsIgnored store.cache definition ↔ model.ignored = true := by
    change store.cache.model? definition.typeId = some model at hmodel
    simp only [Program.CountsAsIgnored, hmodel]
  have hanswer := (walkSignature_iff hgraph honce hnames definition.byFullName).symm.trans
    (h definition.byFullName)
  rw [Program.ignores_byFullName_iff honce hindexed hname,
    Program.ignores_byFullName_iff honce hindexed hname, hcounts] at hanswer
  by_cases hmem : definition.fullName ∈ store.program.ignoredTypes
  · exact iff_of_true (hlisted hmem)
      ⟨definition, hindexed, definition.mem_withNested_self, .listed hmem⟩
  · rwa [or_iff_right hmem, or_iff_right hmem] at hanswer

/-! ## The past of a store -/

/-- A model of a listed type says that the type is ignored. -/
theorem Remembers.ignored_of_listed {model : TypeModel} (h : start.Remembers events model)
    (hlisted : model.definition.fullName ∈ start.program.ignoredTypes) : model.ignored = true := by
  obtain ⟨before, -, heq⟩ := h.exists_past
  rw [← (start.grows_handleAll before).ignoredTypes_eq] at hlisted
  rw [heq, walkDefinition_eq, Program.ignoresDefinition_eq, Program.ignoresItself,
    List.contains_iff_mem.2 hlisted]
  rfl

/-- The requests for definitions are about types of the graph. -/
def AsksForIndexed (start : Store) (events : List Event) : Prop :=
  ∀ request, .request request ∈ events → request.IsIndexed start.graph

/-- A model that is remembered is of a definition of the graph, if those alone were asked for.
-/
theorem Remembers.indexed {model : TypeModel} (h : start.Remembers events model)
    (hevents : start.AsksForIndexed events) : start.graph.Indexes model.definition :=
  h.source.elim id fun hmem => hevents _ hmem

section

variable (hgraph : start.graph.WellFormed) (honce : start.graph.DefinesOnce)
  (hnames : start.graph.NamesDiffer)

include hgraph honce hnames

/-- A type whose model says that it is ignored still is. -/
theorem Remembers.liesInIgnored {model : TypeModel} (h : start.Remembers events model)
    (hindexed : start.graph.Indexes model.definition) (hignored : model.ignored = true) :
    (start.handleAll events).program.LiesInIgnored model.definition := by
  obtain ⟨before, hbefore, heq⟩ := h.exists_past
  have hsame := start.graph_handleAll before
  rw [heq, walkDefinition_iff (hsame ▸ hgraph) (hsame ▸ honce) (hsame ▸ hnames)
    (hsame ▸ hindexed)] at hignored
  exact hignored.grows (grows_between hbefore)

/-- Whatever happened before, the walks follow the structure of what they are given. -/
theorem ignoresByStructure (hfresh : start.cache = {}) (events : List Event) :
    (start.handleAll events).IgnoresByStructure := by
  have hsame := start.graph_handleAll events
  have hgraph' : (start.handleAll events).graph.WellFormed := hsame ▸ hgraph
  have honce' : (start.handleAll events).graph.DefinesOnce := hsame ▸ honce
  have hnames' : (start.handleAll events).graph.NamesDiffer := hsame ▸ hnames
  constructor
  case definition => exact fun _ => walkDefinition_iff hgraph' honce' hnames'
  case nested =>
    intro outer houter hignored inside hinside
    have hindexed := hgraph'.indexesNested.withNested houter inside hinside
    rw [walkDefinition_iff hgraph' honce' hnames' houter] at hignored
    rw [walkDefinition_iff hgraph' honce' hnames' hindexed]
    exact hignored.nested hinside
  case detached => exact walkDefinition_detached_iff hgraph' honce' hnames'
  case reference => exact walkSignature_iff hgraph' honce' hnames'
  case answersByGraph_iff =>
    refine ⟨fun h definition hindexed hname model hmodel => ?_,
      answersByGraph_of_models hgraph' honce' hnames'⟩
    apply h.model_iff hgraph' honce' hnames' hindexed hname hmodel
    obtain ⟨hid, hremembers⟩ :=
      remembers_handleAll hfresh events _ model (Cache.model?_eq_some_iff.1 hmodel)
    have hfull : model.definition.fullName = definition.fullName := congrArg TypeId.fullName hid
    intro hlisted
    apply hremembers.ignored_of_listed
    rwa [hfull, ← (start.grows_handleAll events).ignoredTypes_eq]

/-- As long as only types of the graph are asked for, a reference that counts as ignored is. -/
theorem ignores_of_walkSignature (hfresh : start.cache = {}) (hevents : start.AsksForIndexed events)
    {signature : Signature} (h : (start.handleAll events).walkSignature signature = true) :
    (start.handleAll events).program.Ignores (start.handleAll events).program.LiesInIgnored
      signature := by
  rw [(ignoresByStructure hgraph honce hnames hfresh events).reference] at h
  apply h.mono
  intro definition hindexed _ hcounts
  rw [Program.CountsAsIgnored] at hcounts
  split at hcounts
  · rename_i model hmodel
    obtain ⟨hid, hremembers⟩ :=
      remembers_handleAll hfresh events _ model (Cache.model?_eq_some_iff.1 hmodel)
    have hsource := hremembers.indexed hevents
    have hindexed' : start.graph.Indexes definition := start.graph_handleAll events ▸ hindexed
    obtain rfl : model.definition = definition := honce.eq_of_typeId_eq hsource hindexed' hid
    exact hremembers.liesInIgnored hgraph honce hnames hsource hcounts
  · exact hcounts

/-- Models that were built with the proxies known now stand between no reference and the graph. -/
theorem answersByGraph_of_faithful (hcache : start.cache.Faithful start.program) :
    start.AnswersByGraph := by
  apply answersByGraph_of_models hgraph honce hnames
  intro definition hindexed _ model hmodel
  have hfaithful := hcache _ model (Cache.model?_eq_some_iff.1 hmodel)
  obtain rfl : model.definition = definition :=
    honce.eq_of_typeId_eq hfaithful.indexed hindexed hfaithful.typeId_eq
  rw [hfaithful.ignored_eq]
  exact Program.ignoresDefinition_iff_liesInIgnored hgraph honce hnames hindexed

/-- If all proxies were there before the first request, every answer is that of the graph. -/
theorem answersByGraph_of_proxies_first (hfresh : start.cache = {}) (definitions : List TypeDef)
    {requests : List Request} (hrequests : ∀ request ∈ requests, request.IsIndexed start.graph) :
    (start.handleAll (definitions.map .proxy ++ requests.map .request)).AnswersByGraph := by
  let learned := start.handleAll (definitions.map .proxy)
  have hlearned : learned.graph = start.graph := start.graph_handleAll _
  have hcache : learned.cache.Faithful learned.program := by
    rw [cache_handleAll_proxies, hfresh]
    exact faithful_empty _
  have hsplit : start.handleAll (definitions.map .proxy ++ requests.map .request) =
      learned.answerAll requests := by
    rw [handleAll, List.foldl_append, List.foldl_map]
    rfl
  obtain ⟨hprogram, hfaithful, -⟩ := answerAll_induction (motive := fun _ => True) requests hcache
    (hlearned ▸ hrequests) trivial fun _ _ _ _ _ _ => trivial
  have hsame : (learned.answerAll requests).graph = start.graph := by
    rw [graph, hprogram]
    exact hlearned
  rw [hsplit]
  exact answersByGraph_of_faithful (hsame ▸ hgraph) (hsame ▸ honce) (hsame ▸ hnames) hfaithful

end

/-- However proxies and requests come, a type of the graph is ignored exactly if it lies in
one that is listed, marked by an attribute or a proxy for it, or in an ignored module.  A
reference is ignored by its parts; a named type counts as its model says, which is what was
true of it when the model was built, and by the graph if it has no model.  So the answers are
those of the graph exactly as long as no model says otherwise, and in particular if all
proxies came first and only types of the graph were asked for; without the former they can
only fall short. -/
theorem ignoresByStructure_handleAll (start : Store) (hfresh : start.cache = {})
    (hgraph : start.graph.WellFormed) (honce : start.graph.DefinesOnce)
    (hnames : start.graph.NamesDiffer) (events : List Event) :
    let store := start.handleAll events
    store.IgnoresByStructure ∧
    (∀ id model, store.model? id = some model →
      model.definition.typeId = id ∧ start.Remembers events model) ∧
    (start.AsksForIndexed events → ∀ signature, store.walkSignature signature = true →
      store.program.Ignores store.program.LiesInIgnored signature) ∧
    ∀ (definitions : List TypeDef) (requests : List Request),
      events = definitions.map .proxy ++ requests.map .request →
      (∀ request ∈ requests, request.IsIndexed start.graph) → store.AnswersByGraph := by
  intro store
  refine ⟨ignoresByStructure hgraph honce hnames hfresh events, ?remembered, ?sound, ?settled⟩
  case remembered =>
    exact fun id model hmodel =>
      remembers_handleAll hfresh events id model (Cache.model?_eq_some_iff.1 hmodel)
  case sound =>
    exact fun hevents _ => ignores_of_walkSignature hgraph honce hnames hfresh hevents
  case settled =>
    rintro definitions requests rfl hrequests
    exact answersByGraph_of_proxies_first hgraph honce hnames hfresh definitions hrequests

/-- A class with one nested in it. -/
def outerBlueprint : TypeBlueprint :=
  { space := "App", name := "Outer", nested := [{ space := "App", name := "Inner" }] }

def outerAssembly : AssemblyBlueprint :=
  { identity := { name := "App" }, mainTypes := [outerBlueprint] }

def innerDefinition : TypeDef :=
  ({ space := "App", name := "Inner" } : TypeBlueprint).build
    { assembly := "App", module := "App.dll" } (some { space := "App", fullName := "App.Outer" })

/-- A proxy that has the outer class ignored. -/
def outerProxy : TypeDef :=
  let blueprint : TypeBlueprint :=
    { space := "Patches", name := "OuterProxy"
      attributes :=
        [{ typeName := Attribute.proxy, positional := [.string "App.Outer"] },
          { typeName := Attribute.ignore }] }
  blueprint.buildDetached

def outerStore : Store :=
  { program := { graph := Graph.ofAssemblies [outerAssembly.build] } }

theorem definesOnce_outerStore : outerStore.graph.DefinesOnce := by
  rw [Graph.DefinesOnce]
  decide +kernel

theorem namesDiffer_outerStore : outerStore.graph.NamesDiffer where
  assemblies := List.nodup_singleton _
  modules := by
    intro assembly hassembly
    obtain rfl := List.mem_singleton.1 hassembly
    decide +kernel

theorem indexes_innerDefinition : outerStore.graph.Indexes innerDefinition :=
  ⟨⟨"App", innerDefinition⟩, .tail _ (.head _), rfl⟩

/-- A proxy that is known in time has the inner class ignored with the outer one. -/
theorem ignoresByStructure_handleAll_outerStore :
    let events := [Event.proxy outerProxy, .request (.definition innerDefinition)]
    let store := outerStore.handleAll events
    outerStore.cache = {} ∧ outerStore.graph.WellFormed ∧ outerStore.graph.DefinesOnce ∧
      outerStore.graph.NamesDiffer ∧ store.AnswersByGraph ∧
      (store.model? innerDefinition.typeId).map TypeModel.ignored = some true ∧
      store.program.Ignores store.program.LiesInIgnored innerDefinition.byFullName := by
  intro events store
  have hgraph : outerStore.graph.WellFormed := Graph.wellFormed_ofAssemblies [outerAssembly]
  obtain ⟨-, -, -, hanswers⟩ := ignoresByStructure_handleAll outerStore rfl hgraph
    definesOnce_outerStore namesDiffer_outerStore events
  have hstore : store.AnswersByGraph := by
    refine hanswers [outerProxy] [.definition innerDefinition] rfl fun request hrequest => ?_
    rw [List.mem_singleton.1 hrequest]
    exact indexes_innerDefinition
  have hwalk : store.walkSignature innerDefinition.byFullName = true := by decide +kernel
  exact ⟨rfl, hgraph, definesOnce_outerStore, namesDiffer_outerStore, hstore, by decide +kernel,
    (hstore _).1 hwalk⟩

/-- After the model of the inner class was built, the same proxy has the inner class ignored,
but no reference to it. -/
theorem not_answersByGraph_outerStore :
    let events := [Event.request (.definition innerDefinition), .proxy outerProxy]
    let store := outerStore.handleAll events
    outerStore.AsksForIndexed events ∧ store.program.LiesInIgnored innerDefinition ∧
      store.walkDefinition innerDefinition = true ∧
      store.graph.resolve? innerDefinition.byFullName = some innerDefinition ∧
      store.walkSignature innerDefinition.byFullName = false ∧ ¬store.AnswersByGraph := by
  intro events store
  have hsame : store.graph = outerStore.graph := outerStore.graph_handleAll events
  have hgraph : store.graph.WellFormed := hsame ▸ Graph.wellFormed_ofAssemblies [outerAssembly]
  have honce : store.graph.DefinesOnce := hsame ▸ definesOnce_outerStore
  have hindexed : store.graph.Indexes innerDefinition := hsame ▸ indexes_innerDefinition
  have hevents : outerStore.AsksForIndexed events := by
    intro request hrequest
    rcases List.mem_pair.1 hrequest with heq | heq
    · rw [Event.request.inj heq]
      exact indexes_innerDefinition
    · cases heq
  have hinner : store.walkDefinition innerDefinition = true := by decide +kernel
  have hlies : store.program.LiesInIgnored innerDefinition :=
    (walkDefinition_iff hgraph honce (hsame ▸ namesDiffer_outerStore) hindexed).1 hinner
  have hresolve := honce.resolve?_eq hindexed rfl innerDefinition.typeId_byFullName
  have hwalk : store.walkSignature innerDefinition.byFullName = false := by decide +kernel
  refine ⟨hevents, hlies, hinner, hresolve, hwalk, fun h => ?_⟩
  have hignores : store.program.Ignores store.program.LiesInIgnored innerDefinition.byFullName :=
    .found rfl (by decide +kernel) hresolve hlies
  rw [(h _).2 hignores] at hwalk
  cases hwalk

end Store

end Assemblage
