import Assemblage.Proofs.Script.Members
import Assemblage.Script.Settings
import Mathlib.Data.List.Flatten

/-!
# Contracts over whole runs

An assembly is walked three times, and a run takes the assemblies one after the
other.  A contract that is kept by every act holds wherever the run stands; and
once the types of an assembly have been declared, every type in it is settled.
-/

namespace Assemblage.Script

namespace Run

theorem walkAll_eq_forM (enter leave : TypeModel → Run Unit) (definitions : List TypeDef) :
    walkAll enter leave definitions = definitions.forM (walk enter leave) := by
  induction definitions with
  | nil => rfl
  | cons definition rest ih =>
    rw [walkAll, ih]
    rfl

/-- A walk enters a type, visits the types inside it and leaves it again; ignored types are
passed over with all that is inside them. -/
theorem walk_eq (enter leave : TypeModel → Run Unit) (definition : TypeDef) :
    walk enter leave definition = (do
      let model ← model definition
      if model.ignored then return
      enter model
      definition.nested.forM (walk enter leave)
      leave model) := by
  cases definition
  rw [walk]
  simp only [walkAll_eq_forM]

/-- What is inside the root types of an assembly are types of it, in their order. -/
theorem withNestedAll_roots_sublist (assembly : AssemblyDef) :
    (TypeDef.withNestedAll (roots assembly)).Sublist assembly.allTypes := by
  have hmodules : TypeDef.withNestedAll (roots assembly) =
      (assembly.modules.filter (!·.isIgnored)).flatMap ModuleDef.allTypes := by
    rw [TypeDef.withNestedAll_eq_flatMap, roots, List.flatMap_assoc]
    simp only [← TypeDef.withNestedAll_eq_flatMap]
    rfl
  rw [hmodules, AssemblyDef.allTypes]
  exact List.filter_sublist.flatMap _

theorem mem_allTypes_of_mem_roots {assembly : AssemblyDef} {inside : TypeDef}
    (h : inside ∈ TypeDef.withNestedAll (roots assembly)) : inside ∈ assembly.allTypes :=
  (withNestedAll_roots_sublist assembly).subset h

theorem mem_withNestedAll_of_mem {definitions : List TypeDef} {top : TypeDef}
    (h : top ∈ definitions) : top ∈ TypeDef.withNestedAll definitions :=
  TypeDef.mem_withNestedAll_iff.2 ⟨top, h, top.mem_withNested_self⟩

/-- A type that is not inside the roots is ignored with its module. -/
theorem mem_roots_of_not_ignored {program : Program} (hgraph : program.graph.WellFormed)
    (hapart : program.graph.NamesApart) {assembly : AssemblyDef}
    (hassembly : assembly ∈ program.graph.assemblies) {definition : TypeDef}
    (hdefinition : definition ∈ assembly.allTypes)
    (hignored : program.ignoresDefinition definition = false) :
    definition ∈ TypeDef.withNestedAll (roots assembly) := by
  obtain ⟨part, hpart, top, htop, hinside⟩ := AssemblyDef.mem_allTypes_iff.1 hdefinition
  have hmodule : program.graph.moduleOf? definition = some part :=
    hapart.namesDiffer.moduleOf?_eq hgraph.toLoaded hassembly hpart
      ((hgraph.assemblies assembly hassembly).scope_eq hpart htop definition hinside)
  refine TypeDef.mem_withNestedAll_iff.2 ⟨top, List.mem_flatMap.2 ⟨part, ?_, htop⟩, hinside⟩
  refine List.mem_filter.2 ⟨hpart, ?_⟩
  cases hpartIgnored : part.isIgnored with
  | false => rfl
  | true =>
    rw [Program.ignoresDefinition_of_module hmodule hpartIgnored] at hignored
    cases hignored

/-- The base that is declared before a type comes from its assembly. -/
theorem mem_allTypes_of_ownBase? {graph : Graph} (hapart : graph.AssembliesApart)
    (hgraph : graph.WellFormed) {assembly : AssemblyDef} (hassembly : assembly ∈ graph.assemblies)
    {definition base : TypeDef} (hdefinition : definition ∈ assembly.allTypes)
    (h : ownBase? graph definition = some base) : base ∈ assembly.allTypes := by
  obtain ⟨hfound, hsame⟩ := Option.filter_eq_some_iff.1 h
  exact hapart.mem_allTypes_of_sameAssembly hgraph hassembly hdefinition
    (Graph.indexes_of_baseType? hfound) hsame

theorem indexes_of_mem_roots {graph : Graph} (hgraph : graph.Loaded) {assembly : AssemblyDef}
    (hassembly : assembly ∈ graph.assemblies) {top : TypeDef} (htop : top ∈ roots assembly) :
    graph.Indexes top :=
  hgraph.indexes_iff.2
    ⟨assembly, hassembly, mem_allTypes_of_mem_roots (mem_withNestedAll_of_mem htop)⟩

end Run

namespace Stage

/-- Nothing that is nested in a type on record is left to do. -/
def Closed (stage : Stage) (view : View) : Prop :=
  ∀ id ∈ view.declared, ∃ definition, stage.program.graph.Indexes definition ∧
    definition.typeId = id ∧ ∀ inner ∈ definition.nested, stage.Settled inner view

variable {stage : Stage} {view later : View} {definition : TypeDef}

theorem Advances.closed (h : stage.Advances view later) (hclosed : stage.Closed view) :
    stage.Closed later := by
  intro id hid
  by_cases hold : id ∈ view.declared
  · obtain ⟨definition, hindexed, heq, hnested⟩ := hclosed id hold
    exact ⟨definition, hindexed, heq, fun inner hinner => (hnested inner hinner).mono h.declared⟩
  · exact h.nested id hid hold

/-- The model the program gives for a definition is one of its models. -/
theorem models_modelOf (hindexed : stage.program.graph.Indexes definition) :
    stage.Models definition (stage.program.modelOf definition) where
  faithful := Program.complete_faithful _ (Program.build_faithful _ hindexed)
  eq_modelOf _ := rfl

/-- Where types are defined once, only those are ignored that the program ignores. -/
theorem ignores_iff (honce : stage.program.graph.DefinesOnce)
    (hindexed : stage.program.graph.Indexes definition) :
    stage.Ignores definition ↔ stage.program.ignoresDefinition definition = true := by
  constructor
  · rintro ⟨model, hmodel, hignored⟩
    rw [hmodel.eq_modelOf honce] at hignored
    exact hignored
  · exact fun hignored => ⟨_, models_modelOf hindexed, hignored⟩

/-- A settled type that is not ignored is on record. -/
theorem Settled.mem_declared (h : stage.Settled definition view)
    (honce : stage.program.graph.DefinesOnce) (hindexed : stage.program.graph.Indexes definition)
    (hignored : stage.program.ignoresDefinition definition = false) :
    definition.typeId ∈ view.declared := by
  refine h.resolve_right fun hignores => ?_
  rw [(ignores_iff honce hindexed).1 hignores] at hignored
  cases hignored

/-- What is known once some assemblies have had their turn. -/
structure Accounts (stage : Stage) (done : List AssemblyDef) (view : View) : Prop where
  begun : ∀ name, name ∈ view.begun ↔ ∃ assembly ∈ done, assembly.fullName = name
  closed : stage.Closed view
  settled : stage.program.graph.DefinesOnce → done ⊆ stage.program.graph.assemblies →
    ∀ assembly ∈ done, ∀ inside ∈ TypeDef.withNestedAll (Run.roots assembly),
      stage.Settled inside view

theorem accounts_nil (hdeclared : view.declared = []) (hbegun : view.begun = []) :
    stage.Accounts [] view where
  begun name := by simp [hbegun]
  closed id hid := by simp [hdeclared] at hid
  settled _ _ assembly hassembly := by simp at hassembly

/-- An assembly that has had its turn already changes nothing. -/
theorem Accounts.again {done : List AssemblyDef} {assembly : AssemblyDef}
    (h : stage.Accounts done view) (hgraph : stage.program.graph.Loaded)
    (hknown : assembly.fullName ∈ view.begun) : stage.Accounts (done ++ [assembly]) view where
  begun name := by
    rw [h.begun]
    constructor
    · rintro ⟨other, hother, hname⟩
      exact ⟨other, List.mem_append_left _ hother, hname⟩
    · rintro ⟨other, hother, rfl⟩
      rcases List.mem_append.1 hother with hother | hother
      · exact ⟨other, hother, rfl⟩
      · rw [List.mem_singleton.1 hother]
        exact (h.begun _).1 hknown
  closed := h.closed
  settled honce hall other hother := by
    have hdone := List.append_subset.1 hall
    rcases List.mem_append.1 hother with hother | hother
    · exact h.settled honce hdone.1 other hother
    · obtain rfl := List.mem_singleton.1 hother
      obtain ⟨earlier, hearlier, hname⟩ := (h.begun _).1 hknown
      obtain rfl : earlier = other := List.inj_on_of_nodup_map hgraph.nodup (hdone.1 hearlier)
        (hdone.2 (List.mem_singleton_self _)) hname
      exact h.settled honce hdone.1 earlier hearlier

/-- An assembly is counted in after its first turn. -/
theorem Accounts.next {done : List AssemblyDef} {assembly : AssemblyDef}
    (h : stage.Accounts done view) (hadvances : stage.Advances (view.begin assembly.fullName) later)
    (hsettled : stage.program.graph.DefinesOnce →
      ∀ inside ∈ TypeDef.withNestedAll (Run.roots assembly), stage.Settled inside later) :
    stage.Accounts (done ++ [assembly]) later where
  begun name := by
    rw [hadvances.begun]
    simp only [View.begin, List.mem_cons, h.begun, List.mem_append, List.not_mem_nil, or_false,
      or_and_right, exists_or, exists_eq_left]
    rw [or_comm, eq_comm]
  closed := hadvances.closed h.closed
  settled honce hall other hother := by
    rcases List.mem_append.1 hother with hother | hother
    · intro inside hinside
      exact (h.settled honce (List.append_subset.1 hall).1 other hother inside hinside).mono
        hadvances.declared
    · obtain rfl := List.mem_singleton.1 hother
      exact hsettled honce

/-- A settled type has its nested types settled with it. -/
theorem Settled.withNestedAll (honce : stage.program.graph.DefinesOnce)
    (hgraph : stage.program.graph.WellFormed) (hclosed : stage.Closed view)
    {types : List TypeDef} (hindexed : ∀ top ∈ types, stage.program.graph.Indexes top)
    (h : ∀ top ∈ types, stage.Settled top view) :
    ∀ inside ∈ TypeDef.withNestedAll types, stage.Settled inside view := by
  intro inside hinside
  obtain ⟨top, htop, hinside⟩ := TypeDef.mem_withNestedAll_iff.1 hinside
  refine TypeDef.forall_withNested (P := (stage.Settled · view)) ?_ (h top htop) inside hinside
  intro outer houter hsettled inner hinner
  have houterIndexed : stage.program.graph.Indexes outer :=
    hgraph.indexesNested.withNested (hindexed top htop) outer houter
  rcases hsettled with hdeclared | hignores
  · obtain ⟨found, hfound, hid, hnested⟩ := hclosed outer.typeId hdeclared
    obtain rfl : found = outer := honce.eq_of_typeId_eq hfound houterIndexed hid
    exact hnested inner hinner
  · have hinnerIndexed := hgraph.indexesNested outer houterIndexed inner hinner
    rw [ignores_iff honce houterIndexed] at hignores
    exact .inr ((ignores_iff honce hinnerIndexed).2 (Program.ignoresDefinition_nested honce
      houterIndexed (hgraph.encloses houterIndexed) hignores hinner))

/-- A walk keeps what entering and leaving each type keeps. -/
theorem ends_walk {enter leave : TypeModel → Run Unit} (kept : View → Prop)
    (hgraph : stage.program.graph.IndexesNested)
    (hindexed : stage.program.graph.Indexes definition)
    (henter : ∀ inside ∈ definition.withNested, ∀ model, stage.Models inside model →
      model.ignored = false → ∀ later, kept later →
      stage.Ends (enter model) (fun _ => kept) later)
    (hleave : ∀ inside ∈ definition.withNested, ∀ model, stage.Models inside model →
      model.ignored = false → ∀ later, kept later →
      stage.Ends (leave model) (fun _ => kept) later)
    (hstart : kept view) :
    stage.Ends (Run.walk enter leave definition) (fun _ => kept) view := by
  induction definition using TypeDef.induction_nested generalizing view with
  | step definition ih =>
  rw [Run.walk_eq]
  refine ends_model hindexed ?_
  intro model hmodel
  cases hignored : model.ignored with
  | true => exact ends_pure hstart
  | false =>
    have hself := definition.mem_withNested_self
    refine (henter definition hself model hmodel hignored view hstart).bind ?_
    intro _ entered hentered
    refine (ends_forM (fun _ => kept) hentered ?_).bind ?_
    · intro before inner after later hnested hlater
      have hinner : inner ∈ definition.nested := by
        rw [hnested]
        exact List.mem_append_right _ List.mem_cons_self
      have hinside : ∀ inside ∈ inner.withNested, inside ∈ definition.withNested :=
        fun inside hmem => TypeDef.mem_withNested_iff.2 (.inr ⟨inner, hinner, hmem⟩)
      exact ih inner hinner (hgraph definition hindexed inner hinner)
        (fun inside hmem => henter inside (hinside inside hmem))
        (fun inside hmem => hleave inside (hinside inside hmem)) hlater
    · exact fun _ later hlater => hleave definition hself model hmodel hignored later hlater

/-- A walk over several types, one after the other. -/
theorem ends_walkAll {enter leave : TypeModel → Run Unit} {types : List TypeDef}
    (kept : View → Prop) (hgraph : stage.program.graph.IndexesNested)
    (hindexed : ∀ top ∈ types, stage.program.graph.Indexes top)
    (henter : ∀ inside ∈ TypeDef.withNestedAll types, ∀ model, stage.Models inside model →
      model.ignored = false → ∀ later, kept later →
      stage.Ends (enter model) (fun _ => kept) later)
    (hleave : ∀ inside ∈ TypeDef.withNestedAll types, ∀ model, stage.Models inside model →
      model.ignored = false → ∀ later, kept later →
      stage.Ends (leave model) (fun _ => kept) later)
    (hstart : kept view) :
    stage.Ends (Run.walkAll enter leave types) (fun _ => kept) view := by
  rw [Run.walkAll_eq_forM]
  refine ends_forM (fun _ => kept) hstart ?_
  intro before top after later htypes hlater
  have htop : top ∈ types := by
    rw [htypes]
    exact List.mem_append_right _ List.mem_cons_self
  have hinside : ∀ inside ∈ top.withNested, inside ∈ TypeDef.withNestedAll types :=
    fun inside hmem => TypeDef.mem_withNestedAll_iff.2 ⟨top, htop, hmem⟩
  exact ends_walk kept hgraph (hindexed top htop)
    (fun inside hmem => henter inside (hinside inside hmem))
    (fun inside hmem => hleave inside (hinside inside hmem)) hlater

end Stage

namespace Contract

open Stage

variable {contract : Contract} {stage : Stage} {view : View} {types : List TypeDef}
  {assembly : AssemblyDef} {listed : List AssemblyDef}

/-! ## The walks over an assembly -/

/-- A contract that a stage keeps holds after the declarations of a list of types. -/
theorem Kept.ends_declareAll (h : contract.Kept stage)
    (hgraph : stage.program.graph.IndexesNested)
    (hindexed : ∀ top ∈ types, stage.program.graph.Indexes top)
    (hadmits : ∀ top ∈ types, ∀ later, contract.holds [] later → contract.admits [] top later)
    (hholds : contract.holds [] view) :
    stage.Ends (types.forM Run.declareType) (fun _ => contract.Leaves stage [] view types) view :=
  ends_forM_declared hholds fun top htop later hlater _ =>
    h.ends_declareType hgraph (hindexed top htop) hlater (hadmits top htop later hlater)

/-- A contract that is kept inside types holds after their translation. -/
theorem KeptInside.ends_translateTypes (hinside : contract.KeptInside stage types)
    (h : contract.Kept stage) (hgraph : stage.program.graph.IndexesNested)
    (hindexed : ∀ top ∈ types, stage.program.graph.Indexes top)
    (hsettled : stage.program.graph.DefinesOnce →
      ∀ other ∈ TypeDef.withNestedAll types, stage.Settled other view)
    (hholds : contract.holds [] view) :
    stage.Ends (Run.walkAll Run.translateType (fun _ => pure ()) types)
      (fun _ => contract.Lasts stage view) view := by
  refine ends_walkAll (contract.Lasts stage view) hgraph hindexed ?_
    (fun _ _ _ _ _ _ hlater => ends_pure hlater) (lasts_of_records hholds rfl rfl)
  intro inside hmem model hmodel hignored later hlater
  rw [Run.translateType]
  split
  · exact (hinside.ends_translateMembers h hgraph hlater.holds hmem hmodel hignored
      fun honce other hother => (hsettled honce other hother).mono hlater.advances.declared).mono
      fun _ _ => hlater.trans
  · exact ends_pure hlater

/-- Every act of a run over the assemblies keeps the contract. -/
structure KeptThroughout (contract : Contract) (stage : Stage) (listed : List AssemblyDef) : Prop
    extends contract.Kept stage where
  begins : ∀ {view name}, contract.holds [] view → contract.holds [] (view.begin name)
  roots : ∀ {view assembly top}, assembly ∈ listed → top ∈ Run.roots assembly →
    contract.holds [] view → contract.admits [] top view
  inside : ∀ {assembly}, assembly ∈ listed → contract.KeptInside stage (Run.roots assembly)
  seals : ∀ {view location}, contract.holds [] view →
    contract.holds [] (view.emit (.sealed location))

/-- An assembly is on record and all is settled in it after its turn. -/
theorem KeptThroughout.ends_translateAssembly (h : contract.KeptThroughout stage listed)
    (hgraph : stage.program.graph.WellFormed) (hassembly : assembly ∈ listed)
    (hindexed : ∀ top ∈ Run.roots assembly, stage.program.graph.Indexes top)
    {done : List AssemblyDef} (haccounts : stage.Accounts done view)
    (hholds : contract.holds [] view) :
    stage.Ends (Run.translateAssembly assembly)
      (fun _ later => contract.holds [] later ∧ stage.Accounts (done ++ [assembly]) later)
      view := by
  have hkept := h.toKept
  rw [Run.translateAssembly]
  refine ends_consult ?_
  intro session _ hview
  have hrecord : session.translator.begun = view.begun := congrArg View.begun hview
  rw [hrecord]
  by_cases hknown : view.begun.contains assembly.fullName = true
  · rw [if_pos hknown]
    exact ends_pure ⟨hholds, haccounts.again hgraph.toLoaded (List.contains_iff_mem.1 hknown)⟩
  rw [if_neg hknown]
  refine ends_begin.bind ?_
  rintro - begun rfl
  refine (hkept.ends_declareAll hgraph.indexesNested hindexed
    (fun top htop _ hlater => h.roots hassembly htop hlater) (h.begins hholds)).bind ?_
  intro _ declared hdeclared
  have hsettled : stage.program.graph.DefinesOnce →
      ∀ other ∈ TypeDef.withNestedAll (Run.roots assembly), stage.Settled other declared :=
    fun honce => Settled.withNestedAll honce hgraph
      (hdeclared.advances.closed haccounts.closed) hindexed hdeclared.settled
  refine ((h.inside hassembly).ends_translateTypes hkept hgraph.indexesNested hindexed hsettled
    hdeclared.holds).bind ?_
  intro _ translated htranslated
  refine (ends_walkAll (contract.Lasts stage declared) hgraph.indexesNested hindexed
    (fun _ _ _ _ _ _ hlater => ends_pure hlater) ?_ htranslated).mono ?_
  · intro inside _ model _ _ later hlater
    rw [Run.sealType]
    split
    · refine (ends_emit (hkept.mayStop hlater.holds)).mono ?_
      rintro - sealed rfl
      exact hlater.trans (lasts_of_records (h.seals hlater.holds) rfl rfl)
    · exact ends_pure hlater
  · intro _ later hlater
    refine ⟨hlater.holds, haccounts.next (hdeclared.advances.trans hlater.advances) ?_⟩
    intro honce inside hinside
    exact (hsettled honce inside hinside).mono hlater.advances.declared

/-- Wherever a run stands the contract holds. -/
theorem KeptThroughout.ends_translateAll (h : contract.KeptThroughout stage listed)
    (hgraph : stage.program.graph.WellFormed)
    (hindexed : ∀ assembly ∈ listed, ∀ top ∈ Run.roots assembly, stage.program.graph.Indexes top)
    {done : List AssemblyDef} (haccounts : stage.Accounts done view)
    (hholds : contract.holds [] view) :
    stage.Ends (listed.forM Run.translateAssembly)
      (fun _ later => contract.holds [] later ∧ stage.Accounts (done ++ listed) later) view := by
  refine ends_forM (fun before later => contract.holds [] later ∧
    stage.Accounts (done ++ before) later) ⟨hholds, by rwa [List.append_nil]⟩ ?_
  rintro before assembly after later hlisted ⟨hlater, haccounts⟩
  have hassembly : assembly ∈ listed := by
    rw [hlisted]
    exact List.mem_append_right _ List.mem_cons_self
  rw [← List.append_assoc]
  exact h.ends_translateAssembly hgraph hassembly (hindexed assembly hassembly) haccounts hlater

end Contract

/-- The view with which a translator begins a run. -/
def Translator.view (translator : Translator) : View :=
  Session.view { translator, sink := .collecting }

/-- The view that a run leaves behind. -/
def Outcome.view (outcome : Outcome) : View :=
  { outcome.translator.view with output := outcome.output }

/-- The stage on which a translator runs. -/
def Translator.stage (translator : Translator) (sink : Sink)
    (stopped : List Declaration → List Diagnostic → Prop) : Stage :=
  { program := translator.store.program, sink, decompile := translator.decompile
    pipeline := translator.pipeline, stopped }

/-- A run comes to its end, or it has been stopped where it may. -/
theorem Stage.Ends.translate {stage : Stage} {translator : Translator} {listed : List AssemblyDef}
    {after : View → Prop} (hcarries : stage.Carries { translator, sink := stage.sink })
    (h : stage.Ends (listed.forM Run.translateAssembly) (fun _ => after) translator.view) :
    ((translator.translate stage.sink listed).failure = none ∧
      stage.Carries { translator := (translator.translate stage.sink listed).translator,
                      sink := stage.sink } ∧
      after (translator.translate stage.sink listed).view) ∨
    ((∃ error, (translator.translate stage.sink listed).failure = some error) ∧
      stage.stopped (translator.translate stage.sink listed).view.output
        (translator.translate stage.sink listed).view.reports) := by
  have hends := h { translator, sink := stage.sink } hcarries rfl
  rw [Translator.translate]
  rcases hrun : (listed.forM Run.translateAssembly).run.run
    { translator, sink := stage.sink } with ⟨error | value, session⟩
  · rw [hrun] at hends
    exact .inr ⟨⟨error, rfl⟩, hends⟩
  · rw [hrun] at hends
    exact .inl ⟨rfl, ⟨hends.1.program_eq, rfl, hends.1.decompile_eq, hends.1.pipeline_eq,
      hends.1.orderly⟩, hends.2⟩

namespace Translator

/-- The translator has not done anything yet. -/
structure IsFresh (translator : Translator) : Prop where
  cache_eq : translator.store.cache = {}
  declared_eq : translator.declared = []
  namespaces_eq : translator.namespaces = []
  begun_eq : translator.begun = []

theorem isFresh_translator (settings : Settings) (graph : Graph) (diagnostics : Diagnostics) :
    (settings.translator graph diagnostics).IsFresh :=
  ⟨rfl, rfl, rfl, rfl⟩

/-- Registering proxies makes no models. -/
theorem IsFresh.addProxies {translator : Translator} (h : translator.IsFresh)
    (assembly : AssemblyDef) : (translator.addProxies assembly).IsFresh := by
  refine ⟨?_, h.declared_eq, h.namespaces_eq, h.begun_eq⟩
  refine List.foldlRecOn (motive := fun store : Store => store.cache = {}) _ _ h.cache_eq ?_
  intro store hstore definition _
  rw [Store.addProxy]
  split
  · exact hstore
  · exact hstore

theorem IsFresh.carries {translator : Translator} (h : translator.IsFresh) (sink : Sink)
    (stopped : List Declaration → List Diagnostic → Prop) :
    (translator.stage sink stopped).Carries { translator, sink } := by
  refine ⟨rfl, rfl, rfl, rfl, ?_⟩
  change translator.store.program.Orderly translator.store.cache
  rw [h.cache_eq]
  exact Program.orderly_empty _

theorem IsFresh.accounts {translator : Translator} (h : translator.IsFresh) (stage : Stage) :
    stage.Accounts [] translator.view :=
  Stage.accounts_nil h.declared_eq h.begun_eq

/-- A translator that knows no other assembly. -/
def ofBlueprint (blueprint : AssemblyBlueprint) : Translator :=
  ({} : Settings).translator (Graph.ofAssemblies [blueprint.build]) {}

theorem isFresh_ofBlueprint (blueprint : AssemblyBlueprint) : (ofBlueprint blueprint).IsFresh :=
  isFresh_translator _ _ _

theorem wellFormed_ofBlueprint (blueprint : AssemblyBlueprint) :
    (ofBlueprint blueprint).store.graph.WellFormed :=
  Graph.wellFormed_ofAssemblies [blueprint]

/-- What holds of every type of the assembly holds of every type that counts as one. -/
theorem forall_belongs_ofBlueprint {blueprint : AssemblyBlueprint} {P : TypeDef → Prop}
    (h : ∀ definition ∈ blueprint.build.allTypes, P definition) :
    ∀ definition, (ofBlueprint blueprint).store.graph.Belongs [blueprint.build] definition →
      P definition := by
  intro definition hbelongs
  obtain ⟨assembly, hassembly, hdefinition⟩ :=
    (wellFormed_ofBlueprint blueprint).indexes_iff.1 hbelongs.1
  obtain rfl := List.mem_singleton.1 hassembly
  exact h definition hdefinition

end Translator

/-- A class of the namespace `App`, with the name of its base there. -/
def sampleClass (name : String) (base : Option String) (nested : List TypeBlueprint) :
    TypeBlueprint :=
  { space := "App", name, nested, base := base.map fun path => .reference { space := "App", path } }

def sampleAssembly (types : List TypeBlueprint) : AssemblyBlueprint :=
  { identity := { name := "App" }, mainTypes := types }

def sampleScope : Scope :=
  { assembly := "App", module := "App.dll" }

end Assemblage.Script
