import Assemblage.Proofs.Script.Turns
import Mathlib.Data.List.Perm.Subperm

/-!
# What is declared inside types

What a run declares inside a type, and which of its methods it reports as lost, is
told by the model of the type.  What was declared before makes no difference, nor
do the models that were there.  So all that a run declares inside types is one
passage for each type that it walks over.
-/

namespace Assemblage.Script

open Comparison.Kept (details)

/-- Declarations of what is inside types, with the reports on methods among them. -/
structure Passage where
  output : List Declaration := []
  reports : List Diagnostic := []

namespace Passage

def append (passage other : Passage) : Passage :=
  { output := passage.output ++ other.output, reports := passage.reports ++ other.reports }

instance : Append Passage :=
  ⟨append⟩

/-- Passages one after the other. -/
def all (passages : List Passage) : Passage :=
  { output := passages.flatMap output, reports := passages.flatMap reports }

theorem all_append (passages others : List Passage) :
    all (passages ++ others) = all passages ++ all others := by
  simp only [all, List.flatMap_append]
  rfl

theorem output_all_map {α : Type} (items : List α) (passage : α → Passage) :
    (all (items.map passage)).output = items.flatMap fun item => (passage item).output :=
  List.flatMap_map ..

theorem all_singleton (passage : Passage) : all [passage] = passage := by
  simp only [all, List.flatMap_singleton]

/-- Passages with nothing in them come to nothing. -/
theorem all_eq_empty {passages : List Passage} (h : ∀ passage ∈ passages, passage = {}) :
    all passages = {} := by
  simp only [all, Passage.mk.injEq, List.flatMap_eq_nil_iff]
  constructor
  all_goals
    intro passage hpassage
    rw [h passage hpassage]

theorem append_nil (passage : Passage) : passage ++ {} = passage := by
  change append passage {} = passage
  simp only [append, List.append_nil]

end Passage

namespace View

/-- The declarations of what is inside types. -/
def told (view : View) : List Declaration :=
  view.output.filter (·.phase = .members)

/-- The reports on methods. -/
def lost (view : View) : List Diagnostic :=
  view.reports.filter (·.category = .method)

/-- Between the two views a passage has been added to what is declared inside types. -/
structure Tells (passage : Passage) (view later : View) : Prop where
  told_eq : later.told = view.told ++ passage.output
  lost_eq : later.lost = view.lost ++ passage.reports

variable {view later last : View} {passage other : Passage} {definition : TypeDef}

theorem tells_of_eq (htold : later.told = view.told) (hlost : later.lost = view.lost) :
    view.Tells {} later :=
  ⟨by rw [htold, List.append_nil], by rw [hlost, List.append_nil]⟩

theorem tells_refl (view : View) : view.Tells {} view :=
  tells_of_eq rfl rfl

theorem Tells.trans (h : view.Tells passage later) (hnext : later.Tells other last) :
    view.Tells (passage ++ other) last where
  told_eq := by
    rw [hnext.told_eq, h.told_eq, List.append_assoc]
    rfl
  lost_eq := by
    rw [hnext.lost_eq, h.lost_eq, List.append_assoc]
    rfl

/-- What follows may add nothing to the passage. -/
theorem Tells.then (h : view.Tells passage later) (hnext : later.Tells {} last) :
    view.Tells passage last :=
  passage.append_nil ▸ h.trans hnext

theorem tells_emit {declaration : Declaration} (hphase : declaration.phase = .members) :
    view.Tells { output := [declaration] } (view.emit declaration) where
  told_eq := by simp [told, emit, hphase]
  lost_eq := (List.append_nil _).symm

theorem tells_emit_other {declaration : Declaration} (hphase : declaration.phase ≠ .members) :
    view.Tells {} (view.emit declaration) :=
  tells_of_eq (by simp [told, emit, hphase]) rfl

theorem tells_report {entry : Diagnostic} (hcategory : entry.category = .method) :
    view.Tells { reports := [entry] } (view.report entry) where
  told_eq := (List.append_nil _).symm
  lost_eq := by simp [lost, report, hcategory]

theorem tells_report_other {entry : Diagnostic} (hcategory : entry.category ≠ .method) :
    view.Tells {} (view.report entry) :=
  tells_of_eq rfl (by simp [lost, report, hcategory])

/-- A type that comes on record, with its namespace, has nothing inside it yet. -/
theorem tells_opened (view : View) (id : TypeId) (definition : TypeDef) :
    view.Tells {} ((view.mark id).space definition) := by
  rcases (view.mark id).space_cases definition with ⟨-, heq⟩ | ⟨-, heq⟩
  · rw [heq]
    exact tells_of_eq rfl rfl
  · rw [heq]
    have hother : view.Tells {}
        (view.emit (.namespaceObject (Identifier.escapePath definition.space))) :=
      tells_emit_other (by simp [Declaration.phase])
    exact ⟨hother.told_eq, hother.lost_eq⟩

end View

/-- Declaring types adds nothing to what is inside them. -/
def Contract.silent (start : View) : Contract where
  holds _ view := start.Tells {} view
  admits _ _ _ := True

theorem Contract.silent_kept {stage : Stage} (hstop : ∀ view, stage.MayStop view) (start : View) :
    (silent start).Kept stage where
  mayStop _ := hstop _
  opens {_ view definition _} h _ _ _ _ _ :=
    h.then (view.tells_opened definition.typeId definition)
  closes {_ _ _ _ model} _ h _ _ _ :=
    h.then (View.tells_emit_other (by rw [phase_typeDeclaration]; decide))
  cycles _ h _ _ := h.then (View.tells_report_other (by simp [Run.baseCycle]))
  bases _ _ _ _ := trivial
  nested _ _ _ _ _ := trivial

namespace Stage

/-- A translator that has not done anything on the stage. -/
def translator (stage : Stage) : Translator :=
  { store := { program := stage.program }, pipeline := stage.pipeline,
    decompile := stage.decompile }

variable {stage : Stage} {session : Session} {view : View} {definition : TypeDef}

/-- The models that are there do not change which types are ignored. -/
theorem Carries.ignores_eq (h : stage.Carries session) (honce : stage.program.graph.DefinesOnce) :
    session.translator.store.ignores = stage.translator.store.ignores := by
  funext signature
  rw [Store.ignores, h.program_eq, Program.ignores_eq honce h.orderly.faithful]
  rfl

/-- Every session makes the same functions. -/
theorem Carries.function_eq (h : stage.Carries session) (honce : stage.program.graph.DefinesOnce) :
    session.translator.function = stage.translator.function := by
  have horacle : session.translator.store.oracle = stage.translator.store.oracle := by
    rw [Store.oracle, Store.oracle, h.ignores_eq honce, Store.graph, h.program_eq]
    rfl
  funext name declared implementation initializers
  rw [Translator.function, Translator.function, horacle, h.decompile_eq, h.pipeline_eq]
  rfl

/-- The details of a type depend on the program of the store, not on its cache. -/
theorem Carries.details_eq (h : stage.Carries session) (honce : stage.program.graph.DefinesOnce)
    (path : String) (model : TypeModel) :
    details session.translator.store path model = details stage.translator.store path model := by
  rw [details, details, interfaceDeclarations, interfaceDeclarations, h.ignores_eq honce,
    Store.graph, h.program_eq]
  rfl

/-- What becomes of a method. -/
def methodPassage (stage : Stage) (model : TypeModel) (path : String) (initializers : Block)
    (member : Member) : Passage :=
  match member.definition.method? with
  | none => {}
  | some declared =>
    let owner := Owner.ofMember path member.isStatic
    let name := methodName model member
    let implementation := member.replacement.getD declared
    if member.isExternal then
      if !member.isReplaced then { output := [.external owner name] } else {}
    else if !implementation.isAbstract then
      let result := stage.translator.function name declared implementation initializers
      { output := [methodDeclaration owner name declared result]
        reports := methodReports declared result }
    else {}

/-- The methods that are translated before everything else in a type. -/
def plainMethods (model : TypeModel) : List Member :=
  model.methods.filter fun member => !member.isIgnored && !TypeModel.isStaticConstructor member

def groupPassage (path : String) (group : MethodGroup) : Passage :=
  { output := [.overloads (Owner.ofMember path group.isStatic) (Identifier.escape group.name)
      (overloadsOf group)] }

def constructorPassage (stage : Stage) (model : TypeModel) (path : String) : Passage :=
  match model.staticConstructorMember? with
  | some member =>
    if member.isIgnored then {}
    else stage.methodPassage model path (fieldInitializers model) member
  | none => {}

/-- All that is declared inside a type. -/
def membersPassage (stage : Stage) (model : TypeModel) : Passage :=
  let path := model.definition.location.path
  .all ((plainMethods model).map (stage.methodPassage model path [])) ++
    .all (model.groups.map (groupPassage path)) ++
    { output := details stage.translator.store path model } ++
    stage.constructorPassage model path

/-- What a walk adds for a type of the program. -/
def passageOf (stage : Stage) (definition : TypeDef) : Passage :=
  if stage.program.ignoresDefinition definition || definition.kind.isDeclaredInFull then {}
  else stage.membersPassage (stage.program.modelOf definition)

theorem ends_emit_told (hstop : ∀ view, stage.MayStop view) {declaration : Declaration}
    (hphase : declaration.phase = .members) :
    stage.Ends (Run.emit declaration) (fun _ => view.Tells { output := [declaration] }) view := by
  refine (ends_emit (hstop view)).mono ?_
  rintro - later rfl
  exact View.tells_emit hphase

theorem ends_declareMethod (hstop : ∀ view, stage.MayStop view) {owner : Owner} {name : String}
    {declared : MethodDef} {result : Except Error Function}
    (hlocal : stage.Unfailing → ∀ error, result = .error error → error.isMethodLocal = true) :
    stage.Ends (Run.declareMethod owner name declared result)
      (fun _ => view.Tells { output := [methodDeclaration owner name declared result]
                             reports := methodReports declared result }) view := by
  cases result with
  | ok function => exact ends_emit_told hstop rfl
  | error error =>
    rw [Run.declareMethod]
    by_cases hown : error.isMethodLocal = true
    · rw [if_pos hown]
      refine ends_report.bind ?_
      rintro - reported rfl
      refine (ends_emit_told hstop rfl).mono fun _ later hlater => ?_
      exact (View.tells_report rfl).trans hlater
    · rw [if_neg hown]
      exact ends_throw ((hstop view).resolve_left fun hunfailing =>
        hown (hlocal hunfailing error rfl))

theorem ends_translateMethod (hstop : ∀ view, stage.MayStop view)
    (honce : stage.program.graph.DefinesOnce) (model : TypeModel) (path : String)
    (initializers : Block) (member : Member) :
    stage.Ends (Run.translateMethod model path initializers member)
      (fun _ => view.Tells (stage.methodPassage model path initializers member)) view := by
  rw [Run.translateMethod_eq, methodPassage]
  cases member.definition.method? with
  | none => exact ends_pure view.tells_refl
  | some declared =>
    dsimp only
    split
    · split
      · exact ends_emit_told hstop rfl
      · exact ends_pure view.tells_refl
    · split
      · refine ends_consult ?_
        intro session hcarries _
        rw [hcarries.function_eq honce]
        exact ends_declareMethod hstop fun hunfailing error herror =>
          Translator.isMethodLocal_of_function_eq_error hunfailing.decompiles herror
      · exact ends_pure view.tells_refl

/-- The types of parameters that are declared first are not inside the type. -/
theorem ends_translateGroup (hstop : ∀ view, stage.MayStop view)
    (hgraph : stage.program.graph.IndexesNested) (model : TypeModel) (path : String)
    (group : MethodGroup) :
    stage.Ends (Run.translateGroup model path group)
      (fun _ => view.Tells (groupPassage path group)) view := by
  rw [Run.translateGroup]
  refine ends_consult ?_
  intro session hcarries _
  rw [hcarries.graph_eq]
  refine (ends_forIn (view.Tells {} ·) view.tells_refl ?_).bind ?_
  · intro parameter hparameter later hlater
    refine ends_consult ?_
    intro current _ _
    split
    · refine ((Contract.silent_kept hstop view).ends_declareType hgraph
        (Contract.indexes_of_mem_parameterTypes hparameter).1 hlater trivial).bind ?_
      exact fun _ last hlast => ends_pure ⟨rfl, hlast.holds⟩
    · exact ends_pure ⟨rfl, hlater⟩
  · intro _ later hlater
    exact (ends_emit_told hstop rfl).mono fun _ _ hlast => hlater.trans hlast

theorem ends_translateStaticConstructor (hstop : ∀ view, stage.MayStop view)
    (honce : stage.program.graph.DefinesOnce) (model : TypeModel) (path : String) :
    stage.Ends (Run.translateStaticConstructor model path)
      (fun _ => view.Tells (stage.constructorPassage model path)) view := by
  rw [Run.translateStaticConstructor, constructorPassage]
  cases hfound : model.staticConstructor? with
  | none =>
    rw [TypeModel.staticConstructorMember?, hfound]
    exact ends_pure view.tells_refl
  | some first =>
    obtain ⟨member, hmember⟩ := TypeModel.exists_staticConstructorMember hfound
    rw [hmember]
    dsimp only
    cases member.isIgnored with
    | true => exact ends_pure view.tells_refl
    | false => exact ends_translateMethod hstop honce model path _ member

theorem ends_emitAll (hstop : ∀ view, stage.MayStop view) {declarations : List Declaration}
    (hphase : ∀ declaration ∈ declarations, declaration.phase = .members) :
    stage.Ends (Run.emitAll declarations) (fun _ => view.Tells { output := declarations })
      view := by
  refine ends_forM (fun before => view.Tells { output := before }) view.tells_refl ?_
  rintro before declaration after later rfl hlater
  refine (ends_emit_told hstop (hphase declaration (by simp))).mono fun _ last hlast => ?_
  exact hlater.trans hlast

theorem ends_translateMembers (hstop : ∀ view, stage.MayStop view)
    (hgraph : stage.program.graph.IndexesNested) (honce : stage.program.graph.DefinesOnce)
    (model : TypeModel) :
    stage.Ends (Run.translateMembers model) (fun _ => view.Tells (stage.membersPassage model))
      view := by
  rw [Run.translateMembers, membersPassage]
  dsimp only
  let path := model.definition.location.path
  let plain (member : Member) : Bool := !member.isIgnored && !TypeModel.isStaticConstructor member
  refine (ends_forIn_done (fun before => view.Tells
    (.all ((before.filter plain).map (stage.methodPassage model path [])))) view.tells_refl
    ?_).bind ?_
  · rintro before member after later - hlater
    by_cases hplain : plain member = true
    · rw [if_pos hplain]
      refine (ends_translateMethod hstop honce model path [] member).bind fun _ last hlast => ?_
      refine ends_pure ⟨rfl, ?_⟩
      rw [List.filter_append, List.filter_cons_of_pos hplain, List.map_append, Passage.all_append]
      rw [← Passage.all_singleton (stage.methodPassage model path [] member)] at hlast
      exact hlater.trans hlast
    · rw [if_neg hplain]
      refine ends_pure ⟨rfl, ?_⟩
      rw [List.filter_append, List.filter_cons_of_neg hplain, List.filter_nil, List.append_nil]
      exact hlater
  intro _ methods hmethods
  refine (ends_forIn_done (fun before => methods.Tells (.all (before.map (groupPassage path))))
    methods.tells_refl ?_).bind ?_
  · rintro before group after later - hlater
    refine (ends_translateGroup hstop hgraph model path group).bind fun _ last hlast => ?_
    refine ends_pure ⟨rfl, ?_⟩
    rw [List.map_append, Passage.all_append]
    rw [← Passage.all_singleton (groupPassage path group)] at hlast
    exact hlater.trans hlast
  intro _ groups hgroups
  refine ends_consult ?_
  intro session hcarries _
  have hdetails := hcarries.details_eq honce path model
  rw [details] at hdetails
  rw [hdetails]
  refine (ends_emitAll hstop fun declaration hmem => phase_of_mem_tail hmem).bind ?_
  intro _ told htold
  refine (ends_translateStaticConstructor hstop honce model path).mono fun _ last hlast => ?_
  exact ((hmethods.trans hgroups).trans htold).trans hlast

theorem ends_translateType (hstop : ∀ view, stage.MayStop view)
    (hgraph : stage.program.graph.IndexesNested) (honce : stage.program.graph.DefinesOnce)
    {model : TypeModel} (hmodel : stage.Models definition model)
    (hignored : model.ignored = false) :
    stage.Ends (Run.translateType model) (fun _ => view.Tells (stage.passageOf definition))
      view := by
  obtain rfl := hmodel.eq_modelOf honce
  have hkept : stage.program.ignoresDefinition definition = false := hignored
  rw [Run.translateType, passageOf, hkept, Bool.false_or]
  change stage.Ends (if (!definition.kind.isDeclaredInFull) = true then _ else _) _ view
  cases definition.kind.isDeclaredInFull with
  | true => exact ends_pure view.tells_refl
  | false => exact ends_translateMembers hstop hgraph honce _

/-! ## Walks -/

theorem ends_walk_told (hstop : ∀ view, stage.MayStop view)
    (hgraph : stage.program.graph.WellFormed) (honce : stage.program.graph.DefinesOnce)
    (hindexed : stage.program.graph.Indexes definition) :
    stage.Ends (Run.walk Run.translateType (fun _ => pure ()) definition)
      (fun _ => view.Tells (.all (definition.withNested.map stage.passageOf))) view := by
  induction definition using TypeDef.induction_nested generalizing view with
  | step definition ih =>
  rw [Run.walk_eq]
  refine ends_model hindexed ?_
  intro model hmodel
  cases hignored : model.ignored with
  | true =>
    rw [hmodel.eq_modelOf honce] at hignored
    have hempty : Passage.all (definition.withNested.map stage.passageOf) = {} := by
      refine Passage.all_eq_empty ?_
      rw [List.forall_mem_map]
      intro inside hinside
      rw [passageOf, Program.ignoresDefinition_withNested honce hgraph hindexed hignored inside
        hinside]
      rfl
    rw [hempty]
    exact ends_pure view.tells_refl
  | false =>
    refine (ends_translateType hstop hgraph.indexesNested honce hmodel hignored).bind ?_
    intro _ entered hentered
    refine (ends_forM (fun before => entered.Tells
      (.all ((before.flatMap TypeDef.withNested).map stage.passageOf)))
      entered.tells_refl ?_).bind ?_
    · intro before inner after later hnested hlater
      have hinner : inner ∈ definition.nested := by
        rw [hnested]
        exact List.mem_append_right _ List.mem_cons_self
      refine (ih inner hinner (hgraph.indexesNested definition hindexed inner hinner)).mono ?_
      intro _ last hlast
      rw [List.flatMap_append, List.map_append, Passage.all_append, List.flatMap_singleton]
      exact hlater.trans hlast
    · intro _ later hlater
      refine ends_pure ?_
      rw [TypeDef.withNested_eq_cons, List.map_cons, ← List.singleton_append, Passage.all_append,
        Passage.all_singleton]
      exact hentered.trans hlater

theorem ends_walkAll_told (hstop : ∀ view, stage.MayStop view)
    (hgraph : stage.program.graph.WellFormed) (honce : stage.program.graph.DefinesOnce)
    {types : List TypeDef} (hindexed : ∀ top ∈ types, stage.program.graph.Indexes top) :
    stage.Ends (Run.walkAll Run.translateType (fun _ => pure ()) types)
      (fun _ => view.Tells (.all ((TypeDef.withNestedAll types).map stage.passageOf))) view := by
  rw [Run.walkAll_eq_forM, TypeDef.withNestedAll_eq_flatMap]
  refine ends_forM (fun before => view.Tells
    (.all ((before.flatMap TypeDef.withNested).map stage.passageOf))) view.tells_refl ?_
  rintro before top after later rfl hlater
  refine (ends_walk_told hstop hgraph honce (hindexed top (by simp))).mono fun _ last hlast => ?_
  rw [List.flatMap_append, List.map_append, Passage.all_append, List.flatMap_singleton]
  exact hlater.trans hlast

/-- Types are declared before what is inside them, and sealed after it. -/
theorem ends_walks_told (hstop : ∀ view, stage.MayStop view)
    (hgraph : stage.program.graph.WellFormed) (honce : stage.program.graph.DefinesOnce)
    {types : List TypeDef} (hindexed : ∀ top ∈ types, stage.program.graph.Indexes top) :
    stage.Ends
      (do
        types.forM Run.declareType
        Run.walkAll Run.translateType (fun _ => pure ()) types
        Run.walkAll (fun _ => pure ()) Run.sealType types)
      (fun _ => view.Tells (.all ((TypeDef.withNestedAll types).map stage.passageOf))) view := by
  refine ((Contract.silent_kept hstop view).ends_declareAll hgraph.indexesNested hindexed
    (fun _ _ _ _ => trivial) view.tells_refl).bind ?_
  intro _ declared hdeclared
  refine (ends_walkAll_told hstop hgraph honce hindexed).bind ?_
  intro _ told htold
  refine (ends_walkAll_seal honce hgraph hstop hindexed).mono ?_
  rintro - later rfl
  refine (hdeclared.holds.trans htold).then (View.tells_of_eq ?_ rfl)
  -- Seals are not inside types either.
  have hseals : (sealDeclarations stage.program types).filter (·.phase = .members) = [] := by
    refine List.filter_eq_nil_iff.2 fun declaration hdeclaration => ?_
    obtain ⟨sealed, -, rfl⟩ := List.mem_map.1 hdeclaration
    simp [Declaration.phase]
  rw [View.told, View.emitAll, List.filter_append, hseals, List.append_nil]
  rfl

/-- Where types are defined once, no type is walked over twice. -/
theorem nodup_walked {graph : Graph} (hgraph : graph.Loaded) (honce : graph.DefinesOnce)
    {listed : List AssemblyDef} (hlisted : listed ⊆ graph.assemblies) :
    ((Run.walked listed).map (·.fullName)).Nodup := by
  let inside (assembly : AssemblyDef) : List String :=
    (TypeDef.withNestedAll (Run.roots assembly)).map (·.fullName)
  let all (assembly : AssemblyDef) : List String := assembly.allTypes.map (·.fullName)
  have hall : (graph.assemblies.flatMap all).Nodup := by
    rw [Graph.DefinesOnce, hgraph.index_eq, List.map_flatMap] at honce
    simp only [Graph.entriesOf, List.map_map] at honce
    exact honce
  -- The assemblies that are walked over are some of those of the graph, in another order.
  have hfirst : (listed.eraseDupsBy fun left right => left.fullName == right.fullName).Nodup :=
    .of_map _ (nodup_map_eraseDupsBy AssemblyDef.fullName listed)
  obtain ⟨chosen, hperm, hsublist⟩ :=
    List.subperm_of_subset hfirst (List.Subset.trans (eraseDupsBy_subset _ listed) hlisted)
  rw [Run.walked, List.map_flatMap]
  refine (hperm.flatMap_right inside).nodup_iff.1 (hall.sublist ?_)
  refine (List.Sublist.flatMap_right chosen fun assembly _ => ?_).trans (hsublist.flatMap all)
  exact (Run.withNestedAll_roots_sublist assembly).map _

/-- The assemblies on record are those that have been given. -/
theorem Accounts.contains_begun_eq {done : List AssemblyDef} (h : stage.Accounts done view)
    (assembly : AssemblyDef) :
    view.begun.contains assembly.fullName =
      (done.eraseDupsBy fun left right => left.fullName == right.fullName).any
        (assembly.fullName == ·.fullName) := by
  rw [any_eraseDupsBy AssemblyDef.fullName, Bool.eq_iff_iff, List.contains_iff_mem,
    h.begun, List.any_eq_true]
  simp only [beq_iff_eq]
  exact exists_congr fun other => and_congr_right fun _ => eq_comm

theorem ends_translateAssembly_told (hstop : ∀ view, stage.MayStop view)
    (hgraph : stage.program.graph.WellFormed) (honce : stage.program.graph.DefinesOnce)
    {assembly : AssemblyDef} (hassembly : assembly ∈ stage.program.graph.assemblies) :
    stage.Ends (Run.translateAssembly assembly)
      (fun _ => view.Tells (.all ((if view.begun.contains assembly.fullName then []
        else TypeDef.withNestedAll (Run.roots assembly)).map stage.passageOf))) view := by
  rw [Run.translateAssembly]
  refine ends_consult ?_
  rintro session - rfl
  by_cases hknown : session.view.begun.contains assembly.fullName = true
  · simp only [if_pos hknown]
    exact (if_pos hknown : _ = _) ▸ ends_pure (View.tells_refl _)
  · simp only [if_neg hknown]
    refine (if_neg hknown : _ = _) ▸ ends_begin.bind ?_
    rintro - begun rfl
    refine (ends_walks_told hstop hgraph honce fun top htop =>
      Run.indexes_of_mem_roots hgraph.toLoaded hassembly htop).mono fun _ later hlater => ?_
    exact ⟨hlater.told_eq, hlater.lost_eq⟩

/-- A list of assemblies tells the passages of the types that are walked, in order. -/
theorem ends_translateAll_told (hstop : ∀ view, stage.MayStop view)
    (hgraph : stage.program.graph.WellFormed) (honce : stage.program.graph.DefinesOnce)
    {listed : List AssemblyDef} (hlisted : listed ⊆ stage.program.graph.assemblies)
    (haccounts : stage.Accounts [] view) :
    stage.Ends (listed.forM Run.translateAssembly)
      (fun _ => view.Tells (.all ((Run.walked listed).map stage.passageOf))) view := by
  refine (ends_forM (fun before later =>
    view.Tells (.all ((Run.walked before).map stage.passageOf)) later ∧
      stage.Accounts before later) ⟨view.tells_refl, haccounts⟩ ?_).mono fun _ _ hlater => hlater.1
  rintro before assembly after later rfl ⟨htold, hdone⟩
  have hassembly : assembly ∈ stage.program.graph.assemblies := hlisted (by simp)
  have hindexed : ∀ top ∈ Run.roots assembly, stage.program.graph.Indexes top :=
    fun top htop => Run.indexes_of_mem_roots hgraph.toLoaded hassembly htop
  refine ((ends_translateAssembly_told hstop hgraph honce hassembly).and
    ((Contract.idle_kept hstop [assembly]).ends_translateAssembly hgraph
      (List.mem_singleton_self assembly) hindexed hdone trivial)).mono ?_
  rintro _ last ⟨hlast, -, hnext⟩
  refine ⟨?_, hnext⟩
  rw [hdone.contains_begun_eq] at hlast
  rw [Run.walked_concat, List.map_append, Passage.all_append]
  exact htold.trans hlast

end Stage

/-- A run that comes to its end has declared inside types what is told by their models. -/
theorem Translator.told_translate {translator : Translator} (hfresh : translator.IsFresh)
    (hgraph : translator.store.graph.WellFormed) (honce : translator.store.graph.DefinesOnce)
    {sink : Sink} {listed : List AssemblyDef} (hlisted : listed ⊆ translator.store.graph.assemblies)
    (hcomplete : (translator.translate sink listed).failure = none) :
    let stage := translator.stage sink fun _ _ => True
    let outcome := translator.translate sink listed
    stage.Carries { translator := outcome.translator, sink } ∧
      outcome.output.filter (·.phase = .members) =
        (Run.walked listed).flatMap fun definition => (stage.passageOf definition).output := by
  intro stage outcome
  have hends : stage.Ends _ _ _ := Stage.ends_translateAll_told (fun _ => .inr trivial) hgraph honce
    hlisted (hfresh.accounts stage)
  rcases hends.translate (hfresh.carries sink _) with
    ⟨-, hcarries, htold⟩ | ⟨⟨error, hfailure⟩, -⟩
  · have houtput := htold.told_eq
    rw [Passage.output_all_map] at houtput
    exact ⟨hcarries, houtput⟩
  · exact absurd (hcomplete.symm.trans hfailure) (Option.some_ne_none error).symm

end Assemblage.Script
