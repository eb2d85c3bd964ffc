import Assemblage.Proofs.Model.Service
import Assemblage.Script.Assembly

/-!
# Runs on a stage

What a run does is told by how the view of its session changes: the types,
namespaces and assemblies on record, what the sink has taken and what has been
reported.  The program, the sink, the way to find trees and that to lower them are
the stage; they stay as they are, and the models come and go behind the scenes.  The rules below
say for each step of a run where it ends, and what holds if it is stopped.
-/

namespace Assemblage.Script

/-- A session without its models and without what never changes. -/
structure View where
  declared : List TypeId
  namespaces : List String
  begun : List String
  output : List Declaration
  reports : List Diagnostic

def Session.view (session : Session) : View :=
  { declared := session.translator.declared
    namespaces := session.translator.namespaces
    begun := session.translator.begun
    output := session.output
    reports := session.translator.diagnostics.entries }

namespace View

def mark (view : View) (id : TypeId) : View :=
  { view with declared := id :: view.declared }

def begin (view : View) (name : String) : View :=
  { view with begun := name :: view.begun }

def emit (view : View) (declaration : Declaration) : View :=
  { view with output := view.output ++ [declaration] }

def report (view : View) (entry : Diagnostic) : View :=
  { view with reports := view.reports ++ [entry] }

def name (view : View) (path : String) : View :=
  { view with namespaces := path :: view.namespaces }

/-- With the namespace of a type that is not nested. -/
def space (view : View) (definition : TypeDef) : View :=
  if definition.isNested || definition.space.isEmpty then view
  else
    let path := Identifier.escapePath definition.space
    if view.namespaces.contains path then view
    else (view.name path).emit (.namespaceObject path)

variable {view : View} {definition : TypeDef}

theorem space_eq_self (h : (definition.isNested || definition.space.isEmpty) = true ∨
    view.namespaces.contains (Identifier.escapePath definition.space) = true) :
    view.space definition = view := by
  rw [space]
  by_cases hplain : (definition.isNested || definition.space.isEmpty) = true
  · rw [if_pos hplain]
  · rw [if_neg hplain]
    exact if_pos (h.resolve_left hplain)

/-- A namespace that is new is noted and emitted. -/
theorem space_eq_emit (hplain : ¬(definition.isNested || definition.space.isEmpty) = true)
    (hnew : ¬view.namespaces.contains (Identifier.escapePath definition.space) = true) :
    view.space definition =
      (view.name (Identifier.escapePath definition.space)).emit
        (.namespaceObject (Identifier.escapePath definition.space)) := by
  rw [space, if_neg hplain]
  exact if_neg hnew

/-- Either nothing is to be done for the namespace of a type, or it is declared now. -/
theorem space_cases (view : View) (definition : TypeDef) :
    (definition.isNested = true ∨ definition.space.isEmpty = true ∨
        Identifier.escapePath definition.space ∈ view.namespaces) ∧
      view.space definition = view ∨
    Identifier.escapePath definition.space ∉ view.namespaces ∧
      view.space definition = (view.name (Identifier.escapePath definition.space)).emit
        (.namespaceObject (Identifier.escapePath definition.space)) := by
  by_cases hplain : (definition.isNested || definition.space.isEmpty) = true
  · have hself : view.space definition = view := space_eq_self (.inl hplain)
    rw [Bool.or_eq_true] at hplain
    exact .inl ⟨hplain.imp_right .inl, hself⟩
  by_cases hknown : view.namespaces.contains (Identifier.escapePath definition.space) = true
  · exact .inl ⟨.inr (.inr (List.contains_iff_mem.1 hknown)), space_eq_self (.inr hknown)⟩
  · exact .inr ⟨fun hmem => hknown (List.contains_iff_mem.2 hmem), space_eq_emit hplain hknown⟩

/-- A namespace changes nothing else on record. -/
theorem space_records (view : View) (definition : TypeDef) :
    (view.space definition).declared = view.declared ∧
      (view.space definition).begun = view.begun ∧
      (view.space definition).reports = view.reports := by
  rcases view.space_cases definition with ⟨-, heq⟩ | ⟨-, heq⟩
  all_goals
    rw [heq]
    exact ⟨rfl, rfl, rfl⟩

end View

/-- The circumstances of a run, with what its output and reports have to satisfy
wherever it is stopped. -/
structure Stage where
  program : Program
  sink : Sink
  decompile : MethodDef → Except Error MethodTree
  pipeline : Lowering.Pipeline
  stopped : List Declaration → List Diagnostic → Prop

namespace Stage

/-- The session is one on this stage. -/
structure Carries (stage : Stage) (session : Session) : Prop where
  program_eq : session.translator.store.program = stage.program
  sink_eq : session.sink = stage.sink
  decompile_eq : session.translator.decompile = stage.decompile
  pipeline_eq : session.translator.pipeline = stage.pipeline
  orderly : stage.program.Orderly session.translator.store.cache

theorem Carries.graph_eq {stage : Stage} {session : Session} (h : stage.Carries session) :
    session.translator.store.graph = stage.program.graph :=
  congrArg Program.graph h.program_eq

/-- What a run can learn about a type from its model. -/
structure Models (stage : Stage) (definition : TypeDef) (model : TypeModel) : Prop where
  faithful : TypeModel.Faithful stage.program definition.typeId model
  eq_modelOf : stage.program.graph.DefinesOnce → model = stage.program.modelOf definition

/-- Nothing on the stage can stop a run. -/
structure Unfailing (stage : Stage) : Prop where
  accepts : ∀ taken declaration, stage.sink.accept taken declaration = .ok ()
  decompiles : ∀ method error, stage.decompile method = .error error → error.isMethodLocal = true

/-- Where a run stands it may be stopped. -/
def MayStop (stage : Stage) (view : View) : Prop :=
  stage.Unfailing ∨ stage.stopped view.output view.reports

theorem Unfailing.mayStop {stage : Stage} (h : stage.Unfailing) (view : View) :
    stage.MayStop view :=
  .inl h

theorem MayStop.mark {stage : Stage} {view : View} {id : TypeId} (h : stage.MayStop view) :
    stage.MayStop (view.mark id) :=
  h

/-- Run on the stage from a view, a step ends in a value and a view as described,
or it is stopped where it may. -/
def Ends {α : Type} (stage : Stage) (step : Run α) (after : α → View → Prop) (view : View) : Prop :=
  ∀ session, stage.Carries session → session.view = view →
    match step.run.run session with
    | (.ok value, later) => stage.Carries later ∧ after value later.view
    | (.error _, later) => stage.stopped later.view.output later.view.reports

variable {α β : Type} {stage : Stage} {view : View} {definition : TypeDef}

/-! ## Rules for steps -/

theorem ends_pure {value : α} {after : α → View → Prop} (h : after value view) :
    stage.Ends (pure value) after view := by
  rintro session hcarries rfl
  exact ⟨hcarries, h⟩

theorem Ends.bind {step : Run α} {next : α → Run β} {middle : α → View → Prop}
    {after : β → View → Prop} (hstep : stage.Ends step middle view)
    (hnext : ∀ value later, middle value later → stage.Ends (next value) after later) :
    stage.Ends (step >>= next) after view := by
  intro session hcarries hview
  have hfirst := hstep session hcarries hview
  have hrun : (step >>= next).run.run session =
      match step.run.run session with
      | (.ok value, later) => (next value).run.run later
      | (.error error, later) => (.error error, later) := by
    change (do
      let (result, later) ← step.run.run session
      (ExceptT.bindCont next result).run later : Id _) = _
    rcases step.run.run session with ⟨_ | _, _⟩ <;> rfl
  rw [hrun]
  split at hfirst
  · exact hnext _ _ hfirst.2 _ hfirst.1 rfl
  · exact hfirst

theorem Ends.mono {step : Run α} {before after : α → View → Prop}
    (h : stage.Ends step before view)
    (himp : ∀ value later, before value later → after value later) :
    stage.Ends step after view := by
  intro session hcarries hview
  have hstep := h session hcarries hview
  split at hstep
  · exact ⟨hstep.1, himp _ _ hstep.2⟩
  · exact hstep

/-- What is known of a step from two sides is known of it at once. -/
theorem Ends.and {step : Run α} {after other : α → View → Prop} (h : stage.Ends step after view)
    (hother : stage.Ends step other view) :
    stage.Ends step (fun value later => after value later ∧ other value later) view := by
  intro session hcarries hview
  have hone := h session hcarries hview
  have htwo := hother session hcarries hview
  rcases hrun : step.run.run session with ⟨_ | value, later⟩
  all_goals rw [hrun] at hone htwo
  · exact hone
  · exact ⟨hone.1, hone.2, htwo.2⟩

theorem ends_throw {error : Error} {after : α → View → Prop}
    (h : stage.stopped view.output view.reports) :
    stage.Ends (throw error) after view := by
  rintro session - rfl
  exact h

/-- A step that begins with a look at the session goes on with that session. -/
theorem run_get_bind (next : Session → Run β) (session : Session) :
    (get >>= next : Run β).run.run session = (next session).run.run session :=
  rfl

theorem ends_emit {declaration : Declaration} (hstop : stage.MayStop view) :
    stage.Ends (Run.emit declaration) (fun _ later => later = view.emit declaration) view := by
  rintro session hcarries rfl
  cases haccept : session.sink.accept session.output declaration with
  | ok =>
    have hrun : (Run.emit declaration).run.run session =
        (.ok (), { session with output := session.output ++ [declaration] }) := by
      rw [Run.emit, run_get_bind, haccept]
      rfl
    rw [hrun]
    exact ⟨⟨hcarries.program_eq, hcarries.sink_eq, hcarries.decompile_eq, hcarries.pipeline_eq,
      hcarries.orderly⟩, rfl⟩
  | error error =>
    have hrun : (Run.emit declaration).run.run session = (.error error, session) := by
      rw [Run.emit, run_get_bind, haccept]
      rfl
    rw [hrun]
    rcases hstop with hunfailing | hstopped
    · rw [hcarries.sink_eq, hunfailing.accepts] at haccept
      exact absurd haccept (by simp only [reduceCtorEq, not_false_eq_true])
    · exact hstopped

/-- A change of the translator that leaves the program, the treatment of trees and the
models alone is a change of the view. -/
theorem ends_update {change : Translator → Translator} (after : View → View)
    (hstore : ∀ translator, (change translator).store.program = translator.store.program ∧
      (change translator).store.cache = translator.store.cache ∧
      (change translator).decompile = translator.decompile ∧
      (change translator).pipeline = translator.pipeline)
    (h : ∀ session : Session,
      { session with translator := change session.translator }.view = after session.view) :
    stage.Ends (Run.update change) (fun _ later => later = after view) view := by
  rintro session hcarries rfl
  obtain ⟨hprogram, hcache, hdecompile, hpipeline⟩ := hstore session.translator
  refine ⟨⟨hprogram.trans hcarries.program_eq, hcarries.sink_eq,
    hdecompile.trans hcarries.decompile_eq, hpipeline.trans hcarries.pipeline_eq, ?_⟩, h session⟩
  change stage.program.Orderly (change session.translator).store.cache
  rw [hcache]
  exact hcarries.orderly

theorem ends_report {entry : Diagnostic} :
    stage.Ends (Run.report entry) (fun _ later => later = view.report entry) view :=
  ends_update (·.report entry) (fun _ => ⟨rfl, rfl, rfl, rfl⟩) fun _ => rfl

theorem ends_markDeclared {id : TypeId} :
    stage.Ends (Run.markDeclared id) (fun _ later => later = view.mark id) view :=
  ends_update (·.mark id) (fun _ => ⟨rfl, rfl, rfl, rfl⟩) fun _ => rfl

theorem ends_begin {name : String} :
    stage.Ends
      (Run.update fun translator => { translator with begun := name :: translator.begun })
      (fun _ later => later = view.begin name) view :=
  ends_update (·.begin name) (fun _ => ⟨rfl, rfl, rfl, rfl⟩) fun _ => rfl

/-- What follows a look at the translator may be told for every session of the view. -/
theorem ends_consult {next : Translator → Run β} {after : β → View → Prop}
    (h : ∀ session, stage.Carries session → session.view = view →
      stage.Ends (next session.translator) after view) :
    stage.Ends (Run.translator >>= next) after view := by
  rintro session hcarries rfl
  exact h session hcarries rfl session hcarries rfl

theorem ends_declareNamespace (hstop : stage.MayStop view) :
    stage.Ends (Run.declareNamespace definition)
      (fun _ later => later = view.space definition) view := by
  rw [Run.declareNamespace]
  by_cases hplain : (definition.isNested || definition.space.isEmpty) = true
  · rw [View.space_eq_self (.inl hplain), if_pos hplain]
    exact ends_pure rfl
  rw [if_neg hplain]
  refine ends_consult ?_
  rintro session - rfl
  by_cases hknown :
      session.translator.namespaces.contains (Identifier.escapePath definition.space) = true
  · rw [View.space_eq_self (.inr hknown), if_pos hknown]
    exact ends_pure rfl
  · rw [View.space_eq_emit hplain hknown, if_neg hknown]
    have hname : ∀ path, stage.Ends
        (Run.update fun translator =>
          { translator with namespaces := path :: translator.namespaces })
        (fun _ later => later = session.view.name path) session.view :=
      fun path => ends_update (·.name path) (fun _ => ⟨rfl, rfl, rfl, rfl⟩) fun _ => rfl
    refine (hname _).bind ?_
    rintro - later rfl
    exact ends_emit hstop

theorem ends_declareInFull {model : TypeModel} (hkind : model.kind.isDeclaredInFull = true)
    (hstop : stage.MayStop view) :
    stage.Ends (Run.declareInFull model)
      (fun _ later => later = view.emit (typeDeclaration model)) view := by
  rw [Run.declareInFull, if_pos hkind]
  exact ends_emit hstop

theorem ends_declareShell {model : TypeModel} (hkind : model.kind.isDeclaredInFull = false)
    (hstop : stage.MayStop view) :
    stage.Ends (Run.declareShell model)
      (fun _ later => later = view.emit (typeDeclaration model)) view := by
  rw [Run.declareShell, if_neg (Bool.not_eq_true _ ▸ hkind)]
  exact ends_emit hstop

theorem run_translator_bind (next : Translator → Run β) (session : Session) :
    (Run.translator >>= next).run.run session = (next session.translator).run.run session :=
  rfl

/-- A request for an indexed type on the stage comes to a model. -/
theorem Carries.exists_requestDefinition {session : Session} (h : stage.Carries session)
    (hindexed : stage.program.graph.Indexes definition) :
    ∃ cache model, session.translator.store.requestDefinition definition =
        ({ session.translator.store with cache }, some model) ∧
      stage.program.Orderly cache ∧ stage.Models definition model := by
  obtain ⟨hprogram, -, -, -, horderly⟩ := h
  rw [← hprogram] at horderly hindexed
  obtain ⟨cache, model, hrequest, hafter, hfaithful, hmodel⟩ :=
    Store.exists_requestDefinition horderly hindexed
  refine ⟨cache, model, hrequest, hprogram ▸ hafter, hprogram ▸ hfaithful, ?_⟩
  rw [← hprogram]
  exact hmodel

/-- The model of an indexed type is always at hand. -/
theorem ends_model {next : TypeModel → Run β} {after : β → View → Prop}
    (hindexed : stage.program.graph.Indexes definition)
    (h : ∀ model, stage.Models definition model → stage.Ends (next model) after view) :
    stage.Ends (Run.model definition >>= next) after view := by
  have hmodel : stage.Ends (Run.model definition)
      (fun model later => later = view ∧ stage.Models definition model) view := by
    rintro session hcarries rfl
    obtain ⟨cache, model, hrequest, hafter, hmodels⟩ := hcarries.exists_requestDefinition hindexed
    have hrun : (Run.model definition).run.run session =
        (.ok model, { session with
          translator := { session.translator with
            store := { session.translator.store with cache } } }) := by
      rw [Run.model, run_translator_bind, hrequest]
      rfl
    rw [hrun]
    exact ⟨⟨hcarries.program_eq, hcarries.sink_eq, hcarries.decompile_eq, hcarries.pipeline_eq,
      hafter⟩, rfl, hmodels⟩
  refine hmodel.bind ?_
  rintro model later ⟨hlater, hmodels⟩
  rw [hlater]
  exact h model hmodels

/-- Item by item, with what holds once some of them are done. -/
theorem ends_forM {items : List α} {step : α → Run PUnit} (done : List α → View → Prop)
    (hstart : done [] view)
    (hstep : ∀ before item after later, items = before ++ item :: after → done before later →
      stage.Ends (step item) (fun _ => done (before ++ [item])) later) :
    stage.Ends (items.forM step) (fun _ => done items) view := by
  have hrest : ∀ rest before later, items = before ++ rest → done before later →
      stage.Ends (rest.forM step) (fun _ => done items) later := by
    intro rest
    induction rest with
    | nil =>
      rintro before later rfl hbefore
      rw [List.append_nil] at *
      exact ends_pure hbefore
    | cons item rest ih =>
      intro before later hitems hbefore
      refine (hstep before item rest later hitems hbefore).bind ?_
      intro _ last hlast
      exact ih (before ++ [item]) last (by rw [hitems, List.append_assoc]; rfl) hlast
  exact hrest items [] view rfl hstart

/-- A loop with a body that always goes on, with what holds once some items are done. -/
theorem ends_forIn_done {items : List α} {body : α → PUnit → Run (ForInStep PUnit)}
    (done : List α → View → Prop) (hstart : done [] view)
    (hbody : ∀ before item after later, items = before ++ item :: after → done before later →
      stage.Ends (body item ⟨⟩) (fun turn last => turn = .yield ⟨⟩ ∧ done (before ++ [item]) last)
        later) :
    stage.Ends (forIn items ⟨⟩ body) (fun _ => done items) view := by
  have hrest : ∀ rest before later, items = before ++ rest → done before later →
      stage.Ends (forIn rest ⟨⟩ body) (fun _ => done items) later := by
    intro rest
    induction rest with
    | nil =>
      rintro before later rfl hbefore
      rw [List.append_nil] at *
      exact ends_pure hbefore
    | cons item rest ih =>
      intro before later hitems hbefore
      rw [List.forIn_cons]
      refine (hbody before item rest later hitems hbefore).bind ?_
      rintro turn last ⟨rfl, hlast⟩
      exact ih (before ++ [item]) last (by rw [hitems, List.append_assoc]; rfl) hlast
  exact hrest items [] view rfl hstart

/-- A loop with a body that always goes on and keeps what holds. -/
theorem ends_forIn {items : List α} {body : α → PUnit → Run (ForInStep PUnit)}
    (kept : View → Prop) (hstart : kept view)
    (hbody : ∀ item ∈ items, ∀ later, kept later →
      stage.Ends (body item ⟨⟩) (fun turn last => turn = .yield ⟨⟩ ∧ kept last) later) :
    stage.Ends (forIn items ⟨⟩ body) (fun _ => kept) view := by
  refine ends_forIn_done (fun _ => kept) hstart ?_
  rintro before item after later rfl hlater
  exact hbody item (List.mem_append_right before List.mem_cons_self) later hlater

end Stage

end Assemblage.Script
