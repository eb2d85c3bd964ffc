import Assemblage.Proofs.Script.Passages

/-!
# Steps that add the same everywhere

While an assembly is translated, a run looks on record for nothing but the types of
that assembly and the namespaces.  So wherever it stands, it brings the same types on
record, reports the same and declares the same, except that a namespace which is on
record already is not declared again.
-/

namespace Assemblage.Script

open Comparison.Kept (details)

/-- Declarations other than those of namespaces. -/
def withoutNamespaces (declarations : List Declaration) : List Declaration :=
  declarations.filter (·.namespace?.isNone)

/-- What a step adds to a view: the types that come on record, the last one first, the
namespaces that are on record afterwards, and what is declared besides. -/
structure Turn where
  declared : List TypeId := []
  namespaces : List String := []
  output : List Declaration := []
  reports : List Diagnostic := []

namespace Turn

def append (turn next : Turn) : Turn where
  declared := next.declared ++ turn.declared
  namespaces := turn.namespaces ++ next.namespaces
  output := turn.output ++ next.output
  reports := turn.reports ++ next.reports

instance : Append Turn :=
  ⟨append⟩

end Turn

namespace View

/-- Between the two views one turn has been taken. -/
structure Takes (turn : Turn) (view later : View) : Prop where
  declared_eq : later.declared = turn.declared ++ view.declared
  mem_namespaces_iff : ∀ path,
    path ∈ later.namespaces ↔ path ∈ turn.namespaces ∨ path ∈ view.namespaces
  adds : ∃ added, later.output = view.output ++ added ∧ withoutNamespaces added = turn.output
  reports_eq : later.reports = view.reports ++ turn.reports
  begun_eq : later.begun = view.begun
  spaced : view.Spaced → later.Spaced

/-- The types of the assembly that are on record are those that are known to be. -/
def Knows (assembly : AssemblyDef) (known : List TypeId) (view : View) : Prop :=
  ∀ own ∈ assembly.allTypes, own.typeId ∈ view.declared ↔ own.typeId ∈ known

variable {view later last : View} {turn next : Turn} {assembly : AssemblyDef}
  {known : List TypeId}

theorem takes_refl (view : View) : view.Takes {} view where
  declared_eq := rfl
  mem_namespaces_iff path := by simp
  adds := ⟨[], (List.append_nil _).symm, rfl⟩
  reports_eq := (List.append_nil _).symm
  begun_eq := rfl
  spaced := id

theorem Takes.trans (h : view.Takes turn later) (hnext : later.Takes next last) :
    view.Takes (turn ++ next) last where
  declared_eq := by
    rw [hnext.declared_eq, h.declared_eq, ← List.append_assoc]
    rfl
  mem_namespaces_iff path := by
    rw [hnext.mem_namespaces_iff, h.mem_namespaces_iff, ← or_assoc,
      @or_comm (path ∈ next.namespaces), ← List.mem_append]
    rfl
  adds := by
    obtain ⟨before, hbefore, hturn⟩ := h.adds
    obtain ⟨after, hafter, hnext⟩ := hnext.adds
    refine ⟨before ++ after, by rw [hafter, hbefore, List.append_assoc], ?_⟩
    rw [withoutNamespaces, List.filter_append]
    exact congr (congrArg _ hturn) hnext
  reports_eq := by
    rw [hnext.reports_eq, h.reports_eq, List.append_assoc]
    rfl
  begun_eq := hnext.begun_eq.trans h.begun_eq
  spaced hview := hnext.spaced (h.spaced hview)

theorem takes_mark (view : View) (id : TypeId) :
    view.Takes { declared := [id] } (view.mark id) where
  declared_eq := rfl
  mem_namespaces_iff := view.takes_refl.mem_namespaces_iff
  adds := view.takes_refl.adds
  reports_eq := view.takes_refl.reports_eq
  begun_eq := rfl
  spaced h := ⟨h.declared_eq, h.nodup⟩

theorem takes_emit (view : View) {declaration : Declaration} (h : declaration.namespace? = none) :
    view.Takes { output := [declaration] } (view.emit declaration) where
  declared_eq := rfl
  mem_namespaces_iff := view.takes_refl.mem_namespaces_iff
  adds := ⟨[declaration], rfl, by simp [withoutNamespaces, h]⟩
  reports_eq := view.takes_refl.reports_eq
  begun_eq := rfl
  spaced hview := hview.append rfl rfl (by simpa using h)

theorem takes_report (view : View) (entry : Diagnostic) :
    view.Takes { reports := [entry] } (view.report entry) where
  declared_eq := rfl
  mem_namespaces_iff := view.takes_refl.mem_namespaces_iff
  adds := view.takes_refl.adds
  reports_eq := rfl
  begun_eq := rfl
  spaced h := ⟨h.declared_eq, h.nodup⟩

/-- The namespace of a type is on record afterwards, whether it has been before or not. -/
theorem takes_space (view : View) (definition : TypeDef) :
    view.Takes
      { namespaces := if definition.isNested || definition.space.isEmpty then []
          else [Identifier.escapePath definition.space] }
      (view.space definition) := by
  by_cases hplain : (definition.isNested || definition.space.isEmpty) = true
  · rw [space_eq_self (.inl hplain), if_pos hplain]
    exact view.takes_refl
  rw [if_neg hplain]
  by_cases hknown : view.namespaces.contains (Identifier.escapePath definition.space) = true
  · rw [space_eq_self (.inr hknown)]
    refine { view.takes_refl with mem_namespaces_iff := fun path => ?_ }
    rw [List.mem_singleton, iff_or_self]
    rintro rfl
    exact List.contains_iff_mem.1 hknown
  · have hspaced : view.Spaced → (view.space definition).Spaced := Spaced.space
    rw [space_eq_emit hplain hknown] at hspaced ⊢
    refine ⟨rfl, fun path => ?_, ⟨_, rfl, rfl⟩, view.takes_refl.reports_eq, rfl, hspaced⟩
    rw [List.mem_singleton]
    exact List.mem_cons

/-- What is known of an assembly grows by what a turn declares. -/
theorem Knows.takes (h : view.Knows assembly known) (hturn : view.Takes turn later) :
    later.Knows assembly (turn.declared ++ known) := by
  intro own hown
  rw [hturn.declared_eq, List.mem_append, List.mem_append, h own hown]

end View

/-! ## Steady steps -/

theorem Contract.Covers.mono {stage : Stage} {remaining : List TypeId} {view later : View}
    (h : Contract.Covers stage remaining view) (hdeclared : view.declared ⊆ later.declared) :
    Contract.Covers stage remaining later :=
  fun definition hindexed => (h definition hindexed).imp_right fun hmem => hdeclared hmem

namespace Stage

/-- Where exactly the known types of the assembly are on record, and every other type
is in reach, the step comes to the value and adds one and the same turn, in which no
types but those of the assembly come on record. -/
def Steady {α : Type} (stage : Stage) (assembly : AssemblyDef) (known : List TypeId)
    (step : List TypeId → Run α) (value : α) : Prop :=
  ∃ turn : Turn, turn.declared ⊆ assembly.allTypes.map (·.typeId) ∧
    ∀ remaining view, view.Knows assembly known → Contract.Covers stage remaining view →
      stage.Ends (step remaining) (fun result later => result = value ∧ view.Takes turn later) view

variable {α β : Type} {stage : Stage} {assembly : AssemblyDef} {known : List TypeId}
  {step : List TypeId → Run α} {value : α} {result : β}

theorem steady_pure : stage.Steady assembly known (fun _ => pure value) value :=
  ⟨{}, List.nil_subset _, fun _ view _ _ => ends_pure ⟨rfl, view.takes_refl⟩⟩

theorem Steady.bind {next : List TypeId → α → Run β} (h : stage.Steady assembly known step value)
    (hnext : ∀ later, known ⊆ later →
      stage.Steady assembly later (fun remaining => next remaining value) result) :
    stage.Steady assembly known (fun remaining => step remaining >>= next remaining) result := by
  obtain ⟨turn, hown, hturn⟩ := h
  obtain ⟨following, hfollows, hfollowing⟩ :=
    hnext (turn.declared ++ known) (List.subset_append_right _ _)
  refine ⟨turn ++ following, List.append_subset.2 ⟨hfollows, hown⟩, ?_⟩
  intro remaining view hknows hcovers
  refine (hturn remaining view hknows hcovers).bind ?_
  rintro found later ⟨hfound, hlater⟩
  rw [hfound]
  have hreached : Contract.Covers stage remaining later :=
    hcovers.mono (hlater.declared_eq ▸ List.subset_append_right _ _)
  refine (hfollowing remaining later (hknows.takes hlater) hreached).mono ?_
  rintro - last ⟨rfl, hlast⟩
  exact ⟨rfl, hlater.trans hlast⟩

theorem Steady.of_eq {other : List TypeId → Run α}
    (heq : ∀ remaining, step remaining = other remaining)
    (h : stage.Steady assembly known other value) : stage.Steady assembly known step value := by
  rwa [show step = other from funext heq]

/-- What follows a look at the translator may depend on what is known, and on the stage. -/
theorem steady_consult {next : List TypeId → Translator → Run α}
    (heq : ∀ remaining session, stage.Carries session → session.view.Knows assembly known →
      Contract.Covers stage remaining session.view →
      next remaining session.translator = step remaining)
    (h : stage.Steady assembly known step value) :
    stage.Steady assembly known (fun remaining => Run.translator >>= next remaining) value := by
  obtain ⟨turn, hown, hturn⟩ := h
  refine ⟨turn, hown, fun remaining view hknows hcovers => ends_consult ?_⟩
  rintro session hcarries rfl
  rw [heq remaining session hcarries hknows hcovers]
  exact hturn remaining session.view hknows hcovers

theorem steady_model {definition : TypeDef} {next : List TypeId → TypeModel → Run α}
    (honce : stage.program.graph.DefinesOnce) (hindexed : stage.program.graph.Indexes definition)
    (h : stage.Steady assembly known
      (fun remaining => next remaining (stage.program.modelOf definition)) value) :
    stage.Steady assembly known (fun remaining => Run.model definition >>= next remaining)
      value := by
  obtain ⟨turn, hown, hturn⟩ := h
  refine ⟨turn, hown, fun remaining view hknows hcovers => ends_model hindexed ?_⟩
  intro model hmodel
  rw [hmodel.eq_modelOf honce]
  exact hturn remaining view hknows hcovers

/-- A type of the assembly that comes on record is known from then on. -/
theorem Steady.mark {definition : TypeDef} {next : List TypeId → Run α}
    (hdefinition : definition ∈ assembly.allTypes)
    (h : stage.Steady assembly (definition.typeId :: known) next value) :
    stage.Steady assembly known
      (fun remaining => Run.markDeclared definition.typeId >>= fun _ => next remaining) value := by
  obtain ⟨turn, hown, hturn⟩ := h
  refine ⟨{ declared := [definition.typeId] } ++ turn, ?_, fun remaining view hknows hcovers => ?_⟩
  · exact List.append_subset.2
      ⟨hown, List.cons_subset.2 ⟨List.mem_map_of_mem hdefinition, List.nil_subset _⟩⟩
  · refine ends_markDeclared.bind ?_
    rintro - marked rfl
    have hmarked := view.takes_mark definition.typeId
    refine (hturn remaining _ (hknows.takes hmarked)
      (hcovers.mono (List.subset_cons_self _ _))).mono ?_
    rintro - later ⟨rfl, hlater⟩
    exact ⟨rfl, hmarked.trans hlater⟩

/-- A type that is on record need not be in reach. -/
theorem Steady.without {definition : TypeDef} (h : stage.Steady assembly known step value)
    (hdefinition : definition ∈ assembly.allTypes) (hknown : definition.typeId ∈ known) :
    stage.Steady assembly known
      (fun remaining => step (Run.idsWithout definition.typeId remaining)) value := by
  obtain ⟨turn, hown, hturn⟩ := h
  refine ⟨turn, hown, fun remaining view hknows hcovers => hturn _ view hknows ?_⟩
  refine hcovers.without (List.cons_subset.2 ⟨?_, List.Subset.refl _⟩)
  exact (hknows definition hdefinition).2 hknown

theorem steady_emit (hstop : ∀ view, stage.MayStop view) {declaration : Declaration}
    (h : declaration.namespace? = none) :
    stage.Steady assembly known (fun _ => Run.emit declaration) () := by
  refine ⟨{ output := [declaration] }, List.nil_subset _, fun _ view _ _ => ?_⟩
  refine (ends_emit (hstop view)).mono ?_
  rintro - later rfl
  exact ⟨rfl, view.takes_emit h⟩

theorem steady_report (entry : Diagnostic) :
    stage.Steady assembly known (fun _ => Run.report entry) () := by
  refine ⟨{ reports := [entry] }, List.nil_subset _, fun _ view _ _ => ?_⟩
  refine ends_report.mono ?_
  rintro - later rfl
  exact ⟨rfl, view.takes_report entry⟩

theorem steady_declareNamespace (hstop : ∀ view, stage.MayStop view) (definition : TypeDef) :
    stage.Steady assembly known (fun _ => Run.declareNamespace definition) () := by
  refine ⟨{ namespaces := if definition.isNested || definition.space.isEmpty then []
    else [Identifier.escapePath definition.space] }, List.nil_subset _, fun _ view _ _ => ?_⟩
  refine (ends_declareNamespace (hstop view)).mono ?_
  rintro - later rfl
  exact ⟨rfl, view.takes_space definition⟩

theorem steady_forM {items : List β} {step : List TypeId → β → Run PUnit}
    (h : ∀ item ∈ items, ∀ later, known ⊆ later →
      stage.Steady assembly later (fun remaining => step remaining item) ⟨⟩) :
    stage.Steady assembly known (fun remaining => items.forM (step remaining)) ⟨⟩ := by
  induction items generalizing known with
  | nil => exact steady_pure
  | cons item rest ih =>
    refine (h item List.mem_cons_self known (List.Subset.refl _)).bind fun later hlater => ?_
    exact ih fun other hother last hlast =>
      h other (List.mem_cons_of_mem item hother) last (List.Subset.trans hlater hlast)

/-- A loop with a body that always goes on. -/
theorem steady_forIn {items : List β} {body : List TypeId → β → PUnit → Run (ForInStep PUnit)}
    (h : ∀ item ∈ items, ∀ later, known ⊆ later →
      stage.Steady assembly later (fun remaining => body remaining item ⟨⟩) (.yield ⟨⟩)) :
    stage.Steady assembly known (fun remaining => forIn items ⟨⟩ (body remaining)) ⟨⟩ := by
  induction items generalizing known with
  | nil => exact steady_pure
  | cons item rest ih =>
    refine .of_eq (fun remaining => List.forIn_cons ..) ?_
    refine (h item List.mem_cons_self known (List.Subset.refl _)).bind fun later hlater => ?_
    exact ih fun other hother last hlast =>
      h other (List.mem_cons_of_mem item hother) last (List.Subset.trans hlater hlast)

theorem steady_declareInFull (hstop : ∀ view, stage.MayStop view) {model : TypeModel}
    (hkind : model.kind.isDeclaredInFull = true) :
    stage.Steady assembly known (fun _ => Run.declareInFull model) () := by
  refine .of_eq (fun _ => if_pos hkind) ?_
  exact steady_emit hstop (namespace?_typeDeclaration model)

theorem steady_declareShell (hstop : ∀ view, stage.MayStop view) {model : TypeModel}
    (hkind : model.kind.isDeclaredInFull = false) :
    stage.Steady assembly known (fun _ => Run.declareShell model) () := by
  refine .of_eq (fun _ => if_neg (Bool.not_eq_true _ ▸ hkind)) ?_
  exact steady_emit hstop (namespace?_typeDeclaration model)

/-- For the session a type of the assembly has been declared if that is known. -/
theorem isDeclared_eq {session : Session} (hknows : session.view.Knows assembly known)
    {definition : TypeDef} (hdefinition : definition ∈ assembly.allTypes) :
    session.translator.isDeclared definition.typeId = known.contains definition.typeId := by
  rw [Translator.isDeclared, Bool.eq_iff_iff, List.contains_iff_mem, List.contains_iff_mem]
  exact hknows definition hdefinition

theorem steady_declareBase {definition : TypeDef}
    {declare : List TypeId → TypeDef → Run Unit}
    (hown : ∀ base, Run.ownBase? stage.program.graph definition = some base →
      base ∈ assembly.allTypes)
    (hdeclare : ∀ base ∈ assembly.allTypes,
      stage.Steady assembly known (fun remaining => declare remaining base) ())
    (pending : List TypeId) :
    stage.Steady assembly known
      (fun remaining => Run.declareBase stage.program.graph pending (declare remaining) definition)
      () := by
  unfold Run.declareBase
  cases hbase : Run.ownBase? stage.program.graph definition with
  | none => exact steady_pure
  | some base =>
    dsimp only
    split
    · exact steady_report _
    · have hmem := hown base hbase
      apply steady_consult
      · intro _ session _ hknows _
        rw [isDeclared_eq hknows hmem]
      split
      · exact hdeclare base hmem
      · exact steady_pure

/-- The types of the assembly that are not known to be on record. -/
def unknown (assembly : AssemblyDef) (known : List TypeId) : List TypeDef :=
  assembly.allTypes.filter (!known.contains ·.typeId)

/-- A type that is declared for the first time leaves fewer types unknown. -/
theorem length_unknown_lt {definition : TypeDef} {later : List TypeId}
    (hdefinition : definition ∈ assembly.allTypes) (hnew : definition.typeId ∉ known)
    (hlater : definition.typeId :: known ⊆ later) :
    (unknown assembly later).length < (unknown assembly known).length := by
  have hrest : unknown assembly later =
      (unknown assembly known).filter (!later.contains ·.typeId) := by
    rw [unknown, unknown, List.filter_filter]
    refine List.filter_congr fun own _ => ?_
    have himp : own.typeId ∈ known → own.typeId ∈ later :=
      fun hmem => hlater (List.mem_cons_of_mem _ hmem)
    by_cases hmem : own.typeId ∈ later
    · simp [hmem]
    · simp [hmem, mt himp hmem]
  rw [hrest, List.length_filter_lt_length_iff_exists]
  refine ⟨definition, List.mem_filter.2 ⟨hdefinition, by simpa using hnew⟩, ?_⟩
  simpa using hlater List.mem_cons_self

/-- The declaration of a type takes the same turn whatever other assemblies declared before. -/
theorem steady_declare (hstop : ∀ view, stage.MayStop view)
    (hgraph : stage.program.graph.WellFormed) (hapart : stage.program.graph.AssembliesApart)
    (honce : stage.program.graph.DefinesOnce)
    (hassembly : assembly ∈ stage.program.graph.assemblies) {definition : TypeDef}
    (hdefinition : definition ∈ assembly.allTypes) (waiting : List TypeId) :
    stage.Steady assembly known
      (fun remaining => Run.declare stage.program.graph remaining waiting definition) () := by
  induction hlength : (unknown assembly known).length using Nat.strongRecOn
    generalizing known waiting definition with
  | ind length ih =>
  subst hlength
  have hindexed : stage.program.graph.Indexes definition :=
    hgraph.indexes_iff.2 ⟨assembly, hassembly, hdefinition⟩
  refine .of_eq (fun remaining => Run.declare.eq_def ..) ?_
  refine steady_model honce hindexed ?_
  let model := stage.program.modelOf definition
  by_cases hdone : (model.ignored || known.contains definition.typeId) = true
  · refine steady_consult (fun _ session _ hknows _ => (if_pos ?_ : _ = pure ())) steady_pure
    rw [isDeclared_eq hknows hdefinition]
    exact hdone
  have hnew : definition.typeId ∉ known := by
    rw [Bool.or_eq_true, List.contains_iff_mem, not_or] at hdone
    exact hdone.2
  refine steady_consult
    (fun remaining session _ hknows hcovers => (if_neg ?_).trans (dif_pos ?_)) ?_
  · rw [isDeclared_eq hknows hdefinition]
    exact hdone
  · refine (hcovers definition hindexed).resolve_right fun hmem => hnew ?_
    exact (hknows definition hdefinition).1 hmem
  refine .mark hdefinition ?_
  refine (steady_declareNamespace hstop definition).bind fun opened hopened => ?_
  -- Whatever is declared next, one type more is known.
  have hnext : ∀ later, opened ⊆ later → ∀ inner ∈ assembly.allTypes, ∀ waiting,
      stage.Steady assembly later (fun remaining => Run.declare stage.program.graph
        (Run.idsWithout definition.typeId remaining) waiting inner) () := by
    intro later hlater inner hinner waiting
    have hknown : definition.typeId :: known ⊆ later := List.Subset.trans hopened hlater
    exact (ih _ (length_unknown_lt hdefinition hnew hknown) hinner waiting rfl).without hdefinition
      (hknown List.mem_cons_self)
  have hnested : ∀ later, opened ⊆ later → stage.Steady assembly later
      (fun remaining => definition.nested.forM fun inner => Run.declare stage.program.graph
        (Run.idsWithout definition.typeId remaining) waiting inner) () := by
    intro later hlater
    refine steady_forM fun inner hinner last hlast => ?_
    exact hnext last (List.Subset.trans hlater hlast) inner
      (AssemblyDef.mem_allTypes_of_nested hdefinition hinner) waiting
  cases hkind : model.kind.isDeclaredInFull with
  | true =>
    refine .of_eq (fun _ => if_pos rfl) ?_
    exact (steady_declareInFull hstop hkind).bind fun later hlater => hnested later hlater
  | false =>
    refine .of_eq (fun _ => if_neg Bool.false_ne_true) ?_
    have hbase := steady_declareBase
      (fun _ => Run.mem_allTypes_of_ownBase? hapart hgraph hassembly hdefinition)
      (fun base hbase =>
        hnext opened (List.Subset.refl _) base hbase (definition.typeId :: waiting))
      (definition.typeId :: waiting)
    refine hbase.bind fun based hbased => ?_
    refine (steady_declareShell hstop hkind).bind fun later hlater => ?_
    rw [Program.definition_modelOf]
    exact hnested later (List.Subset.trans hbased hlater)

/-- Everything is in reach of a type that is asked for. -/
theorem steady_declareType (hstop : ∀ view, stage.MayStop view)
    (hgraph : stage.program.graph.WellFormed) (hapart : stage.program.graph.AssembliesApart)
    (honce : stage.program.graph.DefinesOnce)
    (hassembly : assembly ∈ stage.program.graph.assemblies) {definition : TypeDef}
    (hdefinition : definition ∈ assembly.allTypes) :
    stage.Steady assembly known (fun _ => Run.declareType definition) () := by
  obtain ⟨turn, hown, hturn⟩ :=
    steady_declare hstop hgraph hapart honce hassembly hdefinition []
  refine ⟨turn, hown, fun _ view hknows _ => ends_consult ?_⟩
  rintro session hcarries rfl
  dsimp only
  rw [hcarries.graph_eq]
  exact hturn _ session.view hknows (Contract.covers_reachable hcarries)

theorem steady_throw (hstop : ∀ view, stage.MayStop view) {error : Error}
    (hfails : ¬stage.Unfailing) :
    stage.Steady assembly known (fun _ => throw error) value :=
  ⟨{}, List.nil_subset _, fun _ view _ _ => ends_throw ((hstop view).resolve_left hfails)⟩

theorem steady_declareMethod (hstop : ∀ view, stage.MayStop view) {owner : Owner} {name : String}
    {declared : MethodDef} {result : Except Error Function}
    (hlocal : stage.Unfailing → ∀ error, result = .error error → error.isMethodLocal = true) :
    stage.Steady assembly known (fun _ => Run.declareMethod owner name declared result) () := by
  cases result with
  | ok function => exact steady_emit hstop rfl
  | error error =>
    unfold Run.declareMethod
    by_cases hown : error.isMethodLocal = true
    · refine .of_eq (fun _ => if_pos hown) ?_
      exact (steady_report _).bind fun _ _ => steady_emit hstop rfl
    · refine .of_eq (fun _ => if_neg hown) ?_
      exact steady_throw hstop fun hunfailing => hown (hlocal hunfailing error rfl)

theorem steady_translateMethod (hstop : ∀ view, stage.MayStop view)
    (honce : stage.program.graph.DefinesOnce) (model : TypeModel) (path : String)
    (initializers : Block) (member : Member) :
    stage.Steady assembly known (fun _ => Run.translateMethod model path initializers member)
      () := by
  refine .of_eq (fun _ => Run.translateMethod_eq ..) ?_
  cases member.definition.method? with
  | none => exact steady_pure
  | some declared =>
    dsimp only
    split
    · split
      · exact steady_emit hstop rfl
      · exact steady_pure
    split
    · apply steady_consult
      · intro _ session hcarries _ _
        rw [hcarries.function_eq honce]
      · exact steady_declareMethod hstop fun hunfailing error herror =>
          Translator.isMethodLocal_of_function_eq_error hunfailing.decompiles herror
    · exact steady_pure

theorem steady_translateStaticConstructor (hstop : ∀ view, stage.MayStop view)
    (honce : stage.program.graph.DefinesOnce) (model : TypeModel) (path : String) :
    stage.Steady assembly known (fun _ => Run.translateStaticConstructor model path) () := by
  unfold Run.translateStaticConstructor
  cases hfound : model.staticConstructor? with
  | none => exact steady_pure
  | some first =>
    obtain ⟨member, hmember⟩ := TypeModel.exists_staticConstructorMember hfound
    rw [hmember]
    dsimp only
    cases member.isIgnored with
    | true => exact steady_pure
    | false => exact steady_translateMethod hstop honce model path _ member

theorem steady_emitAll (hstop : ∀ view, stage.MayStop view) {declarations : List Declaration}
    (h : ∀ declaration ∈ declarations, declaration.namespace? = none) :
    stage.Steady assembly known (fun _ => Run.emitAll declarations) () :=
  steady_forM fun declaration hmem _ _ => steady_emit hstop (h declaration hmem)

section

variable (hstop : ∀ view, stage.MayStop view) (hgraph : stage.program.graph.WellFormed)
  (hapart : stage.program.graph.AssembliesApart) (honce : stage.program.graph.DefinesOnce)
  (hassembly : assembly ∈ stage.program.graph.assemblies)

include hstop hgraph hapart honce hassembly

/-- The types of parameters that are declared on the way are of the same assembly. -/
theorem steady_translateGroup {model : TypeModel}
    (hmodel : model.definition ∈ assembly.allTypes) (path : String) (group : MethodGroup) :
    stage.Steady assembly known (fun _ => Run.translateGroup model path group) () := by
  unfold Run.translateGroup
  apply steady_consult
  · intro _ session hcarries _ _
    rw [hcarries.graph_eq]
  refine Steady.bind (steady_forIn fun parameter hparameter later _ => ?_)
    fun _ _ => steady_emit hstop rfl
  obtain ⟨hindexed, hmodule⟩ := Contract.indexes_of_mem_parameterTypes hparameter
  have hown : parameter ∈ assembly.allTypes :=
    hapart.mem_allTypes_of_sameAssembly hgraph hassembly hmodel hindexed
      (Bool.and_eq_true_iff.1 hmodule).1
  apply steady_consult
  · intro _ session _ hknows _
    rw [isDeclared_eq hknows hown]
  split
  · exact (steady_declareType hstop hgraph hapart honce hassembly hown).bind
      fun _ _ => steady_pure
  · exact steady_pure

/-- The members of a type of the assembly take the same turn. -/
theorem steady_translateMembers {model : TypeModel}
    (hmodel : model.definition ∈ assembly.allTypes) :
    stage.Steady assembly known (fun _ => Run.translateMembers model) () := by
  unfold Run.translateMembers
  refine Steady.bind (steady_forIn fun member _ later _ => ?_) fun methods _ => ?_
  · split
    · exact (steady_translateMethod hstop honce model _ [] member).bind fun _ _ => steady_pure
    · exact steady_pure
  refine Steady.bind (steady_forIn fun group _ later _ => ?_) fun groups _ => ?_
  · exact (steady_translateGroup hstop hgraph hapart honce hassembly hmodel _ group).bind
      fun _ _ => steady_pure
  let path := model.definition.location.path
  apply steady_consult
  · intro _ session hcarries _ _
    have hdetails := hcarries.details_eq honce path model
    rw [details] at hdetails
    dsimp only
    rw [hdetails]
  refine Steady.bind (steady_emitAll hstop fun declaration hmem => ?_) fun last _ => ?_
  · refine Declaration.namespace?_of_phase ?_
    rw [phase_of_mem_tail hmem]
    decide
  · exact steady_translateStaticConstructor hstop honce model path

end

/-- A walk over types of the assembly is steady if what is done at each type is. -/
theorem steady_walk (hgraph : stage.program.graph.WellFormed)
    (honce : stage.program.graph.DefinesOnce)
    (hassembly : assembly ∈ stage.program.graph.assemblies) {enter leave : TypeModel → Run Unit}
    (henter : ∀ inside ∈ assembly.allTypes, ∀ later,
      stage.Steady assembly later (fun _ => enter (stage.program.modelOf inside)) ())
    (hleave : ∀ inside ∈ assembly.allTypes, ∀ later,
      stage.Steady assembly later (fun _ => leave (stage.program.modelOf inside)) ())
    {definition : TypeDef} (hdefinition : definition ∈ assembly.allTypes) :
    stage.Steady assembly known (fun _ => Run.walk enter leave definition) () := by
  induction definition using TypeDef.induction_nested generalizing known with
  | step definition ih =>
  refine .of_eq (fun _ => Run.walk_eq enter leave definition) ?_
  refine steady_model honce (hgraph.indexes_iff.2 ⟨assembly, hassembly, hdefinition⟩) ?_
  split
  · exact steady_pure
  refine (henter definition hdefinition known).bind fun entered _ => ?_
  refine Steady.bind (steady_forM fun inner hinner later _ => ?_) fun later _ =>
    hleave definition hdefinition later
  exact ih inner hinner (AssemblyDef.mem_allTypes_of_nested hdefinition hinner)

/-- A walk over the types of an assembly is steady if its steps are. -/
theorem steady_walkAll (hgraph : stage.program.graph.WellFormed)
    (honce : stage.program.graph.DefinesOnce)
    (hassembly : assembly ∈ stage.program.graph.assemblies) {enter leave : TypeModel → Run Unit}
    (henter : ∀ inside ∈ assembly.allTypes, ∀ later,
      stage.Steady assembly later (fun _ => enter (stage.program.modelOf inside)) ())
    (hleave : ∀ inside ∈ assembly.allTypes, ∀ later,
      stage.Steady assembly later (fun _ => leave (stage.program.modelOf inside)) ())
    {types : List TypeDef} (htypes : types ⊆ assembly.allTypes) :
    stage.Steady assembly known (fun _ => Run.walkAll enter leave types) () := by
  refine .of_eq (fun _ => Run.walkAll_eq_forM enter leave types) ?_
  refine steady_forM fun top htop later _ => ?_
  exact steady_walk hgraph honce hassembly henter hleave (htypes htop)

/-- All that is done for an assembly at its first turn. -/
theorem steady_walks (hstop : ∀ view, stage.MayStop view)
    (hgraph : stage.program.graph.WellFormed) (hapart : stage.program.graph.AssembliesApart)
    (honce : stage.program.graph.DefinesOnce)
    (hassembly : assembly ∈ stage.program.graph.assemblies) :
    stage.Steady assembly known
      (fun _ => do
        (Run.roots assembly).forM Run.declareType
        Run.walkAll Run.translateType (fun _ => pure ()) (Run.roots assembly)
        Run.walkAll (fun _ => pure ()) Run.sealType (Run.roots assembly))
      () := by
  have hroots : Run.roots assembly ⊆ assembly.allTypes := fun top htop =>
    Run.mem_allTypes_of_mem_roots (Run.mem_withNestedAll_of_mem htop)
  refine Steady.bind (steady_forM fun top htop _ _ =>
    steady_declareType hstop hgraph hapart honce hassembly (hroots htop)) fun declared _ => ?_
  refine Steady.bind (steady_walkAll hgraph honce hassembly
    (fun inside hinside later => ?_) (fun _ _ _ => steady_pure) hroots) fun translated _ => ?_
  · unfold Run.translateType
    split
    · refine steady_translateMembers hstop hgraph hapart honce hassembly ?_
      rwa [Program.definition_modelOf]
    · exact steady_pure
  · refine steady_walkAll hgraph honce hassembly (fun _ _ _ => steady_pure)
      (fun inside _ later => ?_) hroots
    unfold Run.sealType
    split
    · exact steady_emit hstop rfl
    · exact steady_pure

end Stage

end Assemblage.Script
