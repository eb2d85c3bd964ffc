import Assemblage.Proofs.Script.Ledger

/-!
# The walks over an assembly

The first walk outlines an assembly: it only declares namespaces and types, and
only types of that assembly.  When the second fills them in, every type that a
parameter could still ask for is settled, so nothing but members is declared.
The third seals types, each after those nested in it.
-/

namespace Assemblage.Script

theorem Declaration.namespace?_of_phase {declaration : Declaration}
    (h : declaration.phase ≠ .outline) : declaration.namespace? = none := by
  cases declaration with
  | namespaceObject => exact absurd rfl h
  | _ => rfl

theorem phase_typeDeclaration (model : TypeModel) : (typeDeclaration model).phase = .outline := by
  rw [typeDeclaration]
  cases model.kind <;> rfl

theorem namespace?_typeDeclaration (model : TypeModel) :
    (typeDeclaration model).namespace? = none := by
  rw [typeDeclaration]
  cases model.kind <;> rfl

namespace View

/-- Between the two views nothing but declarations of one phase has been taken. -/
def Adds (phase : Phase) (view later : View) : Prop :=
  ∃ added, later.output = view.output ++ added ∧ ∀ declaration ∈ added, declaration.phase = phase

/-- With more declarations. -/
def emitAll (view : View) (declarations : List Declaration) : View :=
  { view with output := view.output ++ declarations }

variable {phase : Phase} {view later : View} {definition : TypeDef}

theorem adds_of_output (h : later.output = view.output) : view.Adds phase later :=
  ⟨[], by rw [h, List.append_nil], by simp⟩

theorem Adds.emit (h : view.Adds phase later) {declaration : Declaration}
    (hphase : declaration.phase = phase) : view.Adds phase (later.emit declaration) := by
  obtain ⟨added, houtput, hadded⟩ := h
  refine ⟨added ++ [declaration], ?_, ?_⟩
  · rw [View.emit, houtput, List.append_assoc]
  · intro other hother
    rcases List.mem_append.1 hother with hold | hnew
    · exact hadded other hold
    · rw [List.mem_singleton.1 hnew, hphase]

theorem Adds.space (h : view.Adds .outline later) :
    view.Adds .outline (later.space definition) := by
  rcases later.space_cases definition with ⟨-, heq⟩ | ⟨-, heq⟩
  · rwa [heq]
  · rw [heq]
    exact Adds.emit h rfl

/-- The namespaces on record are those that have been declared, each once. -/
structure Spaced (view : View) : Prop where
  declared_eq : view.output.filterMap Declaration.namespace? = view.namespaces.reverse
  nodup : view.namespaces.Nodup

theorem spaced_empty (hnamespaces : view.namespaces = []) (houtput : view.output = []) :
    view.Spaced where
  declared_eq := by rw [hnamespaces, houtput]; rfl
  nodup := by rw [hnamespaces]; exact .nil

/-- A namespace is emitted exactly if it is noted. -/
theorem Spaced.mem_iff (h : view.Spaced) (path : String) :
    .namespaceObject path ∈ view.output ↔ path ∈ view.namespaces := by
  have hrecord : path ∈ view.namespaces ↔ path ∈ view.output.filterMap Declaration.namespace? := by
    rw [h.declared_eq, List.mem_reverse]
  rw [hrecord, List.mem_filterMap]
  constructor
  · exact fun hmem => ⟨_, hmem, rfl⟩
  · rintro ⟨declaration, hmem, hspace⟩
    cases declaration with
    | namespaceObject other =>
      obtain rfl := Option.some.inj hspace
      exact hmem
    | _ => cases hspace

/-- Declarations of other things leave the namespaces in order. -/
theorem Spaced.append (h : view.Spaced) {added : List Declaration}
    (hnamespaces : later.namespaces = view.namespaces)
    (houtput : later.output = view.output ++ added)
    (hother : ∀ declaration ∈ added, declaration.namespace? = none) : later.Spaced where
  declared_eq := by
    rw [houtput, hnamespaces, List.filterMap_append, List.filterMap_eq_nil_iff.2 hother,
      List.append_nil, h.declared_eq]
  nodup := hnamespaces ▸ h.nodup

/-- Declaring a namespace keeps the notes in step with the output. -/
theorem Spaced.space (h : view.Spaced) : (view.space definition).Spaced := by
  rcases view.space_cases definition with ⟨-, heq⟩ | ⟨hnew, heq⟩
  · rwa [heq]
  · rw [heq]
    refine ⟨?_, List.nodup_cons.2 ⟨hnew, h.nodup⟩⟩
    change (view.output ++ [_]).filterMap Declaration.namespace? = (_ :: view.namespaces).reverse
    rw [List.filterMap_append, h.declared_eq, List.reverse_cons]
    rfl

end View

/-- Declarations of other things leave the ledger in order. -/
theorem Ledger.append {waiting : List TypeId} {view later : View} (h : Ledger waiting view)
    {added : List Declaration} (hdeclared : later.declared = view.declared)
    (houtput : later.output = view.output ++ added)
    (hother : ∀ declaration ∈ added, declaration.declaredType? = none) : Ledger waiting later where
  balanced := by
    have hmade : later.made = view.made := by
      rw [View.made, houtput, List.filterMap_append, List.filterMap_eq_nil_iff.2 hother,
        List.append_nil]
      rfl
    rw [hmade, hdeclared]
    exact h.balanced
  nodup := hdeclared ▸ h.nodup

section

variable {stage : Stage} {assembly : AssemblyDef} {start later : View}

/-! ## The first walk -/

/-- What holds while an assembly is outlined: the types that come on record are its
own, and none that is ignored. -/
structure Outlining (program : Program) (assembly : AssemblyDef) (start : View)
    (waiting : List TypeId) (view : View) : Prop where
  ledger : Ledger waiting view
  spaced : view.Spaced
  adds : start.Adds .outline view
  own : ∀ id ∈ view.declared, id ∈ start.declared ∨ ∃ definition ∈ assembly.allTypes,
    program.ignoresDefinition definition = false ∧ definition.typeId = id

def Contract.outlining (program : Program) (assembly : AssemblyDef) (start : View) : Contract where
  holds := Outlining program assembly start
  admits _ definition _ := definition ∈ assembly.allTypes

/-- The declaration of types keeps the account of the outline. -/
theorem Contract.outlining_kept (hstop : ∀ view, stage.MayStop view)
    (hgraph : stage.program.graph.WellFormed) (hapart : stage.program.graph.NamesApart)
    (honce : stage.program.graph.DefinesOnce)
    (hassembly : assembly ∈ stage.program.graph.assemblies) :
    (outlining stage.program assembly start).Kept stage where
  mayStop _ := hstop _
  opens {_ view definition _} h hadmits _ hmodel hignored hnew := by
    rw [hmodel.eq_modelOf honce] at hignored
    refine ⟨h.ledger.opens hnew, ?_, ?_, ?_⟩
    · exact View.Spaced.space ⟨h.spaced.declared_eq, h.spaced.nodup⟩
    · exact View.Adds.space h.adds
    · rw [(View.space_records (view.mark definition.typeId) definition).1]
      intro id hid
      rcases List.mem_cons.1 hid with rfl | hold
      · exact .inr ⟨definition, hadmits, hignored, rfl⟩
      · exact h.own id hold
  closes {_ _ _ _ model} _ h hmodel _ _ := by
    refine ⟨h.ledger.closes hmodel.faithful.typeId_eq, h.spaced.append rfl rfl ?_,
      h.adds.emit (phase_typeDeclaration model), h.own⟩
    intro declaration hdeclaration
    rw [List.mem_singleton.1 hdeclaration, namespace?_typeDeclaration]
  cycles _ h _ _ :=
    ⟨⟨h.ledger.balanced, h.ledger.nodup⟩, ⟨h.spaced.declared_eq, h.spaced.nodup⟩, h.adds, h.own⟩
  bases hadmits _ hbase _ :=
    Run.mem_allTypes_of_ownBase? hapart.assembliesApart hgraph hassembly hadmits hbase
  nested hadmits _ _ hmodel hinner := by
    rw [hmodel.eq_modelOf honce] at hinner
    exact AssemblyDef.mem_allTypes_of_nested hadmits (hinner.elim id id)

/-- Once an assembly is outlined, the types that have been declared for it are those
that are not ignored. -/
theorem Outlining.exists_outline {program : Program}
    (h : Outlining program assembly start [] later) (hstart : Ledger [] start)
    (hnodup : (assembly.allTypes.map (·.fullName)).Nodup)
    (hnew : ∀ definition ∈ assembly.allTypes, definition.typeId ∉ start.declared)
    (hall : ∀ definition ∈ assembly.allTypes, program.ignoresDefinition definition = false →
      definition.typeId ∈ later.declared) :
    ∃ outline, later.output = start.output ++ outline ∧
      (∀ declaration ∈ outline, declaration.phase = .outline) ∧
      (outline.filterMap Declaration.declaredType?).Perm
        ((assembly.allTypes.filter (!program.ignoresDefinition ·)).map (·.fullName)) := by
  obtain ⟨outline, houtput, hphase⟩ := h.adds
  refine ⟨outline, houtput, hphase, ?_⟩
  -- Nothing waits at either end, so the two ledgers differ by what the outline declares.
  have hmade : later.made =
      start.made ++ (outline.filterMap Declaration.declaredType?).map TypeId.ofFullName := by
    rw [View.made, houtput, List.filterMap_append, List.map_append]
    rfl
  have hbalanced : later.declared.Perm
      (start.declared ++ (outline.filterMap Declaration.declaredType?).map TypeId.ofFullName) := by
    refine h.ledger.balanced.trans ?_
    rw [List.append_nil, hmade]
    refine List.Perm.append_right _ ?_
    simpa using hstart.balanced.symm
  obtain ⟨-, hnames, hdisjoint⟩ := List.nodup_append'.1 (hbalanced.nodup_iff.1 h.ledger.nodup)
  have hids : ((outline.filterMap Declaration.declaredType?).map TypeId.ofFullName).Perm
      ((assembly.allTypes.filter (!program.ignoresDefinition ·)).map (·.typeId)) := by
    have htypes : (assembly.allTypes.map (·.typeId)).Nodup := by
      refine List.Nodup.of_map TypeId.fullName ?_
      rw [List.map_map]
      exact hnodup
    refine (List.perm_ext_iff_of_nodup hnames
      (htypes.sublist (List.Sublist.map _ List.filter_sublist))).2 fun id => ?_
    constructor
    · intro hid
      rcases h.own id (hbalanced.mem_iff.2 (List.mem_append_right _ hid)) with
        hold | ⟨definition, hmem, hignored, rfl⟩
      · exact absurd hid (hdisjoint hold)
      · exact List.mem_map_of_mem (List.mem_filter.2 ⟨hmem, by rw [hignored]; rfl⟩)
    · intro hid
      obtain ⟨definition, hdefinition, rfl⟩ := List.mem_map.1 hid
      obtain ⟨hmem, hignored⟩ := List.mem_filter.1 hdefinition
      have hrecord := hall definition hmem (Bool.not_eq_true' _ ▸ hignored)
      exact (List.mem_append.1 (hbalanced.mem_iff.1 hrecord)).resolve_left (hnew definition hmem)
  have hback : TypeId.fullName ∘ TypeId.ofFullName = id := rfl
  have hfullNames := hids.map TypeId.fullName
  rw [List.map_map, hback, List.map_id, List.map_map] at hfullNames
  exact hfullNames

/-- What holds while the types of an assembly are filled in. -/
structure Filling (start : View) (waiting : List TypeId) (view : View) : Prop where
  waiting_eq : waiting = []
  declared_eq : view.declared = start.declared
  namespaces_eq : view.namespaces = start.namespaces
  adds : start.Adds .members view
  reports : ∃ added, view.reports = start.reports ++ added ∧
    ∀ entry ∈ added, entry.category = .method

theorem filling_self (start : View) : Filling start [] start :=
  ⟨rfl, rfl, rfl, View.adds_of_output rfl, [], (List.append_nil _).symm, by simp⟩

/-- Only types about which nothing is left to do come up. -/
def Contract.filling (stage : Stage) (start : View) : Contract where
  holds := Filling start
  admits _ definition _ := stage.program.graph.Indexes definition ∧ stage.Settled definition start

/-- What is declared after the outline is closed is no type. -/
theorem Contract.filling_kept (hstop : ∀ view, stage.MayStop view)
    (hgraph : stage.program.graph.WellFormed) (honce : stage.program.graph.DefinesOnce)
    (hclosed : stage.Closed start) :
    (filling stage start).Kept stage where
  mayStop _ := hstop _
  opens h hadmits _ hmodel hignored hnew := by
    rw [h.declared_eq] at hnew
    rw [hmodel.eq_modelOf honce] at hignored
    exact absurd (hadmits.2.mem_declared honce hadmits.1 hignored) hnew
  closes _ h _ _ _ := absurd h.waiting_eq (List.cons_ne_nil _ _)
  cycles _ h _ _ := absurd h.waiting_eq (List.cons_ne_nil _ _)
  bases _ h _ _ := absurd h.waiting_eq (List.cons_ne_nil _ _)
  nested hadmits h hrecord hmodel hinner := by
    rw [hmodel.eq_modelOf honce] at hinner
    have hinner := hinner.elim id id
    rw [h.declared_eq] at hrecord
    obtain ⟨found, hfound, hid, hnested⟩ := hclosed _ hrecord
    obtain rfl := honce.eq_of_typeId_eq hfound hadmits.1 hid
    exact ⟨hgraph.indexesNested _ hfound _ hinner, hnested _ hinner⟩

/-- The translation of members keeps to the phase of members. -/
theorem Contract.filling_keptInside (hgraph : stage.program.graph.WellFormed)
    (hapart : stage.program.graph.NamesApart) (honce : stage.program.graph.DefinesOnce)
    (hassembly : assembly ∈ stage.program.graph.assemblies) :
    (filling stage start).KeptInside stage (Run.roots assembly) where
  members h hphase :=
    ⟨h.waiting_eq, h.declared_eq, h.namespaces_eq, h.adds.emit hphase, h.reports⟩
  untranslated {_ method error} h := by
    obtain ⟨added, hreports, hadded⟩ := h.reports
    refine ⟨h.waiting_eq, h.declared_eq, h.namespaces_eq, h.adds,
      added ++ [Run.untranslated method error], ?_, ?_⟩
    · rw [View.report, hreports, List.append_assoc]
    · intro entry hentry
      rcases List.mem_append.1 hentry with hold | hnew
      · exact hadded entry hold
      · rw [List.mem_singleton.1 hnew]
        rfl
  parameters {_ _ _ _ parameter} h hmem hmodel _ hsettled _ hparameter := by
    rw [hmodel.eq_modelOf honce] at hparameter
    obtain ⟨hindexed, hmodule⟩ := indexes_of_mem_parameterTypes hparameter
    have hown := hapart.assembliesApart.mem_allTypes_of_sameAssembly hgraph hassembly
      (Run.mem_allTypes_of_mem_roots hmem) hindexed (Bool.and_eq_true_iff.1 hmodule).1
    refine ⟨hindexed, ?_⟩
    -- The walk before has settled every type of the module, an ignored one by leaving it out.
    cases hignores : stage.program.ignoresDefinition parameter with
    | true => exact .inr ((Stage.ignores_iff honce hindexed).2 hignores)
    | false =>
      refine (hsettled honce parameter ?_).imp_left fun hrecord => h.declared_eq ▸ hrecord
      exact Run.mem_roots_of_not_ignored hgraph hapart hassembly hown hignores

end

end Assemblage.Script

namespace Assemblage.Program

/-- Whether the static members of a type have to be called complete. -/
def needsSeal (program : Program) (definition : TypeDef) : Bool :=
  !program.ignoresDefinition definition && (program.modelOf definition).needsSeal

/-- The types that are sealed, from the inside out. -/
def sealedTypes (program : Program) (types : List TypeDef) : List TypeDef :=
  (TypeDef.innerFirstAll types).filter program.needsSeal

theorem sealedTypes_append (program : Program) (before after : List TypeDef) :
    program.sealedTypes (before ++ after) =
      program.sealedTypes before ++ program.sealedTypes after := by
  simp only [sealedTypes, TypeDef.innerFirstAll_eq_flatMap, List.flatMap_append,
    List.filter_append]

theorem sealedTypes_singleton (program : Program) (definition : TypeDef) :
    program.sealedTypes [definition] =
      program.sealedTypes definition.nested ++ [definition].filter program.needsSeal := by
  rw [sealedTypes, TypeDef.innerFirstAll, TypeDef.innerFirstAll, List.append_nil,
    TypeDef.innerFirst_eq_append, List.filter_append]
  rfl

/-- Everything inside an ignored type is ignored. -/
theorem ignoresDefinition_withNested {program : Program} (honce : program.graph.DefinesOnce)
    (hgraph : program.graph.WellFormed) {definition : TypeDef}
    (hindexed : program.graph.Indexes definition)
    (hignored : program.ignoresDefinition definition = true) :
    ∀ inside ∈ definition.withNested, program.ignoresDefinition inside = true := by
  refine TypeDef.forall_withNested ?_ hignored
  intro outer houter hignores inner hinner
  have houterIndexed := hgraph.indexesNested.withNested hindexed outer houter
  exact ignoresDefinition_nested honce houterIndexed (hgraph.encloses houterIndexed) hignores hinner

/-- Nothing inside an ignored type is sealed. -/
theorem sealedTypes_eq_nil {program : Program} (honce : program.graph.DefinesOnce)
    (hgraph : program.graph.WellFormed) {definition : TypeDef}
    (hindexed : program.graph.Indexes definition)
    (hignored : program.ignoresDefinition definition = true) :
    program.sealedTypes [definition] = [] := by
  refine List.filter_eq_nil_iff.2 fun inside hmem => ?_
  obtain ⟨_, htop, hmem⟩ :=
    TypeDef.mem_withNestedAll_iff.1 ((TypeDef.innerFirstAll_perm _).mem_iff.1 hmem)
  rw [List.mem_singleton.1 htop] at hmem
  rw [needsSeal, ignoresDefinition_withNested honce hgraph hindexed hignored inside hmem]
  exact Bool.false_ne_true

end Assemblage.Program

namespace Assemblage.Script

section

variable {stage : Stage} {view : View}

theorem View.emitAll_emitAll (before after : List Declaration) :
    (view.emitAll before).emitAll after = view.emitAll (before ++ after) := by
  simp only [View.emitAll, List.append_assoc]

def sealDeclarations (program : Program) (types : List TypeDef) : List Declaration :=
  (program.sealedTypes types).map fun definition => .sealed definition.location

theorem sealDeclarations_append (program : Program) (before after : List TypeDef) :
    sealDeclarations program (before ++ after) =
      sealDeclarations program before ++ sealDeclarations program after := by
  simp only [sealDeclarations, Program.sealedTypes_append, List.map_append]

/-- A type is sealed exactly if it needs a seal. -/
theorem Stage.ends_sealType (honce : stage.program.graph.DefinesOnce)
    (hstop : ∀ view, stage.MayStop view) {definition : TypeDef} {model : TypeModel}
    (hmodel : stage.Models definition model) (hignored : model.ignored = false) :
    stage.Ends (Run.sealType model)
      (fun _ later => later = view.emitAll
        (([definition].filter stage.program.needsSeal).map fun sealed => .sealed sealed.location))
      view := by
  obtain rfl := hmodel.eq_modelOf honce
  have hkept : stage.program.ignoresDefinition definition = false := hignored
  rw [Run.sealType]
  cases hseal : (stage.program.modelOf definition).needsSeal with
  | true =>
    have hneeds : stage.program.needsSeal definition = true := by
      rw [Program.needsSeal, hkept, hseal]
      rfl
    rw [if_pos rfl, List.filter_cons_of_pos hneeds]
    exact ends_emit (hstop _)
  | false =>
    have hneeds : ¬stage.program.needsSeal definition = true := by
      rw [Program.needsSeal, hseal, Bool.and_false]
      exact Bool.false_ne_true
    rw [if_neg Bool.false_ne_true, List.filter_cons_of_neg hneeds]
    exact ends_pure (by rw [List.filter_nil, List.map_nil, View.emitAll, List.append_nil])

theorem Stage.ends_forM_seal {types : List TypeDef} {walk : TypeDef → Run PUnit}
    (h : ∀ top ∈ types, ∀ later : View, stage.Ends (walk top)
      (fun _ last => last = later.emitAll (sealDeclarations stage.program [top])) later) :
    stage.Ends (types.forM walk)
      (fun _ later => later = view.emitAll (sealDeclarations stage.program types)) view := by
  refine ends_forM (fun before later => later =
    view.emitAll (sealDeclarations stage.program before)) ?_ ?_
  · rw [sealDeclarations, Program.sealedTypes, TypeDef.innerFirstAll, List.filter_nil,
      List.map_nil, View.emitAll, List.append_nil]
  · rintro before top after later htypes rfl
    rw [sealDeclarations_append, ← View.emitAll_emitAll]
    refine h top ?_ _
    rw [htypes]
    exact List.mem_append_right _ List.mem_cons_self

/-- A type is sealed after everything inside it. -/
theorem Stage.ends_walk_seal (honce : stage.program.graph.DefinesOnce)
    (hgraph : stage.program.graph.WellFormed) (hstop : ∀ view, stage.MayStop view)
    {definition : TypeDef} (hindexed : stage.program.graph.Indexes definition) :
    stage.Ends (Run.walk (fun _ => pure ()) Run.sealType definition)
      (fun _ later => later = view.emitAll (sealDeclarations stage.program [definition])) view := by
  induction definition using TypeDef.induction_nested generalizing view with
  | step definition ih =>
  rw [Run.walk_eq]
  refine ends_model hindexed ?_
  intro model hmodel
  cases hignored : model.ignored with
  | true =>
    rw [hmodel.eq_modelOf honce] at hignored
    rw [sealDeclarations, Program.sealedTypes_eq_nil honce hgraph hindexed hignored, List.map_nil,
      View.emitAll, List.append_nil]
    exact ends_pure rfl
  | false =>
    refine (ends_pure rfl : stage.Ends _ (fun _ later => later = view) view).bind ?_
    rintro - entered rfl
    refine (ends_forM_seal fun inner hinner _ =>
      ih inner hinner (hgraph.indexesNested definition hindexed inner hinner)).bind ?_
    rintro - sealed rfl
    refine (ends_sealType honce hstop hmodel hignored).mono ?_
    rintro - later rfl
    rw [View.emitAll_emitAll, sealDeclarations, sealDeclarations, Program.sealedTypes_singleton,
      List.map_append]

/-- The seals of a list of types are emitted in order, inner types first. -/
theorem Stage.ends_walkAll_seal (honce : stage.program.graph.DefinesOnce)
    (hgraph : stage.program.graph.WellFormed) (hstop : ∀ view, stage.MayStop view)
    {types : List TypeDef} (hindexed : ∀ top ∈ types, stage.program.graph.Indexes top) :
    stage.Ends (Run.walkAll (fun _ => pure ()) Run.sealType types)
      (fun _ later => later = view.emitAll (sealDeclarations stage.program types)) view := by
  rw [Run.walkAll_eq_forM]
  exact ends_forM_seal fun top htop _ => ends_walk_seal honce hgraph hstop (hindexed top htop)

end

end Assemblage.Script
