import Assemblage.Proofs.Script.Completion
import Assemblage.Proofs.Script.Phases

/-!
# What each assembly contributes

The script of a run is put together from one contribution for each assembly, in
the order in which the assemblies come up first.  It declares exactly the types
that are not ignored, then says what is inside them, and last seals those that
have a static constructor, each after the types nested in it.
-/

namespace Assemblage.Script

/-- The declarations for one assembly, walk by walk. -/
structure Contribution where
  outline : List Declaration
  members : List Declaration
  seals : List Declaration

namespace Contribution

def declarations (contribution : Contribution) : List Declaration :=
  contribution.outline ++ contribution.members ++ contribution.seals

/-- Namespaces and types come first, each type that is not ignored once, then what
is inside them; the types that need it are sealed once, none after one around it. -/
structure Covers (program : Program) (assembly : AssemblyDef) (contribution : Contribution) :
    Prop where
  outline : ∀ declaration ∈ contribution.outline, declaration.phase = .outline
  members : ∀ declaration ∈ contribution.members, declaration.phase = .members
  declared : (contribution.outline.filterMap Declaration.declaredType?).Perm
    ((assembly.allTypes.filter (!program.ignoresDefinition ·)).map (·.fullName))
  sealed : ∃ types : List TypeDef,
    contribution.seals = types.map (fun definition => .sealed definition.location) ∧
      types.Perm (assembly.allTypes.filter program.needsSeal) ∧
      types.Pairwise fun earlier later => later ∉ earlier.withNested

/-- Sealing the roots of an assembly seals all of its types that need it. -/
theorem exists_sealed {program : Program} (honce : program.graph.DefinesOnce)
    (hgraph : program.graph.WellFormed) (hapart : program.graph.NamesApart)
    {assembly : AssemblyDef} (hassembly : assembly ∈ program.graph.assemblies) :
    ∃ types : List TypeDef,
      sealDeclarations program (Run.roots assembly) =
        types.map (fun definition => .sealed definition.location) ∧
      types.Perm (assembly.allTypes.filter program.needsSeal) ∧
      types.Pairwise fun earlier later => later ∉ earlier.withNested := by
  have hall : assembly.allTypes.Nodup :=
    .of_map _ (honce.nodup_allTypes hgraph.toLoaded hassembly)
  have hroots : (TypeDef.withNestedAll (Run.roots assembly)).Nodup :=
    hall.sublist (Run.withNestedAll_roots_sublist assembly)
  refine ⟨program.sealedTypes (Run.roots assembly), rfl, ?_,
    (TypeDef.pairwise_innerFirstAll hroots).sublist List.filter_sublist⟩
  refine ((TypeDef.innerFirstAll_perm _).filter _).trans ?_
  refine (List.perm_ext_iff_of_nodup (hroots.filter _) (hall.filter _)).2 fun definition => ?_
  rw [List.mem_filter, List.mem_filter]
  refine and_congr_left fun hneeds => ⟨Run.mem_allTypes_of_mem_roots, fun hmem => ?_⟩
  rw [Program.needsSeal, Bool.and_eq_true, Bool.not_eq_true'] at hneeds
  exact Run.mem_roots_of_not_ignored hgraph hapart hassembly hmem hneeds.1

end Contribution

/-- What is known when the given assemblies have had their first turns: everything
that was declared is told by their contributions. -/
structure Chronicle (stage : Stage) (turns : List AssemblyDef) (view : View) : Prop where
  accounts : stage.Accounts turns view
  ledger : Ledger [] view
  spaced : view.Spaced
  own : ∀ id ∈ view.declared, ∃ assembly ∈ turns, ∃ definition ∈ assembly.allTypes,
    definition.typeId = id
  told : ∃ contributions, List.Forall₂ (Contribution.Covers stage.program) turns contributions ∧
    view.output = contributions.flatMap Contribution.declarations

namespace Chronicle

variable {stage : Stage} {turns : List AssemblyDef} {view later : View} {assembly : AssemblyDef}

theorem empty (hdeclared : view.declared = []) (hnamespaces : view.namespaces = [])
    (hbegun : view.begun = []) (houtput : view.output = []) : Chronicle stage [] view where
  accounts := Stage.accounts_nil hdeclared hbegun
  ledger := .empty hdeclared houtput
  spaced := View.spaced_empty hnamespaces houtput
  own id hid := by simp [hdeclared] at hid
  told := ⟨[], .nil, houtput⟩

/-- The types of an assembly that has not had a turn are not on record. -/
theorem not_mem_declared (h : Chronicle stage turns view)
    (hgraph : stage.program.graph.WellFormed) (hapart : stage.program.graph.NamesApart)
    (honce : stage.program.graph.DefinesOnce) (hturns : turns ⊆ stage.program.graph.assemblies)
    (hassembly : assembly ∈ stage.program.graph.assemblies) (hnew : assembly ∉ turns) :
    ∀ definition ∈ assembly.allTypes, definition.typeId ∉ view.declared := by
  intro definition hdefinition hrecord
  obtain ⟨other, hother, found, hfound, hid⟩ := h.own _ hrecord
  have hsame : other = assembly := hapart.assembliesApart.assembly_eq_of_typeId_eq hgraph honce
    (hturns hother) hassembly hfound hdefinition hid
  exact hnew (hsame ▸ hother)

/-- A further contribution after the first turn of an assembly. -/
theorem next (h : Chronicle stage turns view) {contribution : Contribution}
    (hcovers : contribution.Covers stage.program assembly)
    (houtput : later.output = view.output ++ contribution.declarations)
    (haccounts : stage.Accounts (turns ++ [assembly]) later) (hledger : Ledger [] later)
    (hspaced : later.Spaced)
    (hown : ∀ id ∈ later.declared, id ∈ view.declared ∨ ∃ definition ∈ assembly.allTypes,
      stage.program.ignoresDefinition definition = false ∧ definition.typeId = id) :
    Chronicle stage (turns ++ [assembly]) later where
  accounts := haccounts
  ledger := hledger
  spaced := hspaced
  own id hid := by
    rcases hown id hid with hold | ⟨definition, hdefinition, -, hid⟩
    · obtain ⟨other, hother, rest⟩ := h.own id hold
      exact ⟨other, List.mem_append_left _ hother, rest⟩
    · exact ⟨assembly, List.mem_append_right _ (List.mem_singleton_self _), definition,
        hdefinition, hid⟩
  told := by
    obtain ⟨contributions, htold, hview⟩ := h.told
    refine ⟨contributions ++ [contribution], List.rel_append htold (.cons hcovers .nil), ?_⟩
    rw [houtput, hview, List.flatMap_append, List.flatMap_singleton]

/-- After its three walks an assembly has made its contribution. -/
theorem after_walks (h : Chronicle stage turns view)
    (hgraph : stage.program.graph.WellFormed) (hapart : stage.program.graph.NamesApart)
    (honce : stage.program.graph.DefinesOnce) (hturns : turns ⊆ stage.program.graph.assemblies)
    (hassembly : assembly ∈ stage.program.graph.assemblies) (hnew : assembly ∉ turns)
    {outlined filled : View}
    (houtlined : (Contract.outlining stage.program assembly (view.begin assembly.fullName)).Leaves
      stage [] (view.begin assembly.fullName) (Run.roots assembly) outlined)
    (hfilled : (Contract.filling stage outlined).Lasts stage outlined filled)
    (hsettled : ∀ inside ∈ TypeDef.withNestedAll (Run.roots assembly),
      stage.Settled inside outlined) :
    Chronicle stage (turns ++ [assembly])
      (filled.emitAll (sealDeclarations stage.program (Run.roots assembly))) := by
  have hall : ∀ definition ∈ assembly.allTypes,
      stage.program.ignoresDefinition definition = false →
      definition.typeId ∈ outlined.declared := by
    intro definition hmem hignored
    have hinside := Run.mem_roots_of_not_ignored hgraph hapart hassembly hmem hignored
    have hindexed := hgraph.indexes_iff.2 ⟨assembly, hassembly, hmem⟩
    exact (hsettled definition hinside).mem_declared honce hindexed hignored
  obtain ⟨outline, houtput, houtline, hdeclared⟩ := houtlined.holds.exists_outline
    ⟨h.ledger.balanced, h.ledger.nodup⟩ (honce.nodup_allTypes hgraph.toLoaded hassembly)
    (h.not_mem_declared hgraph hapart honce hturns hassembly hnew) hall
  obtain ⟨members, hfill, hmembers⟩ := hfilled.holds.adds
  let contribution : Contribution :=
    ⟨outline, members, sealDeclarations stage.program (Run.roots assembly)⟩
  have hcovers : contribution.Covers stage.program assembly :=
    ⟨houtline, hmembers, hdeclared, Contribution.exists_sealed honce hgraph hapart hassembly⟩
  -- After the outline neither types nor namespaces are declared, so both stay in order.
  have hlater : (filled.emitAll contribution.seals).output =
      outlined.output ++ (members ++ contribution.seals) := by
    rw [View.emitAll, hfill, List.append_assoc]
  have hrest : ∀ declaration ∈ members ++ contribution.seals, declaration.phase ≠ .outline := by
    intro declaration hdeclaration
    rcases List.mem_append.1 hdeclaration with hmember | hseal
    · rw [hmembers declaration hmember]
      decide
    · obtain ⟨definition, -, rfl⟩ := List.mem_map.1 hseal
      rw [Declaration.phase]
      decide
  refine h.next hcovers ?_ ?_ ?_ ?_ ?_
  · rw [hlater, houtput, List.append_assoc, Contribution.declarations, List.append_assoc]
    rfl
  · refine h.accounts.next (houtlined.advances.trans (hfilled.advances.trans ?_)) fun _ => ?_
    · exact Stage.advances_of_records rfl rfl
    · exact fun inside hinside => (hsettled inside hinside).mono hfilled.advances.declared
  · exact houtlined.holds.ledger.append hfilled.holds.declared_eq hlater
      fun declaration hmem => Declaration.declaredType?_of_phase (hrest declaration hmem)
  · exact houtlined.holds.spaced.append hfilled.holds.namespaces_eq hlater
      fun declaration hmem => Declaration.namespace?_of_phase (hrest declaration hmem)
  · intro id hid
    exact houtlined.holds.own id (hfilled.holds.declared_eq ▸ hid)

/-- An assembly makes its contribution at its first turn, and none later. -/
theorem ends_translateAssembly (h : Chronicle stage turns view)
    (hstop : ∀ view, stage.MayStop view)
    (hgraph : stage.program.graph.WellFormed) (hapart : stage.program.graph.NamesApart)
    (honce : stage.program.graph.DefinesOnce) (hturns : turns ⊆ stage.program.graph.assemblies)
    (hassembly : assembly ∈ stage.program.graph.assemblies) :
    stage.Ends (Run.translateAssembly assembly)
      (fun _ later =>
        Chronicle stage
          (if turns.any (assembly.fullName == ·.fullName) then turns else turns ++ [assembly])
          later)
      view := by
  rw [Run.translateAssembly]
  refine Stage.ends_consult ?_
  intro session _ hview
  have hrecord : session.translator.begun = view.begun := congrArg View.begun hview
  -- The assemblies on record are those that have had a turn.
  have hturn : view.begun.contains assembly.fullName =
      turns.any (assembly.fullName == ·.fullName) := by
    rw [Bool.eq_iff_iff, List.contains_iff_mem, h.accounts.begun, List.any_eq_true]
    simp only [beq_iff_eq]
    exact exists_congr fun other => and_congr_right fun _ => eq_comm
  rw [hrecord, hturn]
  by_cases hknown : turns.any (assembly.fullName == ·.fullName) = true
  · simp only [if_pos hknown]
    exact Stage.ends_pure h
  simp only [if_neg hknown]
  have hnew : assembly ∉ turns := fun hmem =>
    hknown (List.any_eq_true.2 ⟨assembly, hmem, beq_self_eq_true _⟩)
  have hindexed : ∀ top ∈ Run.roots assembly, stage.program.graph.Indexes top :=
    fun top htop => Run.indexes_of_mem_roots hgraph.toLoaded hassembly htop
  refine Stage.ends_begin.bind ?_
  rintro - begun rfl
  have houtlining :
      (Contract.outlining stage.program assembly (view.begin assembly.fullName)).Kept stage :=
    Contract.outlining_kept hstop hgraph hapart honce hassembly
  refine (houtlining.ends_declareAll hgraph.indexesNested hindexed ?_ ?_).bind ?_
  · exact fun top htop _ _ => Run.mem_allTypes_of_mem_roots (Run.mem_withNestedAll_of_mem htop)
  · exact ⟨⟨h.ledger.balanced, h.ledger.nodup⟩, ⟨h.spaced.declared_eq, h.spaced.nodup⟩,
      View.adds_of_output rfl, fun _ => .inl⟩
  intro _ outlined houtlined
  have hclosed : stage.Closed outlined := houtlined.advances.closed h.accounts.closed
  have hsettled : ∀ inside ∈ TypeDef.withNestedAll (Run.roots assembly),
      stage.Settled inside outlined :=
    Stage.Settled.withNestedAll honce hgraph hclosed hindexed houtlined.settled
  refine ((Contract.filling_keptInside hgraph hapart honce hassembly).ends_translateTypes
    (Contract.filling_kept hstop hgraph honce hclosed) hgraph.indexesNested hindexed
    (fun _ => hsettled) (filling_self outlined)).bind ?_
  intro _ filled hfilled
  refine (Stage.ends_walkAll_seal honce hgraph hstop hindexed).mono ?_
  rintro - later rfl
  exact h.after_walks hgraph hapart honce hturns hassembly hnew houtlined hfilled hsettled

end Chronicle

namespace Translator

/-- With a sink that takes everything a run comes to its end, and its script is that
of one contribution for each assembly, by first occurrence.  No type and no namespace
is declared twice, and the models by which types are sealed are those that the run
leaves behind. -/
theorem translate_yields_contributions {translator : Translator} (hfresh : translator.IsFresh)
    (hgraph : translator.store.graph.WellFormed) (hapart : translator.store.graph.NamesApart)
    (honce : translator.store.graph.DefinesOnce)
    (hdecompile : translator.decompile = MethodDef.decompile) {listed : List AssemblyDef}
    (hlisted : listed ⊆ translator.store.graph.assemblies) :
    let program := translator.store.program
    let outcome := translator.translate .collecting listed
    outcome.failure = none ∧
      (∃ contributions,
        List.Forall₂ (Contribution.Covers program)
          (listed.eraseDupsBy fun left right => left.fullName == right.fullName) contributions ∧
        outcome.output = contributions.flatMap Contribution.declarations) ∧
      (outcome.output.filterMap Declaration.declaredType?).Nodup ∧
      (outcome.output.filterMap Declaration.namespace?).Nodup ∧
      ∀ definition, program.graph.Indexes definition →
        (outcome.translator.store.requestDefinition definition).2 =
          some (program.modelOf definition) := by
  intro program outcome
  let stage := translator.stage .collecting fun _ _ => False
  have hunfailing : stage.Unfailing :=
    ⟨fun _ _ => rfl, fun method error herror =>
      isMethodLocal_of_decompile_eq_error ((congrFun hdecompile method).symm.trans herror)⟩
  let firstTurns (before : List AssemblyDef) : List AssemblyDef :=
    before.eraseDupsBy fun left right => left.fullName == right.fullName
  have hends : stage.Ends (listed.forM Run.translateAssembly)
      (fun _ => Chronicle stage (firstTurns listed)) translator.view := by
    refine Stage.ends_forM (fun before => Chronicle stage (firstTurns before)) ?_ ?_
    · exact Chronicle.empty hfresh.declared_eq hfresh.namespaces_eq hfresh.begun_eq rfl
    · rintro before assembly after later rfl hlater
      have hbefore : firstTurns before ⊆ stage.program.graph.assemblies :=
        List.Subset.trans (eraseDupsBy_subset _ before)
          (List.Subset.trans (List.subset_append_left _ _) hlisted)
      have hassembly : assembly ∈ stage.program.graph.assemblies :=
        hlisted (List.mem_append_right _ List.mem_cons_self)
      rw [show firstTurns (before ++ [assembly]) = _ from eraseDupsBy_concat _ before assembly]
      exact hlater.ends_translateAssembly hunfailing.mayStop hgraph hapart honce hbefore hassembly
  rcases hends.translate (hfresh.carries .collecting _) with
    ⟨hnone, hcarries, hchronicle⟩ | ⟨-, hstopped⟩
  · refine ⟨hnone, hchronicle.told, ?_, ?_, ?_⟩
    · have hmade := hchronicle.ledger.balanced.nodup_iff.1 hchronicle.ledger.nodup
      rw [List.append_nil] at hmade
      exact hmade.of_map
    · have hspaces := List.nodup_reverse.2 hchronicle.spaced.nodup
      rw [← hchronicle.spaced.declared_eq] at hspaces
      exact hspaces
    · intro definition hdefinition
      obtain ⟨cache, model, hrequest, -, hmodel⟩ := hcarries.exists_requestDefinition hdefinition
      exact (congrArg Prod.snd hrequest).trans (congrArg some (hmodel.eq_modelOf honce))
  · exact hstopped.elim

/-- Two classes that are each other's base, with static constructors in the first and
in a class inside it. -/
def ringFirst : TypeBlueprint :=
  { sampleClass "First" (some "Second")
      [{ sampleClass "Part" none [] with methods := [.staticConstructor] }] with
    methods := [.staticConstructor] }

def ringAssembly : AssemblyBlueprint :=
  sampleAssembly [ringFirst, sampleClass "Second" (some "First") []]

/-- Two classes that are each other's base, in an assembly that is listed twice, contribute
once. -/
theorem translate_yields_contributions_ringAssembly :
    let translator := ofBlueprint ringAssembly
    let outcome := translator.translate .collecting [ringAssembly.build, ringAssembly.build]
    translator.store.graph.NamesApart ∧ translator.store.graph.DefinesOnce ∧
      outcome.failure = none ∧
      outcome.output.map Declaration.kind =
        [.namespaceObject, .classShell, .classShell, .classShell, .untranslatable, .untranslatable,
          .sealed, .sealed] ∧
      ∃ contributions,
        List.Forall₂ (Contribution.Covers translator.store.program) [ringAssembly.build]
          contributions ∧
        outcome.output = contributions.flatMap Contribution.declarations := by
  intro translator outcome
  have hapart : translator.store.graph.NamesApart := by
    refine ⟨List.pairwise_singleton _ _, ?_⟩
    intro assembly hassembly
    obtain rfl := List.mem_singleton.1 hassembly
    decide +kernel
  have honce : translator.store.graph.DefinesOnce := by
    change List.Nodup _
    decide +kernel
  have hlisted : [ringAssembly.build, ringAssembly.build] ⊆ translator.store.graph.assemblies :=
    List.cons_subset.2 ⟨List.mem_singleton_self _, List.Subset.refl _⟩
  have hyields := translate_yields_contributions (isFresh_ofBlueprint ringAssembly)
    (wellFormed_ofBlueprint ringAssembly) hapart honce rfl hlisted
  exact ⟨hapart, honce, hyields.1, by decide +kernel, hyields.2.1⟩

end Translator

end Assemblage.Script
