import Assemblage.Proofs.Script.Steady

/-!
# The order of assemblies

The output of a run falls into one block for each assembly that it is given.  At its
first turn an assembly adds the same wherever the run stands, and later nothing.  So
when assemblies are given in another order, their blocks change places and nothing
else, except that a namespace is declared in whichever block needs it first.
-/

namespace Assemblage.Script

namespace Translator

/-- What is declared at the turn of an assembly, when others have had theirs before. -/
def block (translator : Translator) (sink : Sink) (before : List AssemblyDef)
    (assembly : AssemblyDef) : List Declaration :=
  (translator.translate sink (before ++ [assembly])).output.drop
    (translator.translate sink before).output.length

/-- The blocks of the assemblies that follow those before. -/
def blocksAfter (translator : Translator) (sink : Sink) (before : List AssemblyDef) :
    List AssemblyDef → List (AssemblyDef × List Declaration)
  | [] => []
  | assembly :: rest =>
    (assembly, translator.block sink before assembly) ::
      translator.blocksAfter sink (before ++ [assembly]) rest

/-- Each assembly that a run is given, with the block at its turn. -/
def blocks (translator : Translator) (sink : Sink) (listed : List AssemblyDef) :
    List (AssemblyDef × List Declaration) :=
  translator.blocksAfter sink [] listed

theorem blocksAfter_concat (translator : Translator) (sink : Sink)
    (before listed : List AssemblyDef) (assembly : AssemblyDef) :
    translator.blocksAfter sink before (listed ++ [assembly]) =
      translator.blocksAfter sink before listed ++
        [(assembly, translator.block sink (before ++ listed) assembly)] := by
  induction listed generalizing before with
  | nil =>
    rw [List.append_nil]
    rfl
  | cons first rest ih =>
    rw [List.cons_append, blocksAfter, ih, blocksAfter, List.append_assoc]
    rfl

theorem blocks_concat (translator : Translator) (sink : Sink) (listed : List AssemblyDef)
    (assembly : AssemblyDef) :
    translator.blocks sink (listed ++ [assembly]) =
      translator.blocks sink listed ++ [(assembly, translator.block sink listed assembly)] :=
  translator.blocksAfter_concat sink [] listed assembly

end Translator

/-! ## Turns of assemblies -/

/-- Each assembly with its turn; that is empty if one of its name has had a turn. -/
def turnsAfter (turnOf : AssemblyDef → Turn) (seen : List String) :
    List AssemblyDef → List (AssemblyDef × Turn)
  | [] => []
  | assembly :: rest =>
    (assembly, if seen.contains assembly.fullName then {} else turnOf assembly) ::
      turnsAfter turnOf (assembly.fullName :: seen) rest

section

variable {turnOf : AssemblyDef → Turn} {seen others : List String}
  {listed permuted : List AssemblyDef}

/-- It only matters which names have been seen. -/
theorem turnsAfter_congr (h : ∀ name, name ∈ seen ↔ name ∈ others) :
    turnsAfter turnOf seen listed = turnsAfter turnOf others listed := by
  induction listed generalizing seen others with
  | nil => rfl
  | cons assembly rest ih =>
    have hcontains : seen.contains assembly.fullName = others.contains assembly.fullName := by
      rw [Bool.eq_iff_iff, List.contains_iff_mem, List.contains_iff_mem, h]
    have hrest : turnsAfter turnOf (assembly.fullName :: seen) rest =
        turnsAfter turnOf (assembly.fullName :: others) rest :=
      ih fun name => by rw [List.mem_cons, List.mem_cons, h]
    rw [turnsAfter, turnsAfter, hcontains, hrest]

theorem turnsAfter_concat (assembly : AssemblyDef) :
    turnsAfter turnOf seen (listed ++ [assembly]) =
      turnsAfter turnOf seen listed ++
        [(assembly, if (listed.map (·.fullName) ++ seen).contains assembly.fullName then {}
          else turnOf assembly)] := by
  induction listed generalizing seen with
  | nil => rfl
  | cons first rest ih =>
    have hnames : ((first :: rest).map (·.fullName) ++ seen).contains assembly.fullName =
        (rest.map (·.fullName) ++ first.fullName :: seen).contains assembly.fullName := by
      rw [Bool.eq_iff_iff, List.contains_iff_mem, List.contains_iff_mem]
      exact List.perm_middle.symm.mem_iff
    rw [List.cons_append, turnsAfter, ih, hnames, turnsAfter]
    rfl

/-- In another order the assemblies have the same turns. -/
theorem turnsAfter_perm (hperm : listed.Perm permuted)
    (hnames : ∀ left ∈ listed, ∀ right ∈ listed, left.fullName = right.fullName → left = right) :
    (turnsAfter turnOf seen listed).Perm (turnsAfter turnOf seen permuted) := by
  induction hperm generalizing seen with
  | nil => exact .refl _
  | cons assembly _ ih =>
    refine (ih fun left hleft right hright => ?_).cons _
    exact hnames left (List.mem_cons_of_mem _ hleft) right (List.mem_cons_of_mem _ hright)
  | swap first second rest =>
    by_cases hsame : first = second
    · rw [hsame]
    have hapart : first.fullName ≠ second.fullName := fun hname =>
      hsame (hnames first (by simp) second (by simp) hname)
    have hrest : turnsAfter turnOf (first.fullName :: second.fullName :: seen) rest =
        turnsAfter turnOf (second.fullName :: first.fullName :: seen) rest :=
      turnsAfter_congr fun name => by simp only [List.mem_cons, or_left_comm]
    have hfirst : (second.fullName :: seen).contains first.fullName =
        seen.contains first.fullName := by
      simp [hapart]
    have hsecond : (first.fullName :: seen).contains second.fullName =
        seen.contains second.fullName := by
      simp [Ne.symm hapart]
    rw [turnsAfter, turnsAfter, turnsAfter, turnsAfter, hfirst, hsecond, hrest]
    exact .swap _ _ _
  | trans hleft _ ihleft ihright =>
    refine (ihleft hnames).trans (ihright fun left hmem right hother => ?_)
    exact hnames left (hleft.mem_iff.2 hmem) right (hleft.mem_iff.2 hother)

end

namespace Stage

variable {stage : Stage} {assembly : AssemblyDef} {view : View}

/-- What the assembly adds at its first turn, whatever others have added before. -/
structure FirstTurn (stage : Stage) (assembly : AssemblyDef) (turn : Turn) : Prop where
  own : turn.declared ⊆ assembly.allTypes.map (·.typeId)
  ends : ∀ view, view.Knows assembly [] → assembly.fullName ∉ view.begun →
    stage.Ends (Run.translateAssembly assembly)
      (fun _ => (view.begin assembly.fullName).Takes turn) view

/-- An assembly takes the same first turn whatever comes before it. -/
theorem exists_firstTurn (hstop : ∀ view, stage.MayStop view)
    (hgraph : stage.program.graph.WellFormed) (hapart : stage.program.graph.AssembliesApart)
    (honce : stage.program.graph.DefinesOnce)
    (hassembly : assembly ∈ stage.program.graph.assemblies) :
    ∃ turn, stage.FirstTurn assembly turn := by
  have hsteady : stage.Steady assembly [] _ () :=
    steady_walks hstop hgraph hapart honce hassembly
  obtain ⟨turn, hown, hturn⟩ := hsteady
  refine ⟨turn, hown, fun view hknows hnew => ?_⟩
  have hcontains : ¬view.begun.contains assembly.fullName = true :=
    mt List.contains_iff_mem.1 hnew
  rw [Run.translateAssembly]
  refine ends_consult ?_
  rintro session - rfl
  refine (if_neg hcontains : _ = _) ▸ ends_begin.bind ?_
  rintro - begun rfl
  have hopened : (session.view.begin assembly.fullName).Knows assembly [] := hknows
  -- The walks declare each type that is asked for with everything in reach.
  refine (hturn (stage.program.graph.index.map (·.definition.typeId)) _ hopened ?_).mono
    fun _ _ hlater => hlater.2
  rintro definition ⟨entry, hentry, rfl⟩
  exact .inl (List.mem_map_of_mem hentry)

/-- How far a run has come when it has been given some assemblies. -/
structure Progress (turnOf : AssemblyDef → Turn) (start : List Diagnostic)
    (before : List AssemblyDef) (view : View) : Prop where
  begun : ∀ name, name ∈ view.begun ↔ name ∈ before.map (·.fullName)
  own : ∀ id ∈ view.declared, ∃ other ∈ before, id ∈ other.allTypes.map (·.typeId)
  spaced : view.Spaced
  mem_namespaces_iff : ∀ path, path ∈ view.namespaces ↔
    ∃ entry ∈ turnsAfter turnOf [] before, path ∈ entry.2.namespaces
  reports_eq : view.reports = start ++ (turnsAfter turnOf [] before).flatMap (·.2.reports)

namespace Progress

variable {turnOf : AssemblyDef → Turn} {start : List Diagnostic} {before : List AssemblyDef}
  {later : View}

/-- The types of an assembly that has not been given are not on record. -/
theorem knows (h : Progress turnOf start before view) (hgraph : stage.program.graph.WellFormed)
    (hapart : stage.program.graph.AssembliesApart) (honce : stage.program.graph.DefinesOnce)
    (hbefore : before ⊆ stage.program.graph.assemblies)
    (hassembly : assembly ∈ stage.program.graph.assemblies) (hnew : assembly ∉ before) :
    view.Knows assembly [] := by
  intro own hown
  refine iff_of_false (fun hrecord => ?_) List.not_mem_nil
  obtain ⟨other, hother, hmem⟩ := h.own _ hrecord
  obtain ⟨found, hfound, hid⟩ := List.mem_map.1 hmem
  have hsame : other = assembly := hapart.assembly_eq_of_typeId_eq hgraph honce (hbefore hother)
    hassembly hfound hown hid
  exact hnew (hsame ▸ hother)

/-- Nothing changes at a later turn of an assembly. -/
theorem again (h : Progress turnOf start before view)
    (hknown : (before.map (·.fullName)).contains assembly.fullName = true) :
    Progress turnOf start (before ++ [assembly]) view := by
  have hturns : turnsAfter turnOf [] (before ++ [assembly]) =
      turnsAfter turnOf [] before ++ [(assembly, ({} : Turn))] := by
    rw [turnsAfter_concat, List.append_nil, if_pos hknown]
  refine ⟨fun name => ?_, fun id hid => ?_, h.spaced, fun path => ?_, ?_⟩
  · rw [h.begun, List.map_append, List.mem_append, iff_self_or, List.map_singleton,
      List.mem_singleton]
    rintro rfl
    exact List.contains_iff_mem.1 hknown
  · obtain ⟨other, hother, hmem⟩ := h.own id hid
    exact ⟨other, List.mem_append_left _ hother, hmem⟩
  · rw [h.mem_namespaces_iff, hturns]
    simp [or_and_right, exists_or]
  · rw [h.reports_eq, hturns]
    simp

theorem next (h : Progress turnOf start before view)
    (hnew : ¬(before.map (·.fullName)).contains assembly.fullName = true)
    (hown : (turnOf assembly).declared ⊆ assembly.allTypes.map (·.typeId))
    (hturn : (view.begin assembly.fullName).Takes (turnOf assembly) later) :
    Progress turnOf start (before ++ [assembly]) later := by
  have hturns : turnsAfter turnOf [] (before ++ [assembly]) =
      turnsAfter turnOf [] before ++ [(assembly, turnOf assembly)] := by
    rw [turnsAfter_concat, List.append_nil, if_neg hnew]
  refine ⟨fun name => ?_, fun id hid => ?_, ?_, fun path => ?_, ?_⟩
  · rw [hturn.begun_eq, View.begin, List.mem_cons, h.begun, List.map_append, List.mem_append,
      List.map_singleton, List.mem_singleton, or_comm]
  · rw [hturn.declared_eq, List.mem_append] at hid
    rcases hid with hid | hid
    · exact ⟨assembly, List.mem_append_right _ (List.mem_singleton_self _), hown hid⟩
    · obtain ⟨other, hother, hmem⟩ := h.own id hid
      exact ⟨other, List.mem_append_left _ hother, hmem⟩
  · exact hturn.spaced ⟨h.spaced.declared_eq, h.spaced.nodup⟩
  · rw [hturn.mem_namespaces_iff, View.begin, h.mem_namespaces_iff, hturns]
    simp [or_and_right, exists_or, or_comm]
  · rw [hturn.reports_eq, View.begin, h.reports_eq, hturns]
    simp

/-- A run goes on with the block for the next assembly. -/
theorem ends_translateAssembly (h : Progress turnOf start before view)
    (hgraph : stage.program.graph.WellFormed) (hapart : stage.program.graph.AssembliesApart)
    (honce : stage.program.graph.DefinesOnce)
    (hbefore : before ⊆ stage.program.graph.assemblies)
    (hassembly : assembly ∈ stage.program.graph.assemblies)
    (hturn : stage.FirstTurn assembly (turnOf assembly)) :
    stage.Ends (Run.translateAssembly assembly)
      (fun _ later => Progress turnOf start (before ++ [assembly]) later ∧
        ∃ added, later.output = view.output ++ added ∧ withoutNamespaces added =
          (if (before.map (·.fullName)).contains assembly.fullName then {}
            else turnOf assembly : Turn).output) view := by
  by_cases hknown : (before.map (·.fullName)).contains assembly.fullName = true
  · have hbegun : view.begun.contains assembly.fullName = true :=
      List.contains_iff_mem.2 ((h.begun _).2 (List.contains_iff_mem.1 hknown))
    rw [Run.translateAssembly, if_pos hknown]
    refine ends_consult ?_
    rintro session - rfl
    exact (if_pos hbegun : _ = _) ▸
      ends_pure ⟨h.again hknown, [], (List.append_nil _).symm, rfl⟩
  · have hfresh : assembly.fullName ∉ view.begun := fun hmem =>
      hknown (List.contains_iff_mem.2 ((h.begun _).1 hmem))
    have hnew : assembly ∉ before := fun hmem =>
      hknown (List.contains_iff_mem.2 (List.mem_map_of_mem hmem))
    rw [if_neg hknown]
    refine (hturn.ends view (h.knows hgraph hapart honce hbefore hassembly hnew) hfresh).mono ?_
    exact fun _ later hlater => ⟨h.next hknown hturn.own hlater, hlater.adds⟩

end Progress

end Stage

namespace Translator

theorem IsFresh.progress {translator : Translator} (h : translator.IsFresh)
    (turnOf : AssemblyDef → Turn) :
    Stage.Progress turnOf translator.diagnostics.entries [] translator.view where
  begun name := by
    rw [show translator.view.begun = [] from h.begun_eq]
    rfl
  own id hid := by
    rw [show translator.view.declared = [] from h.declared_eq] at hid
    cases hid
  spaced := View.spaced_empty h.namespaces_eq rfl
  mem_namespaces_iff path := by
    rw [show translator.view.namespaces = [] from h.namespaces_eq]
    simp [turnsAfter]
  reports_eq := (List.append_nil _).symm

/-- What holds when a run over the assemblies has come to its end. -/
structure Completes (translator : Translator) (sink : Sink) (turnOf : AssemblyDef → Turn)
    (listed : List AssemblyDef) : Prop where
  progress : Stage.Progress turnOf translator.diagnostics.entries listed
    (translator.translate sink listed).view
  output_eq : (translator.blocks sink listed).flatMap (·.2) =
    (translator.translate sink listed).output
  blocks_eq : (translator.blocks sink listed).map (fun turn => (turn.1, withoutNamespaces turn.2)) =
    (turnsAfter turnOf [] listed).map fun turn => (turn.1, turn.2.output)

theorem translate_eq_of_run {translator : Translator} {sink : Sink} {listed : List AssemblyDef}
    {value : PUnit} {session : Session}
    (h : (listed.forM Run.translateAssembly).run.run { translator, sink } = (.ok value, session)) :
    translator.translate sink listed =
      { translator := session.translator, output := session.output, failure := none } := by
  rw [translate, h]

theorem completes_of_run {translator : Translator} (hfresh : translator.IsFresh)
    (hgraph : translator.store.graph.WellFormed)
    (hapart : translator.store.graph.AssembliesApart)
    (honce : translator.store.graph.DefinesOnce) {sink : Sink} {turnOf : AssemblyDef → Turn}
    (hturn : ∀ assembly ∈ translator.store.graph.assemblies,
      (translator.stage sink fun _ _ => True).FirstTurn assembly (turnOf assembly))
    {listed : List AssemblyDef} (hlisted : listed ⊆ translator.store.graph.assemblies)
    {value : PUnit} {session : Session}
    (hrun : (listed.forM Run.translateAssembly).run.run { translator, sink } =
      (.ok value, session)) :
    (translator.stage sink fun _ _ => True).Carries session ∧
      translator.Completes sink turnOf listed := by
  induction listed using List.reverseRecOn generalizing value session with
  | nil =>
    obtain rfl : { translator, sink } = session := congrArg Prod.snd hrun
    exact ⟨hfresh.carries sink _, hfresh.progress turnOf, rfl, rfl⟩
  | append_singleton before assembly ih =>
    obtain ⟨hbefore, hrest⟩ := List.append_subset.1 hlisted
    have hassembly : assembly ∈ translator.store.graph.assemblies := hrest (by simp)
    have houtcome := translate_eq_of_run hrun
    rw [forM_concat, Comparison.run_bind] at hrun
    rcases hfirst : (before.forM Run.translateAssembly).run.run { translator, sink } with
      ⟨error | found, middle⟩
    all_goals rw [hfirst] at hrun
    · exact absurd (congrArg Prod.fst hrun) (by simp)
    obtain ⟨hcarries, hprogress, houtput, hblocks⟩ := ih hbefore hfirst
    have hmiddle := translate_eq_of_run hfirst
    have hview : middle.view = (translator.translate sink before).view := by
      rw [hmiddle]
      rfl
    have hends := Stage.Progress.ends_translateAssembly hprogress hgraph hapart honce hbefore
      hassembly (hturn assembly hassembly) middle hcarries hview
    dsimp only at hrun
    rw [hrun] at hends
    obtain ⟨hlater, hnext, added, hadded, hturns⟩ := hends
    have hsession : session.output = middle.output ++ added := by
      rw [← hview] at hadded
      exact hadded
    have hblock : translator.block sink before assembly = added := by
      rw [block, houtcome, hmiddle]
      dsimp only
      rw [hsession, List.drop_left]
    refine ⟨hlater, ?_, ?_, ?_⟩
    · rw [houtcome]
      exact hnext
    · rw [blocks_concat, List.flatMap_append, houtput, hmiddle, List.flatMap_singleton, hblock,
        houtcome]
      exact hsession.symm
    · rw [blocks_concat, turnsAfter_concat, List.map_append, List.map_append, hblocks,
        List.append_nil, List.map_singleton, List.map_singleton, hblock, hturns]

/-- A run that ends without a failure has taken the turns of its assemblies, in the order of the
list. -/
theorem completes {translator : Translator} (hfresh : translator.IsFresh)
    (hgraph : translator.store.graph.WellFormed)
    (hapart : translator.store.graph.AssembliesApart)
    (honce : translator.store.graph.DefinesOnce) {sink : Sink} {turnOf : AssemblyDef → Turn}
    (hturn : ∀ assembly ∈ translator.store.graph.assemblies,
      (translator.stage sink fun _ _ => True).FirstTurn assembly (turnOf assembly))
    {listed : List AssemblyDef} (hlisted : listed ⊆ translator.store.graph.assemblies)
    (hcomplete : (translator.translate sink listed).failure = none) :
    translator.Completes sink turnOf listed := by
  rcases hrun : (listed.forM Run.translateAssembly).run.run { translator, sink } with
    ⟨error | value, session⟩
  · rw [translate, hrun] at hcomplete
    cases hcomplete
  · exact (completes_of_run hfresh hgraph hapart honce hturn hlisted hrun).2

/-- A run over the same assemblies in another order: its blocks are the same up to
their order and up to where a namespace comes in first. -/
structure Rearranges (translator : Translator) (sink : Sink) (listed permuted : List AssemblyDef) :
    Prop where
  listed_output_eq : (translator.translate sink listed).output =
    (translator.blocks sink listed).flatMap (·.2)
  permuted_output_eq : (translator.translate sink permuted).output =
    (translator.blocks sink permuted).flatMap (·.2)
  blocks_perm :
    ((translator.blocks sink listed).map fun turn => (turn.1, withoutNamespaces turn.2)).Perm
      ((translator.blocks sink permuted).map fun turn => (turn.1, withoutNamespaces turn.2))
  mem_namespaces_iff : ∀ path,
    .namespaceObject path ∈ (translator.translate sink listed).output ↔
      .namespaceObject path ∈ (translator.translate sink permuted).output
  reports_perm : (translator.translate sink listed).translator.diagnostics.entries.Perm
    (translator.translate sink permuted).translator.diagnostics.entries

/-- Two complete runs that take the same turns in another order rearrange the output by blocks.
-/
theorem Completes.rearranges {translator : Translator} {sink : Sink}
    {turnOf : AssemblyDef → Turn} {listed permuted : List AssemblyDef}
    (hlisted : translator.Completes sink turnOf listed)
    (hpermuted : translator.Completes sink turnOf permuted)
    (hturns : (turnsAfter turnOf [] listed).Perm (turnsAfter turnOf [] permuted)) :
    translator.Rearranges sink listed permuted where
  listed_output_eq := hlisted.output_eq.symm
  permuted_output_eq := hpermuted.output_eq.symm
  blocks_perm := by
    rw [hlisted.blocks_eq, hpermuted.blocks_eq]
    exact hturns.map _
  mem_namespaces_iff path := by
    have hfirst := hlisted.progress.spaced.mem_iff path
    have hsecond := hpermuted.progress.spaced.mem_iff path
    rw [hlisted.progress.mem_namespaces_iff] at hfirst
    rw [hpermuted.progress.mem_namespaces_iff] at hsecond
    refine hfirst.trans (Iff.trans ?_ hsecond.symm)
    exact exists_congr fun entry => and_congr_left fun _ => hturns.mem_iff
  reports_perm := by
    have hfirst := hlisted.progress.reports_eq
    have hsecond := hpermuted.progress.reports_eq
    change (translator.translate sink listed).view.reports.Perm
      (translator.translate sink permuted).view.reports
    rw [hfirst, hsecond]
    exact (hturns.flatMap_right _).append_left _

/-- Nothing stops a run if the sink takes everything and only methods can be at fault. -/
theorem failure_eq_none {translator : Translator} (hfresh : translator.IsFresh)
    (hgraph : translator.store.graph.WellFormed) {sink : Sink}
    (haccepts : ∀ taken declaration, sink.accept taken declaration = .ok ())
    (hdecompiles : ∀ method error, translator.decompile method = .error error →
      error.isMethodLocal = true)
    {listed : List AssemblyDef} (hlisted : listed ⊆ translator.store.graph.assemblies) :
    (translator.translate sink listed).failure = none := by
  let stage := translator.stage sink fun _ _ => False
  have hunfailing : stage.Unfailing := ⟨haccepts, hdecompiles⟩
  have hindexed : ∀ assembly ∈ listed, ∀ top ∈ Run.roots assembly,
      stage.program.graph.Indexes top := fun assembly hassembly top htop =>
    Run.indexes_of_mem_roots hgraph.toLoaded (hlisted hassembly) htop
  have hends := (Contract.idle_kept hunfailing.mayStop listed).ends_translateAll hgraph hindexed
    (hfresh.accounts stage) trivial
  rcases hends.translate (hfresh.carries sink _) with ⟨hnone, -⟩ | ⟨-, hstopped⟩
  · exact hnone
  · exact hstopped.elim

/-- The order of the assemblies does not matter.  If nothing can stop the runs, both
come to their ends; and if they do, one rearranges the blocks of the other. -/
theorem translate_any_order {translator : Translator} (hfresh : translator.IsFresh)
    (hgraph : translator.store.graph.WellFormed)
    (hapart : translator.store.graph.AssembliesApart)
    (honce : translator.store.graph.DefinesOnce) {listed permuted : List AssemblyDef}
    (hlisted : listed ⊆ translator.store.graph.assemblies) (hperm : listed.Perm permuted)
    (sink : Sink) :
    ((∀ taken declaration, sink.accept taken declaration = .ok ()) →
      (∀ method error, translator.decompile method = .error error → error.isMethodLocal = true) →
      (translator.translate sink listed).failure = none ∧
        (translator.translate sink permuted).failure = none) ∧
    ((translator.translate sink listed).failure = none →
      (translator.translate sink permuted).failure = none →
      translator.Rearranges sink listed permuted) := by
  have hpermuted : permuted ⊆ translator.store.graph.assemblies :=
    List.Subset.trans hperm.symm.subset hlisted
  constructor
  · exact fun haccepts hdecompiles =>
      ⟨failure_eq_none hfresh hgraph haccepts hdecompiles hlisted,
        failure_eq_none hfresh hgraph haccepts hdecompiles hpermuted⟩
  intro hcomplete hother
  let stage := translator.stage sink fun _ _ => True
  have hexists : ∀ assembly, ∃ turn, assembly ∈ translator.store.graph.assemblies →
      stage.FirstTurn assembly turn := by
    intro assembly
    by_cases hassembly : assembly ∈ translator.store.graph.assemblies
    · obtain ⟨turn, hturn⟩ : ∃ turn, stage.FirstTurn assembly turn :=
        Stage.exists_firstTurn (fun _ => .inr trivial) hgraph hapart honce hassembly
      exact ⟨turn, fun _ => hturn⟩
    · exact ⟨{}, fun hmem => absurd hmem hassembly⟩
  choose turnOf hturn using hexists
  refine (completes hfresh hgraph hapart honce hturn hlisted hcomplete).rearranges
    (completes hfresh hgraph hapart honce hturn hpermuted hother)
    (turnsAfter_perm hperm fun left hleft right hright => ?_)
  exact List.inj_on_of_nodup_map hgraph.nodup (hlisted hleft) (hlisted hright)

/-- A class of the namespace `App` in an assembly of its own, with a base from another. -/
def outpostAssembly : AssemblyBlueprint :=
  { sampleAssembly [sampleClass "Third" (some "First") []] with identity := { name := "Lib" } }

/-- An assembly with a base in another one may be listed before it: the declaration of the
namespace is all that moves. -/
theorem translate_any_order_outpostAssembly :
    let translator := ({} : Settings).translator
      (Graph.ofAssemblies [ringAssembly.build, outpostAssembly.build]) {}
    let listed := [ringAssembly.build, outpostAssembly.build]
    let permuted := [outpostAssembly.build, ringAssembly.build]
    translator.store.graph.AssembliesApart ∧ translator.store.graph.DefinesOnce ∧
      (translator.blocks .collecting listed).map (·.2.map Declaration.kind) =
        [[.namespaceObject, .classShell, .classShell, .classShell, .untranslatable, .untranslatable,
          .sealed, .sealed], [.classShell]] ∧
      (translator.blocks .collecting permuted).map (·.2.map Declaration.kind) =
        [[.namespaceObject, .classShell], [.classShell, .classShell, .classShell, .untranslatable,
          .untranslatable, .sealed, .sealed]] ∧
      (translator.translate .collecting listed).failure = none ∧
      (translator.translate .collecting permuted).failure = none ∧
      translator.Rearranges .collecting listed permuted := by
  intro translator listed permuted
  have hapart : translator.store.graph.AssembliesApart := by
    change List.Pairwise _ _
    decide +kernel
  have honce : translator.store.graph.DefinesOnce := by
    change List.Nodup _
    decide +kernel
  have hlisted : listed ⊆ translator.store.graph.assemblies := List.Subset.refl listed
  have horder := translate_any_order (isFresh_translator {} _ {})
    (Graph.wellFormed_ofAssemblies [ringAssembly, outpostAssembly]) hapart honce hlisted
    (.swap _ _ _) .collecting
  obtain ⟨hcomplete, hother⟩ := horder.1 (fun _ _ => rfl)
    fun _ _ => isMethodLocal_of_decompile_eq_error
  exact ⟨hapart, honce, by decide +kernel, by decide +kernel, hcomplete, hother,
    horder.2 hcomplete hother⟩

end Translator

end Assemblage.Script
