import Assemblage.Proofs.Script.Ledger
import Mathlib.Logic.Relation

/-!
# Bases before derived types

A shell waits for that of its base, and while it waits other types come up: the
base, the base of that, and whatever is nested in a type that has been declared
in the meantime.  If none of this leads back to the type that waits, its base has
been declared when its turn comes.  A base that waits itself is taken for one
whose chain of bases repeats; but a type nested in a base on the chain may as
well derive from a type that still waits.
-/

namespace Assemblage

namespace Graph

open Relation

def HasBase (graph : Graph) (definition base : TypeDef) : Prop :=
  graph.baseType? definition = some base

/-- The chain of bases from the type on never comes to a type twice. -/
def ChainEnds (graph : Graph) (definition : TypeDef) : Prop :=
  ∀ base, ReflTransGen graph.HasBase definition base → ¬TransGen graph.HasBase base base

/-- Declaring the one type leads on to the other. -/
inductive Leads (graph : Graph) : TypeDef → TypeDef → Prop
  | base {definition base : TypeDef} (h : Script.Run.ownBase? graph definition = some base) :
    Leads graph definition base
  | nested {definition inner : TypeDef} (h : inner ∈ definition.nested) :
    Leads graph definition inner

/-- The shell of the first type may wait while the other is declared. -/
def Awaits (graph : Graph) (definition other : TypeDef) : Prop :=
  ∃ base, Script.Run.ownBase? graph definition = some base ∧ ReflTransGen graph.Leads base other

/-- The bases of the first type lead to the other by way of a nested type. -/
def Tangles (graph : Graph) (definition other : TypeDef) : Prop :=
  ∃ outer inner, graph.Awaits definition outer ∧ inner ∈ outer.nested ∧
    ReflTransGen graph.Leads inner other

variable {graph : Graph} {definition base other : TypeDef}

theorem hasBase_of_ownBase? (h : Script.Run.ownBase? graph definition = some base) :
    graph.HasBase definition base ∧ base.sameAssembly definition = true :=
  Option.filter_eq_some_iff.1 h

theorem Awaits.leads {next : TypeDef} (h : graph.Awaits definition other)
    (hleads : graph.Leads other next) : graph.Awaits definition next := by
  obtain ⟨base, hbase, hpath⟩ := h
  exact ⟨base, hbase, hpath.tail hleads⟩

/-- A type waits for all that its base waits for. -/
theorem Awaits.of_base (h : graph.Awaits base other)
    (hbase : Script.Run.ownBase? graph definition = some base) : graph.Awaits definition other := by
  obtain ⟨next, hnext, hpath⟩ := h
  exact ⟨base, hbase, hpath.head (.base hnext)⟩

/-- A way without nested types is a chain of bases. -/
theorem Awaits.chain_or_tangles (h : graph.Awaits definition other) :
    TransGen graph.HasBase definition other ∨ graph.Tangles definition other := by
  obtain ⟨base, hbase, hpath⟩ := h
  induction hpath with
  | refl => exact .inl (.single (hasBase_of_ownBase? hbase).1)
  | @tail middle other hpath hlast ih =>
    cases hlast with
    | base hlast =>
      refine ih.imp (fun hchain => hchain.tail (hasBase_of_ownBase? hlast).1) ?_
      rintro ⟨outer, inner, houter, hinner, hrest⟩
      exact ⟨outer, inner, houter, hinner, hrest.tail (.base hlast)⟩
    | nested hlast => exact .inr ⟨middle, other, ⟨base, hbase, hpath⟩, hlast, .refl⟩

theorem chainEnds_of_baseType?_eq_none (h : graph.baseType? definition = none) :
    graph.ChainEnds definition := by
  have hstop : ∀ other, ¬graph.HasBase definition other := by
    intro other hother
    rw [HasBase, h] at hother
    cases hother
  intro base hpath hcycle
  rcases hpath.cases_head with rfl | ⟨next, hnext, -⟩
  · obtain ⟨next, hnext, -⟩ := TransGen.head'_iff.1 hcycle
    exact hstop next hnext
  · exact hstop next hnext

/-- A chain of bases that ends does so from each type that leads into it. -/
theorem ChainEnds.of_hasBase (h : graph.ChainEnds base) (hbase : graph.HasBase definition base) :
    graph.ChainEnds definition := by
  have honly : ∀ next, graph.HasBase definition next → next = base :=
    fun next hnext => Option.some.inj (hnext.symm.trans hbase)
  intro other hpath hcycle
  rcases hpath.cases_head with rfl | ⟨next, hfirst, hrest⟩
  · obtain ⟨next, hfirst, hrest⟩ := TransGen.head'_iff.1 hcycle
    rw [honly next hfirst] at hrest
    exact h base .refl (TransGen.tail' hrest hbase)
  · rw [honly next hfirst] at hrest
    exact h other hrest hcycle

/-- A type whose chain ends is not led back to by its base, unless in a tangle. -/
theorem not_awaits_of_chainEnds (hbase : Script.Run.ownBase? graph definition = some base)
    (hchain : graph.ChainEnds definition) (htangle : ¬graph.Tangles base definition) :
    ¬graph.Awaits base definition := by
  intro hawaits
  rcases hawaits.chain_or_tangles with hback | htangles
  · exact hchain definition .refl (hback.head (hasBase_of_ownBase? hbase).1)
  · exact htangle htangles

end Graph

namespace Script

/-- The shell of a type comes after that of its base from the same assembly. -/
def FindsBase (program : Program) (declaration : Declaration) (before : List Declaration) : Prop :=
  ∀ definition base, program.graph.Indexes definition →
    declaration.declaredType? = some definition.fullName →
    definition.kind.isDeclaredInFull = false →
    Run.ownBase? program.graph definition = some base →
    program.ignoresDefinition base = false → ¬program.graph.Awaits base definition →
    ∃ earlier ∈ before, earlier.declaredType? = some base.fullName

/-- No cycle is reported where no type awaits itself. -/
def ReportsCycles (program : Program) (listed : List AssemblyDef)
    (initial reports : List Diagnostic) : Prop :=
  (∀ definition, program.graph.Belongs listed definition →
    ¬program.graph.Awaits definition definition) →
  ∀ entry ∈ reports, entry ∈ initial ∨ ∀ definition, entry ≠ Run.baseCycle definition

/-- The contract of a run in which bases come first. -/
def Contract.basesFirst (program : Program) (listed : List AssemblyDef)
    (initial : List Diagnostic) : Contract where
  holds waiting view := Ledger waiting view ∧ Grounded (FindsBase program) view.output ∧
    ReportsCycles program listed initial view.reports
  admits waiting definition _ := program.graph.Belongs listed definition ∧
    ∀ other, program.graph.Indexes other → other.typeId ∈ waiting →
      program.graph.Awaits other definition

variable {program : Program} {listed : List AssemblyDef} {initial : List Diagnostic}

theorem findsBase_of_none {declaration : Declaration} {before : List Declaration}
    (h : declaration.declaredType? = none) : FindsBase program declaration before := by
  intro definition base _ hdeclared
  rw [h] at hdeclared
  cases hdeclared

namespace Contract

variable {stage : Stage} {waiting : List TypeId} {view admitted : View}
  {definition base : TypeDef} {model : TypeModel}

/-- What waits for a type, and the type itself, awaits the base of the type. -/
theorem awaits_base (honce : program.graph.DefinesOnce)
    (hadmits : (basesFirst program listed initial).admits waiting definition admitted)
    (hbase : Run.ownBase? program.graph definition = some base) {other : TypeDef}
    (hother : program.graph.Indexes other) (hwaits : other.typeId ∈ definition.typeId :: waiting) :
    program.graph.Awaits other base := by
  rcases List.mem_cons.1 hwaits with hid | hwaits
  · obtain rfl := honce.eq_of_typeId_eq hother hadmits.1.1 hid
    exact ⟨base, hbase, .refl⟩
  · exact (hadmits.2 other hother hwaits).leads (.base hbase)

/-- A base that waits awaits the type. -/
theorem awaits_of_waiting (honce : program.graph.DefinesOnce)
    (hadmits : (basesFirst program listed initial).admits waiting definition admitted)
    (hbase : Run.ownBase? program.graph definition = some base)
    (hwaits : base.typeId ∈ definition.typeId :: waiting) :
    program.graph.Awaits base definition := by
  have hindexed := Graph.indexes_of_baseType? (Graph.hasBase_of_ownBase? hbase).1
  rcases List.mem_cons.1 hwaits with hid | hwaits
  · obtain rfl := honce.eq_of_typeId_eq hindexed hadmits.1.1 hid
    exact ⟨base, hbase, .refl⟩
  · exact hadmits.2 base hindexed hwaits

/-- The declaration of a type finds its base before it, unless the base is among the types that
wait. -/
theorem findsBase_typeDeclaration (honce : stage.program.graph.DefinesOnce)
    (hadmits : (basesFirst stage.program listed initial).admits waiting definition admitted)
    (hledger : Ledger (definition.typeId :: waiting) view)
    (hmodel : stage.Models definition model)
    (hbase : model.kind.isDeclaredInFull = false → ∀ base,
      Run.ownBase? stage.program.graph definition = some base →
      base.typeId ∈ definition.typeId :: waiting ∨ stage.Settled base view) :
    FindsBase stage.program (typeDeclaration model) view.output := by
  intro other base hother hdeclared hkind hown hignored hawaits
  obtain rfl := hmodel.eq_modelOf honce
  rw [declaredType?_typeDeclaration, Option.some.injEq] at hdeclared
  have hsame : definition = other := honce.eq_of_typeId_eq hadmits.1.1 hother
    (congrArg TypeId.ofFullName hdeclared)
  subst hsame
  have hwaits : base.typeId ∉ definition.typeId :: waiting :=
    fun hwaits => hawaits (awaits_of_waiting honce hadmits hown hwaits)
  have hindexed := Graph.indexes_of_baseType? (Graph.hasBase_of_ownBase? hown).1
  have hrecord := ((hbase hkind base hown).resolve_left hwaits).mem_declared honce hindexed hignored
  exact View.exists_of_mem_made ((hledger.mem_declared_iff.1 hrecord).resolve_right hwaits)

/-- The account of bases is a contract that every stage keeps. -/
theorem basesFirst_kept (honce : stage.program.graph.DefinesOnce)
    (hgraph : stage.program.graph.WellFormed) (hlisted : listed ⊆ stage.program.graph.assemblies)
    (hstopped : ∀ output reports, Grounded (FindsBase stage.program) output →
      ReportsCycles stage.program listed initial reports → stage.stopped output reports) :
    (basesFirst stage.program listed initial).KeptThroughout stage listed where
  mayStop h := .inr (hstopped _ _ h.2.1 h.2.2)
  opens h hadmits _ _ _ hnew := by
    refine ⟨h.1.opens hnew, Grounded.space ?_ fun _ _ => findsBase_of_none rfl, ?_⟩
    · exact h.2.1
    · rw [(View.space_records _ _).2.2]
      exact h.2.2
  closes hadmits h hmodel _ hbase :=
    ⟨h.1.closes hmodel.faithful.typeId_eq,
      h.2.1.concat (findsBase_typeDeclaration honce hadmits h.1 hmodel hbase), h.2.2⟩
  cycles hadmits h hbase hwaits := by
    refine ⟨⟨h.1.balanced, h.1.nodup⟩, h.2.1, fun hfree => ?_⟩
    have hawaits := (awaits_of_waiting honce hadmits hbase hwaits).of_base hbase
    exact absurd hawaits (hfree _ hadmits.1)
  bases hadmits _ hbase _ :=
    ⟨hadmits.1.of_sameAssembly (Graph.indexes_of_baseType? (Graph.hasBase_of_ownBase? hbase).1)
      (Graph.hasBase_of_ownBase? hbase).2,
      fun other hother hwaits => awaits_base honce hadmits hbase hother hwaits⟩
  nested hadmits _ _ hmodel hinner := by
    rw [hmodel.eq_modelOf honce] at hinner
    have hinner := hinner.elim id id
    exact ⟨hadmits.1.nested hgraph hinner, fun other hother hwaits =>
      (hadmits.2 other hother hwaits).leads (.nested hinner)⟩
  begins h := ⟨⟨h.1.balanced, h.1.nodup⟩, h.2⟩
  roots hassembly htop _ := by
    have hmem := Run.mem_allTypes_of_mem_roots (Run.mem_withNestedAll_of_mem htop)
    exact ⟨Graph.belongs_of_mem_allTypes hgraph hassembly (hlisted hassembly) hmem, by simp⟩
  inside hassembly :=
    { members := fun h hphase => by
        have hnone := Declaration.declaredType?_of_phase (by rw [hphase]; decide)
        exact ⟨h.1.emit hnone, h.2.1.concat (findsBase_of_none hnone), h.2.2⟩
      untranslated := fun {view method error} h => by
        refine ⟨⟨h.1.balanced, h.1.nodup⟩, h.2.1, fun hfree entry hentry => ?_⟩
        rcases List.mem_append.1 hentry with hold | hnew
        · exact h.2.2 hfree entry hold
        · rw [List.mem_singleton.1 hnew]
          exact .inr fun definition heq => nomatch congrArg Diagnostic.category heq
      parameters := fun _ hmem hmodel _ _ _ hparameter => by
        rw [hmodel.eq_modelOf honce] at hparameter
        have hbelongs := Graph.belongs_of_mem_allTypes hgraph hassembly (hlisted hassembly)
          (Run.mem_allTypes_of_mem_roots hmem)
        obtain ⟨hindexed, hmodule⟩ := indexes_of_mem_parameterTypes hparameter
        exact ⟨hbelongs.of_sameAssembly hindexed (Bool.and_eq_true_iff.1 hmodule).1, by simp⟩ }
  seals h := ⟨h.1.emit rfl, h.2.1.concat (findsBase_of_none rfl), h.2.2⟩

end Contract

namespace Translator

/-- Whatever the order and nesting of the types, the shell of a type comes after
that of its base from the same assembly, and no cycle is reported, unless chains of
bases repeat or a base leads back to a type by way of a nested one.  A run that
is not stopped declares every type that is not ignored. -/
theorem translate_declares_bases_first {translator : Translator} (hfresh : translator.IsFresh)
    (hgraph : translator.store.graph.WellFormed) (honce : translator.store.graph.DefinesOnce)
    {listed : List AssemblyDef} (hlisted : listed ⊆ translator.store.graph.assemblies)
    (sink : Sink) :
    let graph := translator.store.graph
    let outcome := translator.translate sink listed
    (∀ definition base, graph.Indexes definition → definition.kind.isDeclaredInFull = false →
      graph.HasBase definition base → base.sameAssembly definition = true →
      translator.store.program.ignoresDefinition base = false →
      graph.ChainEnds definition → ¬graph.Tangles base definition →
      ∀ before declaration after, outcome.output = before ++ declaration :: after →
        declaration.declaredType? = some definition.fullName →
        ∃ earlier ∈ before, earlier.declaredType? = some base.fullName) ∧
    ((∀ definition, graph.Belongs listed definition →
        graph.ChainEnds definition ∧ ¬graph.Tangles definition definition) →
      ∀ entry ∈ outcome.translator.diagnostics.entries,
        entry ∈ translator.diagnostics.entries ∨ ∀ definition, entry ≠ Run.baseCycle definition) ∧
    (outcome.failure = none →
      ∀ assembly ∈ listed, ∀ definition ∈ TypeDef.withNestedAll (Run.roots assembly),
        translator.store.program.ignoresDefinition definition = false →
        ∃ declaration ∈ outcome.output, declaration.declaredType? = some definition.fullName) := by
  let program := translator.store.program
  let initial := translator.diagnostics.entries
  let stage := translator.stage sink fun output reports =>
    Grounded (FindsBase program) output ∧ ReportsCycles program listed initial reports
  have hindexed : ∀ assembly ∈ listed, ∀ top ∈ Run.roots assembly,
      program.graph.Indexes top :=
    fun assembly hassembly top htop =>
      Run.indexes_of_mem_roots hgraph.toLoaded (hlisted hassembly) htop
  have hstart : (Contract.basesFirst program listed initial).holds [] translator.view :=
    ⟨.empty hfresh.declared_eq rfl, grounded_nil _, fun _ entry hentry => .inl hentry⟩
  have hkept : (Contract.basesFirst stage.program listed initial).KeptThroughout stage listed :=
    Contract.basesFirst_kept honce hgraph hlisted fun _ _ => And.intro
  have hends := hkept.ends_translateAll hgraph hindexed (hfresh.accounts stage) hstart
  have hall : Grounded (FindsBase program) (translator.translate sink listed).output ∧
      ReportsCycles program listed initial
        (translator.translate sink listed).translator.diagnostics.entries := by
    rcases hends.translate (hfresh.carries sink _) with ⟨-, -, hholds, -⟩ | ⟨-, hstopped⟩
    · exact hholds.2
    · exact hstopped
  refine ⟨?_, ?_, ?_⟩
  · intro definition base hdefinition hkind hbase hsame hignored hchain htangle before declaration
      after houtput hdeclared
    have hown : Run.ownBase? program.graph definition = some base :=
      Option.filter_eq_some_iff.2 ⟨hbase, hsame⟩
    exact hall.1 before declaration after houtput definition base hdefinition hdeclared hkind hown
      hignored (Graph.not_awaits_of_chainEnds hown hchain htangle)
  · intro hfree
    refine hall.2 fun definition hbelongs hawaits => ?_
    rcases hawaits.chain_or_tangles with hchain | htangle
    · exact (hfree definition hbelongs).1 definition .refl hchain
    · exact (hfree definition hbelongs).2 htangle
  · intro hnone assembly hassembly definition hdefinition hignored
    rcases hends.translate (hfresh.carries sink _) with
      ⟨-, -, hholds, haccounts⟩ | ⟨⟨error, herror⟩, -⟩
    · have hinGraph : program.graph.Indexes definition := hgraph.indexes_iff.2
        ⟨assembly, hlisted hassembly, Run.mem_allTypes_of_mem_roots hdefinition⟩
      have hrecord := (haccounts.settled honce hlisted assembly hassembly definition
        hdefinition).mem_declared honce hinGraph hignored
      exact View.exists_of_mem_made (by simpa using hholds.1.mem_declared_iff.1 hrecord)
    · exact absurd (hnone.symm.trans herror) (by simp)

/-- A chain of three classes, the last of them first. -/
def chainRoot : TypeBlueprint :=
  sampleClass "Root" none []

def chainBase : TypeBlueprint :=
  sampleClass "Base" (some "Root") []

def chainDerived : TypeBlueprint :=
  sampleClass "Derived" (some "Base") [sampleClass "Part" (some "Derived") []]

def chainAssembly : AssemblyBlueprint :=
  sampleAssembly [chainDerived, chainBase, chainRoot]

/-- A class is declared after its base, though it is listed first. -/
theorem translate_declares_bases_first_chainAssembly :
    let graph := (ofBlueprint chainAssembly).store.graph
    let derived := chainDerived.build sampleScope none
    let base := chainBase.build sampleScope none
    graph.DefinesOnce ∧ graph.HasBase derived base ∧ graph.ChainEnds derived ∧
      ¬graph.Tangles base derived ∧
      ∀ before declaration after,
        ((ofBlueprint chainAssembly).translate .collecting [chainAssembly.build]).output =
          before ++ declaration :: after →
        declaration.declaredType? = some derived.fullName →
        ∃ earlier ∈ before, earlier.declaredType? = some base.fullName := by
  intro graph derived base
  have honce : graph.DefinesOnce := by
    change List.Nodup _
    decide +kernel
  have hbase : graph.HasBase derived base := rfl
  have hroot : graph.HasBase base (chainRoot.build sampleScope none) := rfl
  have hchain : graph.ChainEnds derived :=
    ((Graph.chainEnds_of_baseType?_eq_none rfl).of_hasBase hroot).of_hasBase hbase
  have htangle : ¬graph.Tangles base derived := by
    rintro ⟨outer, inner, ⟨root, hown, hpath⟩, hinner, -⟩
    have heq : root = chainRoot.build sampleScope none :=
      Option.some.inj ((Graph.hasBase_of_ownBase? hown).1.symm.trans hroot)
    subst heq
    rcases hpath.cases_head with rfl | ⟨next, hnext, -⟩
    · cases hinner
    · cases hnext with
      | base hnext => exact nomatch (Graph.hasBase_of_ownBase? hnext).1
      | nested hnext => cases hnext
  have hindexed : graph.Indexes derived := ⟨_, .head _, rfl⟩
  exact ⟨honce, hbase, hchain, htangle,
    (translate_declares_bases_first (isFresh_ofBlueprint chainAssembly)
      (wellFormed_ofBlueprint chainAssembly) honce (List.Subset.refl _) .collecting).1
      derived base hindexed (by decide +kernel) hbase (by decide +kernel) (by decide +kernel)
      hchain htangle⟩

/-- A class that is nested in a base of the one it derives from. -/
def tangledInner : TypeBlueprint :=
  sampleClass "Inner" (some "Derived") []

def tangledBase : TypeBlueprint :=
  sampleClass "Base" none [tangledInner]

def tangledDerived : TypeBlueprint :=
  sampleClass "Derived" (some "Base") []

def tangledAssembly : AssemblyBlueprint :=
  sampleAssembly [tangledDerived, tangledBase]

/-- In a tangle a type may come before its base although its chain of bases ends,
and a cycle is reported that there is not. -/
theorem not_declares_bases_first_tangledAssembly :
    let graph := (ofBlueprint tangledAssembly).store.graph
    let outcome := (ofBlueprint tangledAssembly).translate .collecting [tangledAssembly.build]
    let derived := tangledDerived.build sampleScope none
    let inner := tangledInner.build sampleScope (some ⟨"App", "App.Base"⟩)
    graph.DefinesOnce ∧ graph.HasBase inner derived ∧ derived.sameAssembly inner = true ∧
      graph.ChainEnds inner ∧
      (ofBlueprint tangledAssembly).store.program.ignoresDefinition inner = false ∧
      (ofBlueprint tangledAssembly).store.program.ignoresDefinition derived = false ∧
      Run.baseCycle inner ∈ outcome.translator.diagnostics.entries ∧
      ¬∀ before declaration after, outcome.output = before ++ declaration :: after →
        declaration.declaredType? = some inner.fullName →
        ∃ earlier ∈ before, earlier.declaredType? = some derived.fullName := by
  intro graph outcome derived inner
  have honce : graph.DefinesOnce := by
    change List.Nodup _
    decide +kernel
  have hderived : graph.HasBase derived (tangledBase.build sampleScope none) := rfl
  have hinner : graph.HasBase inner derived := rfl
  have hchain : graph.ChainEnds inner :=
    ((Graph.chainEnds_of_baseType?_eq_none rfl).of_hasBase hderived).of_hasBase hinner
  refine ⟨honce, hinner, by decide +kernel, hchain, by decide +kernel, by decide +kernel,
    by decide +kernel, fun h => ?_⟩
  have houtput : outcome.output.map Declaration.declaredType? =
      [none, some "App.Base", some "App.Base/Inner", some "App.Derived"] := by decide +kernel
  obtain ⟨space, rest, hrest, hspace, htail⟩ := List.map_eq_cons_iff.1 houtput
  obtain ⟨first, others, rfl, hfirst, htail⟩ := List.map_eq_cons_iff.1 htail
  obtain ⟨second, last, rfl, hsecond, -⟩ := List.map_eq_cons_iff.1 htail
  obtain ⟨earlier, hearlier, hdeclared⟩ := h [space, first] second last hrest hsecond
  rcases List.mem_pair.1 hearlier with rfl | rfl
  · exact absurd (hspace.symm.trans hdeclared) (by decide +kernel)
  · exact absurd (hfirst.symm.trans hdeclared) (by decide +kernel)

end Translator

end Script

end Assemblage
