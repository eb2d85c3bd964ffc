import Assemblage.Proofs.Script.Identifier
import Assemblage.Proofs.Script.Ledger

/-!
# Namespaces before types

A type that is not nested declares its namespace before anything else happens to
it.  A nested type relies on the type around it for this, and may come too early:
as the base of a type from another namespace, or as the type of a parameter.
Where neither leads into another namespace, every type finds its own declared.
-/

namespace Assemblage

namespace Script.Location

/-- Only the outermost type decides about the object around a type. -/
theorem parent_ofFullName_eq {left right : String}
    (h : Text.firstSegment '/' left.toList = Text.firstSegment '/' right.toList) :
    (ofFullName left).parent = (ofFullName right).parent := by
  simp only [ofFullName, h]
  split <;> rfl

/-- The last period in the name of the outermost type tells the object around a type. -/
theorem parent_ofFullName_of_cut {fullName : String} {before after : List Char}
    (h : Text.firstSegment '/' fullName.toList = before ++ '.' :: after) (hafter : '.' ∉ after) :
    (ofFullName fullName).parent = Identifier.escapePath (String.ofList before) := by
  simp only [ofFullName, h, Text.segments_append_cons, Text.segments_of_not_mem hafter,
    List.dropLast_concat]
  split
  · rename_i hnil
    exact absurd hnil (Text.segments_ne_nil '.' before)
  · rw [Text.joinWith_segments]

/-- A type that is not nested lives in its namespace. -/
theorem parent_ofFullName {space name : String} (hname : '.' ∉ name.toList)
    (hspace : '/' ∉ space.toList) :
    (ofFullName (space ++ "." ++ name)).parent = Identifier.escapePath space := by
  have hfirst : '.' ∉ Text.firstSegment '/' name.toList :=
    fun h => hname (Text.firstSegment_subset _ _ h)
  have houtermost : Text.firstSegment '/' (space ++ "." ++ name).toList =
      space.toList ++ '.' :: Text.firstSegment '/' name.toList := by
    have htext : (space ++ "." ++ name).toList = space.toList ++ ('.' :: name.toList) := by simp
    rw [htext, Text.firstSegment_append_of_not_mem hspace]
    rfl
  rw [parent_ofFullName_of_cut houtermost hfirst, String.ofList_toList]

/-- A type lives beside the types without a namespace exactly if no period is in the
name of its outermost type. -/
theorem parent_ofFullName_eq_globalParent_iff (fullName : String) :
    (ofFullName fullName).parent = globalParent ↔
      '.' ∉ Text.firstSegment '/' fullName.toList := by
  constructor
  · intro hparent hperiod
    obtain ⟨before, after, hcut, hafter⟩ := Text.exists_last_separator hperiod
    rw [parent_ofFullName_of_cut hcut hafter] at hparent
    exact Identifier.escapePath_ne_globalParent _ hparent
  · intro hperiod
    simp only [ofFullName, Text.segments_of_not_mem hperiod]
    rfl

/-- A type without a namespace is put on the global parent. -/
theorem parent_ofFullName_of_no_space {name : String} (hname : '.' ∉ name.toList) :
    (ofFullName name).parent = globalParent :=
  (parent_ofFullName_eq_globalParent_iff name).2 fun h => hname (Text.firstSegment_subset _ _ h)

end Script.Location

namespace TypeDef

/-- What is inside a type that is not nested lives where that type does. -/
theorem location_of_mem_withNested {top : TypeDef}
    (hencloses : ∀ outer ∈ top.withNested, outer.Encloses) :
    ∀ inside ∈ top.withNested,
      inside.location.parent = top.location.parent ∧ inside.space = top.space := by
  have hall : ∀ inside ∈ top.withNested,
      Text.firstSegment '/' inside.fullName.toList = Text.firstSegment '/' top.fullName.toList ∧
        inside.space = top.space := by
    refine forall_withNested ?_ ⟨rfl, rfl⟩
    intro outer houter hplace inner hinner
    obtain ⟨hname, hspace, -⟩ := hencloses outer houter inner hinner
    have hfull : inner.fullName.toList = outer.fullName.toList ++ '/' :: inner.name.toList := by
      rw [fullName, hname]
      simp
    rw [hfull, Text.firstSegment_append_cons, hspace]
    exact hplace
  intro inside hinside
  exact ⟨Script.Location.parent_ofFullName_eq (hall inside hinside).1, (hall inside hinside).2⟩

end TypeDef

namespace Script

/-- A type lives in the namespace of its outermost type. -/
theorem parent_location {graph : Graph} {listed : List AssemblyDef} (hgraph : graph.WellFormed)
    (hnames : ∀ definition, graph.Belongs listed definition → '.' ∉ definition.name.toList)
    (hspaces : ∀ definition, graph.Belongs listed definition → '/' ∉ definition.space.toList)
    {definition : TypeDef} (hbelongs : graph.Belongs listed definition) :
    definition.location.parent =
      if definition.space.isEmpty then Location.globalParent
      else Identifier.escapePath definition.space := by
  obtain ⟨assembly, hassembly, hmem⟩ := hgraph.indexes_iff.1 hbelongs.1
  obtain ⟨part, hpart, top, htop, hinside⟩ := AssemblyDef.mem_allTypes_iff.1 hmem
  have hwell := hgraph.assemblies assembly hassembly
  have hindexed : graph.Indexes top := hgraph.indexes_iff.2 ⟨assembly, hassembly,
    AssemblyDef.mem_allTypes_iff.2 ⟨part, hpart, top, htop, top.mem_withNested_self⟩⟩
  have htopBelongs : graph.Belongs listed top := by
    refine hbelongs.of_sameAssembly hindexed ?_
    rw [TypeDef.sameAssembly, (hwell.top part hpart top htop).2,
      hwell.scope_eq hpart htop definition hinside]
    exact Text.equalIgnoringCase_refl _
  have hencloses : ∀ outer ∈ top.withNested, outer.Encloses :=
    fun outer houter => hgraph.encloses (hgraph.indexesNested.withNested hindexed outer houter)
  obtain ⟨hparent, hspace⟩ := TypeDef.location_of_mem_withNested hencloses definition hinside
  rw [hparent, hspace, TypeDef.location, TypeDef.fullName, (hwell.top part hpart top htop).1]
  by_cases hempty : top.space.isEmpty = true
  · simp only [if_pos hempty]
    exact Location.parent_ofFullName_of_no_space (hnames top htopBelongs)
  · simp only [if_neg hempty]
    exact Location.parent_ofFullName (hnames top htopBelongs) (hspaces top htopBelongs)

/-- The location of a type that is brought into being. -/
def Declaration.home? : Declaration → Option Location
  | .classShell _ location _ | .structShell location _ | .staticClassShell location _
  | .interface location _ _ | .enumeration location _ _ _ => some location
  | _ => none

theorem home?_typeDeclaration (model : TypeModel) :
    (typeDeclaration model).home? = some model.definition.location := by
  rw [typeDeclaration]
  cases model.kind <;> rfl

theorem home?_of_declaredType?_eq_none {declaration : Declaration}
    (h : declaration.declaredType? = none) : declaration.home? = none := by
  cases declaration with
  | classShell | structShell | staticClassShell | interface | enumeration => cases h
  | _ => rfl

/-! ## Namespaces first -/

/-- Where types count as those of the given assemblies, names and namespaces can
be told apart in full names, and neither bases nor parameters lead to a nested
type of another namespace before its turn. -/
structure StaysInSpace (program : Program) (listed : List AssemblyDef) : Prop where
  spaces : ∀ definition, program.graph.Belongs listed definition →
    '/' ∉ definition.space.toList
  bases : ∀ definition base, program.graph.Belongs listed definition →
    Run.ownBase? program.graph definition = some base → base.isNested = true →
    base.space = definition.space ∨ base.space.isEmpty = true
  parameters : ∀ assembly ∈ listed,
    ∀ definition ∈ TypeDef.withNestedAll (Run.roots assembly),
    ∀ group ∈ (program.modelOf definition).groups,
    ∀ parameter ∈ parameterTypes program.graph definition group, parameter.isNested = true →
    parameter.space = definition.space ∨ parameter.space.isEmpty = true ∨
      parameter ∈ TypeDef.withNestedAll (Run.roots assembly)

/-- The namespace around a type, if it is not the global one, comes before it. -/
def FindsSpace (declaration : Declaration) (before : List Declaration) : Prop :=
  ∀ location, declaration.home? = some location → location.parent ≠ Location.globalParent →
    Declaration.namespaceObject location.parent ∈ before

/-- The namespace of the type, if it has one, is on record. -/
def SpaceOpen (definition : TypeDef) (view : View) : Prop :=
  definition.space.isEmpty = true ∨ Identifier.escapePath definition.space ∈ view.namespaces

theorem SpaceOpen.mono {definition : TypeDef} {view later : View} (h : SpaceOpen definition view)
    (hlater : view.namespaces ⊆ later.namespaces) : SpaceOpen definition later :=
  h.imp_right fun hmem => hlater hmem

theorem SpaceOpen.of_space_eq {definition other : TypeDef} {view : View}
    (h : SpaceOpen definition view)
    (hspace : other.space = definition.space ∨ other.space.isEmpty = true) :
    SpaceOpen other view := by
  rcases hspace with hsame | hempty
  · rwa [SpaceOpen, hsame]
  · exact .inl hempty

theorem namespaces_subset_space (view : View) (definition : TypeDef) :
    view.namespaces ⊆ (view.space definition).namespaces := by
  rcases view.space_cases definition with ⟨-, heq⟩ | ⟨-, heq⟩
  · rw [heq]
    exact List.Subset.refl _
  · rw [heq]
    exact List.subset_cons_self _ _

/-- Once its namespace has been seen to, a type that is not nested has it on record. -/
theorem spaceOpen_space {view : View} {definition : TypeDef}
    (hplain : definition.isNested = true → SpaceOpen definition view) :
    SpaceOpen definition (view.space definition) := by
  rcases view.space_cases definition with ⟨hnested | hopen, heq⟩ | ⟨-, heq⟩
  · exact (hplain hnested).mono (namespaces_subset_space view definition)
  · rw [heq]
    exact hopen
  · rw [heq]
    exact .inr List.mem_cons_self

/-- What holds of a run in which namespaces come first. -/
structure SpacesFirst (program : Program) (listed : List AssemblyDef) (waiting : List TypeId)
    (view : View) : Prop where
  declared : ∀ path ∈ view.namespaces, Declaration.namespaceObject path ∈ view.output
  grounded : Grounded FindsSpace view.output
  waits : waiting ⊆ view.declared
  /-- The types on record have their namespaces there too. -/
  spaces : ∀ definition, program.graph.Belongs listed definition →
    definition.typeId ∈ view.declared → SpaceOpen definition view

/-- The contract of a run in which namespaces come first. -/
def Contract.spacesFirst (program : Program) (listed : List AssemblyDef) : Contract where
  holds := SpacesFirst program listed
  admits _ definition view := program.graph.Belongs listed definition ∧
    (definition.isNested = true →
      SpaceOpen definition view ∨ program.ignoresDefinition definition = true)

theorem findsSpace_of_none {declaration : Declaration} {before : List Declaration}
    (h : declaration.declaredType? = none) : FindsSpace declaration before := by
  intro location hhome
  rw [home?_of_declaredType?_eq_none h] at hhome
  cases hhome

namespace SpacesFirst

variable {program : Program} {listed : List AssemblyDef} {waiting fewer : List TypeId}
  {view : View} {definition : TypeDef}

theorem emit (h : SpacesFirst program listed waiting view) (hfewer : fewer ⊆ waiting)
    {declaration : Declaration} (hfinds : FindsSpace declaration view.output) :
    SpacesFirst program listed fewer (view.emit declaration) where
  declared path hpath := List.mem_append_left _ (h.declared path hpath)
  grounded := h.grounded.concat hfinds
  waits := List.Subset.trans hfewer h.waits
  spaces := h.spaces

theorem space (h : SpacesFirst program listed waiting view)
    (honce : program.graph.DefinesOnce) (hindexed : program.graph.Indexes definition)
    (hopen : definition.isNested = true → SpaceOpen definition view) :
    SpacesFirst program listed (definition.typeId :: waiting)
      ((view.mark definition.typeId).space definition) := by
  have hrecord := ((view.mark definition.typeId).space_records definition).1
  have hlater := namespaces_subset_space (view.mark definition.typeId) definition
  refine ⟨?_, Grounded.space h.grounded fun _ _ => findsSpace_of_none rfl, ?_, ?_⟩
  · intro path hpath
    rcases (view.mark definition.typeId).space_cases definition with ⟨-, heq⟩ | ⟨-, heq⟩
    · rw [heq] at hpath ⊢
      exact h.declared path hpath
    · rw [heq] at hpath ⊢
      rcases List.mem_cons.1 hpath with rfl | hold
      · exact List.mem_append_right _ (List.mem_singleton_self _)
      · exact List.mem_append_left _ (h.declared path hold)
  · rw [hrecord]
    exact List.cons_subset_cons _ h.waits
  · intro other hbelongs hmem
    rw [hrecord] at hmem
    rcases List.mem_cons.1 hmem with hid | hold
    · obtain rfl := honce.eq_of_typeId_eq hbelongs.1 hindexed hid
      exact spaceOpen_space hopen
    · exact (h.spaces other hbelongs hold).mono hlater

/-- A type on record finds the namespace it lives in. -/
theorem findsSpace (h : SpacesFirst program listed waiting view)
    (hgraph : program.graph.WellFormed)
    (hnames : ∀ definition, program.graph.Belongs listed definition → '.' ∉ definition.name.toList)
    (hstays : StaysInSpace program listed) (hbelongs : program.graph.Belongs listed definition)
    (hrecord : definition.typeId ∈ view.declared) {declaration : Declaration}
    (hhome : declaration.home? = some definition.location) :
    FindsSpace declaration view.output := by
  intro location hlocation hparent
  obtain rfl := Option.some.inj (hhome.symm.trans hlocation)
  rw [parent_location hgraph hnames hstays.spaces hbelongs] at hparent ⊢
  rcases h.spaces definition hbelongs hrecord with hempty | hopen
  · exact absurd (if_pos hempty) hparent
  · split at hparent
    · exact absurd rfl hparent
    · rename_i hempty
      rw [if_neg hempty]
      exact h.declared _ hopen

end SpacesFirst

namespace Contract

variable {stage : Stage} {listed : List AssemblyDef}

/-- The type of a parameter is on record, lives where the type with the method
lives, or is not nested. -/
theorem admits_parameter (honce : stage.program.graph.DefinesOnce)
    (hgraph : stage.program.graph.WellFormed) (hlisted : listed ⊆ stage.program.graph.assemblies)
    (hstays : StaysInSpace stage.program listed) {assembly : AssemblyDef}
    (hassembly : assembly ∈ listed) {view : View} {definition parameter : TypeDef}
    {model : TypeModel} {group : MethodGroup}
    (h : SpacesFirst stage.program listed [] view)
    (hmem : definition ∈ TypeDef.withNestedAll (Run.roots assembly))
    (hmodel : stage.Models definition model) (hignored : model.ignored = false)
    (hsettled : ∀ other ∈ TypeDef.withNestedAll (Run.roots assembly), stage.Settled other view)
    (hgroup : group ∈ model.groups)
    (hparameter : parameter ∈ parameterTypes stage.program.graph model.definition group) :
    (spacesFirst stage.program listed).admits [] parameter view := by
  obtain rfl := hmodel.eq_modelOf honce
  have hbelongs : stage.program.graph.Belongs listed definition :=
    Graph.belongs_of_mem_allTypes hgraph hassembly (hlisted hassembly)
      (Run.mem_allTypes_of_mem_roots hmem)
  obtain ⟨hindexed, hmodule⟩ := indexes_of_mem_parameterTypes hparameter
  have hparameterBelongs : stage.program.graph.Belongs listed parameter :=
    hbelongs.of_sameAssembly hindexed (Bool.and_eq_true_iff.1 hmodule).1
  have hrecord : definition.typeId ∈ view.declared :=
    (hsettled definition hmem).mem_declared honce hbelongs.1 hignored
  refine ⟨hparameterBelongs, fun hnested => ?_⟩
  rcases hstays.parameters assembly hassembly definition hmem group hgroup parameter hparameter
    hnested with hspace | hempty | htree
  · exact .inl ((h.spaces definition hbelongs hrecord).of_space_eq (.inl hspace))
  · exact .inl (.inl hempty)
  · exact (hsettled parameter htree).imp (h.spaces parameter hparameterBelongs)
      (Stage.ignores_iff honce hindexed).1

/-- The account of namespaces is a contract that every stage keeps, for types that stay in the
namespaces of the types they derive from. -/
theorem spacesFirst_kept (honce : stage.program.graph.DefinesOnce)
    (hgraph : stage.program.graph.WellFormed) (hlisted : listed ⊆ stage.program.graph.assemblies)
    (hnames : ∀ definition, stage.program.graph.Belongs listed definition →
      '.' ∉ definition.name.toList)
    (hstays : StaysInSpace stage.program listed)
    (hstopped : ∀ output reports, Grounded FindsSpace output → stage.stopped output reports) :
    (spacesFirst stage.program listed).KeptThroughout stage listed where
  mayStop h := .inr (hstopped _ _ h.grounded)
  opens h hadmits hindexed hmodel hignored _ := by
    rw [hmodel.eq_modelOf honce] at hignored
    refine h.space honce hindexed fun hnested => (hadmits.2 hnested).resolve_right ?_
    exact fun hignores => absurd (hignored.symm.trans hignores) Bool.false_ne_true
  closes hadmits h hmodel _ _ := by
    rw [hmodel.eq_modelOf honce]
    exact h.emit (List.subset_cons_self _ _) (h.findsSpace hgraph hnames hstays hadmits.1
      (h.waits List.mem_cons_self) (home?_typeDeclaration _))
  cycles _ h _ _ := ⟨h.declared, h.grounded, h.waits, h.spaces⟩
  bases hadmits h hbase _ := by
    obtain ⟨hfound, hsame⟩ := Option.filter_eq_some_iff.1 hbase
    refine ⟨hadmits.1.of_sameAssembly (Graph.indexes_of_baseType? hfound) hsame,
      fun hnested => .inl ?_⟩
    exact (h.spaces _ hadmits.1 (h.waits List.mem_cons_self)).of_space_eq
      (hstays.bases _ _ hadmits.1 hbase hnested)
  nested hadmits h hrecord hmodel hinner := by
    rw [hmodel.eq_modelOf honce] at hinner
    have hinner := hinner.elim id id
    refine ⟨hadmits.1.nested hgraph hinner, fun _ => .inl ?_⟩
    exact (h.spaces _ hadmits.1 hrecord).of_space_eq
      (.inl (hgraph.encloses hadmits.1.1 _ hinner).2.1)
  begins h := ⟨h.declared, h.grounded, h.waits, h.spaces⟩
  roots hassembly htop _ := by
    refine ⟨Graph.belongs_of_mem_allTypes hgraph hassembly (hlisted hassembly)
      (Run.mem_allTypes_of_mem_roots (Run.mem_withNestedAll_of_mem htop)), fun hnested => ?_⟩
    obtain ⟨part, hpart, htop⟩ := List.mem_flatMap.1 htop
    have houter := ((hgraph.assemblies _ (hlisted hassembly)).top part
      (List.mem_filter.1 hpart).1 _ htop).1
    rw [TypeDef.isNested, houter] at hnested
    cases hnested
  inside hassembly :=
    { members := fun h hphase =>
        h.emit (List.Subset.refl _)
          (findsSpace_of_none (Declaration.declaredType?_of_phase (by rw [hphase]; decide)))
      untranslated := fun h => ⟨h.declared, h.grounded, h.waits, h.spaces⟩
      parameters := fun h hmem hmodel hignored hsettled hgroup hparameter =>
        admits_parameter honce hgraph hlisted hstays hassembly h hmem hmodel hignored
          (hsettled honce) hgroup hparameter }
  seals h := h.emit (List.Subset.refl _) (findsSpace_of_none rfl)

end Contract

namespace Translator

/-- Every type that is brought into being outside the global object comes after the
declaration of its namespace, in whatever order types are reached, unless a base or
a parameter leads to a nested type of another namespace. -/
theorem translate_declares_spaces_first {translator : Translator} (hfresh : translator.IsFresh)
    (hgraph : translator.store.graph.WellFormed) (honce : translator.store.graph.DefinesOnce)
    {listed : List AssemblyDef} (hlisted : listed ⊆ translator.store.graph.assemblies)
    (hnames : ∀ definition, translator.store.graph.Belongs listed definition →
      '.' ∉ definition.name.toList)
    (hstays : StaysInSpace translator.store.program listed) (sink : Sink) :
    ∀ before declaration after,
      (translator.translate sink listed).output = before ++ declaration :: after →
      ∀ location, declaration.home? = some location → location.parent ≠ Location.globalParent →
        Declaration.namespaceObject location.parent ∈ before := by
  let stage := translator.stage sink fun output _ => Grounded FindsSpace output
  have hkept : (Contract.spacesFirst stage.program listed).KeptThroughout stage listed :=
    Contract.spacesFirst_kept honce hgraph hlisted hnames hstays fun _ _ => id
  have hindexed : ∀ assembly ∈ listed, ∀ top ∈ Run.roots assembly,
      stage.program.graph.Indexes top :=
    fun assembly hassembly top htop =>
      Run.indexes_of_mem_roots hgraph.toLoaded (hlisted hassembly) htop
  have hstart : SpacesFirst stage.program listed [] translator.view := by
    refine ⟨?_, grounded_nil _, List.nil_subset _, ?_⟩
    · intro path hpath
      rw [Translator.view, Session.view, hfresh.namespaces_eq] at hpath
      cases hpath
    · intro definition _ hrecord
      rw [Translator.view, Session.view, hfresh.declared_eq] at hrecord
      cases hrecord
  have hends := hkept.ends_translateAll hgraph hindexed (hfresh.accounts stage) hstart
  rcases hends.translate (hfresh.carries sink _) with ⟨-, -, hholds, -⟩ | ⟨-, hstopped⟩
  · exact hholds.grounded
  · exact hstopped

/-- A class with its base in another namespace, where another class is nested. -/
def neighbourBase : TypeBlueprint :=
  { sampleClass "Base" none [sampleClass "Part" none []] with space := "Lib" }

def neighbourDerived : TypeBlueprint :=
  { sampleClass "Derived" none [sampleClass "Part" (some "Derived") []] with
    base := some (.reference { space := "Lib", path := "Base" }) }

def neighbourAssembly : AssemblyBlueprint :=
  sampleAssembly [neighbourDerived, neighbourBase]

/-- A class with a base in another namespace opens both, though the base is declared inside its
turn. -/
theorem translate_declares_spaces_first_neighbourAssembly :
    let translator := ofBlueprint neighbourAssembly
    let outcome := translator.translate .collecting [neighbourAssembly.build]
    translator.store.graph.DefinesOnce ∧
      StaysInSpace translator.store.program [neighbourAssembly.build] ∧
      outcome.output.filterMap Declaration.namespace? = ["App", "Lib"] ∧
      ∀ before declaration after, outcome.output = before ++ declaration :: after →
        ∀ location, declaration.home? = some location → location.parent ≠ Location.globalParent →
          Declaration.namespaceObject location.parent ∈ before := by
  intro translator outcome
  have honce : translator.store.graph.DefinesOnce := by
    change List.Nodup _
    decide +kernel
  have hnames : ∀ definition,
      translator.store.graph.Belongs [neighbourAssembly.build] definition →
      '.' ∉ definition.name.toList :=
    forall_belongs_ofBlueprint (by decide +kernel)
  have hbases : ∀ definition,
      translator.store.graph.Belongs [neighbourAssembly.build] definition →
      (Run.ownBase? translator.store.program.graph definition).all (!·.isNested) = true :=
    forall_belongs_ofBlueprint (by decide +kernel)
  have hgroups : ∀ definition ∈ neighbourAssembly.build.allTypes,
      (translator.store.program.modelOf definition).groups.isEmpty = true := by decide +kernel
  have hstays : StaysInSpace translator.store.program [neighbourAssembly.build] := by
    refine ⟨forall_belongs_ofBlueprint (by decide +kernel), ?_, ?_⟩
    · intro definition base hbelongs hbase hnested
      have hplain := hbases definition hbelongs
      rw [hbase, Option.all_some, hnested] at hplain
      cases hplain
    · intro assembly hassembly definition hdefinition group hgroup
      obtain rfl := List.mem_singleton.1 hassembly
      have hnone := hgroups definition (Run.mem_allTypes_of_mem_roots hdefinition)
      rw [List.isEmpty_iff.1 hnone] at hgroup
      cases hgroup
  exact ⟨honce, hstays, by decide +kernel,
    translate_declares_spaces_first (isFresh_ofBlueprint neighbourAssembly)
      (wellFormed_ofBlueprint neighbourAssembly) honce (List.Subset.refl _) hnames hstays
      .collecting⟩

/-- A class with a base that is nested in a class of another namespace. -/
def visitorDerived : TypeBlueprint :=
  { sampleClass "Derived" none [] with
    base := some (.reference { space := "Lib", path := "Outer/Inner" }) }

def visitorOuter : TypeBlueprint :=
  { sampleClass "Outer" none [sampleClass "Inner" none []] with space := "Lib" }

def visitorAssembly : AssemblyBlueprint :=
  sampleAssembly [visitorDerived, visitorOuter]

/-- A nested type that is reached as a base may come before its namespace. -/
theorem not_declares_spaces_first_visitorAssembly :
    let translator := ofBlueprint visitorAssembly
    let outcome := translator.translate .collecting [visitorAssembly.build]
    translator.store.graph.DefinesOnce ∧
      (∀ definition ∈ visitorAssembly.build.allTypes, '.' ∉ definition.name.toList) ∧
      ¬∀ before declaration after, outcome.output = before ++ declaration :: after →
        ∀ location, declaration.home? = some location → location.parent ≠ Location.globalParent →
          Declaration.namespaceObject location.parent ∈ before := by
  intro translator outcome
  have honce : translator.store.graph.DefinesOnce := by
    change List.Nodup _
    decide +kernel
  refine ⟨honce, by decide +kernel, fun h => ?_⟩
  have houtput : outcome.output.map (fun declaration =>
      (declaration.namespace?, declaration.home?.map (·.parent))) =
      [(some "App", none), (none, some "Lib"), (none, some "App"), (some "Lib", none),
       (none, some "Lib")] := by decide +kernel
  obtain ⟨space, rest, hrest, hspace, htail⟩ := List.map_eq_cons_iff.1 houtput
  obtain ⟨inner, others, rfl, hinner, -⟩ := List.map_eq_cons_iff.1 htail
  obtain ⟨location, hhome, hparent⟩ := Option.map_eq_some_iff.1 (congrArg Prod.snd hinner)
  have hmem := h [space] inner others hrest location hhome (by rw [hparent]; decide +kernel)
  rw [hparent, List.mem_singleton] at hmem
  rw [← hmem] at hspace
  exact absurd (congrArg Prod.fst hspace) (by decide +kernel)

end Translator

end Script

end Assemblage
