import Assemblage.Proofs.Script.Gap

/-!
# A body concerns its own method

Where one method is given another body, a run puts out what it did before, except for
that method's own declaration, and reports what it did before, except about that
method.
-/

namespace Assemblage

namespace Script

/-- Two runs have come to the same, except that both may have declared one method in
their own way and have reported on it.  Each has reported as many methods as it has left
untranslated. -/
structure Isolated (owner : TypeDef) (method : MethodDef) (start : Diagnostics)
    (left right : Outcome) : Prop where
  failure_eq : left.failure = right.failure
  output : left.output = right.output ∨
    ∃ model member, left.translator.store.model? owner.typeId = some model ∧
      model.definition = owner ∧ member ∈ model.methods ∧ member.definition = .method method ∧
      ∃ before declaration other after, left.output = before ++ declaration :: after ∧
        right.output = before ++ other :: after ∧ Declares model member declaration ∧
        Declares model member other
  reports_eq : left.translator.diagnostics.entries.filter (!·.isAbout method.fullName) =
    right.translator.diagnostics.entries.filter (!·.isAbout method.fullName)
  left_balanced :
    start.entries.countP (·.isMethodError) + left.output.countP (·.isUntranslatable) =
      left.translator.diagnostics.entries.countP (·.isMethodError)
  right_balanced :
    start.entries.countP (·.isMethodError) + right.output.countP (·.isUntranslatable) =
      right.translator.diagnostics.entries.countP (·.isMethodError)

theorem Declares.mapBodies {model : TypeModel} {member : Member} {declaration : Declaration}
    (h : Declares model member declaration) (f : Body → Body) :
    Declares (model.mapBodies f) (member.mapBodies f) declaration := by
  cases h with
  | @method declared hmethod function =>
    have hmapped : (member.mapBodies f).definition.method? = some (declared.mapBodies f) := by
      simp [hmethod]
    have hmethod : Declares (model.mapBodies f) (member.mapBodies f) _ := .method hmapped function
    simpa using hmethod
  | @untranslatable declared hmethod =>
    have hmapped : (member.mapBodies f).definition.method? = some (declared.mapBodies f) := by
      simp [hmethod]
    have hmethod : Declares (model.mapBodies f) (member.mapBodies f) _ := .untranslatable hmapped
    simpa using hmethod

theorem walked_singleton (assembly : AssemblyDef) :
    Run.walked [assembly] = TypeDef.withNestedAll (Run.roots assembly) :=
  List.flatMap_singleton _ _

/-- Runs with results that agree fail in the same way. -/
theorem Translator.failure_eq_of_agree {left right : Translator} {sink : Sink}
    {listed others : List AssemblyDef} {after : PUnit → PUnit → Prop}
    (h : Comparison.Agree after
      ((listed.forM Run.translateAssembly).run.run { translator := left, sink }).1
      ((others.forM Run.translateAssembly).run.run { translator := right, sink }).1) :
    (left.translate sink listed).failure = (right.translate sink others).failure := by
  rw [translate, translate]
  generalize (listed.forM Run.translateAssembly).run.run { translator := left, sink } = first at *
  generalize (others.forM Run.translateAssembly).run.run { translator := right, sink } = second at *
  obtain ⟨_ | _, _⟩ := first
  all_goals obtain ⟨_ | _, _⟩ := second
  · exact congrArg some h
  · exact h.elim
  · exact h.elim
  · rfl

/-- The names of types are at least as often the same as their identifiers. -/
theorem count_typeId_le {f : Body → Body} (types : List TypeDef) (place : TypeDef) :
    (types.map (·.typeId)).count place.typeId ≤
      ((types.map (TypeDef.mapBodies f)).map (·.fullName)).count (place.mapBodies f).fullName := by
  have hnames : (types.map (TypeDef.mapBodies f)).map (·.fullName) =
      (types.map (·.typeId)).map TypeId.fullName := by
    rw [List.map_map, List.map_map]
    exact List.map_congr_left fun definition _ => definition.fullName_mapBodies
  rw [hnames, TypeDef.fullName_mapBodies]
  exact List.count_le_count_map (f := TypeId.fullName) (x := place.typeId)

namespace Gap

/-- Two translators over the two programs that a gap stands for have not done anything
yet, and nothing else sets them apart. -/
structure Faces (gap : Gap) (left right : Translator) : Prop where
  left_fresh : left.IsFresh
  right_fresh : right.IsFresh
  left_program : left.store.program = gap.program.mapBodies (.fill gap.count gap.old)
  right_program : right.store.program = gap.program.mapBodies (.fill gap.count gap.body)
  pipeline_eq : left.pipeline = right.pipeline
  left_decompile : left.decompile = MethodDef.decompile
  right_decompile : right.decompile = MethodDef.decompile
  diagnostics_eq : left.diagnostics = right.diagnostics

variable {gap : Gap} {left right : Translator}

/-- Two translators that face each other start side by side. -/
theorem Faces.joins (h : gap.Faces left right) :
    (gap.comparison (left.diagnostics.entries.countP (·.isMethodError))).Joins [] .empty
      { translator := left, sink := .collecting } { translator := right, sink := .collecting } where
  left := h.left_fresh.keeps .collecting h.left_program
  right := h.right_fresh.keeps .collecting h.right_program
  finishes := Program.finishesAll_empty
  holds :=
    { first_sink := rfl
      second_sink := rfl
      pipeline_eq := h.pipeline_eq
      first_decompile := h.left_decompile
      second_decompile := h.right_decompile
      told := ⟨[], .refl _, .nil⟩
      reports_eq := congrArg
        (fun diagnostics : Diagnostics => diagnostics.entries.filter
          (!·.isAbout gap.method.fullName)) h.diagnostics_eq
      first_balanced := rfl
      second_balanced := by
        rw [h.diagnostics_eq]
        rfl }

/-- Runs over the two programs that a gap stands for. -/
theorem Faces.isolated (h : gap.Faces left right) {marked : AssemblyDef}
    (hplace : ∀ inside ∈ marked.allTypes, inside.HoldsMark gap.count → inside = gap.place)
    (honce : ((TypeDef.withNestedAll (Run.roots marked)).map (·.typeId)).count
      gap.place.typeId ≤ 1)
    (hconstructor : gap.method.name = ".cctor" → gap.method.isStatic = true) :
    Isolated (gap.place.mapBodies (.fill gap.count gap.old)) (gap.method.withBody gap.old)
      left.diagnostics
      (left.translate .collecting [marked.mapBodies (.fill gap.count gap.old)])
      (right.translate .collecting [marked.mapBodies (.fill gap.count gap.body)]) := by
  let base := left.diagnostics.entries.countP (·.isMethodError)
  have hroots : ∀ assembly ∈ [marked], ∀ top ∈ Run.roots assembly,
      (gap.comparison base).admits top := by
    intro assembly hassembly top htop inside hinside
    obtain rfl := List.mem_singleton.1 hassembly
    refine hplace inside (Run.mem_allTypes_of_mem_roots ?_)
    exact TypeDef.mem_withNestedAll_iff.2 ⟨top, htop, hinside⟩
  obtain ⟨acts, later, hallows, hend, hagree⟩ :=
    (gap.kept base).comes_translateAll hroots h.joins rfl
  have hholds : Isolates gap.count gap.method.fullName base acts later.cache _ _ := hend.holds
  have hcount : ∀ act, act.type = gap.place.typeId → acts.count act ≤ 1 := by
    intro act htype
    have hturns : acts.count act ≤ ((Run.walked [marked]).map (·.typeId)).count act.type :=
      hallows act
    rw [walked_singleton, htype] at hturns
    exact Nat.le_trans hturns honce
  refine ⟨Translator.failure_eq_of_agree hagree, ?_, hholds.reports_eq, hholds.first_balanced,
    hholds.second_balanced⟩
  apply (hholds.output_eq_or hend.finishes hconstructor hcount).imp id
  rintro ⟨model, member, hmodel, hdefinition, hmember, hmethod, before, declaration, other, after,
    hbefore, hafter, hdeclares, hother⟩
  have hcache : (left.translate .collecting
      [marked.mapBodies (.fill gap.count gap.old)]).translator.store.cache =
        later.cache.mapBodies (.fill gap.count gap.old) := hend.left.cache_eq
  refine ⟨model.mapBodies (.fill gap.count gap.old), member.mapBodies (.fill gap.count gap.old),
    ?_, ?_, ?_, ?_, before, declaration, other, after, hbefore, hafter, hdeclares.mapBodies _,
    hother.mapBodies _⟩
  · rw [Store.model?, hcache, Cache.model?_mapBodies, TypeDef.typeId_mapBodies, hmodel]
    rfl
  · rw [TypeModel.definition_mapBodies, hdefinition]
  · rw [TypeModel.methods_mapBodies]
    exact List.mem_map_of_mem hmember
  · rw [Member.definition_mapBodies, hmethod, MemberDef.mapBodies,
      MethodDef.mapBodies_withBody_mark]

/-- Where an assembly differs in one body, there is a gap for it. -/
theorem exists_gap (program : Program) {before after : List AssemblyDef}
    {assembly changed : AssemblyDef} {owner : TypeDef} {method : MethodDef} {old body : Body}
    (hgraph : program.graph = Graph.ofAssemblies (before ++ assembly :: after))
    (hbody : method.body = some old)
    (hrebodied : AssemblyDef.Rebodied method body owner assembly changed) :
    ∃ (gap : Gap) (marked : AssemblyDef), gap.method = method ∧ gap.old = old ∧
      program = gap.program.mapBodies (.fill gap.count gap.old) ∧
      { program with graph := Graph.ofAssemblies (before ++ changed :: after) } =
        gap.program.mapBodies (.fill gap.count gap.body) ∧
      assembly = marked.mapBodies (.fill gap.count gap.old) ∧
      changed = marked.mapBodies (.fill gap.count gap.body) ∧
      owner = gap.place.mapBodies (.fill gap.count gap.old) ∧
      ∀ inside ∈ marked.allTypes, inside.HoldsMark gap.count → inside = gap.place := by
  obtain ⟨count, hassemblies, hproxies, hne⟩ := AssemblyDef.exists_isFresh
    (before ++ assembly :: after) (program.proxies.map (·.definition)) old
  have hothers : ∀ other ∈ before ++ after, other.IsFresh count :=
    fun other hother => hassemblies other (mem_middle.2 (.inr hother))
  obtain ⟨marked, place, rfl, rfl, rfl, honly, hwhere⟩ :=
    hrebodied.exists_marked hbody (hassemblies assembly (mem_middle.2 (.inl rfl)))
  have hgraphs : ∀ body, Graph.ofAssemblies (before ++ marked.mapBodies (.fill count body) ::
      after) = (Graph.ofAssemblies (before ++ marked :: after)).mapBodies (.fill count body) := by
    intro body
    rw [← Graph.ofAssemblies_mapBodies,
      map_middle fun other hother => (hothers other hother).mapBodies_fill body]
  let gap : Gap :=
    { program := { program with graph := Graph.ofAssemblies (before ++ marked :: after) }
      count
      old
      body
      method
      place
      spared := fun other => ⟨fun proxy hproxy =>
        (hproxies proxy.definition (List.mem_map_of_mem hproxy)).mapBodies_fill other, rfl⟩
      old_ne_mark := hne
      marksOnly := honly
      eq_place := by
        intro definition hindexed inside hinside hmark
        obtain ⟨own, hown, hdefinition⟩ := (Graph.loaded_ofAssemblies _).indexes_iff.1 hindexed
        have hmem := AssemblyDef.mem_allTypes_of_withNested hdefinition hinside
        rcases mem_middle.1 (Graph.ofAssemblies_subset _ hown) with rfl | hother
        · exact hwhere inside hmem hmark
        · exact absurd hmark ((hothers own hother).not_holdsMark inside hmem) }
  refine ⟨gap, marked, rfl, rfl, ?_, ?_, rfl, rfl, rfl, hwhere⟩
  · rw [Program.mapBodies, ← hgraphs, ← hgraph]
  · rw [Program.mapBodies, ← hgraphs]

end Gap

namespace Translator

/-- The translator over another graph. -/
def withGraph (translator : Translator) (graph : Graph) : Translator :=
  { translator with
    store := { translator.store with program := { translator.store.program with graph } } }

theorem IsFresh.withGraph {translator : Translator} (h : translator.IsFresh) (graph : Graph) :
    (translator.withGraph graph).IsFresh :=
  ⟨h.cache_eq, h.declared_eq, h.namespaces_eq, h.begun_eq⟩

/-- Another body for one method of an assembly changes no more than the declaration of
that method and the reports on it, whatever the settings, the proxies and the other
assemblies are.  The type of the method has to be the only one of its name in the
assembly, and an instance method must not have the name of a static constructor. -/
theorem translate_isolates_body {translator : Translator} (hfresh : translator.IsFresh)
    (hdecompile : translator.decompile = MethodDef.decompile) {before after : List AssemblyDef}
    {assembly changed : AssemblyDef} {owner : TypeDef} {method : MethodDef} {old body : Body}
    (hgraph : translator.store.graph = Graph.ofAssemblies (before ++ assembly :: after))
    (hbody : method.body = some old)
    (hrebodied : AssemblyDef.Rebodied method body owner assembly changed)
    (honce : ((TypeDef.withNestedAll (Run.roots assembly)).map (·.fullName)).count
      owner.fullName ≤ 1)
    (hconstructor : method.name = ".cctor" → method.isStatic = true) :
    let other := translator.withGraph (Graph.ofAssemblies (before ++ changed :: after))
    Isolated owner method translator.diagnostics (translator.translate .collecting [assembly])
      (other.translate .collecting [changed]) := by
  intro other
  obtain ⟨gap, marked, rfl, rfl, hprogram, hchanged, rfl, rfl, rfl, hwhere⟩ :=
    Gap.exists_gap translator.store.program hgraph hbody hrebodied
  have hfaces : gap.Faces translator other :=
    { left_fresh := hfresh
      right_fresh := hfresh.withGraph _
      left_program := hprogram
      right_program := hchanged
      pipeline_eq := rfl
      left_decompile := hdecompile
      right_decompile := hdecompile
      diagnostics_eq := rfl }
  have hone : ((TypeDef.withNestedAll (Run.roots marked)).map (·.typeId)).count
      gap.place.typeId ≤ 1 := by
    rw [roots_mapBodies, TypeDef.withNestedAll_mapBodies] at honce
    exact Nat.le_trans (count_typeId_le _ gap.place) honce
  have hisolated := hfaces.isolated hwhere hone hconstructor
  rw [MethodDef.withBody_eq_self hbody] at hisolated
  exact hisolated

/-- A class with a property and another method. -/
def counterClass (body : Body) : TypeBlueprint :=
  { sampleClass "Counter" none [] with
    methods :=
      [{ name := "Reset", body := some (.tree 0 {}) }, { name := "get_Count", body := some body }]
    properties := [{ name := "Count", type := .primitive .int32, getter := some "get_Count" }] }

/-- What the assembly of a class has for it. -/
def counterOwner (body : Body) : TypeDef :=
  (counterClass body).build sampleScope none

/-- The getter. -/
def counterGetter (body : Body) : MethodDef :=
  { name := "get_Count", body := some body, declaring := "App.Counter" }

def unread : Body :=
  .undecompilable 0 "unknown instruction"

/-- The class changes with the body of its getter. -/
theorem rebodied_counterOwner (old body : Body) :
    TypeDef.Rebodied (counterGetter old) body (counterOwner old) (counterOwner old)
      (counterOwner body) := by
  have hmethods : (counterOwner old).methods =
      (counterOwner old).methods.take 1 ++ counterGetter old :: [] := rfl
  have hproperties : List.Forall₂ (PropertyDef.Rebodied (counterGetter old) body)
      (counterOwner old).properties (counterOwner body).properties :=
    .cons ⟨some (counterGetter body), none, rfl, .inr ⟨rfl, rfl⟩, .inl rfl⟩ .nil
  exact .own hmethods hproperties

theorem rebodied_counterClass (types : List TypeBlueprint) (old body : Body) :
    AssemblyDef.Rebodied (counterGetter old) body (counterOwner old)
      (sampleAssembly (counterClass old :: types)).build
      (sampleAssembly (counterClass body :: types)).build := by
  have hmodules : (sampleAssembly (counterClass old :: types)).build.modules =
      [] ++ (sampleAssembly (counterClass old :: types)).mainModule.build "App" :: [] := rfl
  have htypes : ((sampleAssembly (counterClass old :: types)).mainModule.build "App").types =
      [] ++ counterOwner old :: TypeBlueprint.buildAll sampleScope none types := rfl
  exact .intro hmodules htypes (rebodied_counterOwner old body)

/-- A getter with a body that cannot be read is given one that can, and nothing else changes. -/
theorem translate_isolates_body_counterClass :
    let old := (sampleAssembly [counterClass unread]).build
    let changed := (sampleAssembly [counterClass (.tree 0 {})]).build
    let translator := ofBlueprint (sampleAssembly [counterClass unread])
    let other := translator.withGraph (Graph.ofAssemblies [changed])
    (counterGetter unread).body = some unread ∧
      AssemblyDef.Rebodied (counterGetter unread) (.tree 0 {}) (counterOwner unread) old changed ∧
      ((TypeDef.withNestedAll (Run.roots old)).map (·.fullName)).count
        (counterOwner unread).fullName ≤ 1 ∧
      ((counterGetter unread).name = ".cctor" → (counterGetter unread).isStatic = true) ∧
      (translator.translate .collecting [old]).output.countP (·.isUntranslatable) = 1 ∧
      (other.translate .collecting [changed]).output.countP (·.isUntranslatable) = 0 ∧
      Isolated (counterOwner unread) (counterGetter unread) translator.diagnostics
        (translator.translate .collecting [old]) (other.translate .collecting [changed]) := by
  intro old changed translator other
  have hrebodied := rebodied_counterClass [] unread (.tree 0 {})
  have honce : ((TypeDef.withNestedAll (Run.roots old)).map (·.fullName)).count
      (counterOwner unread).fullName ≤ 1 := by decide +kernel
  have hconstructor : (counterGetter unread).name = ".cctor" →
      (counterGetter unread).isStatic = true := by decide +kernel
  have hgraph : translator.store.graph = Graph.ofAssemblies ([] ++ old :: []) := rfl
  have hfresh : translator.IsFresh := isFresh_ofBlueprint _
  have hisolated := translate_isolates_body hfresh rfl hgraph rfl hrebodied honce hconstructor
  exact ⟨rfl, hrebodied, honce, hconstructor, by decide +kernel, by decide +kernel, hisolated⟩

/-- With two types of one name, the method is declared for each of them. -/
theorem not_translate_isolates_body :
    ¬∀ (translator : Translator) (before after : List AssemblyDef) (assembly changed : AssemblyDef)
      (owner : TypeDef) (method : MethodDef) (old body : Body), translator.IsFresh →
      translator.decompile = MethodDef.decompile →
      translator.store.graph = Graph.ofAssemblies (before ++ assembly :: after) →
      method.body = some old → AssemblyDef.Rebodied method body owner assembly changed →
      Isolated owner method translator.diagnostics (translator.translate .collecting [assembly])
        ((translator.withGraph (Graph.ofAssemblies (before ++ changed :: after))).translate
          .collecting [changed]) := by
  intro h
  let twice := fun body => sampleAssembly [counterClass body, counterClass unread]
  let translator := ofBlueprint (twice unread)
  let left := translator.translate .collecting [(twice unread).build]
  let right := (translator.withGraph (Graph.ofAssemblies [(twice (.tree 0 {})).build])).translate
    .collecting [(twice (.tree 0 {})).build]
  have hrebodied := rebodied_counterClass [counterClass unread] unread (.tree 0 {})
  have hisolated : Isolated (counterOwner unread) (counterGetter unread) translator.diagnostics
      left right :=
    h translator [] [] _ _ _ _ _ _ (isFresh_ofBlueprint _) rfl rfl rfl hrebodied
  have hleft : left.output.countP (·.isUntranslatable) = 2 := by decide +kernel
  have hright : right.output.countP (·.isUntranslatable) = 0 := by decide +kernel
  rcases hisolated.output with hsame | ⟨_, _, -, -, -, -, before, _, _, after, hbefore, hafter, -⟩
  · rw [hsame, hright] at hleft
    cases hleft
  · rw [hbefore, List.countP_append, List.countP_cons] at hleft
    rw [hafter, List.countP_append, List.countP_cons] at hright
    split at hleft <;> omega

end Translator

end Script

end Assemblage
