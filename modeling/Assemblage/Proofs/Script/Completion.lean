import Assemblage.Proofs.Script.Walk

/-!
# Runs that complete

With a sink that takes everything and the trees that were kept with the methods,
nothing in the assemblies can stop a run: every type that comes up has a model
and is in reach, every kind of type gets the declaration that suits it, and a
static constructor is found where it was recorded.
-/

namespace Assemblage.Script

theorem isMethodLocal_of_decompile_eq_error {method : MethodDef} {error : Error}
    (h : method.decompile = .error error) : error.isMethodLocal = true := by
  rw [MethodDef.decompile] at h
  split at h
  · cases h
  all_goals
    obtain rfl := Except.error.inj h
    rfl

/-- The contract that asks for nothing. -/
def Contract.idle : Contract :=
  { holds := fun _ _ => True, admits := fun _ _ _ => True }

theorem Contract.idle_kept {stage : Stage} (hstop : ∀ view, stage.MayStop view)
    (listed : List AssemblyDef) : Contract.idle.KeptThroughout stage listed where
  mayStop _ := hstop _
  opens _ _ _ _ _ _ := trivial
  closes _ _ _ _ _ := trivial
  cycles _ _ _ _ := trivial
  bases _ _ _ _ := trivial
  nested _ _ _ _ _ := trivial
  begins _ := trivial
  roots _ _ _ := trivial
  inside _ := { members := fun _ _ => trivial, untranslated := fun _ => trivial,
                parameters := fun _ _ _ _ _ _ _ => trivial }
  seals _ := trivial

namespace Translator

/-- One run for each assembly, with the translator that the run before has left. -/
def translateEach (translator : Translator) (sink : Sink) : List AssemblyDef → List Outcome
  | [] => []
  | assembly :: rest =>
    let outcome := translator.translate sink [assembly]
    outcome :: outcome.translator.translateEach sink rest

/-- On a stage where nothing can go wrong each run ends on the stage. -/
theorem carries_of_mem_translateEach {stage : Stage} (hunfailing : stage.Unfailing)
    (hstopped : ∀ output reports, ¬stage.stopped output reports)
    (hgraph : stage.program.graph.WellFormed) {listed done : List AssemblyDef}
    (hindexed : ∀ assembly ∈ listed, ∀ definition ∈ assembly.allTypes,
      stage.program.graph.Indexes definition)
    {translator : Translator} (hcarries : stage.Carries { translator, sink := stage.sink })
    (haccounts : stage.Accounts done translator.view) :
    ∀ outcome ∈ translator.translateEach stage.sink listed, outcome.failure = none ∧
      stage.Carries { translator := outcome.translator, sink := stage.sink } := by
  induction listed generalizing translator done with
  | nil => intro outcome houtcome; cases houtcome
  | cons assembly rest ih =>
    intro outcome houtcome
    have hroots : ∀ other ∈ [assembly], ∀ top ∈ Run.roots other,
        stage.program.graph.Indexes top := by
      intro other hother top htop
      rw [List.mem_singleton.1 hother] at htop
      exact hindexed assembly List.mem_cons_self top
        (Run.mem_allTypes_of_mem_roots (Run.mem_withNestedAll_of_mem htop))
    have hends := (Contract.idle_kept hunfailing.mayStop [assembly]).ends_translateAll hgraph hroots
      haccounts trivial
    rcases hends.translate hcarries with ⟨hnone, hafter, -, hdone⟩ | ⟨-, hstop⟩
    · rcases List.mem_cons.1 houtcome with rfl | hrest
      · exact ⟨hnone, hafter⟩
      · exact ih (fun other hother => hindexed other (List.mem_cons_of_mem _ hother)) hafter
          ⟨hdone.begun, hdone.closed, hdone.settled⟩ outcome hrest
    · exact absurd hstop (hstopped _ _)

/-- No run of a translator over types of its graph is stopped, whatever the types
are like, and afterwards every type of the graph has a model in whose member table
the static constructor is found if there is one. -/
theorem translateEach_completes {translator : Translator} (hfresh : translator.IsFresh)
    (hgraph : translator.store.graph.WellFormed)
    (hdecompile : translator.decompile = MethodDef.decompile) {listed : List AssemblyDef}
    (hindexed : ∀ assembly ∈ listed, ∀ definition ∈ assembly.allTypes,
      translator.store.graph.Indexes definition) :
    ∀ outcome ∈ translator.translateEach .collecting listed,
      outcome.failure = none ∧
      ∀ definition, translator.store.graph.Indexes definition →
        ∃ model, (outcome.translator.store.requestDefinition definition).2 = some model ∧
          (model.staticConstructor?.isSome = true →
            model.staticConstructorMember?.isSome = true) := by
  let stage := translator.stage .collecting fun _ _ => False
  have hunfailing : stage.Unfailing :=
    ⟨fun _ _ => rfl, fun method error herror =>
      isMethodLocal_of_decompile_eq_error ((congrFun hdecompile method).symm.trans herror)⟩
  intro outcome houtcome
  obtain ⟨hnone, hcarries⟩ := carries_of_mem_translateEach hunfailing (fun _ _ => id)
    hgraph hindexed
    (hfresh.carries .collecting _) (hfresh.accounts stage) outcome houtcome
  refine ⟨hnone, fun definition hdefinition => ?_⟩
  obtain ⟨cache, model, hrequest, -⟩ := hcarries.exists_requestDefinition hdefinition
  exact ⟨model, congrArg Prod.snd hrequest, TypeModel.staticConstructorMember?_isSome⟩

/-- A class that is its own base, with a static constructor that has no body. -/
def twinClass : TypeBlueprint :=
  { sampleClass "Twin" (some "Twin") [] with methods := [.staticConstructor] }

/-- Two classes of one name. -/
def twinAssembly : AssemblyBlueprint :=
  sampleAssembly [twinClass, twinClass]

/-- Two calls in a row complete, and the second one finds all done. -/
theorem translateEach_completes_twinAssembly :
    let translator := ofBlueprint twinAssembly
    let twice := [twinAssembly.build, twinAssembly.build]
    (∀ assembly ∈ twice, ∀ definition ∈ assembly.allTypes,
        translator.store.graph.Indexes definition) ∧
      ∀ outcome ∈ translator.translateEach .collecting twice,
        outcome.failure = none ∧
        ∀ definition, translator.store.graph.Indexes definition →
          ∃ model, (outcome.translator.store.requestDefinition definition).2 = some model ∧
            (model.staticConstructor?.isSome = true →
              model.staticConstructorMember?.isSome = true) := by
  intro translator twice
  have hindexed : ∀ assembly ∈ twice, ∀ definition ∈ assembly.allTypes,
      translator.store.graph.Indexes definition := by
    intro assembly hassembly definition hdefinition
    have hsame : assembly = twinAssembly.build := by simpa [twice] using hassembly
    exact (wellFormed_ofBlueprint twinAssembly).indexes_iff.2
      ⟨twinAssembly.build, List.mem_singleton_self _, hsame ▸ hdefinition⟩
  exact ⟨hindexed, translateEach_completes (isFresh_ofBlueprint twinAssembly)
    (wellFormed_ofBlueprint twinAssembly) rfl hindexed⟩

end Translator

end Assemblage.Script
