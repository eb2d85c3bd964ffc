import Assemblage.Proofs.Model.Groups
import Assemblage.Proofs.Script.Identifier
import Assemblage.Proofs.Script.SideBySide

/-!
# One turn for each type

A walk comes by every definition, also by those that share a name.  What is declared
for the methods of a type comes from the model under the type's identifier, and so
does the seal: each method is declared at most as often as the walks come by its
type.  Where no two types have one name, that is once.
-/

namespace Assemblage

namespace Script

/-- Whether a declaration stands for a method that was to be translated. -/
def Declaration.isMethod : Declaration → Bool
  | .method .. | .untranslatable .. => true
  | _ => false

/-- Where a method is put, with a body or without. -/
def Declaration.methodPlace? : Declaration → Option (Owner × String)
  | .external owner name | .method owner name _ | .untranslatable owner name _ =>
    some (owner, name)
  | _ => none

def Declaration.sealed? : Declaration → Option Location
  | .sealed location => some location
  | _ => none

/-- A declaration is that of a method of a model, translated or not. -/
inductive Declares (model : TypeModel) (member : Member) : Declaration → Prop
  | method {declared : MethodDef} (hmethod : member.definition.method? = some declared)
      (function : Function) :
      Declares model member (.method (Owner.ofMember model.definition.location.path member.isStatic)
        (methodName model member) function)
  | untranslatable {declared : MethodDef} (hmethod : member.definition.method? = some declared) :
      Declares model member
        (.untranslatable (Owner.ofMember model.definition.location.path member.isStatic)
          (methodName model member) declared.fullName)

/-- An act leads to a declaration that is not plain, of a type with a known model. -/
inductive Act.LeadsTo (cache : Cache) : Act → Declaration → Prop
  | method {act : Act} {model : TypeModel} {member : Member} {initializers : Block}
      {declaration : Declaration} (hmodel : cache.model? act.type = some model)
      (hmember : act.translated? model = some (member, initializers))
      (hdeclares : Declares model member declaration) : LeadsTo cache act declaration
  | sealing {id : TypeId} {model : TypeModel} (hmodel : cache.model? id = some model)
      (hid : model.definition.typeId = id) :
      LeadsTo cache (.sealing id) (.sealed model.definition.location)

theorem Act.LeadsTo.mono {later cache : Cache} (hextends : later.Extends cache) {act : Act}
    {declaration : Declaration} (h : act.LeadsTo cache declaration) :
    act.LeadsTo later declaration := by
  cases h with
  | method hmodel hmember hdeclares => exact .method (hextends.model?_eq hmodel) hmember hdeclares
  | sealing hmodel hid => exact .sealing (hextends.model?_eq hmodel) hid

/-- The declaration of a method, depending on whether there is a function for it. -/
def methodDeclaration (owner : Owner) (name : String) (declared : MethodDef) :
    Except Error Function → Declaration
  | .ok function => .method owner name function
  | .error _ => .untranslatable owner name declared.fullName

def methodReports (declared : MethodDef) : Except Error Function → List Diagnostic
  | .ok _ => []
  | .error error => [Run.untranslated declared error]

namespace Run

/-- Declares a method once it is known whether there is a function for it. -/
def declareMethod (owner : Owner) (name : String) (declared : MethodDef) :
    Except Error Function → Run Unit
  | .ok function => emit (.method owner name function)
  | .error error =>
    if error.isMethodLocal then do
      report (untranslated declared error)
      emit (.untranslatable owner name declared.fullName)
    else throw error

/-- External methods are named, unless they are replaced.  Of the others those are translated
that are not abstract. -/
theorem translateMethod_eq (model : TypeModel) (path : String) (initializers : Block)
    (member : Member) :
    translateMethod model path initializers member =
      match member.definition.method? with
      | none => pure ()
      | some declared =>
        if member.isExternal then
          if !member.isReplaced then
            emit (.external (Owner.ofMember path member.isStatic) (methodName model member))
          else pure ()
        else if !(member.replacement.getD declared).isAbstract then do
          let found ← translator
          declareMethod (Owner.ofMember path member.isStatic) (methodName model member) declared
            (found.function (methodName model member) declared
              (member.replacement.getD declared) initializers)
        else pure () := by
  rw [translateMethod]
  cases member.definition.method? <;> rfl

theorem run_emit (declaration : Declaration) (session : Session) :
    (emit declaration).run.run session =
      match session.sink.accept session.output declaration with
      | .ok _ => (.ok (), { session with output := session.output ++ [declaration] })
      | .error error => (.error error, session) := by
  rw [emit, Stage.run_get_bind]
  cases session.sink.accept session.output declaration <;> rfl

end Run

namespace Comparison

variable {comparison : Comparison} {known : Cache} {begun : List String} {plan : Plan}

/-- Only the function that is found for a method depends on its body. -/
theorem ends_translateMethod {model : TypeModel} {path : String} {initializers : Block}
    {member : Member}
    (hplain : ∀ declaration, Declaration.isPlain declaration = true →
      comparison.Ends known begun plan (Run.emit declaration) (Run.emit declaration)
        fun _ _ => True)
    (hdeclare : ∀ declared acts records first second, member.definition.method? = some declared →
      comparison.Joins acts records first second →
      let implementation := member.replacement.getD declared
      let owner := Owner.ofMember path member.isStatic
      let name := methodName model member
      let function (session : Session) (bodies : Body → Body) : Except Error Function :=
        session.translator.function name (declared.mapBodies bodies)
          (implementation.mapBodies bodies) initializers
      comparison.Ends known begun plan
        (Run.declareMethod owner name (declared.mapBodies comparison.left)
          (function first comparison.left))
        (Run.declareMethod owner name (declared.mapBodies comparison.right)
          (function second comparison.right)) fun _ _ => True) :
    comparison.Ends known begun plan
      (Run.translateMethod (model.mapBodies comparison.left) path initializers
        (member.mapBodies comparison.left))
      (Run.translateMethod (model.mapBodies comparison.right) path initializers
        (member.mapBodies comparison.right)) fun _ _ => True := by
  rw [Run.translateMethod_eq, Run.translateMethod_eq]
  simp only [Member.definition_mapBodies, MemberDef.method?_mapBodies, Member.isExternal_mapBodies,
    Member.isReplaced_mapBodies, Member.isStatic_mapBodies, methodName_mapBodies,
    Member.replacement_mapBodies]
  cases hmethod : member.definition.method? with
  | none => exact ends_pure trivial
  | some declared =>
    simp only [Option.map_some, Option.getD_map, MethodDef.isAbstract_mapBodies]
    have hnone : comparison.Ends known begun plan (pure ()) (pure ()) fun _ _ => True :=
      ends_pure trivial
    refine ends_ite Iff.rfl (fun _ => ends_ite Iff.rfl (fun _ => hplain _ rfl) fun _ => hnone)
      fun _ => ends_ite Iff.rfl (fun _ => ?_) fun _ => hnone
    apply ends_consult_joins
    intro acts records first second hjoins _
    exact hdeclare declared acts records first second hmethod hjoins

end Comparison

namespace Session

variable {program : Program} {records : Records}

/-- Which types are ignored and which are structs is seen without the bodies. -/
theorem Keeps.oracle_eq {session : Session} {bodies : Body → Body}
    (h : session.Keeps program bodies records) :
    session.translator.store.oracle = ({ program, cache := records.cache } : Store).oracle := by
  have hignored : session.translator.store.ignores =
      ({ program, cache := records.cache } : Store).ignores := by
    funext signature
    rw [Store.ignores, h.program_eq, h.cache_eq, Program.ignores_mapBodies]
    rfl
  have hstruct : session.translator.store.graph.isStruct = program.graph.isStruct := by
    funext signature
    rw [h.graph_eq, Graph.isStruct_mapBodies]
  rw [Store.oracle, hignored, hstruct]
  rfl

/-- What is put out and reported is not on record. -/
theorem Keeps.told {session : Session} {bodies : Body → Body}
    (h : session.Keeps program bodies records) (output : List Declaration)
    (diagnostics : Diagnostics) :
    { session with
      output
      translator := { session.translator with
        store := { session.translator.store with diagnostics } } }.Keeps program bodies records :=
  ⟨h.program_eq, h.cache_eq, h.declared_eq, h.namespaces_eq, h.begun_eq⟩

/-- Two translators come to one function where they start from one tree. -/
theorem Keeps.function_eq {first second : Session} {left right : Body → Body}
    (hfirst : first.Keeps program left records) (hsecond : second.Keeps program right records)
    (hpipeline : first.translator.pipeline = second.translator.pipeline)
    {name : String} {declared implementation : MethodDef} {initializers : Block}
    (htree : first.translator.decompile (implementation.mapBodies left) =
      second.translator.decompile (implementation.mapBodies right)) :
    first.translator.function name (declared.mapBodies left) (implementation.mapBodies left)
        initializers =
      second.translator.function name (declared.mapBodies right) (implementation.mapBodies right)
        initializers := by
  simp only [Translator.function, htree, hpipeline, hfirst.oracle_eq, hsecond.oracle_eq,
    MethodDef.fullName_mapBodies]

theorem WorksLike.trans {first second third : Session} (h : first.WorksLike second)
    (hnext : second.WorksLike third) : first.WorksLike third where
  sink_eq := h.sink_eq.trans hnext.sink_eq
  output_eq := h.output_eq.trans hnext.output_eq
  pipeline_eq := h.pipeline_eq.trans hnext.pipeline_eq
  decompile_eq := h.decompile_eq.trans hnext.decompile_eq
  diagnostics_eq := h.diagnostics_eq.trans hnext.diagnostics_eq

theorem WorksLike.symm {first second : Session} (h : first.WorksLike second) :
    second.WorksLike first where
  sink_eq := h.sink_eq.symm
  output_eq := h.output_eq.symm
  pipeline_eq := h.pipeline_eq.symm
  decompile_eq := h.decompile_eq.symm
  diagnostics_eq := h.diagnostics_eq.symm

end Session

/-! ## One run and its acts -/

/-- What a run has put out that is not plain is due to some of the acts, in their order. -/
def Session.DueTo (session : Session) (acts : List Act) (cache : Cache) : Prop :=
  ∃ sources : List Act, sources.Sublist acts ∧
    List.Forall₂ (Act.LeadsTo cache) sources (session.output.filter (!·.isPlain))

namespace Comparison

/-- A run beside itself, with an account of what it puts out. -/
def counting (program : Program) : Comparison where
  program := program
  left := fun body => body
  right := fun body => body
  admits _ := True
  holds acts cache first second := second.WorksLike first ∧ first.DueTo acts cache

variable {program : Program} {known : Cache} {begun : List String} {plan : Plan}

/-- A declaration is put out by some acts, or none if it is plain. -/
theorem counting_ends_emit {declaration : Declaration} {led : List Act} (hallows : plan.Allows led)
    (hled : ∀ later, later.Extends known →
      List.Forall₂ (Act.LeadsTo later) led ([declaration].filter (!·.isPlain))) :
    (counting program).Ends known begun plan (Run.emit declaration) (Run.emit declaration)
      fun _ _ => True := by
  intro acts records first second hjoins hextends hbegun
  obtain ⟨hworks, sources, hsublist, hdue⟩ := hjoins.holds
  have haccept : second.sink.accept second.output declaration =
      first.sink.accept first.output declaration := by
    rw [hworks.sink_eq, hworks.output_eq]
  rw [Comes, Run.run_emit, Run.run_emit, haccept]
  cases first.sink.accept first.output declaration with
  | error error =>
    refine ⟨[], records, plan.allows_nil, .refl _, hbegun, ?_, rfl⟩
    rw [List.append_nil]
    exact hjoins
  | ok =>
    refine ⟨led, records, hallows, .refl _, hbegun, ?_, trivial⟩
    refine ⟨hjoins.left.told _ _, hjoins.right.told _ _, hjoins.finishes, ?_, sources ++ led,
      hsublist.append_right led, ?_⟩
    · exact ⟨hworks.sink_eq, congrArg (· ++ [declaration]) hworks.output_eq, hworks.pipeline_eq,
        hworks.decompile_eq, hworks.diagnostics_eq⟩
    · rw [List.filter_append]
      exact List.rel_append hdue (hled records.cache hextends)

theorem counting_ends_emit_plain {declaration : Declaration}
    (hplain : declaration.isPlain = true) :
    (counting program).Ends known begun plan (Run.emit declaration) (Run.emit declaration)
      fun _ _ => True := by
  apply counting_ends_emit plan.allows_nil
  intro later _
  simp [hplain]

theorem counting_ends_emit_once {act : Act} {declaration : Declaration}
    (hplain : declaration.isPlain = false)
    (hled : ∀ later, later.Extends known → act.LeadsTo later declaration) :
    (counting program).Ends known begun (.once act) (Run.emit declaration) (Run.emit declaration)
      fun _ _ => True := by
  apply counting_ends_emit (Plan.allows_once act)
  intro later hextends
  simpa [hplain] using hled later hextends

theorem counting_ends_report (entry : Diagnostic) :
    (counting program).Ends known begun plan (Run.report entry) (Run.report entry)
      fun _ _ => True := by
  intro acts records first second hjoins _ hbegun
  obtain ⟨hworks, hdue⟩ := hjoins.holds
  refine ⟨[], records, plan.allows_nil, .refl _, hbegun, ?_, trivial⟩
  rw [List.append_nil]
  exact
    { left := hjoins.left.told _ _
      right := hjoins.right.told _ _
      finishes := hjoins.finishes
      holds := ⟨⟨hworks.sink_eq, hworks.output_eq, hworks.pipeline_eq, hworks.decompile_eq,
        congrArg (·.push entry) hworks.diagnostics_eq⟩, hdue⟩ }

/-- Declaring a method takes one turn, whether or not it could be translated. -/
theorem counting_ends_declareMethod {act : Act} {owner : Owner} {name : String}
    {declared : MethodDef} {result : Except Error Function}
    (hled : ∀ later, later.Extends known →
      (∀ function, act.LeadsTo later (.method owner name function)) ∧
        act.LeadsTo later (.untranslatable owner name declared.fullName)) :
    (counting program).Ends known begun (.once act) (Run.declareMethod owner name declared result)
      (Run.declareMethod owner name declared result) fun _ _ => True := by
  cases result with
  | ok function =>
    exact counting_ends_emit_once rfl fun later hlater => (hled later hlater).1 function
  | error error =>
    refine ends_ite Iff.rfl (fun _ => ?_) fun _ => ends_throw error
    exact (counting_ends_report _).then fun _ _ _ =>
      counting_ends_emit_once rfl fun later hlater => (hled later hlater).2

theorem counting_kept (program : Program) : (counting program).Kept where
  spared_left := program.spared_id
  spared_right := program.spared_id
  indexed _ _ := trivial
  nested _ _ _ _ := trivial
  steady := by
    rintro acts cache later first second next other ⟨hworks, sources, hsublist, hdue⟩ hextends
      hnext hother
    refine ⟨hother.trans (hworks.trans hnext.symm), sources, hsublist, ?_⟩
    rw [hnext.output_eq]
    exact hdue.imp fun _ _ hled => hled.mono hextends
  emits := counting_ends_emit_plain
  reports {_ _ entry} _ := counting_ends_report entry
  translates := by
    intro known begun act model member initializers hknows htranslated
    apply ends_translateMethod (fun _ => counting_ends_emit_plain)
    intro declared acts records first second hmethod hjoins implementation owner name function
    obtain ⟨hworks, -⟩ := hjoins.holds
    have htree : first.translator.decompile (implementation.mapBodies (counting program).left) =
        second.translator.decompile (implementation.mapBodies (counting program).right) := by
      rw [hworks.decompile_eq]
      rfl
    have hsame : function first (counting program).left =
        function second (counting program).right :=
      hjoins.left.function_eq hjoins.right hworks.pipeline_eq.symm htree
    rw [hsame]
    simp only [counting, MethodDef.mapBodies_id]
    refine counting_ends_declareMethod fun later hlater => ⟨fun function => ?_, ?_⟩
    · exact .method (hlater.model?_eq hknows.model?_eq) htranslated (.method hmethod function)
    · exact .method (hlater.model?_eq hknows.model?_eq) htranslated (.untranslatable hmethod)
  seals {_ _ id model} hknows := counting_ends_emit_once rfl fun later hlater =>
    .sealing (hlater.model?_eq hknows.model?_eq) hknows.typeId_eq

end Comparison

/-- The static constructor of a model is found under its identifier. -/
def OwnsStaticConstructor (model : TypeModel) : Prop :=
  ∀ member, model.staticConstructorMember? = some member →
    TypeModel.isStaticConstructor member = true

/-- A method of a model in a store, known by the type and by its position among the
methods, is the one that a declaration is for. -/
def DeclaredFor (store : Store) (source : TypeId × Nat) (declaration : Declaration) : Prop :=
  ∃ model member, store.model? source.1 = some model ∧
    model.methods[source.2]? = some member ∧ Declares model member declaration

/-- The method that is translated by an act. -/
inductive Act.Translates (cache : Cache) : Act → TypeId × Nat → Prop
  | method {type : TypeId} {position : Nat} {model : TypeModel} {member : Member}
      (hmodel : cache.model? type = some model) (hmember : model.methods[position]? = some member)
      (hplain : TypeModel.isStaticConstructor member = false) :
      Translates cache (.method type position) (type, position)
  | constructor {type : TypeId} {position : Nat} {model : TypeModel} {member : Member}
      (hmodel : cache.model? type = some model) (hmember : model.methods[position]? = some member)
      (hstatic : model.staticConstructorMember? = some member) :
      Translates cache (.constructor type) (type, position)

namespace Act

variable {store : Store} {cache : Cache} {act : Act} {source : TypeId × Nat}

/-- Every method that is translated has a position. -/
theorem exists_translates {model : TypeModel} {member : Member} {initializers : Block}
    {declared : MethodDef} (hmodel : cache.model? act.type = some model)
    (htranslated : act.translated? model = some (member, initializers))
    (hmethod : member.definition.method? = some declared) :
    ∃ position, act.Translates cache (act.type, position) ∧
      model.methods[position]? = some member := by
  cases act with
  | sealing => cases htranslated
  | method type position =>
    obtain ⟨found, hfound, heq⟩ := Option.map_eq_some_iff.1 htranslated
    obtain ⟨rfl, -⟩ := Prod.mk.inj heq
    rw [Option.filter_eq_some_iff, Bool.not_eq_true'] at hfound
    exact ⟨position, .method hmodel hfound.1 hfound.2, hfound.1⟩
  | constructor type =>
    obtain ⟨found, hfound, heq⟩ := Option.map_eq_some_iff.1 htranslated
    obtain ⟨rfl, -⟩ := Prod.mk.inj heq
    have hkind : found.kind = .method := by
      cases hdefinition : found.definition with
      | method => rw [Member.kind, Member.id, hdefinition]; rfl
      | field | property => rw [hdefinition] at hmethod; cases hmethod
    obtain ⟨static, -, hfind⟩ := Option.bind_eq_some_iff.1 hfound
    have hmem : found ∈ model.methods :=
      TypeModel.mem_methods_iff.2 ⟨List.mem_reverse.1 (List.mem_of_find?_eq_some hfind), hkind⟩
    obtain ⟨position, hposition⟩ := List.getElem?_of_mem hmem
    exact ⟨position, .constructor hmodel hposition hfound, hposition⟩

/-- A method that is declared was read from one method of a finished model. -/
theorem LeadsTo.exists_source {declaration : Declaration}
    (h : act.LeadsTo store.cache declaration) (hmethod : declaration.isMethod = true) :
    ∃ source, act.Translates store.cache source ∧ DeclaredFor store source declaration := by
  cases h with
  | sealing => cases hmethod
  | @method _ model member initializers _ hmodel hmember hdeclares =>
    have hdeclared : ∃ declared, member.definition.method? = some declared := by
      cases hdeclares with
      | method hdeclared | untranslatable hdeclared => exact ⟨_, hdeclared⟩
    obtain ⟨declared, hdeclared⟩ := hdeclared
    obtain ⟨position, htranslates, hposition⟩ := exists_translates hmodel hmember hdeclared
    exact ⟨(act.type, position), htranslates, model, member, hmodel, hposition, hdeclares⟩

/-- A method is translated by one act only, unless one that is not a static constructor
is found under the identifier of the static constructor. -/
theorem Translates.unique (h : act.Translates cache source) {other : Act}
    (hother : other.Translates cache source)
    (howns : ∀ model member, cache.model? source.1 = some model →
      model.methods[source.2]? = some member → model.staticConstructorMember? = some member →
      TypeModel.isStaticConstructor member = true) : act = other := by
  -- The method at a position is not both passed over and found as a static constructor.
  have hexclusive : ∀ {model found : TypeModel} {member static : Member},
      cache.model? source.1 = some model → model.methods[source.2]? = some member →
      TypeModel.isStaticConstructor member = false → cache.model? source.1 = some found →
      found.methods[source.2]? = some static → ¬found.staticConstructorMember? = some static := by
    intro model found member static hmodel hmember hplain hfound hposition hstatic
    obtain rfl := Option.some.inj (hmodel.symm.trans hfound)
    obtain rfl := Option.some.inj (hmember.symm.trans hposition)
    rw [howns _ _ hmodel hmember hstatic] at hplain
    cases hplain
  cases h with
  | method hmodel hmember hplain =>
    cases hother with
    | method => rfl
    | constructor hfound hposition hstatic =>
      exact absurd hstatic (hexclusive hmodel hmember hplain hfound hposition)
  | constructor hfound hposition hstatic =>
    cases hother with
    | constructor => rfl
    | method hmodel hmember hplain =>
      exact absurd hstatic (hexclusive hmodel hmember hplain hfound hposition)

/-- A type is sealed where it lives. -/
theorem LeadsTo.eq_sealing {cache : Cache} {act : Act} {location : Location}
    (h : act.LeadsTo cache (.sealed location)) :
    ∃ definition : TypeDef, act = .sealing definition.typeId ∧ definition.location = location := by
  cases h with
  | method _ _ hdeclares => cases hdeclares
  | sealing hmodel hid => exact ⟨_, congrArg Act.sealing hid.symm, rfl⟩

end Act

/-- Different acts seal different types. -/
theorem nodup_sealed {cache : Cache} {acts : List Act} {declarations : List Declaration}
    (h : List.Forall₂ (Act.LeadsTo cache) acts declarations) (hacts : acts.Nodup) :
    (declarations.filterMap Declaration.sealed?).Nodup := by
  induction h with
  | nil => exact List.nodup_nil
  | @cons act declaration others rest hled hrest ih =>
    rw [List.nodup_cons] at hacts
    rw [List.filterMap_cons]
    split
    · exact ih hacts.2
    · rename_i location hlocation
      refine List.nodup_cons.2 ⟨fun hmem => hacts.1 ?_, ih hacts.2⟩
      obtain ⟨other, hother, hsame⟩ := List.mem_filterMap.1 hmem
      obtain ⟨source, hsource, hfrom⟩ := exists_of_mem_forall₂ hrest hother
      have hsealed : ∀ declaration, Declaration.sealed? declaration = some location →
          declaration = .sealed location := by
        intro declaration h
        cases declaration with
        | sealed => exact congrArg _ (Option.some.inj h)
        | _ => cases h
      rw [hsealed _ hlocation] at hled
      rw [hsealed _ hsame] at hfrom
      obtain ⟨definition, rfl, hhere⟩ := hled.eq_sealing
      obtain ⟨twin, rfl, hthere⟩ := hfrom.eq_sealing
      have hname : definition.fullName = twin.fullName :=
        Location.ofFullName_injective (hhere.trans hthere.symm)
      rw [TypeDef.typeId, hname]
      exact hsource

/-- Different acts declare different methods. -/
theorem exists_nodup_sources {store : Store}
    (howns : ∀ model ∈ store.cache.models, OwnsStaticConstructor model) {acts : List Act}
    {declarations : List Declaration}
    (h : List.Forall₂ (Act.LeadsTo store.cache) acts declarations) (hacts : acts.Nodup) :
    ∃ sources : List (TypeId × Nat), sources.Nodup ∧
      (∀ source ∈ sources, ∃ act ∈ acts, act.Translates store.cache source) ∧
      List.Forall₂ (DeclaredFor store) sources (declarations.filter (·.isMethod)) := by
  induction h with
  | nil => exact ⟨[], List.nodup_nil, fun _ h => absurd h List.not_mem_nil, .nil⟩
  | @cons act declaration others rest hled hrest ih =>
    rw [List.nodup_cons] at hacts
    obtain ⟨sources, hnodup, hfrom, hdeclared⟩ := ih hacts.2
    by_cases hmethod : declaration.isMethod = true
    · obtain ⟨source, htranslates, hfor⟩ := hled.exists_source hmethod
      rw [List.filter_cons_of_pos hmethod]
      refine ⟨source :: sources, List.nodup_cons.2 ⟨fun hmem => hacts.1 ?_, hnodup⟩, ?_,
        .cons hfor hdeclared⟩
      · obtain ⟨other, hother, hsame⟩ := hfrom source hmem
        have hone := htranslates.unique hsame fun model member hmodel _ hstatic =>
          howns model (Cache.mem_models_of_model? hmodel) member hstatic
        exact hone ▸ hother
      · rw [List.forall_mem_cons]
        exact ⟨⟨act, List.mem_cons_self, htranslates⟩, fun other hother =>
          (hfrom other hother).imp fun _ h => ⟨List.mem_cons_of_mem _ h.1, h.2⟩⟩
    · rw [List.filter_cons_of_neg hmethod]
      exact ⟨sources, hnodup, fun other hother =>
        (hfrom other hother).imp fun _ h => ⟨List.mem_cons_of_mem _ h.1, h.2⟩, hdeclared⟩

namespace Translator

/-- Whatever a translator is given, what a run declares for methods and seals is due to
acts, and there are no more of these for a type than the walks come by it. -/
theorem exists_acts {translator : Translator} (hfresh : translator.IsFresh) (sink : Sink)
    (listed : List AssemblyDef) :
    let outcome := translator.translate sink listed
    ∃ acts, Plan.Allows (.turns ((Run.walked listed).map (·.typeId))) acts ∧
      List.Forall₂ (Act.LeadsTo outcome.translator.store.cache) acts
        (outcome.output.filter (!·.isPlain)) := by
  let session : Session := { translator, sink }
  let comparison := Comparison.counting translator.store.program
  have hkeeps : session.Keeps translator.store.program (fun body => body) .empty :=
    hfresh.keeps sink (Program.mapBodies_id _).symm
  have hjoins : comparison.Joins [] .empty session session :=
    { left := hkeeps
      right := hkeeps
      finishes := Program.finishesAll_empty
      holds := ⟨session.worksLike_refl, [], .refl _, .nil⟩ }
  have hadmits : ∀ assembly ∈ listed, ∀ top ∈ Run.roots assembly, comparison.admits top :=
    fun _ _ _ _ => trivial
  obtain ⟨acts, later, hallows, hend, -⟩ :=
    (Comparison.counting_kept translator.store.program).comes_translateAll hadmits hjoins rfl
  have hsame : listed.map (·.mapBodies comparison.left) = listed :=
    map_eq_self fun assembly _ => assembly.mapBodies_id
  rw [hsame] at hend
  obtain ⟨-, sources, hsublist, hdue⟩ := hend.holds
  have hcache := hend.left.cache_eq
  have hidentity : later.cache.mapBodies comparison.left = later.cache := Cache.mapBodies_id _
  rw [hidentity] at hcache
  refine ⟨sources, fun act => ?_, ?_⟩
  · exact Nat.le_trans (hsublist.count_le act) (hallows act)
  · rw [← hcache] at hdue
    exact hdue

/-- Where no two of the types that are walked over have one name, no type is sealed
twice, and no method of a model is declared twice. -/
theorem translate_declares_methods_once {translator : Translator} (hfresh : translator.IsFresh)
    (sink : Sink) {listed : List AssemblyDef}
    (honce : ((Run.walked listed).map (·.fullName)).Nodup)
    (howns : ∀ model ∈ (translator.translate sink listed).translator.store.cache.models,
      OwnsStaticConstructor model) :
    let outcome := translator.translate sink listed
    (outcome.output.filterMap Declaration.sealed?).Nodup ∧
      ∃ sources : List (TypeId × Nat), sources.Nodup ∧
        List.Forall₂ (DeclaredFor outcome.translator.store) sources
          (outcome.output.filter (·.isMethod)) := by
  intro outcome
  obtain ⟨acts, hallows, hled⟩ := exists_acts hfresh sink listed
  have hids : ((Run.walked listed).map (·.typeId)).Nodup := by
    apply List.Nodup.of_map TypeId.fullName
    rw [List.map_map]
    exact honce
  have hacts : acts.Nodup := List.nodup_iff_count_le_one.2 fun act =>
    Nat.le_trans (hallows act) (List.nodup_iff_count_le_one.1 hids act.type)
  obtain ⟨sources, hsources, -, hdeclared⟩ := exists_nodup_sources howns hled hacts
  have hsealed := nodup_sealed hled hacts
  -- Nothing that is plain is a seal or a method.
  rw [List.filterMap_filter] at hsealed
  rw [List.filter_filter] at hdeclared
  have hseals : (fun declaration => if (!Declaration.isPlain declaration) = true then
      declaration.sealed? else none) = Declaration.sealed? := by
    funext declaration
    cases declaration <;> rfl
  have hmethods : (fun declaration => Declaration.isMethod declaration &&
      !Declaration.isPlain declaration) = Declaration.isMethod := by
    funext declaration
    cases declaration <;> rfl
  rw [hseals] at hsealed
  rw [hmethods] at hdeclared
  exact ⟨hsealed, sources, hsources, hdeclared⟩

/-- Two classes with static constructors, the second with a method as well. -/
def pairAssembly : AssemblyBlueprint :=
  sampleAssembly
    [twinClass,
     { sampleClass "Tool" (some "Twin") [] with
       methods :=
        [.staticConstructor,
         { name := "Run", flags := MethodFlag.isPublic ||| MethodFlag.isStatic }] }]

/-- An assembly that is listed twice has each of its three methods declared once. -/
theorem translate_declares_methods_once_pairAssembly :
    let translator := ofBlueprint pairAssembly
    let listed := [pairAssembly.build, pairAssembly.build]
    let outcome := translator.translate .collecting listed
    ((Run.walked listed).map (·.fullName)).Nodup ∧
      (∀ model ∈ outcome.translator.store.cache.models, OwnsStaticConstructor model) ∧
      (outcome.output.filter (·.isMethod)).length = 3 ∧
      (outcome.output.filterMap Declaration.sealed?).Nodup ∧
      ∃ sources : List (TypeId × Nat), sources.Nodup ∧
        List.Forall₂ (DeclaredFor outcome.translator.store) sources
          (outcome.output.filter (·.isMethod)) := by
  intro translator listed outcome
  have honce : ((Run.walked listed).map (·.fullName)).Nodup := by decide +kernel
  have howns : ∀ model ∈ outcome.translator.store.cache.models, OwnsStaticConstructor model := by
    have hall : ∀ model ∈ outcome.translator.store.cache.models,
        model.staticConstructorMember?.all TypeModel.isStaticConstructor = true := by
      decide +kernel
    intro model hmodel member hmember
    have hmodel := hall model hmodel
    rwa [hmember] at hmodel
  exact ⟨honce, howns, by decide +kernel,
    translate_declares_methods_once (isFresh_ofBlueprint pairAssembly) .collecting honce howns⟩

/-- An assembly with a type of its own under a name that is taken. -/
def copyAssembly : AssemblyBlueprint :=
  { sampleAssembly [twinClass] with identity := { name := "Lib" } }

/-- Where two assemblies have a type of one name, that type is sealed twice. -/
theorem not_translate_declares_methods_once :
    ¬∀ (translator : Translator) (sink : Sink) (listed : List AssemblyDef), translator.IsFresh →
      translator.store.graph.WellFormed → listed ⊆ translator.store.graph.assemblies →
      let outcome := translator.translate sink listed
      (outcome.output.filterMap Declaration.sealed?).Nodup ∧
        ∃ sources : List (TypeId × Nat), sources.Nodup ∧
          List.Forall₂ (DeclaredFor outcome.translator.store) sources
            (outcome.output.filter (·.isMethod)) := by
  intro h
  let blueprints := [sampleAssembly [twinClass], copyAssembly]
  let translator :=
    ({} : Settings).translator (Graph.ofAssemblies (blueprints.map (·.build))) {}
  have hlisted : blueprints.map (·.build) ⊆ translator.store.graph.assemblies := by
    have hall : translator.store.graph.assemblies = blueprints.map (·.build) := rfl
    rw [hall]
    exact List.Subset.refl _
  have hseals := (h translator .collecting _ (isFresh_translator _ _ _)
    (Graph.wellFormed_ofAssemblies blueprints) hlisted).1
  have htwice : ¬((translator.translate .collecting (blueprints.map (·.build))).output.filterMap
      Declaration.sealed?).Nodup := by
    decide +kernel
  exact htwice hseals

end Translator

end Script

end Assemblage
