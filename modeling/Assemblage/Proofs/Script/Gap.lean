import Assemblage.Proofs.Definition.Rebodied
import Assemblage.Proofs.Model.Provenance
import Assemblage.Proofs.Script.Turns

/-!
# One body in question

Two runs over programs that differ in one body are put side by side over a program that
has a mark in its place.  What either run tells, that is, puts out and reports, is the
same step by step, except where it declares the method in question.
-/

namespace Assemblage

/-- Whether an entry reports that a method could not be translated. -/
def Diagnostic.isMethodError (entry : Diagnostic) : Bool :=
  entry.severity == .error && entry.category == .method

/-- Whether an entry is about the method with the given full name. -/
def Diagnostic.isAbout (fullName : String) (entry : Diagnostic) : Bool :=
  entry.category == .method && entry.subject == some fullName

namespace Script

def Declaration.isUntranslatable : Declaration → Bool
  | .untranslatable .. => true
  | _ => false

/-- The session with more declarations and reports. -/
def Session.tell (session : Session) (declarations : List Declaration)
    (reports : List Diagnostic) : Session :=
  { session with
    output := session.output ++ declarations
    translator := { session.translator with
      store := { session.translator.store with
        diagnostics := ⟨session.translator.store.diagnostics.entries ++ reports⟩ } } }

theorem Session.tell_tell (session : Session) (declarations more : List Declaration)
    (reports further : List Diagnostic) :
    (session.tell declarations reports).tell more further =
      session.tell (declarations ++ more) (reports ++ further) := by
  simp only [tell, List.append_assoc]

theorem run_report (entry : Diagnostic) (session : Session) :
    (Run.report entry).run.run session = (.ok (), session.tell [] [entry]) := by
  rw [Session.tell, List.append_nil]
  rfl

section

variable {session : Session} (hsink : session.sink = .collecting)

include hsink

theorem run_emit_collecting (declaration : Declaration) :
    (Run.emit declaration).run.run session = (.ok (), session.tell [declaration] []) := by
  have haccept : session.sink.accept session.output declaration = .ok () := by
    rw [hsink]
    rfl
  rw [Run.run_emit, haccept, Session.tell, List.append_nil]

/-- A method is declared whatever comes of it, as long as the error is its own. -/
theorem run_declareMethod_collecting {owner : Owner} {name : String} {declared : MethodDef}
    {result : Except Error Function}
    (hlocal : ∀ error, result = .error error → error.isMethodLocal = true) :
    (Run.declareMethod owner name declared result).run.run session =
      (.ok (), session.tell [methodDeclaration owner name declared result]
        (methodReports declared result)) := by
  cases result with
  | ok function => exact run_emit_collecting hsink _
  | error error =>
    have htold : (session.tell [] [Run.untranslated declared error]).sink = .collecting := hsink
    rw [Run.declareMethod, if_pos (hlocal error rfl), Comparison.run_bind, run_report]
    dsimp only
    rw [run_emit_collecting htold, Session.tell_tell]
    rfl

end

/-- Two outputs differ where certain acts have declared something, each in one place. -/
inductive Alike (declares : Act → Declaration → Prop) :
    List Act → List Declaration → List Declaration → Prop
  | nil : Alike declares [] [] []
  | same {acts : List Act} {left right : List Declaration} (h : Alike declares acts left right)
      (declaration : Declaration) :
      Alike declares acts (left ++ [declaration]) (right ++ [declaration])
  | differ {acts : List Act} {left right : List Declaration} (h : Alike declares acts left right)
      {act : Act} {declaration other : Declaration} (hleft : declares act declaration)
      (hright : declares act other) :
      Alike declares (acts ++ [act]) (left ++ [declaration]) (right ++ [other])

namespace Alike

variable {declares further : Act → Declaration → Prop} {acts : List Act}
  {left right : List Declaration}

theorem mono (h : Alike declares acts left right)
    (himp : ∀ act declaration, declares act declaration → further act declaration) :
    Alike further acts left right := by
  induction h with
  | nil => exact .nil
  | same _ declaration ih => exact ih.same declaration
  | differ _ hleft hright ih => exact ih.differ (himp _ _ hleft) (himp _ _ hright)

theorem eq (h : Alike declares [] left right) : left = right := by
  generalize hacts : ([] : List Act) = acts at h
  induction h with
  | nil => rfl
  | same _ declaration ih => rw [ih hacts]
  | differ => cases List.append_ne_nil_of_right_ne_nil _ (List.cons_ne_nil _ _) hacts.symm

/-- One act makes one difference. -/
theorem exists_difference {act : Act} (h : Alike declares [act] left right) :
    ∃ before declaration other after, left = before ++ declaration :: after ∧
      right = before ++ other :: after ∧ declares act declaration ∧ declares act other := by
  generalize hacts : [act] = acts at h
  induction h with
  | nil => cases hacts
  | same _ last ih =>
    obtain ⟨before, declaration, other, after, rfl, rfl, hdeclares⟩ := ih hacts
    refine ⟨before, declaration, other, after ++ [last], ?_, ?_, hdeclares⟩
    · rw [List.append_assoc, List.cons_append]
    · rw [List.append_assoc, List.cons_append]
  | @differ acts left right hrest own declaration other hleft hright =>
    have hlast : [] ++ [act] = acts ++ [own] := hacts
    obtain ⟨rfl, hact⟩ := List.append_inj' hlast rfl
    obtain rfl := List.head_eq_of_cons_eq hact
    exact ⟨left, declaration, other, [], rfl, by rw [hrest.eq], hleft, hright⟩

theorem exists_act (h : Alike declares acts left right) :
    ∀ act ∈ acts, ∃ declaration, declares act declaration := by
  induction h with
  | nil => exact fun _ h => absurd h List.not_mem_nil
  | same _ _ ih => exact ih
  | differ _ hleft _ ih =>
    rw [List.forall_mem_append, List.forall_mem_singleton]
    exact ⟨ih, _, hleft⟩

end Alike

/-- A program with a mark in the place of one body, which occurs nowhere else, and the
two bodies that it stands for. -/
structure Gap where
  program : Program
  count : Nat
  old : Body
  body : Body
  method : MethodDef
  /-- The type of the method. -/
  place : TypeDef
  spared : ∀ other, program.Spared (.fill count other)
  old_ne_mark : old ≠ .mark count
  marksOnly : place.MarksOnly count method
  eq_place : ∀ definition, program.graph.Indexes definition →
    ∀ inside ∈ definition.withNested, inside.HoldsMark count → inside = place

namespace Gap

/-- An act declares the method in question. -/
inductive Opens (count : Nat) (cache : Cache) (act : Act) (declaration : Declaration) : Prop
  | intro {model : TypeModel} {member : Member} {initializers : Block} {declared : MethodDef}
      (hmodel : cache.model? act.type = some model)
      (htranslated : act.translated? model = some (member, initializers))
      (hdefinition : member.definition = .method declared) (hmarked : declared.IsMarked count)
      (hdeclares : Declares model member declaration)

theorem Opens.mono {count : Nat} {cache later : Cache} (hextends : later.Extends cache) {act : Act}
    {declaration : Declaration} (h : Opens count cache act declaration) :
    Opens count later act declaration := by
  obtain ⟨hmodel, htranslated, hdefinition, hmarked, hdeclares⟩ := h
  exact ⟨hextends.model?_eq hmodel, htranslated, hdefinition, hmarked, hdeclares⟩

/-- What holds of the two runs: what they have told differs only on the method in
question, and each reports as many methods as it leaves untranslated. -/
structure Isolates (count : Nat) (fullName : String) (base : Nat) (acts : List Act) (cache : Cache)
    (first second : Session) : Prop where
  first_sink : first.sink = .collecting
  second_sink : second.sink = .collecting
  pipeline_eq : first.translator.pipeline = second.translator.pipeline
  first_decompile : first.translator.decompile = MethodDef.decompile
  second_decompile : second.translator.decompile = MethodDef.decompile
  told : ∃ sources : List Act, sources.Sublist acts ∧
    Alike (Opens count cache) sources first.output second.output
  reports_eq :
    first.translator.store.diagnostics.entries.filter (!·.isAbout fullName) =
      second.translator.store.diagnostics.entries.filter (!·.isAbout fullName)
  first_balanced : base + first.output.countP (·.isUntranslatable) =
    first.translator.store.diagnostics.entries.countP (·.isMethodError)
  second_balanced : base + second.output.countP (·.isUntranslatable) =
    second.translator.store.diagnostics.entries.countP (·.isMethodError)

variable (gap : Gap)

/-- The two runs, with `base` method errors from before. -/
def comparison (base : Nat) : Comparison where
  program := gap.program
  left := .fill gap.count gap.old
  right := .fill gap.count gap.body
  admits definition :=
    ∀ inside ∈ definition.withNested, inside.HoldsMark gap.count → inside = gap.place
  holds := Isolates gap.count gap.method.fullName base

section

variable {gap : Gap} {base : Nat} {known : Cache} {begun : List String} {plan : Plan}

/-- Both sides tell something. -/
theorem ends_tell {left right : Run Unit} {declarations others : List Declaration}
    {reports further : List Diagnostic} {led : List Act} (hallows : plan.Allows led)
    (hleft : ∀ session : Session, session.sink = .collecting →
      left.run.run session = (.ok (), session.tell declarations reports))
    (hright : ∀ session : Session, session.sink = .collecting →
      right.run.run session = (.ok (), session.tell others further))
    (htold : ∀ later, later.Extends known → ∀ sources first second,
      Alike (Opens gap.count later) sources first second →
        Alike (Opens gap.count later) (sources ++ led) (first ++ declarations) (second ++ others))
    (hreports : reports.filter (!·.isAbout gap.method.fullName) =
      further.filter (!·.isAbout gap.method.fullName))
    (hbalance : declarations.countP (·.isUntranslatable) = reports.countP (·.isMethodError))
    (hbalance' : others.countP (·.isUntranslatable) = further.countP (·.isMethodError)) :
    (gap.comparison base).Ends known begun plan left right fun _ _ => True := by
  intro acts records first second hjoins hextends hbegun
  have hholds : Isolates gap.count gap.method.fullName base acts records.cache first second :=
    hjoins.holds
  obtain ⟨sources, hsublist, halike⟩ := hholds.told
  rw [Comparison.Comes, hleft first hholds.first_sink, hright second hholds.second_sink]
  refine ⟨led, records, hallows, .refl _, hbegun, ?_, trivial⟩
  have hafter : Isolates gap.count gap.method.fullName base (acts ++ led) records.cache
      (first.tell declarations reports) (second.tell others further) :=
    { first_sink := hholds.first_sink
      second_sink := hholds.second_sink
      pipeline_eq := hholds.pipeline_eq
      first_decompile := hholds.first_decompile
      second_decompile := hholds.second_decompile
      told := ⟨sources ++ led, hsublist.append_right led,
        htold records.cache hextends sources _ _ halike⟩
      reports_eq := by
        simp only [Session.tell, List.filter_append, hholds.reports_eq, hreports]
      first_balanced := by
        simp only [Session.tell, List.countP_append, ← hholds.first_balanced, hbalance,
          Nat.add_assoc]
      second_balanced := by
        simp only [Session.tell, List.countP_append, ← hholds.second_balanced, hbalance',
          Nat.add_assoc] }
  exact
    { left := hjoins.left.told _ _
      right := hjoins.right.told _ _
      finishes := hjoins.finishes
      holds := hafter }

/-- Both sides put out the same, which is not for a method that was not translated. -/
theorem ends_emit {declaration : Declaration} (h : declaration.isUntranslatable = false) :
    (gap.comparison base).Ends known begun plan (Run.emit declaration) (Run.emit declaration)
      fun _ _ => True := by
  have hcount : [declaration].countP (·.isUntranslatable) = 0 := by simp [h]
  refine ends_tell plan.allows_nil (fun _ hsink => run_emit_collecting hsink declaration)
    (fun _ hsink => run_emit_collecting hsink declaration) ?_ rfl hcount hcount
  intro later _ sources first second halike
  rw [List.append_nil]
  exact halike.same declaration

theorem ends_report {entry : Diagnostic} (h : entry.category ≠ .method) :
    (gap.comparison base).Ends known begun plan (Run.report entry) (Run.report entry)
      fun _ _ => True := by
  have hcount : 0 = [entry].countP (·.isMethodError) := by simp [Diagnostic.isMethodError, h]
  refine ends_tell plan.allows_nil (fun session _ => run_report entry session)
    (fun session _ => run_report entry session) ?_ rfl hcount hcount
  intro later _ sources first second halike
  simp only [List.append_nil]
  exact halike

/-- A method that cannot be translated is reported exactly once. -/
theorem countP_methodReports (owner : Owner) (name : String) (declared : MethodDef)
    (result : Except Error Function) :
    [methodDeclaration owner name declared result].countP (·.isUntranslatable) =
      (methodReports declared result).countP (·.isMethodError) := by
  cases result <;> rfl

theorem methodDeclaration_mapBodies {f : Body → Body} (owner : Owner) (name : String)
    (declared : MethodDef) (result : Except Error Function) :
    methodDeclaration owner name (declared.mapBodies f) result =
      methodDeclaration owner name declared result := by
  cases result <;> rfl

theorem methodReports_mapBodies {f : Body → Body} (declared : MethodDef)
    (result : Except Error Function) :
    methodReports (declared.mapBodies f) result = methodReports declared result := by
  cases result <;> rfl

/-- Both sides declare a method.  They may come to different results where it is the
method in question. -/
theorem ends_declareMethod {owner : Owner} {name : String} {declared : MethodDef}
    {result found : Except Error Function} {led : List Act} (hallows : plan.Allows led)
    (hlocal : ∀ error, result = .error error → error.isMethodLocal = true)
    (hlocal' : ∀ error, found = .error error → error.isMethodLocal = true)
    (hresult : result = found ∧ led = [] ∨
      declared.fullName = gap.method.fullName ∧ ∃ act, led = [act] ∧
        ∀ later, later.Extends known → ∀ result,
          Opens gap.count later act (methodDeclaration owner name declared result)) :
    (gap.comparison base).Ends known begun plan
      (Run.declareMethod owner name (declared.mapBodies (gap.comparison base).left) result)
      (Run.declareMethod owner name (declared.mapBodies (gap.comparison base).right) found)
      fun _ _ => True := by
  refine ends_tell hallows (fun _ hsink => run_declareMethod_collecting hsink hlocal)
    (fun _ hsink => run_declareMethod_collecting hsink hlocal') ?_ ?_
    (countP_methodReports _ _ _ _) (countP_methodReports _ _ _ _)
  · intro later hextends sources first second halike
    rw [methodDeclaration_mapBodies, methodDeclaration_mapBodies]
    rcases hresult with ⟨rfl, rfl⟩ | ⟨-, act, rfl, hopens⟩
    · rw [List.append_nil]
      exact halike.same _
    · exact halike.differ (hopens later hextends result) (hopens later hextends found)
  · rw [methodReports_mapBodies, methodReports_mapBodies]
    rcases hresult with ⟨rfl, -⟩ | ⟨hname, -⟩
    · rfl
    · have hnone : ∀ result, (methodReports declared result).filter
          (!·.isAbout gap.method.fullName) = [] := by
        intro result
        cases result with
        | ok => rfl
        | error error =>
          simp [methodReports, Run.untranslated, Diagnostic.isAbout, hname]
      rw [hnone, hnone]

end

/-! ## The method in question -/

/-- A method fails for a reason of its own, which does not end the run. -/
theorem isMethodLocal_of_function {translator : Translator}
    (hdecompile : translator.decompile = MethodDef.decompile) {name : String}
    {declared implementation : MethodDef} {initializers : Block} {error : Error}
    (h : translator.function name declared implementation initializers = .error error) :
    error.isMethodLocal = true := by
  refine Translator.isMethodLocal_of_function_eq_error (fun method error hcause => ?_) h
  rw [hdecompile] at hcause
  exact isMethodLocal_of_decompile_eq_error hcause

theorem method?_eq_some_iff {definition : MemberDef} {declared : MethodDef} :
    definition.method? = some declared ↔ definition = .method declared := by
  cases definition <;> simp [MemberDef.method?]

section

variable {gap : Gap} {base : Nat} {model : TypeModel} {position : Nat} {member : Member}
  {declared : MethodDef}

/-- What is filled in is not the mark. -/
theorem not_isMarked_of_spared (h : declared.mapBodies (.fill gap.count gap.old) = declared) :
    ¬declared.IsMarked gap.count := by
  intro hmarked
  have hbody := congrArg MethodDef.body h
  rw [MethodDef.body_mapBodies, hmarked, Option.map_some, Body.fill_mark] at hbody
  exact gap.old_ne_mark (Option.some.inj hbody)

/-- No proxy has the mark, so it is in the method itself. -/
theorem replacement_getD_eq (hfinishes : gap.program.Finishes model)
    (hposition : model.methods[position]? = some member)
    (hmarked : (member.replacement.getD declared).IsMarked gap.count) :
    member.replacement.getD declared = declared := by
  have hspared := (hfinishes.stemFrom_members (gap.spared gap.old)).replacement_eq member
    (List.mem_of_mem_filter (List.mem_of_getElem? hposition))
  cases hreplacement : member.replacement with
  | none => rfl
  | some replacement =>
    rw [hreplacement, Option.getD_some] at hmarked
    rw [hreplacement, Option.map_some, Option.some.injEq] at hspared
    exact absurd hmarked (not_isMarked_of_spared hspared)

/-- A marked method of a model is the one in question. -/
theorem locate (hfinishes : gap.program.Finishes model)
    (hadmits : (gap.comparison base).admits model.definition)
    (hposition : model.methods[position]? = some member)
    (hdefinition : member.definition = .method declared) (hmarked : declared.IsMarked gap.count) :
    model.definition = gap.place ∧ gap.place.methods[position]? = some declared := by
  obtain ⟨added, hmethods, hleft⟩ := hfinishes.exists_methods (gap.spared gap.old)
  have hhere : (model.methods.map Member.definition)[position]? = some (.method declared) := by
    rw [List.getElem?_map, hposition, Option.map_some, hdefinition]
  rw [hmethods] at hhere
  by_cases hlt : position < (model.definition.methods.map MemberDef.method).length
  · rw [List.getElem?_append_left hlt, List.getElem?_map] at hhere
    obtain ⟨own, hown, heq⟩ := Option.map_eq_some_iff.1 hhere
    obtain rfl := MemberDef.method.inj heq
    have hplace := hadmits model.definition model.definition.mem_withNested_self
      ⟨own, List.mem_of_getElem? hown, hmarked⟩
    exact ⟨hplace, hplace ▸ hown⟩
  · rw [List.getElem?_append_right (Nat.le_of_not_lt hlt)] at hhere
    have hspared := hleft _ (List.mem_of_getElem? hhere)
    exact absurd hmarked (not_isMarked_of_spared (MemberDef.method.inj hspared))

/-- The marked method of the place has the full name of the method that was changed. -/
theorem fullName_of_isMarked {declared : MethodDef} (hmem : declared ∈ gap.place.methods)
    (hmarked : declared.IsMarked gap.count) : declared.fullName = gap.method.fullName := by
  obtain ⟨position, hmem⟩ := List.getElem?_of_mem hmem
  obtain ⟨_, hunique⟩ := gap.marksOnly.exists_position
  rw [(hunique position declared hmem hmarked).2]
  rfl

theorem isUntranslatable_of_isPlain {declaration : Declaration}
    (h : declaration.isPlain = true) : declaration.isUntranslatable = false := by
  cases declaration with
  | untranslatable => cases h
  | _ => rfl

/-- A method is declared alike on both sides, unless it is the one in question. -/
theorem ends_translateMethod {known : Cache} {begun : List String} {act : Act}
    {initializers : Block} (hknows : (gap.comparison base).Knows known act.type model)
    (htranslated : act.translated? model = some (member, initializers)) :
    (gap.comparison base).Ends known begun (.once act)
      (Run.translateMethod (model.mapBodies (gap.comparison base).left)
        model.definition.location.path initializers
        (member.mapBodies (gap.comparison base).left))
      (Run.translateMethod (model.mapBodies (gap.comparison base).right)
        model.definition.location.path initializers
        (member.mapBodies (gap.comparison base).right)) fun _ _ => True := by
  refine Comparison.ends_translateMethod
    (fun _ hplain => ends_emit (isUntranslatable_of_isPlain hplain)) ?_
  intro declared acts records first second hmethod hjoins implementation owner name function
  have hholds : Isolates gap.count gap.method.fullName base acts records.cache first second :=
    hjoins.holds
  have hleft : ∀ error, function first (gap.comparison base).left = .error error →
      error.isMethodLocal = true := fun _ => isMethodLocal_of_function hholds.first_decompile
  have hright : ∀ error, function second (gap.comparison base).right = .error error →
      error.isMethodLocal = true := fun _ => isMethodLocal_of_function hholds.second_decompile
  by_cases hmarked : implementation.IsMarked gap.count
  · obtain ⟨position, -, hposition⟩ :=
      Act.exists_translates hknows.model?_eq htranslated hmethod
    have hdefinition := method?_eq_some_iff.1 hmethod
    have hown : implementation = declared :=
      replacement_getD_eq hknows.finishes hposition hmarked
    rw [hown] at hmarked
    obtain ⟨-, hplace⟩ := locate hknows.finishes hknows.admits hposition hdefinition hmarked
    have hname := fullName_of_isMarked (List.mem_of_getElem? hplace) hmarked
    refine ends_declareMethod (Plan.allows_once act) hleft hright
      (.inr ⟨hname, act, rfl, fun later hextends result => ?_⟩)
    refine ⟨hextends.model?_eq hknows.model?_eq, htranslated, hdefinition, hmarked, ?_⟩
    cases result with
    | ok function => exact .method hmethod function
    | error => exact .untranslatable hmethod
  · have hsame : function first (gap.comparison base).left =
        function second (gap.comparison base).right := by
      apply hjoins.left.function_eq hjoins.right hholds.pipeline_eq
      rw [hholds.first_decompile, hholds.second_decompile]
      exact congrArg MethodDef.decompile
        ((MethodDef.mapBodies_fill_of_not_isMarked hmarked).trans
          (MethodDef.mapBodies_fill_of_not_isMarked hmarked).symm)
    exact ends_declareMethod (Plan.allows_nil _) hleft hright (.inl ⟨hsame, rfl⟩)

/-- Programs that differ in one body are kept side by side, but for the declarations of that
method. -/
theorem kept (gap : Gap) (base : Nat) : (gap.comparison base).Kept where
  spared_left := gap.spared gap.old
  spared_right := gap.spared gap.body
  indexed := gap.eq_place
  nested definition hadmits inner hinner inside hinside := by
    apply hadmits inside
    rw [TypeDef.withNested_eq_cons, List.mem_cons, List.mem_flatMap]
    exact .inr ⟨inner, hinner, hinside⟩
  steady := by
    intro acts cache later first second next other hholds hextends hnext hother
    have hholds : Isolates gap.count gap.method.fullName base acts cache first second := hholds
    obtain ⟨sources, hsublist, halike⟩ := hholds.told
    exact
      { first_sink := hnext.sink_eq.trans hholds.first_sink
        second_sink := hother.sink_eq.trans hholds.second_sink
        pipeline_eq := by rw [hnext.pipeline_eq, hother.pipeline_eq, hholds.pipeline_eq]
        first_decompile := hnext.decompile_eq.trans hholds.first_decompile
        second_decompile := hother.decompile_eq.trans hholds.second_decompile
        told := ⟨sources, hsublist, by
          rw [hnext.output_eq, hother.output_eq]
          exact halike.mono fun _ _ => Opens.mono hextends⟩
        reports_eq := by
          rw [hnext.diagnostics_eq, hother.diagnostics_eq, hholds.reports_eq]
        first_balanced := by
          rw [hnext.diagnostics_eq, hnext.output_eq, hholds.first_balanced]
        second_balanced := by
          rw [hother.diagnostics_eq, hother.output_eq, hholds.second_balanced] }
  emits hplain := ends_emit (isUntranslatable_of_isPlain hplain)
  reports := ends_report
  translates _ := ends_translateMethod
  seals _ := ends_emit rfl

theorem name_of_staticConstructorMember? {model : TypeModel} {member : Member}
    (h : model.staticConstructorMember? = some member) : member.name = ".cctor" := by
  obtain ⟨static, hstatic, hfind⟩ := Option.bind_eq_some_iff.1 h
  have hid : member.id = static.id := by simpa using List.find?_some hfind
  have hconstructor : TypeModel.isStaticConstructor static = true := List.find?_some hstatic
  have hname : static.name = ".cctor" := by
    rw [TypeModel.isStaticConstructor] at hconstructor
    cases hdefinition : static.definition with
    | field | property => simp [hdefinition, MemberDef.method?] at hconstructor
    | method declared =>
      simp only [hdefinition, MemberDef.method?, Option.any_some, MethodDef.isStaticConstructor,
        Bool.and_eq_true, beq_iff_eq] at hconstructor
      rw [Member.name, hdefinition]
      exact hconstructor.1
  rw [← Member.name_id, hid, Member.name_id, hname]

variable {cache : Cache} (hfinishes : gap.program.FinishesAll (gap.comparison base).admits cache)

include hfinishes

/-- The method in question is declared for its place in the model of its type. -/
theorem Opens.exists_model {act : Act} {declaration : Declaration}
    (h : Opens gap.count cache act declaration) (hposition : ∀ (other : Nat) own,
      gap.place.methods[other]? = some own → own.IsMarked gap.count →
        other = position ∧ own = gap.method.withBody (.mark gap.count)) :
    act.type = gap.place.typeId ∧ act.Translates cache (gap.place.typeId, position) ∧
      ∃ model member, cache.model? gap.place.typeId = some model ∧
        model.definition = gap.place ∧ model.methods[position]? = some member ∧
        member.definition = .method (gap.method.withBody (.mark gap.count)) ∧
        Declares model member declaration := by
  obtain ⟨hmodel, htranslated, hdefinition, hmarked, hdeclares⟩ := h
  obtain ⟨hfinished, hid, hadmits⟩ := hfinishes _ _ (Cache.model?_eq_some_iff.1 hmodel)
  obtain ⟨found, htranslates, hfound⟩ :=
    Act.exists_translates hmodel htranslated (congrArg MemberDef.method? hdefinition)
  obtain ⟨hplace, hhere⟩ := locate hfinished hadmits hfound hdefinition hmarked
  obtain ⟨rfl, rfl⟩ := hposition found _ hhere hmarked
  have htype : act.type = gap.place.typeId := by rw [← hid, hplace]
  rw [htype] at htranslates hmodel
  exact ⟨htype, htranslates, _, _, hmodel, hplace, hfound, hdefinition, hdeclares⟩

/-- Only one act declares the method in question. -/
theorem Opens.act_eq (hconstructor : gap.method.name = ".cctor" → gap.method.isStatic = true)
    {act other : Act} {declaration further : Declaration}
    (h : Opens gap.count cache act declaration) (hother : Opens gap.count cache other further) :
    act = other := by
  obtain ⟨position, hposition⟩ := gap.marksOnly.exists_position
  obtain ⟨-, htranslates, own, found, hown, -, hfound, hdefinition, -⟩ :=
    h.exists_model hfinishes hposition
  apply htranslates.unique (hother.exists_model hfinishes hposition).2.1
  intro model member hmodel hmember hstatic
  obtain rfl := Option.some.inj (hown.symm.trans hmodel)
  obtain rfl := Option.some.inj (hfound.symm.trans hmember)
  have hname : gap.method.name = ".cctor" := by
    have hname := name_of_staticConstructorMember? hstatic
    rw [Member.name, hdefinition] at hname
    exact hname
  rw [TypeModel.isStaticConstructor, hdefinition]
  simp only [MemberDef.method?, Option.any_some, MethodDef.isStaticConstructor, Bool.and_eq_true,
    beq_iff_eq]
  exact ⟨hname, hconstructor hname⟩

/-- The outputs differ in one place at most, where the type of the method has one turn. -/
theorem Isolates.output_eq_or
    (hconstructor : gap.method.name = ".cctor" → gap.method.isStatic = true) {acts : List Act}
    {first second : Session}
    (h : Isolates gap.count gap.method.fullName base acts cache first second)
    (honce : ∀ act, act.type = gap.place.typeId → acts.count act ≤ 1) :
    first.output = second.output ∨
      ∃ model member, cache.model? gap.place.typeId = some model ∧
        model.definition = gap.place ∧ member ∈ model.methods ∧
        member.definition = .method (gap.method.withBody (.mark gap.count)) ∧
        ∃ before declaration other after, first.output = before ++ declaration :: after ∧
          second.output = before ++ other :: after ∧ Declares model member declaration ∧
          Declares model member other := by
  obtain ⟨position, hposition⟩ := gap.marksOnly.exists_position
  obtain ⟨sources, hsublist, halike⟩ := h.told
  rcases sources with _ | ⟨act, _ | ⟨again, rest⟩⟩
  · exact .inl halike.eq
  · obtain ⟨before, declaration, other, after, hbefore, hafter, hopens, hothers⟩ :=
      halike.exists_difference
    obtain ⟨-, -, model, member, hmodel, hplace, hmember, hdefinition, hdeclares⟩ :=
      hopens.exists_model hfinishes hposition
    obtain ⟨-, -, _, _, hsame, -, hfound, -, hother⟩ := hothers.exists_model hfinishes hposition
    obtain rfl := Option.some.inj (hmodel.symm.trans hsame)
    obtain rfl := Option.some.inj (hmember.symm.trans hfound)
    exact .inr ⟨model, member, hmodel, hplace, List.mem_of_getElem? hmember, hdefinition, before,
      declaration, other, after, hbefore, hafter, hdeclares, hother⟩
  · obtain ⟨_, hopens⟩ := halike.exists_act act List.mem_cons_self
    obtain ⟨_, hagain⟩ :=
      halike.exists_act again (List.mem_cons_of_mem act List.mem_cons_self)
    obtain rfl := hopens.act_eq hfinishes hconstructor hagain
    have htwice : (act :: act :: rest).count act ≤ acts.count act := hsublist.count_le act
    simp only [List.count_cons_self] at htwice
    have hone := honce act (hopens.exists_model hfinishes hposition).1
    omega

end

end Gap

end Script

end Assemblage
