import Assemblage.Proofs.Script.FirstValues
import Assemblage.Proofs.Script.NamespaceOrder

/-!
# Types and their declarations

Apart from namespaces, whatever a run puts out it declares for some type: the type
itself, something inside it, or its seal.  The model of that type is at hand then, and
the declaration carries the path of the type that the model is for.
-/

namespace Assemblage.Script

open Comparison.Kept (details)

/-- The path of the type that a declaration is for. -/
def Declaration.place? (declaration : Declaration) : Option String :=
  match declaration.home?.or declaration.sealed? with
  | some location => some location.path
  | none => declaration.path?

/-- What a run declares for the type of a model. -/
inductive Declaration.BelongsTo (model : TypeModel) : Declaration → Prop
  | type : BelongsTo model (typeDeclaration model)
  | method {member : Member} {declaration : Declaration} (hmember : member ∈ model.members)
      (hplace : declaration.methodPlace? =
        some (Owner.ofMember model.definition.location.path member.isStatic,
          methodName model member)) :
    BelongsTo model declaration
  | overloads {group : MethodGroup} (hgroup : group ∈ model.groups) :
    BelongsTo model (.overloads (Owner.ofMember model.definition.location.path group.isStatic)
      (Identifier.escape group.name) (overloadsOf group))
  | detail {store : Store} {declaration : Declaration}
      (h : declaration ∈ details store model.definition.location.path model) :
    BelongsTo model declaration
  | sealed : BelongsTo model (.sealed model.definition.location)

section

variable {declaration : Declaration} {model : TypeModel}

theorem Declaration.place?_of_path? {path : String} (h : declaration.path? = some path) :
    declaration.place? = some path := by
  cases declaration with
  | namespaceObject | classShell | structShell | staticClassShell | interface | enumeration
  | sealed => cases h
  | _ => exact h

/-- A declaration is kept under the path of its type. -/
theorem Declaration.BelongsTo.place?_eq (h : declaration.BelongsTo model) :
    declaration.place? = some model.definition.location.path := by
  cases h with
  | type =>
    rw [Declaration.place?, home?_typeDeclaration]
    rfl
  | method _ hplace => exact place?_of_path? (path?_of_methodPlace? hplace)
  | overloads => rfl
  | detail h => exact place?_of_path? (isDetail_and_path?_of_mem_tail h).2
  | sealed => rfl

end

/-- The program of a run, and the types that may come up in it. -/
structure Realm where
  program : Program
  admits : TypeDef → Prop

namespace Realm

/-- References and nested types do not lead out of the realm. -/
structure Closed (realm : Realm) : Prop where
  indexed : ∀ definition, realm.program.graph.Indexes definition → realm.admits definition
  nested : ∀ outer, realm.admits outer → ∀ inner ∈ outer.nested, realm.admits inner

/-- The model is what a store hands out for a type of the realm. -/
structure Knows (realm : Realm) (model : TypeModel) : Prop where
  finishes : realm.program.Finishes model
  admits : realm.admits model.definition

/-- The declaration is that of a namespace or belongs to a type of the realm. -/
def Owns (realm : Realm) (declaration : Declaration) : Prop :=
  (∃ path, declaration = .namespaceObject path) ∨
    ∃ model, realm.Knows model ∧ declaration.BelongsTo model

/-- A session over the program has learned of nothing but the realm, and put out nothing
that is not for it. -/
structure Holds (realm : Realm) (session : Session) : Prop where
  program_eq : session.translator.store.program = realm.program
  finishes : realm.program.FinishesAll realm.admits session.translator.store.cache
  owns : ∀ declaration ∈ session.output, realm.Owns declaration

/-- A step stays in the realm and comes to a value as described, unless it is stopped. -/
def Keeps {α : Type} (realm : Realm) (step : Run α) (after : α → Prop := fun _ => True) : Prop :=
  ∀ session, realm.Holds session → realm.Holds (step.run.run session).2 ∧
    ∀ value, (step.run.run session).1 = .ok value → after value

/-! ## Rules for steps -/

variable {α β : Type} {realm : Realm} {model : TypeModel} {definition : TypeDef}
  {declaration : Declaration}

theorem keeps_pure {value : α} {after : α → Prop} (h : after value) :
    realm.Keeps (pure value) after := by
  intro session hholds
  exact ⟨hholds, fun _ heq => Except.ok.inj heq ▸ h⟩

theorem keeps_throw (error : Error) {after : α → Prop} : realm.Keeps (throw error) after := by
  intro session hholds
  refine ⟨hholds, fun value heq => ?_⟩
  cases heq

theorem Keeps.bind {step : Run α} {next : α → Run β} {middle : α → Prop} {after : β → Prop}
    (h : realm.Keeps step middle) (hnext : ∀ value, middle value → realm.Keeps (next value) after) :
    realm.Keeps (step >>= next) after := by
  intro session hholds
  obtain ⟨hlater, hvalue⟩ := h session hholds
  rw [Comparison.run_bind]
  cases hresult : (step.run.run session).1 with
  | error error =>
    refine ⟨hlater, fun value heq => ?_⟩
    cases heq
  | ok value => exact hnext value (hvalue value hresult) _ hlater

theorem Keeps.then {step : Run α} {next : α → Run β} {after : β → Prop} (h : realm.Keeps step)
    (hnext : ∀ value, realm.Keeps (next value) after) : realm.Keeps (step >>= next) after :=
  h.bind fun value _ => hnext value

/-- What follows a look at the translator may count on the program. -/
theorem keeps_consult {next : Translator → Run α} {after : α → Prop}
    (h : ∀ translator, translator.store.graph = realm.program.graph →
      realm.Keeps (next translator) after) :
    realm.Keeps (Run.translator >>= next) after := by
  intro session hholds
  rw [Stage.run_translator_bind]
  exact h session.translator (congrArg Program.graph hholds.program_eq) session hholds

theorem keeps_update {change : Translator → Translator}
    (h : ∀ translator, (change translator).store.program = translator.store.program ∧
      (change translator).store.cache = translator.store.cache) :
    realm.Keeps (Run.update change) := by
  intro session hholds
  obtain ⟨hprogram, hcache⟩ := h session.translator
  have hfinishes : realm.program.FinishesAll realm.admits
      (change session.translator).store.cache := hcache ▸ hholds.finishes
  exact ⟨⟨hprogram.trans hholds.program_eq, hfinishes, hholds.owns⟩, fun _ _ => trivial⟩

theorem keeps_report (entry : Diagnostic) : realm.Keeps (Run.report entry) :=
  keeps_update fun _ => ⟨rfl, rfl⟩

theorem keeps_emit (h : realm.Owns declaration) : realm.Keeps (Run.emit declaration) := by
  intro session hholds
  rw [Run.run_emit]
  cases session.sink.accept session.output declaration with
  | error error => exact ⟨hholds, fun _ _ => trivial⟩
  | ok =>
    refine ⟨⟨hholds.program_eq, hholds.finishes, ?_⟩, fun _ _ => trivial⟩
    rw [List.forall_mem_append, List.forall_mem_singleton]
    exact ⟨hholds.owns, h⟩

theorem keeps_forM {items : List α} {step : α → Run PUnit}
    (h : ∀ item ∈ items, realm.Keeps (step item)) : realm.Keeps (items.forM step) := by
  induction items with
  | nil => exact keeps_pure trivial
  | cons item rest ih =>
    rw [List.forall_mem_cons] at h
    exact h.1.then fun _ => ih h.2

theorem keeps_forIn {items : List α} {body : α → PUnit → Run (ForInStep PUnit)}
    (h : ∀ item ∈ items, realm.Keeps (body item ⟨⟩)) : realm.Keeps (forIn items ⟨⟩ body) := by
  induction items with
  | nil => exact keeps_pure trivial
  | cons item rest ih =>
    rw [List.forall_mem_cons] at h
    rw [List.forIn_cons]
    refine h.1.then fun turn => ?_
    cases turn with
    | done => exact keeps_pure trivial
    | yield => exact ih h.2

/-- A request for a type of a closed realm finishes models of the realm only. -/
theorem Closed.finishesAll_requestDefinition (hclosed : realm.Closed) {store : Store}
    (hprogram : store.program = realm.program)
    (h : realm.program.FinishesAll realm.admits store.cache) (hadmits : realm.admits definition) :
    realm.program.FinishesAll realm.admits (store.requestDefinition definition).1.cache := by
  rw [Store.requestDefinition]
  split
  · exact h
  · rw [hprogram]
    exact h.construct hclosed.indexed hadmits

/-- The model of a type of the realm is one that the realm knows. -/
theorem Closed.keeps_model (hclosed : realm.Closed) (hadmits : realm.admits definition) :
    realm.Keeps (Run.model definition) realm.Knows := by
  intro session hholds
  have hfinishes := hclosed.finishesAll_requestDefinition hholds.program_eq hholds.finishes hadmits
  have hprogram := session.translator.store.program_answer (.definition definition)
  have hfound := session.translator.store.model?_requestDefinition definition
  rw [Store.answer] at hprogram
  rw [Comparison.Kept.run_model]
  generalize session.translator.store.requestDefinition definition = answer at *
  obtain ⟨store, found⟩ := answer
  have hlater : realm.Holds { session with
      translator := { session.translator with store } } :=
    ⟨hprogram.trans hholds.program_eq, hfinishes, hholds.owns⟩
  cases found with
  | none =>
    refine ⟨hlater, fun value heq => ?_⟩
    cases heq
  | some found =>
    refine ⟨hlater, fun value heq => ?_⟩
    obtain rfl : found = value := Except.ok.inj heq
    obtain ⟨hmodel, -, hadmitted⟩ := hfinishes _ found (Cache.model?_eq_some_iff.1 hfound)
    exact ⟨hmodel, hadmitted⟩

theorem keeps_declareNamespace (definition : TypeDef) :
    realm.Keeps (Run.declareNamespace definition) := by
  rw [Run.declareNamespace]
  split
  · exact keeps_pure trivial
  refine keeps_consult fun translator _ => ?_
  split
  · exact keeps_pure trivial
  · have hrecord : realm.Keeps (Run.update fun translator => { translator with
        namespaces := Identifier.escapePath definition.space :: translator.namespaces }) :=
      keeps_update fun _ => ⟨rfl, rfl⟩
    exact hrecord.then fun _ => keeps_emit (.inl ⟨_, rfl⟩)

/-- Whether in full or as a shell, a type is declared by the same declaration. -/
theorem Knows.keeps_emit_typeDeclaration (h : realm.Knows model) :
    realm.Keeps (Run.emit (typeDeclaration model)) :=
  keeps_emit (.inr ⟨model, h, .type⟩)

theorem Knows.keeps_declareInFull (h : realm.Knows model) :
    realm.Keeps (Run.declareInFull model) := by
  rw [Run.declareInFull]
  split
  · exact h.keeps_emit_typeDeclaration
  · exact keeps_throw _

theorem Knows.keeps_declareShell (h : realm.Knows model) :
    realm.Keeps (Run.declareShell model) := by
  rw [Run.declareShell]
  split
  · exact keeps_throw _
  · exact h.keeps_emit_typeDeclaration

/-- The declaration of a base keeps to a closed realm. -/
theorem Closed.keeps_declareBase (hclosed : realm.Closed) {pending : List TypeId}
    {declare : TypeDef → Run Unit}
    (hdeclare : ∀ base, realm.admits base → realm.Keeps (declare base)) :
    realm.Keeps (Run.declareBase realm.program.graph pending declare definition) := by
  rw [Run.declareBase]
  cases hbase : Run.ownBase? realm.program.graph definition with
  | none => exact keeps_pure trivial
  | some base =>
    have hindexed : realm.program.graph.Indexes base :=
      Graph.indexes_of_baseType? (Option.filter_eq_some_iff.1 hbase).1
    dsimp only
    split
    · exact keeps_report _
    · refine keeps_consult fun translator _ => ?_
      split
      · exact hdeclare base (hclosed.indexed base hindexed)
      · exact keeps_pure trivial

/-- The declaration of a type keeps to a closed realm. -/
theorem Closed.keeps_declare (hclosed : realm.Closed) {remaining pending : List TypeId}
    (hadmits : realm.admits definition) :
    realm.Keeps (Run.declare realm.program.graph remaining pending definition) := by
  induction hlength : remaining.length using Nat.strongRecOn
    generalizing remaining pending definition with
  | ind length ih =>
  subst hlength
  rw [Run.declare]
  refine (hclosed.keeps_model hadmits).bind fun model hmodel => ?_
  refine keeps_consult fun translator _ => ?_
  split
  · exact keeps_pure trivial
  split
  swap
  · exact keeps_throw _
  rename_i hreach
  have hshorter := Run.length_idsWithout_lt hreach
  have hnested : ∀ outer, realm.admits outer → realm.Keeps (outer.nested.forM fun inner =>
      Run.declare realm.program.graph (Run.idsWithout definition.typeId remaining) pending inner) :=
    fun outer houter => keeps_forM fun inner hinner =>
      ih _ hshorter (hclosed.nested outer houter inner hinner) rfl
  have hrecord : realm.Keeps (Run.markDeclared definition.typeId) :=
    keeps_update fun _ => ⟨rfl, rfl⟩
  refine hrecord.then fun _ => (keeps_declareNamespace definition).then fun _ => ?_
  split
  · exact hmodel.keeps_declareInFull.then fun _ => hnested definition hadmits
  · refine (hclosed.keeps_declareBase fun base hbase => ih _ hshorter hbase rfl).then fun _ => ?_
    exact hmodel.keeps_declareShell.then fun _ => hnested model.definition hmodel.admits

theorem Closed.keeps_declareType (hclosed : realm.Closed) (hadmits : realm.admits definition) :
    realm.Keeps (Run.declareType definition) := by
  refine keeps_consult fun translator hgraph => ?_
  dsimp only
  rw [hgraph]
  exact hclosed.keeps_declare hadmits

theorem Knows.keeps_emit_method (h : realm.Knows model) {member : Member}
    (hmember : member ∈ model.members)
    (hplace : declaration.methodPlace? =
      some (Owner.ofMember model.definition.location.path member.isStatic,
        methodName model member)) :
    realm.Keeps (Run.emit declaration) :=
  keeps_emit (.inr ⟨model, h, .method hmember hplace⟩)

theorem Knows.keeps_translateMethod (h : realm.Knows model) {member : Member}
    (hmember : member ∈ model.members) (initializers : Block) :
    realm.Keeps (Run.translateMethod model model.definition.location.path initializers member) := by
  rw [Run.translateMethod_eq]
  cases member.definition.method? with
  | none => exact keeps_pure trivial
  | some declared =>
    dsimp only
    split
    · split
      · exact h.keeps_emit_method hmember rfl
      · exact keeps_pure trivial
    split
    swap
    · exact keeps_pure trivial
    refine keeps_consult fun translator _ => ?_
    cases translator.function (methodName model member) declared
        (member.replacement.getD declared) initializers with
    | ok function => exact h.keeps_emit_method hmember rfl
    | error error =>
      rw [Run.declareMethod]
      split
      · exact (keeps_report _).then fun _ => h.keeps_emit_method hmember rfl
      · exact keeps_throw _

theorem Knows.keeps_translateStaticConstructor (h : realm.Knows model) :
    realm.Keeps (Run.translateStaticConstructor model model.definition.location.path) := by
  rw [Run.translateStaticConstructor]
  split
  · exact keeps_pure trivial
  cases hfound : model.staticConstructorMember? with
  | none => exact keeps_throw _
  | some member =>
    obtain ⟨first, -, hfind⟩ := Option.bind_eq_some_iff.1 hfound
    have hmember : member ∈ model.members :=
      List.mem_reverse.1 (List.mem_of_find?_eq_some hfind)
    dsimp only
    split
    · exact h.keeps_translateMethod hmember _
    · exact keeps_pure trivial

theorem Knows.keeps_translateGroup (h : realm.Knows model) (hclosed : realm.Closed)
    {group : MethodGroup} (hgroup : group ∈ model.groups) :
    realm.Keeps (Run.translateGroup model model.definition.location.path group) := by
  rw [Run.translateGroup]
  refine keeps_consult fun translator hgraph => ?_
  rw [hgraph]
  refine (keeps_forIn fun parameter hparameter => ?_).then fun _ =>
    keeps_emit (.inr ⟨model, h, .overloads hgroup⟩)
  have hindexed := (Contract.indexes_of_mem_parameterTypes hparameter).1
  refine keeps_consult fun current _ => ?_
  split
  · exact (hclosed.keeps_declareType (hclosed.indexed parameter hindexed)).then fun _ =>
      keeps_pure trivial
  · exact keeps_pure trivial

/-- The members of a model of the realm are emitted for that model. -/
theorem Knows.keeps_translateMembers (h : realm.Knows model) (hclosed : realm.Closed) :
    realm.Keeps (Run.translateMembers model) := by
  rw [Run.translateMembers]
  refine (keeps_forIn fun member hmember => ?_).then fun _ => ?_
  · split
    · exact (h.keeps_translateMethod (TypeModel.mem_methods_iff.1 hmember).1 []).then fun _ =>
        keeps_pure trivial
    · exact keeps_pure trivial
  refine (keeps_forIn fun group hgroup => ?_).then fun _ => ?_
  · exact (h.keeps_translateGroup hclosed hgroup).then fun _ => keeps_pure trivial
  refine keeps_consult fun translator _ => ?_
  refine (keeps_forM fun declaration hdeclaration => ?_).then fun _ =>
    h.keeps_translateStaticConstructor
  exact keeps_emit (.inr ⟨model, h, .detail hdeclaration⟩)

/-- A walk stays in the realm if what is done at each type does. -/
theorem Closed.keeps_walk (hclosed : realm.Closed) {enter leave : TypeModel → Run Unit}
    (henter : ∀ model, realm.Knows model → realm.Keeps (enter model))
    (hleave : ∀ model, realm.Knows model → realm.Keeps (leave model))
    (hadmits : realm.admits definition) : realm.Keeps (Run.walk enter leave definition) := by
  induction definition using TypeDef.induction_nested with
  | step definition ih =>
  rw [Run.walk_eq]
  refine (hclosed.keeps_model hadmits).bind fun model hmodel => ?_
  split
  · exact keeps_pure trivial
  refine (henter model hmodel).then fun _ => ?_
  refine (keeps_forM fun inner hinner => ?_).then fun _ => hleave model hmodel
  exact ih inner hinner (hclosed.nested definition hadmits inner hinner)

/-- A walk keeps to a closed realm if its steps do. -/
theorem Closed.keeps_walkAll (hclosed : realm.Closed) {enter leave : TypeModel → Run Unit}
    (henter : ∀ model, realm.Knows model → realm.Keeps (enter model))
    (hleave : ∀ model, realm.Knows model → realm.Keeps (leave model)) {types : List TypeDef}
    (htypes : ∀ top ∈ types, realm.admits top) : realm.Keeps (Run.walkAll enter leave types) := by
  rw [Run.walkAll_eq_forM]
  exact keeps_forM fun top htop => hclosed.keeps_walk henter hleave (htypes top htop)

/-- An assembly whose types are of a closed realm keeps to it. -/
theorem Closed.keeps_translateAssembly (hclosed : realm.Closed) {assembly : AssemblyDef}
    (hroots : ∀ top ∈ Run.roots assembly, realm.admits top) :
    realm.Keeps (Run.translateAssembly assembly) := by
  have hnothing : ∀ model, realm.Knows model → realm.Keeps (pure () : Run Unit) :=
    fun _ _ => keeps_pure trivial
  rw [Run.translateAssembly]
  refine keeps_consult fun translator _ => ?_
  split
  · exact keeps_pure trivial
  have hrecord : realm.Keeps (Run.update fun translator => { translator with
      begun := assembly.fullName :: translator.begun }) :=
    keeps_update fun _ => ⟨rfl, rfl⟩
  refine hrecord.then fun _ => ?_
  refine (keeps_forM fun top htop => hclosed.keeps_declareType (hroots top htop)).then fun _ => ?_
  refine (hclosed.keeps_walkAll (fun model hmodel => ?_) hnothing hroots).then fun _ => ?_
  · rw [Run.translateType]
    split
    · exact hmodel.keeps_translateMembers hclosed
    · exact keeps_pure trivial
  · refine hclosed.keeps_walkAll hnothing (fun model hmodel => ?_) hroots
    rw [Run.sealType]
    split
    · exact keeps_emit (.inr ⟨model, hmodel, .sealed⟩)
    · exact keeps_pure trivial

/-- Wherever a run ends, what it has put out belongs to types of the realm, and it has
learned of no others. -/
theorem Closed.holds_translate (hclosed : realm.Closed) {translator : Translator}
    (hprogram : translator.store.program = realm.program)
    (hfinishes : realm.program.FinishesAll realm.admits translator.store.cache) (sink : Sink)
    {listed : List AssemblyDef}
    (hroots : ∀ assembly ∈ listed, ∀ top ∈ Run.roots assembly, realm.admits top) :
    let outcome := translator.translate sink listed
    outcome.translator.store.program = realm.program ∧
      realm.program.FinishesAll realm.admits outcome.translator.store.cache ∧
      ∀ declaration ∈ outcome.output, realm.Owns declaration := by
  have hstart : realm.Holds { translator, sink } :=
    ⟨hprogram, hfinishes, fun _ hmem => absurd hmem List.not_mem_nil⟩
  have hkeeps : realm.Keeps (listed.forM Run.translateAssembly) :=
    keeps_forM fun assembly hassembly => hclosed.keeps_translateAssembly (hroots assembly hassembly)
  obtain ⟨⟨hlater, hlearned, howns⟩, -⟩ := hkeeps _ hstart
  exact ⟨hlater, hlearned, howns⟩

end Realm

end Assemblage.Script
