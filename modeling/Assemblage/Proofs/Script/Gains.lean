import Assemblage.Proofs.Script.Turns

/-!
# What a run gains

From one session to a later one a run learns of more models and puts out more
declarations.  A step is described by the kind of the declarations that it puts
out, wherever it is stopped, and by what is true when it comes to its end; there
is one rule for each way in which steps are put together.  Silent steps put out
neither seals nor methods.  A walk puts out what is put out for the models that it
enters, and does for each of them what there is to be done.
-/

namespace Assemblage

/-- A walk over a definition enters a model: that of the definition or of one nested in
it, with nothing around it ignored. -/
inductive Cache.Enters (cache : Cache) : TypeDef → TypeModel → Prop
  | here {definition : TypeDef} {model : TypeModel}
      (hmodel : cache.model? definition.typeId = some model) (hignored : model.ignored = false) :
      Enters cache definition model
  | inside {definition inner : TypeDef} {outer model : TypeModel}
      (houter : cache.model? definition.typeId = some outer) (hignored : outer.ignored = false)
      (hinner : inner ∈ definition.nested) (h : Enters cache inner model) :
      Enters cache definition model

namespace Cache.Enters

variable {cache later : Cache} {definition : TypeDef} {model : TypeModel}

theorem mono (hextends : later.Extends cache) (h : cache.Enters definition model) :
    later.Enters definition model := by
  induction h with
  | here hmodel hignored => exact .here (hextends.model?_eq hmodel) hignored
  | inside houter hignored hinner _ ih =>
    exact .inside (hextends.model?_eq houter) hignored hinner ih

theorem exists_model? (h : cache.Enters definition model) :
    ∃ id, cache.model? id = some model := by
  induction h with
  | here hmodel => exact ⟨_, hmodel⟩
  | inside _ _ _ _ ih => exact ih

end Cache.Enters

/-- Every model is kept under the identifier of its type. -/
def Cache.Keyed (cache : Cache) : Prop :=
  ∀ id model, cache.model? id = some model → model.definition.typeId = id

theorem Cache.keyed_empty : ({} : Cache).Keyed :=
  fun _ _ h => absurd (Cache.model?_eq_some_iff.1 h).symm (Option.some_ne_none _)

theorem Cache.Keyed.answer {store : Store} (h : store.cache.Keyed) (request : Request) :
    (store.answer request).cache.Keyed := by
  intro id model hmodel
  have hgains := store.gains_answer request id model (Cache.model?_eq_some_iff.1 hmodel)
  exact hgains.elim (fun hold => h id model (Cache.model?_eq_some_iff.2 hold)) (·.2.1)

/-- A store stays in order, whatever it is asked for between two runs. -/
theorem Cache.Keyed.answerAll {store : Store} (h : store.cache.Keyed) (requests : List Request) :
    (store.answerAll requests).cache.Keyed := by
  induction requests using List.reverseRecOn with
  | nil => exact h
  | append_singleton requests request ih =>
    rw [Store.answerAll_append_singleton]
    exact ih.answer request

namespace Script

/-- The declaration is neither a seal nor stands for a method. -/
def Declaration.IsSilent (declaration : Declaration) : Prop :=
  declaration.sealed? = none ∧ declaration.methodPlace? = none

/-- The models that a session has learned of. -/
abbrev Session.cache (session : Session) : Cache :=
  session.translator.store.cache

/-- What is of a kind stays so when more models are known. -/
def Lasting (kind : Cache → Declaration → Prop) : Prop :=
  ∀ ⦃cache later : Cache⦄, later.Extends cache → ∀ declaration, kind cache declaration →
    kind later declaration

/-- From one session to a later one a run has only learned of more models and put out
more declarations, all of one kind. -/
structure Session.Gains (kind : Cache → Declaration → Prop) (start later : Session) : Prop where
  learns : later.cache.Extends start.cache
  keyed : start.cache.Keyed → later.cache.Keyed
  output : ∃ added, later.output = start.output ++ added ∧
    ∀ declaration ∈ added, kind later.cache declaration

/-- A step gains declarations of one kind and ends as described, unless it is stopped. -/
def Run.Goes {α : Type} (kind : Cache → Declaration → Prop) (step : Run α)
    (after : α → Session → Prop) (start : Session) : Prop :=
  start.Gains kind (step.run.run start).2 ∧
    ∀ value, (step.run.run start).1 = .ok value → after value (step.run.run start).2

namespace Session.Gains

variable {kind other : Cache → Declaration → Prop} {start later last : Session}

theorem of_eq (hcache : later.cache = start.cache) (houtput : later.output = start.output) :
    start.Gains kind later where
  learns := hcache ▸ .refl _
  keyed h := hcache ▸ h
  output := ⟨[], by rw [houtput, List.append_nil], fun _ hmem => absurd hmem List.not_mem_nil⟩

theorem mono (h : start.Gains kind later)
    (hkind : ∀ cache, cache.Extends start.cache → ∀ declaration, kind cache declaration →
      other cache declaration) : start.Gains other later where
  learns := h.learns
  keyed := h.keyed
  output := by
    obtain ⟨added, houtput, hadded⟩ := h.output
    exact ⟨added, houtput, fun declaration hmem => hkind _ h.learns _ (hadded declaration hmem)⟩

theorem trans (hlasting : Lasting kind) (h : start.Gains kind later)
    (hnext : later.Gains kind last) : start.Gains kind last where
  learns := h.learns.trans hnext.learns
  keyed hkeyed := hnext.keyed (h.keyed hkeyed)
  output := by
    obtain ⟨added, houtput, hadded⟩ := h.output
    obtain ⟨more, hmore, hrest⟩ := hnext.output
    refine ⟨added ++ more, by rw [hmore, houtput, List.append_assoc], ?_⟩
    rw [List.forall_mem_append]
    exact ⟨fun declaration hmem => hlasting hnext.learns _ (hadded declaration hmem), hrest⟩

theorem subset (h : start.Gains kind later) : start.output ⊆ later.output := by
  obtain ⟨added, houtput, -⟩ := h.output
  rw [houtput]
  exact List.subset_append_left _ _

end Session.Gains

namespace Run

section

variable {α β : Type} {kind other : Cache → Declaration → Prop} {start : Session}
  {declaration : Declaration}

theorem goes_pure {value : α} {after : α → Session → Prop} (h : after value start) :
    Goes kind (pure value) after start :=
  ⟨.of_eq rfl rfl, fun _ heq => Except.ok.inj heq ▸ h⟩

theorem goes_throw (error : Error) {after : α → Session → Prop} :
    Goes kind (throw error) after start := by
  refine ⟨.of_eq rfl rfl, fun value heq => ?_⟩
  cases heq

theorem Goes.mono {step : Run α} {before after : α → Session → Prop}
    (h : Goes kind step before start)
    (hkind : ∀ cache, cache.Extends start.cache → ∀ declaration, kind cache declaration →
      other cache declaration)
    (hafter : ∀ value later, start.Gains kind later → before value later → after value later) :
    Goes other step after start :=
  ⟨h.1.mono hkind, fun value heq => hafter _ _ h.1 (h.2 value heq)⟩

theorem Goes.bind (hlasting : Lasting kind) {step : Run α} {next : α → Run β}
    {middle : α → Session → Prop} {after : β → Session → Prop} (h : Goes kind step middle start)
    (hnext : ∀ value later, start.Gains kind later → middle value later →
      Goes kind (next value) after later) :
    Goes kind (step >>= next) after start := by
  obtain ⟨hgains, hmiddle⟩ := h
  rw [Goes, Comparison.run_bind]
  cases hresult : (step.run.run start).1 with
  | error error =>
    refine ⟨hgains, fun value heq => ?_⟩
    cases heq
  | ok value =>
    obtain ⟨hmore, hafter⟩ := hnext value _ hgains (hmiddle value hresult)
    exact ⟨hgains.trans hlasting hmore, hafter⟩

theorem goes_consult {next : Translator → Run α} {after : α → Session → Prop}
    (h : ∀ translator, Goes kind (next translator) after start) :
    Goes kind (Run.translator >>= next) after start := by
  rw [Goes, Stage.run_translator_bind]
  exact h start.translator

theorem goes_update {change : Translator → Translator}
    (h : ∀ translator, (change translator).store.cache = translator.store.cache) :
    Goes kind (Run.update change) (fun _ _ => True) start :=
  ⟨.of_eq (h start.translator) rfl, fun _ _ => trivial⟩

theorem goes_report (entry : Diagnostic) : Goes kind (report entry) (fun _ _ => True) start :=
  goes_update fun _ => rfl

theorem goes_emit (h : kind start.cache declaration) :
    Goes kind (emit declaration) (fun _ later => declaration ∈ later.output) start := by
  rw [Goes, run_emit]
  cases start.sink.accept start.output declaration with
  | error error =>
    refine ⟨.of_eq rfl rfl, fun value heq => ?_⟩
    cases heq
  | ok =>
    refine ⟨⟨.refl _, id, [declaration], rfl, ?_⟩, fun _ _ => ?_⟩
    · rw [List.forall_mem_singleton]
      exact h
    · exact List.mem_append_right _ (List.mem_singleton_self _)

/-- The model of a definition is known from then on. -/
theorem goes_model (definition : TypeDef) :
    Goes kind (model definition)
      (fun model later => later.cache.model? definition.typeId = some model) start := by
  have hlearns := start.translator.store.extends_answer (.definition definition)
  have hfound := start.translator.store.model?_requestDefinition definition
  have hkeyed : start.cache.Keyed → _ := fun h => h.answer (.definition definition)
  rw [Store.answer] at hlearns hkeyed
  rw [Goes, Comparison.Kept.run_model]
  generalize start.translator.store.requestDefinition definition = answer at *
  obtain ⟨store, found⟩ := answer
  have hgains : start.Gains kind { start with translator := { start.translator with store } } :=
    ⟨hlearns, hkeyed, [], (List.append_nil _).symm, fun _ hmem => absurd hmem List.not_mem_nil⟩
  cases found with
  | none =>
    refine ⟨hgains, fun value heq => ?_⟩
    cases heq
  | some model => exact ⟨hgains, fun value heq => Except.ok.inj heq ▸ hfound⟩

theorem goes_forM (hlasting : Lasting kind) {items : List α} {step : α → Run PUnit}
    {done : α → Session → Prop}
    (hdone : ∀ item start later, start.Gains kind later → done item start → done item later)
    (h : ∀ item ∈ items, ∀ later, start.Gains kind later →
      Goes kind (step item) (fun _ => done item) later) :
    Goes kind (items.forM step) (fun _ later => ∀ item ∈ items, done item later) start := by
  induction items generalizing start with
  | nil => exact goes_pure fun _ hmem => absurd hmem List.not_mem_nil
  | cons item rest ih =>
    rw [List.forall_mem_cons] at h
    refine (h.1 start (.of_eq rfl rfl)).bind hlasting fun _ middle hgains hitem => ?_
    have hrest : Goes kind (rest.forM step)
        (fun _ later => ∀ item ∈ rest, done item later) middle :=
      ih fun other hother later hlater => h.2 other hother later (hgains.trans hlasting hlater)
    exact ⟨hrest.1, fun value heq =>
      List.forall_mem_cons.2 ⟨hdone item middle _ hrest.1 hitem, hrest.2 value heq⟩⟩

theorem goes_forIn (hlasting : Lasting kind) {items : List α}
    {body : α → PUnit → Run (ForInStep PUnit)}
    (h : ∀ item ∈ items, ∀ later, Goes kind (body item ⟨⟩) (fun _ _ => True) later) :
    Goes kind (forIn items ⟨⟩ body) (fun _ _ => True) start := by
  induction items generalizing start with
  | nil => exact goes_pure trivial
  | cons item rest ih =>
    rw [List.forall_mem_cons] at h
    rw [List.forIn_cons]
    refine (h.1 start).bind hlasting fun turn _ _ _ => ?_
    cases turn with
    | done => exact goes_pure trivial
    | yield => exact ih h.2

end

/-! ## Silent steps -/

/-- Wherever it starts, the step puts out nothing but silent declarations. -/
def IsSilent {α : Type} (step : Run α) : Prop :=
  ∀ start, Goes (fun _ => Declaration.IsSilent) step (fun _ _ => True) start

theorem lasting_const (kind : Declaration → Prop) : Lasting fun _ => kind :=
  fun _ _ _ _ h => h

section

variable {α β : Type} {declaration : Declaration}

theorem isSilent_pure (value : α) : (pure value : Run α).IsSilent :=
  fun _ => goes_pure trivial

theorem isSilent_throw (error : Error) : (throw error : Run α).IsSilent :=
  fun _ => goes_throw error

theorem IsSilent.then {step : Run α} {next : α → Run β} (h : step.IsSilent)
    (hnext : ∀ value, (next value).IsSilent) : (step >>= next).IsSilent :=
  fun start => (h start).bind (lasting_const _) fun value later _ _ => hnext value later

theorem isSilent_consult {next : Translator → Run α}
    (h : ∀ translator, (next translator).IsSilent) : (Run.translator >>= next).IsSilent :=
  fun start => goes_consult fun translator => h translator start

theorem isSilent_update {change : Translator → Translator}
    (h : ∀ translator, (change translator).store.cache = translator.store.cache) :
    (update change).IsSilent :=
  fun _ => goes_update h

theorem isSilent_report (entry : Diagnostic) : (report entry).IsSilent :=
  isSilent_update fun _ => rfl

theorem isSilent_emit (h : declaration.IsSilent) : (emit declaration).IsSilent :=
  fun _ => (goes_emit h).mono (fun _ _ _ => id) fun _ _ _ _ => trivial

theorem isSilent_model (definition : TypeDef) : (model definition).IsSilent :=
  fun _ => (goes_model definition).mono (fun _ _ _ => id) fun _ _ _ _ => trivial

theorem isSilent_forM {items : List α} {step : α → Run PUnit}
    (h : ∀ item ∈ items, (step item).IsSilent) : (items.forM step).IsSilent :=
  fun _ => (goes_forM (lasting_const _) (fun _ _ _ _ => id) fun item hitem later _ =>
    h item hitem later).mono (fun _ _ _ => id) fun _ _ _ _ => trivial

theorem isSilent_forIn {items : List α} {body : α → PUnit → Run (ForInStep PUnit)}
    (h : ∀ item ∈ items, (body item ⟨⟩).IsSilent) : (forIn items ⟨⟩ body).IsSilent :=
  fun _ => goes_forIn (lasting_const _) h

end

theorem isSilent_typeDeclaration (model : TypeModel) : (typeDeclaration model).IsSilent := by
  rw [typeDeclaration]
  cases model.kind <;> exact ⟨rfl, rfl⟩

theorem isSilent_declareNamespace (definition : TypeDef) :
    (declareNamespace definition).IsSilent := by
  rw [declareNamespace]
  split
  · exact isSilent_pure _
  refine isSilent_consult fun translator => ?_
  split
  · exact isSilent_pure _
  · have hrecord : (update fun translator => { translator with
        namespaces := Identifier.escapePath definition.space :: translator.namespaces }).IsSilent :=
      isSilent_update fun _ => rfl
    exact hrecord.then fun _ => isSilent_emit ⟨rfl, rfl⟩

theorem isSilent_declareInFull (model : TypeModel) : (declareInFull model).IsSilent := by
  rw [declareInFull]
  split
  · exact isSilent_emit (isSilent_typeDeclaration model)
  · exact isSilent_throw _

theorem isSilent_declareShell (model : TypeModel) : (declareShell model).IsSilent := by
  rw [declareShell]
  split
  · exact isSilent_throw _
  · exact isSilent_emit (isSilent_typeDeclaration model)

theorem isSilent_declareBase {graph : Graph} {pending : List TypeId} {declare : TypeDef → Run Unit}
    (hdeclare : ∀ base, (declare base).IsSilent) (definition : TypeDef) :
    (declareBase graph pending declare definition).IsSilent := by
  rw [declareBase]
  cases ownBase? graph definition with
  | none => exact isSilent_pure _
  | some base =>
    dsimp only
    split
    · exact isSilent_report _
    · refine isSilent_consult fun translator => ?_
      split
      · exact hdeclare base
      · exact isSilent_pure _

theorem isSilent_declare (graph : Graph) (remaining pending : List TypeId)
    (definition : TypeDef) : (declare graph remaining pending definition).IsSilent := by
  induction hlength : remaining.length using Nat.strongRecOn
    generalizing remaining pending definition with
  | ind length ih =>
  subst hlength
  rw [declare]
  refine (isSilent_model definition).then fun model => isSilent_consult fun translator => ?_
  split
  · exact isSilent_pure _
  split
  swap
  · exact isSilent_throw _
  rename_i hreach
  have hinside : ∀ pending definition,
      (declare graph (idsWithout _ remaining) pending definition).IsSilent :=
    fun pending definition => ih _ (length_idsWithout_lt hreach) _ pending definition rfl
  have hrecord : (markDeclared definition.typeId).IsSilent := isSilent_update fun _ => rfl
  refine hrecord.then fun _ => (isSilent_declareNamespace definition).then fun _ => ?_
  split
  · exact (isSilent_declareInFull model).then fun _ => isSilent_forM fun inner _ => hinside _ inner
  · exact (isSilent_declareBase (hinside _) definition).then fun _ =>
      (isSilent_declareShell model).then fun _ => isSilent_forM fun inner _ => hinside _ inner

theorem isSilent_declareType (definition : TypeDef) : (declareType definition).IsSilent :=
  isSilent_consult fun _ => isSilent_declare _ _ _ definition

theorem isSilent_translateGroup (model : TypeModel) (path : String) (group : MethodGroup) :
    (translateGroup model path group).IsSilent := by
  rw [translateGroup]
  refine isSilent_consult fun translator => ?_
  refine (isSilent_forIn fun parameter _ => ?_).then fun _ => isSilent_emit ⟨rfl, rfl⟩
  refine isSilent_consult fun current => ?_
  split
  · exact (isSilent_declareType parameter).then fun _ => isSilent_pure _
  · exact isSilent_pure _

end Run

/-- What was done for a model, said of the output, remains done. -/
def Growing (done : TypeModel → List Declaration → Prop) : Prop :=
  ∀ model ⦃output more : List Declaration⦄, output ⊆ more → done model output → done model more

/-- Something has been done for every model that a walk over the definition enters, also
for a walk that knows more models. -/
def Session.Visited (done : TypeModel → List Declaration → Prop) (definition : TypeDef)
    (session : Session) : Prop :=
  ∀ cache : Cache, cache.Extends session.cache → ∀ model, cache.Enters definition model →
    done model session.output

section

variable {done : TypeModel → List Declaration → Prop} {definition : TypeDef} {model : TypeModel}
  {session later : Session}

theorem Session.Visited.gains {kind : Cache → Declaration → Prop} (hgrowing : Growing done)
    (h : session.Visited done definition) (hgains : session.Gains kind later) :
    later.Visited done definition :=
  fun cache hextends model henters =>
    hgrowing model hgains.subset (h cache (hgains.learns.trans hextends) model henters)

/-- Nothing is entered where the definition is ignored. -/
theorem Session.visited_of_ignored (hmodel : session.cache.model? definition.typeId = some model)
    (hignored : model.ignored = true) : session.Visited done definition := by
  intro cache hextends other henters
  have hknown := hextends.model?_eq hmodel
  cases henters with
  | here hother hkept | inside hother hkept =>
    obtain rfl := Option.some.inj (hknown.symm.trans hother)
    rw [hignored] at hkept
    cases hkept

/-- A type is visited once it is done and the types inside it are visited. -/
theorem Session.visited_of_nested (hmodel : session.cache.model? definition.typeId = some model)
    (hdone : done model session.output)
    (hnested : ∀ inner ∈ definition.nested, session.Visited done inner) :
    session.Visited done definition := by
  intro cache hextends other henters
  cases henters with
  | here hother =>
    obtain rfl := Option.some.inj ((hextends.model?_eq hmodel).symm.trans hother)
    exact hdone
  | inside _ _ hinner henters => exact hnested _ hinner cache hextends other henters

end

namespace Run

/-- The declarations of a kind for the models that a walk over the definition enters. -/
def Entering (kind : TypeModel → Declaration → Prop) (definition : TypeDef) (cache : Cache)
    (declaration : Declaration) : Prop :=
  ∃ model, cache.Enters definition model ∧ kind model declaration

theorem lasting_entering (kind : TypeModel → Declaration → Prop) (definition : TypeDef) :
    Lasting (Entering kind definition) :=
  fun _ _ hextends _ ⟨model, henters, hkind⟩ => ⟨model, henters.mono hextends, hkind⟩

/-- A walk puts out what is put out for the models that it enters, and does for each of
them what is to be done before and after those nested in it. -/
theorem goes_walk {enter leave : TypeModel → Run Unit} {kind : TypeModel → Declaration → Prop}
    {entered left : TypeModel → List Declaration → Prop} (hentered : Growing entered)
    (hleft : Growing left)
    (henter : ∀ model start,
      Goes (fun _ => kind model) (enter model) (fun _ later => entered model later.output) start)
    (hleave : ∀ model start,
      Goes (fun _ => kind model) (leave model) (fun _ later => left model later.output) start)
    (definition : TypeDef) (start : Session) :
    Goes (Entering kind definition) (walk enter leave definition)
      (fun _ => Session.Visited (fun model output => entered model output ∧ left model output)
        definition) start := by
  induction definition using TypeDef.induction_nested generalizing start with
  | step definition ih =>
  have hlasting := lasting_entering kind definition
  have hboth : Growing fun model output => entered model output ∧ left model output :=
    fun model _ _ hsubset h => ⟨hentered model hsubset h.1, hleft model hsubset h.2⟩
  rw [walk_eq]
  refine (goes_model definition).bind hlasting fun model known _ hmodel => ?_
  split
  · rename_i hignored
    exact goes_pure (Session.visited_of_ignored hmodel hignored)
  rename_i hignored
  rw [Bool.not_eq_true] at hignored
  have hhere : ∀ cache : Cache, cache.Extends known.cache → ∀ declaration,
      kind model declaration → Entering kind definition cache declaration :=
    fun cache hextends declaration hkind =>
      ⟨model, .here (hextends.model?_eq hmodel) hignored, hkind⟩
  refine ((henter model known).mono hhere fun _ _ _ => id).bind hlasting
    fun _ middle hmiddle hin => ?_
  have hnested : Goes (Entering kind definition) (definition.nested.forM (walk enter leave))
      (fun _ later => ∀ inner ∈ definition.nested, later.Visited
        (fun model output => entered model output ∧ left model output) inner) middle := by
    refine goes_forM hlasting (fun inner start later hgains h => h.gains hboth hgains)
      fun inner hinner later hlater => (ih inner hinner later).mono ?_ fun _ _ _ => id
    rintro cache hextends declaration ⟨other, henters, hkind⟩
    have houter := (hmiddle.learns.trans hlater.learns).trans hextends
    exact ⟨other, .inside (houter.model?_eq hmodel) hignored hinner henters, hkind⟩
  refine hnested.bind hlasting fun _ later hlater hinside => ?_
  have hlearned := hmiddle.learns.trans hlater.learns
  refine (hleave model later).mono (fun cache hextends => hhere cache (hlearned.trans hextends))
    fun _ last hlast hout => ?_
  refine Session.visited_of_nested ((hlearned.trans hlast.learns).model?_eq hmodel) ⟨?_, hout⟩
    fun inner hinner => (hinside inner hinner).gains hboth hlast
  exact hentered model (List.Subset.trans hlater.subset hlast.subset) hin

/-- A walk over several definitions. -/
theorem goes_walkAll {enter leave : TypeModel → Run Unit} {kind : TypeModel → Declaration → Prop}
    {entered left : TypeModel → List Declaration → Prop} (hentered : Growing entered)
    (hleft : Growing left)
    (henter : ∀ model start,
      Goes (fun _ => kind model) (enter model) (fun _ later => entered model later.output) start)
    (hleave : ∀ model start,
      Goes (fun _ => kind model) (leave model) (fun _ later => left model later.output) start)
    (types : List TypeDef) (start : Session) :
    Goes (fun cache declaration => ∃ top ∈ types, Entering kind top cache declaration)
      (walkAll enter leave types)
      (fun _ later => ∀ top ∈ types,
        later.Visited (fun model output => entered model output ∧ left model output) top)
      start := by
  have hlasting : Lasting fun cache declaration =>
      ∃ top ∈ types, Entering kind top cache declaration :=
    fun _ _ hextends declaration ⟨top, htop, h⟩ =>
      ⟨top, htop, lasting_entering kind top hextends declaration h⟩
  have hboth : Growing fun model output => entered model output ∧ left model output :=
    fun model _ _ hsubset h => ⟨hentered model hsubset h.1, hleft model hsubset h.2⟩
  rw [walkAll_eq_forM]
  exact goes_forM hlasting (fun top start later hgains h => h.gains hboth hgains)
    fun top htop later _ => (goes_walk hentered hleft henter hleave top later).mono
      (fun _ _ _ h => ⟨top, htop, h⟩) fun _ _ _ => id

end Run

namespace Translator

theorem exists_value_of_failure_eq_none {translator : Translator} {sink : Sink}
    {listed : List AssemblyDef} (h : (translator.translate sink listed).failure = none) :
    ∃ value, ((listed.forM Run.translateAssembly).run.run { translator, sink }).1 = .ok value := by
  rcases hrun : (listed.forM Run.translateAssembly).run.run { translator, sink } with
    ⟨error | value, session⟩
  · rw [translate, hrun] at h
    cases h
  · exact ⟨value, rfl⟩

end Translator

end Script

end Assemblage
