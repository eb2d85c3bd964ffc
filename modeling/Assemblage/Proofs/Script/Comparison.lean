import Assemblage.Proofs.Model.Completed
import Assemblage.Proofs.Script.Bodies
import Assemblage.Proofs.Script.Stage

/-!
# Two runs side by side

Two runs over programs that differ only in the bodies of methods go the same way
for as long as what they do with those bodies comes to the same.  A comparison says
which bodies either side sees and what has to hold of the two sessions.  Besides,
it counts what the runs do for each type: a plan limits how often a method is
translated and a type is sealed.  The rules below take both runs through one step
at a time.
-/

namespace Assemblage.Script

/-- Whether a declaration is neither that of a method that was translated nor a seal. -/
def Declaration.isPlain : Declaration → Bool
  | .method .. | .untranslatable .. | .sealed _ => false
  | _ => true

/-- What is done for a type once it has been declared.  A method is known by its
position among the methods of the model under the type's identifier. -/
inductive Act where
  | method (type : TypeId) (position : Nat)
  | constructor (type : TypeId)
  | sealing (type : TypeId)
deriving DecidableEq

namespace Act

def type : Act → TypeId
  | method type _ | constructor type | sealing type => type

/-- The method that is translated by an act, with the statements put before its own.
A static constructor is left to the act of its own. -/
def translated? (model : TypeModel) : Act → Option (Member × Block)
  | method _ position =>
    (model.methods[position]?.filter (!TypeModel.isStaticConstructor ·)).map (·, [])
  | constructor _ => model.staticConstructorMember?.map (·, fieldInitializers model)
  | sealing _ => none

end Act

/-- How often each act may take place. -/
abbrev Plan := Act → Nat

namespace Plan

/-- Nothing is planned. -/
def idle : Plan :=
  fun _ => 0

/-- One act is planned once. -/
def once (act : Act) : Plan :=
  fun other => if other = act then 1 else 0

/-- Each method of a type is translated once, and so is its static constructor. -/
def members (id : TypeId) : Plan
  | .method type _ | .constructor type => if type = id then 1 else 0
  | .sealing _ => 0

/-- Everything is done for each type as often as it has a turn. -/
def turns (ids : List TypeId) : Plan :=
  fun act => ids.count act.type

/-- All that is planned for a list of items. -/
def total {α : Type} (items : List α) (plan : α → Plan) : Plan :=
  fun act => (items.map (plan · act)).foldr (· + ·) 0

theorem total_cons {α : Type} (item : α) (rest : List α) (plan : α → Plan) (act : Act) :
    total (item :: rest) plan act = plan item act + total rest plan act := rfl

theorem total_idle {α : Type} (items : List α) (act : Act) :
    total items (fun _ => idle) act = 0 := by
  induction items with
  | nil => rfl
  | cons item rest ih => rw [total_cons, ih, idle]

theorem total_append {α : Type} (before after : List α) (plan : α → Plan) (act : Act) :
    total (before ++ after) plan act = total before plan act + total after plan act := by
  induction before with
  | nil => exact (Nat.zero_add _).symm
  | cons item rest ih => rw [List.cons_append, total_cons, total_cons, ih, Nat.add_assoc]

theorem total_flatMap {α β : Type} (items : List α) (inside : α → List β) (plan : β → Plan) :
    total (items.flatMap inside) plan = total items fun item => total (inside item) plan := by
  funext act
  induction items with
  | nil => rfl
  | cons item rest ih => rw [List.flatMap_cons, total_append, ih, total_cons]

/-- The acts that took place are within the plan. -/
def Allows (plan : Plan) (acts : List Act) : Prop :=
  ∀ act, acts.count act ≤ plan act

variable {plan more : Plan} {acts later : List Act}

theorem allows_nil (plan : Plan) : plan.Allows [] :=
  fun _ => Nat.zero_le _

theorem allows_once (act : Act) : (once act).Allows [act] := by
  intro other
  rw [List.count_singleton, once]
  by_cases h : other = act
  · rw [if_pos h]
    split <;> omega
  · have hne : ¬(act == other) = true := by simpa using fun heq => h heq.symm
    rw [if_neg hne]
    exact Nat.zero_le _

theorem Allows.append (h : plan.Allows acts) (hmore : more.Allows later) :
    Allows (fun act => plan act + more act) (acts ++ later) := by
  intro act
  rw [List.count_append]
  exact Nat.add_le_add (h act) (hmore act)

theorem Allows.mono (h : plan.Allows acts) (hle : ∀ act, plan act ≤ more act) :
    more.Allows acts :=
  fun act => Nat.le_trans (h act) (hle act)

end Plan

/-- What both sessions have learned and recorded; the bodies are those of neither. -/
structure Records where
  cache : Cache
  declared : List TypeId
  namespaces : List String
  begun : List String

/-- The records of a run that has not done anything yet. -/
def Records.empty : Records where
  cache := {}
  declared := []
  namespaces := []
  begun := []

/-- The session has these records, over a program with certain bodies. -/
structure Session.Keeps (session : Session) (program : Program) (bodies : Body → Body)
    (records : Records) : Prop where
  program_eq : session.translator.store.program = program.mapBodies bodies
  cache_eq : session.translator.store.cache = records.cache.mapBodies bodies
  declared_eq : session.translator.declared = records.declared
  namespaces_eq : session.translator.namespaces = records.namespaces
  begun_eq : session.translator.begun = records.begun

/-- The sessions have put out and reported the same by the same means. -/
structure Session.WorksLike (session other : Session) : Prop where
  sink_eq : session.sink = other.sink
  output_eq : session.output = other.output
  pipeline_eq : session.translator.pipeline = other.translator.pipeline
  decompile_eq : session.translator.decompile = other.translator.decompile
  diagnostics_eq : session.translator.store.diagnostics = other.translator.store.diagnostics

theorem Session.worksLike_refl (session : Session) : session.WorksLike session :=
  ⟨rfl, rfl, rfl, rfl, rfl⟩

namespace Session.Keeps

variable {session : Session} {program : Program} {bodies : Body → Body} {records : Records}

theorem graph_eq (h : session.Keeps program bodies records) :
    session.translator.store.graph = program.graph.mapBodies bodies :=
  congrArg Program.graph h.program_eq

/-- A request leaves the program alone and finds what it finds without the bodies. -/
theorem requestDefinition_eq (h : session.Keeps program bodies records)
    (hspared : program.Spared bodies) (definition : TypeDef) :
    session.translator.store.requestDefinition (definition.mapBodies bodies) =
      ({ session.translator.store with
          cache := (({ program, cache := records.cache } : Store).requestDefinition
            definition).1.cache.mapBodies bodies },
        (({ program, cache := records.cache } : Store).requestDefinition definition).2.map
          (·.mapBodies bodies)) := by
  have hfound : session.translator.store.cache.find? definition.typeId =
      (records.cache.find? definition.typeId).map (·.map (·.mapBodies bodies)) := by
    rw [h.cache_eq, Cache.find?_mapBodies]
  have hconstructed : session.translator.store.program.construct
      session.translator.store.cache (definition.mapBodies bodies) =
        (program.construct records.cache definition).mapBodies bodies := by
    rw [h.program_eq, h.cache_eq, hspared.construct_mapBodies]
  cases hfind : records.cache.find? definition.typeId with
  | some entry =>
    simp only [Store.requestDefinition, TypeDef.typeId_mapBodies, hfound, hfind, Option.map_some]
    rw [← h.cache_eq]
  | none =>
    simp only [Store.requestDefinition, TypeDef.typeId_mapBodies, hfound, hfind, Option.map_none,
      hconstructed, Cache.model?_mapBodies]

end Session.Keeps

/-- Which bodies either of two runs sees, which types may come up, and what holds of
the two sessions when certain acts have taken place. -/
structure Comparison where
  program : Program
  left : Body → Body
  right : Body → Body
  admits : TypeDef → Prop
  holds : List Act → Cache → Session → Session → Prop

namespace Comparison

/-- Two sessions with the same records stand as described. -/
structure Joins (comparison : Comparison) (acts : List Act) (records : Records)
    (first second : Session) : Prop where
  left : first.Keeps comparison.program comparison.left records
  right : second.Keeps comparison.program comparison.right records
  finishes : comparison.program.FinishesAll comparison.admits records.cache
  holds : comparison.holds acts records.cache first second

/-- Two results are values as described, or one and the same error. -/
def Agree {α β : Type} (after : α → β → Prop) : Except Error α → Except Error β → Prop
  | .ok value, .ok other => after value other
  | .error error, .error other => error = other
  | _, _ => False

theorem Agree.mono {α β : Type} {before after : α → β → Prop}
    (himp : ∀ value other, before value other → after value other) {left : Except Error α}
    {right : Except Error β} (h : Agree before left right) : Agree after left right := by
  cases left with
  | error error => cases right with
    | error other => exact h
    | ok other => exact h
  | ok value => cases right with
    | error other => exact h
    | ok other => exact himp value other h

/-- Two runs have come from common records to common records, with results that agree
and no more acts than were planned. -/
def Comes {α β : Type} (comparison : Comparison) (acts : List Act) (cache : Cache)
    (begun : List String) (plan : Plan) (after : α → β → Prop)
    (left : Except Error α × Session) (right : Except Error β × Session) : Prop :=
  ∃ more later, plan.Allows more ∧ later.cache.Extends cache ∧ later.begun = begun ∧
    comparison.Joins (acts ++ more) later left.2 right.2 ∧ Agree after left.1 right.1

/-- Two steps agree wherever the sessions stand as described, at least the given
models are known and the given assemblies are on record. -/
def Ends {α β : Type} (comparison : Comparison) (known : Cache) (begun : List String)
    (plan : Plan) (left : Run α) (right : Run β) (after : α → β → Prop) : Prop :=
  ∀ acts records first second, comparison.Joins acts records first second →
    records.cache.Extends known → records.begun = begun →
    comparison.Comes acts records.cache begun plan after (left.run.run first)
      (right.run.run second)

/-- The model is what a store hands out for the types with an identifier. -/
structure Knows (comparison : Comparison) (known : Cache) (id : TypeId) (model : TypeModel) :
    Prop where
  model?_eq : known.model? id = some model
  finishes : comparison.program.Finishes model
  typeId_eq : model.definition.typeId = id
  admits : comparison.admits model.definition

section

variable {α β γ δ : Type} {comparison : Comparison} {known : Cache} {begun : List String}
  {plan more : Plan}

theorem ends_pure {left : α} {right : β} {after : α → β → Prop} (h : after left right) :
    comparison.Ends known begun plan (pure left) (pure right) after := by
  intro acts records first second hjoins _ hbegun
  refine ⟨[], records, plan.allows_nil, .refl _, hbegun, ?_, h⟩
  rw [List.append_nil]
  exact hjoins

theorem ends_throw (error : Error) {after : α → β → Prop} :
    comparison.Ends known begun plan (throw error) (throw error) after := by
  intro acts records first second hjoins _ hbegun
  refine ⟨[], records, plan.allows_nil, .refl _, hbegun, ?_, rfl⟩
  rw [List.append_nil]
  exact hjoins

theorem Ends.mono {left : Run α} {right : Run β} {before after : α → β → Prop}
    (h : comparison.Ends known begun plan left right before) (hle : ∀ act, plan act ≤ more act)
    (himp : ∀ value other, before value other → after value other) :
    comparison.Ends known begun more left right after := by
  intro acts records first second hjoins hextends hbegun
  obtain ⟨further, later, hallows, hlater, hrecord, hend, hagree⟩ :=
    h acts records first second hjoins hextends hbegun
  exact ⟨further, later, hallows.mono hle, hlater, hrecord, hend, hagree.mono himp⟩

/-- A run of two steps is one run after the other. -/
theorem run_bind (step : Run α) (next : α → Run β) (session : Session) :
    (step >>= next).run.run session =
      match (step.run.run session).1 with
      | .ok value => (next value).run.run (step.run.run session).2
      | .error error => (.error error, (step.run.run session).2) := by
  change (do
    let (result, later) ← step.run.run session
    (ExceptT.bindCont next result).run later : Id _) = _
  rcases step.run.run session with ⟨_ | _, _⟩ <;> rfl

theorem Ends.bind {left : Run α} {right : Run β} {next : α → Run γ} {other : β → Run δ}
    {middle : α → β → Prop} {after : γ → δ → Prop}
    (hstep : comparison.Ends known begun plan left right middle)
    (hnext : ∀ value found, middle value found →
      comparison.Ends known begun more (next value) (other found) after) :
    comparison.Ends known begun (fun act => plan act + more act) (left >>= next)
      (right >>= other) after := by
  intro acts records first second hjoins hextends hbegun
  obtain ⟨done, later, hallows, hlater, hrecord, hend, hagree⟩ :=
    hstep acts records first second hjoins hextends hbegun
  rw [Comes, run_bind, run_bind]
  cases hleft : (left.run.run first).1 with
  | error error =>
    cases hright : (right.run.run second).1 with
    | error other =>
      rw [hleft, hright] at hagree
      exact ⟨done, later, hallows.mono fun _ => Nat.le_add_right _ _, hlater, hrecord, hend, hagree⟩
    | ok found =>
      rw [hleft, hright] at hagree
      exact hagree.elim
  | ok value =>
    cases hright : (right.run.run second).1 with
    | error other =>
      rw [hleft, hright] at hagree
      exact hagree.elim
    | ok found =>
      rw [hleft, hright] at hagree
      obtain ⟨further, last, hfurther, hlast, hsame, hlastEnd, hlastAgree⟩ :=
        hnext value found hagree (acts ++ done) later _ _ hend (hextends.trans hlater) hrecord
      refine ⟨done ++ further, last, hallows.append hfurther, hlater.trans hlast, hsame, ?_,
        hlastAgree⟩
      rw [← List.append_assoc]
      exact hlastEnd

/-- A step that does nothing by plan, and what follows it. -/
theorem Ends.then {left : Run α} {right : Run β} {next : α → Run γ} {other : β → Run δ}
    {middle : α → β → Prop} {after : γ → δ → Prop}
    (hstep : comparison.Ends known begun .idle left right middle)
    (hnext : ∀ value found, middle value found →
      comparison.Ends known begun plan (next value) (other found) after) :
    comparison.Ends known begun plan (left >>= next) (right >>= other) after :=
  (hstep.bind hnext).mono (fun act => Nat.le_of_eq (Nat.zero_add (plan act))) fun _ _ => id

/-- A step, and what does nothing by plan after it. -/
theorem Ends.then_idle {left : Run α} {right : Run β} {next : α → Run γ} {other : β → Run δ}
    {middle : α → β → Prop} {after : γ → δ → Prop}
    (hstep : comparison.Ends known begun plan left right middle)
    (hnext : ∀ value found, middle value found →
      comparison.Ends known begun .idle (next value) (other found) after) :
    comparison.Ends known begun plan (left >>= next) (right >>= other) after :=
  (hstep.bind hnext).mono (fun _ => Nat.le_refl _) fun _ _ => id

/-- Both runs decide one way. -/
theorem ends_ite {p q : Prop} [Decidable p] [Decidable q] (hsame : p ↔ q) {left left' : Run α}
    {right right' : Run β} {after : α → β → Prop}
    (htrue : p → comparison.Ends known begun plan left right after)
    (hfalse : ¬p → comparison.Ends known begun plan left' right' after) :
    comparison.Ends known begun plan (if p then left else left') (if q then right else right')
      after := by
  by_cases h : p
  · rw [if_pos h, if_pos (hsame.1 h)]
    exact htrue h
  · rw [if_neg h, if_neg fun hq => h (hsame.2 hq)]
    exact hfalse h

/-- What follows a look at the translator may be told for all sessions that stand as
described. -/
theorem ends_consult_joins {next : Translator → Run α} {other : Translator → Run β}
    {after : α → β → Prop}
    (h : ∀ acts records first second, comparison.Joins acts records first second →
      records.begun = begun →
      comparison.Ends known begun plan (next first.translator) (other second.translator) after) :
    comparison.Ends known begun plan (Run.translator >>= next) (Run.translator >>= other)
      after := by
  intro acts records first second hjoins hextends hbegun
  exact h acts records first second hjoins hbegun acts records first second hjoins hextends hbegun

theorem ends_consult {next : Translator → Run α} {other : Translator → Run β}
    {after : α → β → Prop}
    (h : ∀ records first second, Session.Keeps first comparison.program comparison.left records →
      Session.Keeps second comparison.program comparison.right records →
      comparison.Ends known begun plan (next first.translator) (other second.translator) after) :
    comparison.Ends known begun plan (Run.translator >>= next) (Run.translator >>= other) after :=
  ends_consult_joins fun _ records first second hjoins _ =>
    h records first second hjoins.left hjoins.right

theorem ends_forM {items : List γ} {f : γ → α} {g : γ → β} {left : α → Run PUnit}
    {right : β → Run PUnit} {plan : γ → Plan}
    (h : ∀ item ∈ items, comparison.Ends known begun (plan item) (left (f item)) (right (g item))
      fun _ _ => True) :
    comparison.Ends known begun (Plan.total items plan) ((items.map f).forM left)
      ((items.map g).forM right) fun _ _ => True := by
  induction items with
  | nil => exact ends_pure trivial
  | cons item rest ih =>
    refine ((h item List.mem_cons_self).bind fun _ _ _ =>
      ih fun other hother => h other (List.mem_cons_of_mem item hother)).mono ?_ fun _ _ => id
    exact fun act => Nat.le_of_eq (Plan.total_cons item rest plan act).symm

theorem ends_forM_idle {items : List γ} {f : γ → α} {g : γ → β} {left : α → Run PUnit}
    {right : β → Run PUnit}
    (h : ∀ item ∈ items, comparison.Ends known begun .idle (left (f item)) (right (g item))
      fun _ _ => True) :
    comparison.Ends known begun .idle ((items.map f).forM left) ((items.map g).forM right)
      fun _ _ => True :=
  (ends_forM h).mono (fun act => Nat.le_of_eq (Plan.total_idle items act)) fun _ _ => id

/-- A loop with bodies that always go on. -/
theorem ends_forIn {items : List γ} {f : γ → α} {g : γ → β}
    {left : α → PUnit → Run (ForInStep PUnit)} {right : β → PUnit → Run (ForInStep PUnit)}
    {plan : γ → Plan}
    (h : ∀ item ∈ items, comparison.Ends known begun (plan item) (left (f item) ⟨⟩)
      (right (g item) ⟨⟩) fun turn other => turn = .yield ⟨⟩ ∧ other = .yield ⟨⟩) :
    comparison.Ends known begun (Plan.total items plan) (forIn (items.map f) ⟨⟩ left)
      (forIn (items.map g) ⟨⟩ right) fun _ _ => True := by
  induction items with
  | nil => exact ends_pure trivial
  | cons item rest ih =>
    rw [List.map_cons, List.map_cons, List.forIn_cons, List.forIn_cons]
    refine ((h item List.mem_cons_self).bind ?_).mono
      (fun act => Nat.le_of_eq (Plan.total_cons item rest plan act).symm) fun _ _ => id
    rintro turn other ⟨rfl, rfl⟩
    exact ih fun next hnext => h next (List.mem_cons_of_mem item hnext)

theorem ends_forIn_idle {items : List γ} {f : γ → α} {g : γ → β}
    {left : α → PUnit → Run (ForInStep PUnit)} {right : β → PUnit → Run (ForInStep PUnit)}
    (h : ∀ item ∈ items, comparison.Ends known begun .idle (left (f item) ⟨⟩)
      (right (g item) ⟨⟩) fun turn other => turn = .yield ⟨⟩ ∧ other = .yield ⟨⟩) :
    comparison.Ends known begun .idle (forIn (items.map f) ⟨⟩ left)
      (forIn (items.map g) ⟨⟩ right) fun _ _ => True :=
  (ends_forIn h).mono (fun act => Nat.le_of_eq (Plan.total_idle items act)) fun _ _ => id

end

/-! ## Comparisons that are kept -/

/-- Every step of a run keeps what the comparison says. -/
structure Kept (comparison : Comparison) : Prop where
  spared_left : comparison.program.Spared comparison.left
  spared_right : comparison.program.Spared comparison.right
  indexed : ∀ definition, comparison.program.graph.Indexes definition →
    comparison.admits definition
  nested : ∀ definition, comparison.admits definition →
    ∀ inner ∈ definition.nested, comparison.admits inner
  /-- What is learned and recorded makes no difference. -/
  steady : ∀ {acts cache later first second next other}, comparison.holds acts cache first second →
    Cache.Extends later cache → Session.WorksLike next first → Session.WorksLike other second →
    comparison.holds acts later next other
  emits : ∀ {known begun declaration}, Declaration.isPlain declaration = true →
    comparison.Ends known begun .idle (Run.emit declaration) (Run.emit declaration) fun _ _ => True
  reports : ∀ {known begun entry}, Diagnostic.category entry ≠ .method →
    comparison.Ends known begun .idle (Run.report entry) (Run.report entry) fun _ _ => True
  translates : ∀ {known begun} act {model member initializers},
    comparison.Knows known (Act.type act) model →
    act.translated? model = some (member, initializers) →
    comparison.Ends known begun (.once act)
      (Run.translateMethod (model.mapBodies comparison.left) model.definition.location.path
        initializers (member.mapBodies comparison.left))
      (Run.translateMethod (model.mapBodies comparison.right) model.definition.location.path
        initializers (member.mapBodies comparison.right)) fun _ _ => True
  seals : ∀ {known begun id model}, comparison.Knows known id model →
    comparison.Ends known begun (.once (.sealing id))
      (Run.emit (.sealed model.definition.location)) (Run.emit (.sealed model.definition.location))
      fun _ _ => True

namespace Kept

variable {α β : Type} {comparison : Comparison} {known : Cache} {begun : List String} {plan : Plan}
  {definition : TypeDef}

/-- A change of what is recorded. -/
theorem ends_update (h : comparison.Kept) {change : Translator → Translator}
    (record : Records → Records)
    (hkeeps : ∀ {session program bodies records}, Session.Keeps session program bodies records →
      Session.Keeps { session with translator := change session.translator } program bodies
        (record records))
    (hrecord : ∀ records, (record records).cache = records.cache ∧
      (record records).begun = records.begun)
    (hworks : ∀ session : Session,
      Session.WorksLike { session with translator := change session.translator } session) :
    comparison.Ends known begun .idle (Run.update change) (Run.update change) fun _ _ => True := by
  intro acts records first second hjoins _ hbegun
  obtain ⟨hcache, hsame⟩ := hrecord records
  refine ⟨[], record records, Plan.allows_nil _, hcache ▸ .refl _, hsame.trans hbegun, ?_, trivial⟩
  rw [List.append_nil]
  refine ⟨hkeeps hjoins.left, hkeeps hjoins.right, hcache ▸ hjoins.finishes, ?_⟩
  exact h.steady hjoins.holds (hcache ▸ .refl _) (hworks first) (hworks second)

/-- The store keeps a model under the identifier, or it is asked for and there is none. -/
theorem run_model (definition : TypeDef) (session : Session) :
    (Run.model definition).run.run session =
      let answer := session.translator.store.requestDefinition definition
      let later := { session with translator := { session.translator with store := answer.1 } }
      match answer.2 with
      | some model => (.ok model, later)
      | none =>
        (.error (.invariant none ("type " ++ definition.fullName ++ " has no model")), later) := by
  rcases hanswer : session.translator.store.requestDefinition definition with ⟨store, _ | model⟩
  all_goals
    rw [Run.model, Stage.run_translator_bind, hanswer]
    rfl

/-- A request adds finished models to what is known. -/
theorem finishesAll_requestDefinition (h : comparison.Kept)
    (hadmits : comparison.admits definition) {store : Store}
    (hprogram : store.program = comparison.program)
    (hfinishes : comparison.program.FinishesAll comparison.admits store.cache) :
    (store.requestDefinition definition).1.cache.Extends store.cache ∧
      comparison.program.FinishesAll comparison.admits
        (store.requestDefinition definition).1.cache := by
  rw [Store.requestDefinition]
  split
  · exact ⟨.refl _, hfinishes⟩
  · rw [hprogram]
    exact ⟨Program.extends_construct store.cache definition, hfinishes.construct h.indexed hadmits⟩

/-- Both sides find the model of a type, each with the bodies that it sees. -/
theorem ends_model (h : comparison.Kept) (hadmits : comparison.admits definition)
    {next : TypeModel → Run α} {other : TypeModel → Run β} {after : α → β → Prop}
    (hnext : ∀ later model, later.Extends known → comparison.Knows later definition.typeId model →
      comparison.Ends later begun plan (next (model.mapBodies comparison.left))
        (other (model.mapBodies comparison.right)) after) :
    comparison.Ends known begun plan
      (Run.model (definition.mapBodies comparison.left) >>= next)
      (Run.model (definition.mapBodies comparison.right) >>= other) after := by
  intro acts records first second hjoins hextends hbegun
  -- The request that either side makes, over the records alone.
  let store : Store := { program := comparison.program, cache := records.cache }
  obtain ⟨hlater, hfinishes⟩ : (store.requestDefinition definition).1.cache.Extends records.cache ∧
      comparison.program.FinishesAll comparison.admits
        (store.requestDefinition definition).1.cache :=
    h.finishesAll_requestDefinition hadmits rfl hjoins.finishes
  have hfound := store.model?_requestDefinition definition
  have hleft := hjoins.left.requestDefinition_eq h.spared_left definition
  have hright := hjoins.right.requestDefinition_eq h.spared_right definition
  generalize store.requestDefinition definition = answer at hlater hfinishes hfound hleft hright
  obtain ⟨kept, found⟩ := answer
  let learned : Records := { records with cache := kept.cache }
  let learn (session : Session) (bodies : Body → Body) : Session :=
    { session with
      translator := { session.translator with
        store := { session.translator.store with cache := kept.cache.mapBodies bodies } } }
  have hlearned : comparison.Joins acts learned (learn first comparison.left)
      (learn second comparison.right) :=
    { left := ⟨hjoins.left.program_eq, rfl, hjoins.left.declared_eq, hjoins.left.namespaces_eq,
        hjoins.left.begun_eq⟩
      right := ⟨hjoins.right.program_eq, rfl, hjoins.right.declared_eq,
        hjoins.right.namespaces_eq, hjoins.right.begun_eq⟩
      finishes := hfinishes
      holds := h.steady hjoins.holds hlater ⟨rfl, rfl, rfl, rfl, rfl⟩ ⟨rfl, rfl, rfl, rfl, rfl⟩ }
  rw [Comes, run_bind, run_bind, run_model, run_model, hleft, hright]
  cases found with
  | none =>
    refine ⟨[], learned, Plan.allows_nil _, hlater, hbegun, ?_, ?_⟩
    · rw [List.append_nil]
      exact hlearned
    · simp [Agree]
  | some model =>
    obtain ⟨hfinished, hid, hmodel⟩ :=
      hfinishes definition.typeId model (Cache.model?_eq_some_iff.1 hfound)
    obtain ⟨more, last, hallows, hlast, hsame, hend, hagree⟩ :=
      hnext kept.cache model (hextends.trans hlater) ⟨hfound, hfinished, hid, hmodel⟩ acts learned
        _ _ hlearned (.refl _) hbegun
    exact ⟨more, last, hallows, hlater.trans hlast, hsame, hend, hagree⟩

end Kept

end Comparison

end Assemblage.Script
