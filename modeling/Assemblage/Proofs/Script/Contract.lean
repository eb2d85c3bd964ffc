import Assemblage.Proofs.Graph.Loaded
import Assemblage.Proofs.Script.Stage

/-!
# Contracts

While types are declared, some wait for the shell of a base.  A contract says
what holds of the view at every such moment and which types may be declared
next.  If each single act keeps it, so does declaring a type with its base and
all that is nested in it; and afterwards the type is settled, which is to say on
record or ignored, and so are the types nested in everything that is new on
record.
-/

namespace Assemblage.Script

structure Contract where
  /-- What holds while the given types wait for a shell. -/
  holds : List TypeId → View → Prop
  /-- Which types may then be declared. -/
  admits : List TypeId → TypeDef → View → Prop

namespace Stage

/-! ## Settled types -/

def Ignores (stage : Stage) (definition : TypeDef) : Prop :=
  ∃ model, stage.Models definition model ∧ model.ignored = true

/-- There is nothing left to do about the type. -/
def Settled (stage : Stage) (definition : TypeDef) (view : View) : Prop :=
  definition.typeId ∈ view.declared ∨ stage.Ignores definition

/-- From one view to a later one types come on record, each with its nested types
settled, and no assemblies. -/
structure Advances (stage : Stage) (view later : View) : Prop where
  begun : later.begun = view.begun
  declared : view.declared ⊆ later.declared
  nested : ∀ id ∈ later.declared, id ∉ view.declared →
    ∃ definition, stage.program.graph.Indexes definition ∧ definition.typeId = id ∧
      ∀ inner ∈ definition.nested, stage.Settled inner later

variable {stage : Stage} {view later last : View} {definition : TypeDef}

theorem Settled.mono (h : stage.Settled definition view)
    (hdeclared : view.declared ⊆ later.declared) :
    stage.Settled definition later :=
  h.imp_left fun hmem => hdeclared hmem

theorem advances_of_records (hbegun : later.begun = view.begun)
    (h : later.declared = view.declared) : stage.Advances view later where
  begun := hbegun
  declared := h ▸ List.Subset.refl _
  nested _ hmem hnew := absurd (h ▸ hmem) hnew

theorem Advances.trans (hfirst : stage.Advances view later) (hnext : stage.Advances later last) :
    stage.Advances view last where
  begun := hnext.begun.trans hfirst.begun
  declared := List.Subset.trans hfirst.declared hnext.declared
  nested id hmem hnew := by
    by_cases hlater : id ∈ later.declared
    · obtain ⟨definition, hindexed, hid, hnested⟩ := hfirst.nested id hlater hnew
      exact ⟨definition, hindexed, hid, fun inner hinner =>
        (hnested inner hinner).mono hnext.declared⟩
    · exact hnext.nested id hmem hlater

/-- A type that has come on record may be counted in once its nested types are settled. -/
theorem Advances.close {opened : View} {id : TypeId} (h : stage.Advances opened later)
    (hbegun : opened.begun = view.begun) (hopened : opened.declared = id :: view.declared)
    (hindexed : stage.program.graph.Indexes definition) (hid : definition.typeId = id)
    (hnested : ∀ inner ∈ definition.nested, stage.Settled inner later) :
    stage.Advances view later where
  begun := h.begun.trans hbegun
  declared other hmem := h.declared (hopened ▸ List.mem_cons_of_mem id hmem)
  nested other hmem hnew := by
    by_cases hother : other = id
    · exact ⟨definition, hindexed, hid.trans hother.symm, hnested⟩
    · refine h.nested other hmem ?_
      rw [hopened, List.mem_cons, not_or]
      exact ⟨hother, hnew⟩

end Stage

namespace Contract

open Stage

/-- Every act of a run on the stage keeps the contract. -/
structure Kept (contract : Contract) (stage : Stage) : Prop where
  mayStop : ∀ {waiting view}, contract.holds waiting view → stage.MayStop view
  /-- A type comes on record with its namespace, and its shell is awaited. -/
  opens : ∀ {waiting view definition model}, contract.holds waiting view →
    contract.admits waiting definition view → stage.program.graph.Indexes definition →
    stage.Models definition model → model.ignored = false → definition.typeId ∉ view.declared →
    contract.holds (definition.typeId :: waiting) ((view.mark definition.typeId).space definition)
  /-- A type is declared, and if that is only a shell, after the base from its assembly. -/
  closes : ∀ {waiting view admitted definition model},
    contract.admits waiting definition admitted →
    contract.holds (definition.typeId :: waiting) view → stage.Models definition model →
    model.ignored = false →
    (model.kind.isDeclaredInFull = false → ∀ base,
      Run.ownBase? stage.program.graph definition = some base →
      base.typeId ∈ definition.typeId :: waiting ∨ stage.Settled base view) →
    contract.holds waiting (view.emit (typeDeclaration model))
  /-- The base of a type waits itself. -/
  cycles : ∀ {waiting view admitted definition base}, contract.admits waiting definition admitted →
    contract.holds (definition.typeId :: waiting) view →
    Run.ownBase? stage.program.graph definition = some base →
    base.typeId ∈ definition.typeId :: waiting →
    contract.holds (definition.typeId :: waiting) (view.report (Run.baseCycle definition))
  /-- The base of a type may be declared while the type waits. -/
  bases : ∀ {waiting view admitted definition base}, contract.admits waiting definition admitted →
    contract.holds (definition.typeId :: waiting) view →
    Run.ownBase? stage.program.graph definition = some base →
    base.typeId ∉ definition.typeId :: waiting →
    contract.admits (definition.typeId :: waiting) base view
  /-- The types nested in a type may be declared after it. -/
  nested : ∀ {waiting view admitted definition model inner},
    contract.admits waiting definition admitted → contract.holds waiting view →
    definition.typeId ∈ view.declared → stage.Models definition model →
    inner ∈ definition.nested ∨ inner ∈ model.definition.nested →
    contract.admits waiting inner view

variable {contract : Contract} {stage : Stage} {waiting remaining : List TypeId} {view : View}
  {definition : TypeDef}

/-- How a declaration leaves the view. -/
structure Leaves (contract : Contract) (stage : Stage) (waiting : List TypeId) (view : View)
    (definitions : List TypeDef) (later : View) : Prop where
  holds : contract.holds waiting later
  advances : stage.Advances view later
  settled : ∀ definition ∈ definitions, stage.Settled definition later

/-- The contract holds later on. -/
abbrev Lasts (contract : Contract) (stage : Stage) (view later : View) : Prop :=
  contract.Leaves stage [] view [] later

theorem lasts_of_records {later : View} (hholds : contract.holds [] later)
    (hbegun : later.begun = view.begun) (hdeclared : later.declared = view.declared) :
    contract.Lasts stage view later :=
  ⟨hholds, advances_of_records hbegun hdeclared, by simp⟩

theorem Leaves.trans {later last : View} {before after : List TypeDef}
    (hfirst : contract.Leaves stage waiting view before later)
    (hnext : contract.Leaves stage waiting later after last) :
    contract.Leaves stage waiting view (before ++ after) last := by
  refine ⟨hnext.holds, hfirst.advances.trans hnext.advances, ?_⟩
  intro definition hdefinition
  rcases List.mem_append.1 hdefinition with hbefore | hafter
  · exact (hfirst.settled definition hbefore).mono hnext.advances.declared
  · exact hnext.settled definition hafter

/-- One type after the other. -/
theorem ends_forM_declared {definitions : List TypeDef} {declare : TypeDef → Run PUnit}
    (hholds : contract.holds waiting view)
    (hdeclare : ∀ definition ∈ definitions, ∀ later, contract.holds waiting later →
      stage.Advances view later →
      stage.Ends (declare definition) (fun _ => contract.Leaves stage waiting later [definition])
        later) :
    stage.Ends (definitions.forM declare)
      (fun _ => contract.Leaves stage waiting view definitions) view := by
  refine ends_forM (contract.Leaves stage waiting view ·)
    ⟨hholds, advances_of_records rfl rfl, by simp⟩ ?_
  rintro before definition after later rfl hbefore
  exact (hdeclare definition (by simp) later hbefore.holds hbefore.advances).mono
    fun _ _ hlast => hbefore.trans hlast

/-- The base of a type is declared under the contract, with the type waiting for it. -/
theorem Kept.ends_declareBase (h : contract.Kept stage) {declare : TypeDef → Run Unit}
    {admitted : View} (hadmits : contract.admits waiting definition admitted)
    (hholds : contract.holds (definition.typeId :: waiting) view)
    (hdeclare : ∀ base, Run.ownBase? stage.program.graph definition = some base →
      contract.admits (definition.typeId :: waiting) base view →
      stage.Ends (declare base)
        (fun _ => contract.Leaves stage (definition.typeId :: waiting) view [base]) view) :
    stage.Ends
      (Run.declareBase stage.program.graph (definition.typeId :: waiting) declare definition)
      (fun _ later => contract.holds (definition.typeId :: waiting) later ∧
        stage.Advances view later ∧
        ∀ base, Run.ownBase? stage.program.graph definition = some base →
          base.typeId ∈ definition.typeId :: waiting ∨ stage.Settled base later) view := by
  rw [Run.declareBase]
  cases hbase : Run.ownBase? stage.program.graph definition with
  | none => exact ends_pure ⟨hholds, advances_of_records rfl rfl, by simp⟩
  | some base =>
    by_cases hwaits : base.typeId ∈ definition.typeId :: waiting
    · simp only [List.contains_iff_mem, if_pos hwaits]
      refine ends_report.mono ?_
      rintro - later rfl
      refine ⟨h.cycles hadmits hholds hbase hwaits, advances_of_records rfl rfl, ?_⟩
      rintro other heq
      exact .inl (Option.some.inj heq ▸ hwaits)
    · simp only [List.contains_iff_mem, if_neg hwaits]
      refine ends_consult ?_
      rintro session - rfl
      by_cases hdeclared : base.typeId ∈ session.translator.declared
      · have hskip : (!session.translator.isDeclared base.typeId) = false := by
          simpa [Translator.isDeclared] using hdeclared
        simp only [hskip]
        refine ends_pure ⟨hholds, advances_of_records rfl rfl, ?_⟩
        rintro other heq
        exact .inr (.inl (Option.some.inj heq ▸ hdeclared))
      · have hgo : (!session.translator.isDeclared base.typeId) = true := by
          simpa [Translator.isDeclared] using hdeclared
        simp only [hgo]
        refine (hdeclare base hbase (h.bases hadmits hholds hbase hwaits)).mono ?_
        intro _ later hlater
        refine ⟨hlater.holds, hlater.advances, ?_⟩
        rintro other heq
        exact .inr (Option.some.inj heq ▸ hlater.settled base (List.mem_singleton_self base))

/-- Once a type has been declared, the types nested in it follow. -/
theorem Kept.ends_nested (h : contract.Kept stage) (hgraph : stage.program.graph.IndexesNested)
    {declare : TypeDef → Run PUnit} {admitted opened made : View} {model : TypeModel}
    (hadmits : contract.admits waiting definition admitted)
    (hmodel : stage.Models definition model) {found : TypeDef}
    (hfound : found = definition ∨ found = model.definition)
    (hindexed : stage.program.graph.Indexes found) (hid : found.typeId = definition.typeId)
    (hbegun : opened.begun = view.begun)
    (hopened : opened.declared = definition.typeId :: view.declared)
    (hadvances : stage.Advances opened made) (hholds : contract.holds waiting made)
    (hdeclare : ∀ inner later, stage.program.graph.Indexes inner →
      stage.Advances opened later → contract.holds waiting later →
      contract.admits waiting inner later →
      stage.Ends (declare inner) (fun _ => contract.Leaves stage waiting later [inner]) later) :
    stage.Ends (found.nested.forM declare)
      (fun _ => contract.Leaves stage waiting view [definition]) made := by
  have hself : ∀ later, stage.Advances made later → definition.typeId ∈ later.declared :=
    fun later hlater => (hadvances.trans hlater).declared (hopened ▸ List.mem_cons_self)
  refine (ends_forM_declared hholds ?_).mono ?_
  · intro inner hinner later hlater hnext
    refine hdeclare inner later (hgraph found hindexed inner hinner) (hadvances.trans hnext)
      hlater ?_
    refine h.nested hadmits hlater (hself later hnext) hmodel ?_
    rcases hfound with rfl | rfl
    · exact .inl hinner
    · exact .inr hinner
  · intro _ later hlater
    refine ⟨hlater.holds,
      (hadvances.trans hlater.advances).close hbegun hopened hindexed hid hlater.settled, ?_⟩
    intro other hother
    rw [List.mem_singleton.1 hother]
    exact .inl (hself later hlater.advances)

/-- Every type is on record or may still come up. -/
def Covers (stage : Stage) (remaining : List TypeId) (view : View) : Prop :=
  ∀ definition, stage.program.graph.Indexes definition →
    definition.typeId ∈ remaining ∨ definition.typeId ∈ view.declared

/-- A type that is being declared does not come up again. -/
theorem Covers.without (h : Covers stage remaining view) {later : View} {id : TypeId}
    (hdeclared : id :: view.declared ⊆ later.declared) :
    Covers stage (Run.idsWithout id remaining) later := by
  intro other hother
  by_cases hid : other.typeId = id
  · exact .inr (hdeclared (hid ▸ List.mem_cons_self))
  · refine (h other hother).imp (fun hmem => ?_) fun hmem => hdeclared (List.mem_cons_of_mem _ hmem)
    rw [Run.idsWithout, List.mem_filter]
    exact ⟨hmem, by simpa using hid⟩

/-- The declaration of a type keeps the contract and leaves the type settled. -/
theorem Kept.ends_declare (h : contract.Kept stage)
    (hgraph : stage.program.graph.IndexesNested) (hcovers : Covers stage remaining view)
    (hindexed : stage.program.graph.Indexes definition) (hholds : contract.holds waiting view)
    (hadmits : contract.admits waiting definition view) :
    stage.Ends (Run.declare stage.program.graph remaining waiting definition)
      (fun _ => contract.Leaves stage waiting view [definition]) view := by
  induction hlength : remaining.length using Nat.strongRecOn
    generalizing remaining waiting definition view with
  | ind length ih =>
  subst hlength
  rw [Run.declare]
  refine ends_model hindexed ?_
  intro model hmodel
  refine ends_consult ?_
  intro session _ hview
  have hrecord : session.translator.declared = view.declared := congrArg View.declared hview
  by_cases hdone : (model.ignored || session.translator.isDeclared definition.typeId) = true
  · rw [if_pos hdone]
    refine ends_pure ⟨hholds, advances_of_records rfl rfl, ?_⟩
    intro other hother
    rw [List.mem_singleton.1 hother]
    rw [Bool.or_eq_true, Translator.isDeclared, hrecord, List.contains_iff_mem] at hdone
    exact hdone.symm.imp_right fun hignored => ⟨model, hmodel, hignored⟩
  rw [if_neg hdone]
  rw [Bool.or_eq_true, Translator.isDeclared, hrecord, List.contains_iff_mem, not_or,
    Bool.not_eq_true] at hdone
  obtain ⟨hignored, hnew⟩ := hdone
  rw [dif_pos ((hcovers definition hindexed).resolve_right hnew)]
  have hopened := h.opens hholds hadmits hindexed hmodel hignored hnew
  refine ends_markDeclared.bind ?_
  rintro - marked rfl
  refine (ends_declareNamespace (h.mayStop hholds).mark).bind ?_
  rintro - opened hspace
  rw [← hspace] at hopened
  obtain ⟨hdeclared, hbegun⟩ : opened.declared = definition.typeId :: view.declared ∧
      opened.begun = view.begun := by
    obtain ⟨hdeclared, hbegun, -⟩ := (view.mark definition.typeId).space_records definition
    rw [hspace]
    exact ⟨hdeclared, hbegun⟩
  -- Whatever comes next is declared with one type less in reach.
  have hnext : ∀ inner waiting later, stage.program.graph.Indexes inner →
      opened.declared ⊆ later.declared → contract.holds waiting later →
      contract.admits waiting inner later →
      stage.Ends
        (Run.declare stage.program.graph (Run.idsWithout definition.typeId remaining) waiting inner)
        (fun _ => contract.Leaves stage waiting later [inner]) later := by
    intro inner waiting later hinner hlater hholds hadmits
    refine ih _ (Run.length_idsWithout_lt ((hcovers definition hindexed).resolve_right hnew))
      (hcovers.without ?_) hinner hholds hadmits rfl
    rw [← hdeclared]
    exact hlater
  cases hkind : model.kind.isDeclaredInFull with
  | true =>
    rw [if_pos rfl]
    refine (ends_declareInFull hkind (h.mayStop hopened)).bind ?_
    rintro - made rfl
    have hmade := h.closes hadmits hopened hmodel hignored (by simp [hkind])
    exact h.ends_nested hgraph hadmits hmodel (.inl rfl) hindexed rfl hbegun hdeclared
      (advances_of_records rfl rfl) hmade fun inner later hinner hlater =>
        hnext inner waiting later hinner hlater.declared
  | false =>
    rw [if_neg Bool.false_ne_true]
    refine (h.ends_declareBase hadmits hopened ?_).bind ?_
    · intro base hbase hadmitted
      have hindexedBase : stage.program.graph.Indexes base :=
        Graph.indexes_of_baseType? (Option.filter_eq_some_iff.1 hbase).1
      exact hnext base _ opened hindexedBase (List.Subset.refl _) hopened hadmitted
    rintro - based ⟨hbased, hadvances, hbase⟩
    refine (ends_declareShell hkind (h.mayStop hbased)).bind ?_
    rintro - made rfl
    have hmade := h.closes hadmits hbased hmodel hignored fun _ => hbase
    exact h.ends_nested hgraph hadmits hmodel (.inr rfl) hmodel.faithful.indexed
      hmodel.faithful.typeId_eq hbegun hdeclared (hadvances.trans (advances_of_records rfl rfl))
      hmade
      fun inner later hinner hlater => hnext inner waiting later hinner hlater.declared

/-- Everything is in reach of a type that is asked for. -/
theorem covers_reachable {session : Session} (h : stage.Carries session) :
    Covers stage ((Run.reachable session.translator.store definition).map (·.typeId)) view := by
  rintro other ⟨entry, hentry, rfl⟩
  rw [Run.reachable, h.graph_eq]
  exact .inl (List.mem_map_of_mem (List.mem_append_left _ (List.mem_map_of_mem hentry)))

/-- A type that is asked for is declared with nothing waiting. -/
theorem Kept.ends_declareType (h : contract.Kept stage)
    (hgraph : stage.program.graph.IndexesNested) (hindexed : stage.program.graph.Indexes definition)
    (hholds : contract.holds [] view) (hadmits : contract.admits [] definition view) :
    stage.Ends (Run.declareType definition)
      (fun _ => contract.Leaves stage [] view [definition]) view := by
  refine ends_consult ?_
  intro session hcarries _
  simp only [hcarries.graph_eq]
  exact h.ends_declare hgraph (covers_reachable hcarries) hindexed hholds hadmits

end Contract

end Assemblage.Script
