import Assemblage.Proofs.Script.Gains
import Assemblage.Proofs.Script.MethodNames

/-!
# Seals and static constructors

The second walk over an assembly declares static constructors and the third seals the
types that have one; both go by the model of the type.  To be sealed it is enough that
the static constructor is not ignored.  It is only declared if it is also left to be
supplied: by the runtime and not replaced, or by a body and not abstract.  Where the two
answers agree, a type is sealed just if its static constructor has been declared before.
-/

namespace Assemblage

/-- Whether anything is declared for a method that is not ignored. -/
def Member.isDeclared (member : Member) : Bool :=
  member.definition.method?.any fun declared =>
    if member.isExternal then !member.isReplaced
    else !(member.replacement.getD declared).isAbstract

/-- Whether the static constructor of a type is declared, for the type itself and under
its own name. -/
def TypeModel.declaresConstructor (model : TypeModel) : Bool :=
  !model.kind.isDeclaredInFull && model.staticConstructorMember?.any fun member =>
    !member.isIgnored && member.isDeclared && member.isStatic &&
      model.emittedName member == ".cctor"

theorem TypeModel.needsSeal_of_declaresConstructor {model : TypeModel}
    (h : model.declaresConstructor = true) : model.needsSeal = true := by
  rw [declaresConstructor, Bool.and_eq_true] at h
  rw [needsSeal, Bool.and_eq_true]
  refine ⟨h.1, ?_⟩
  obtain ⟨member, hmember, hdeclared⟩ := (Option.any_eq_true _ _).1 h.2
  rw [Bool.and_eq_true, Bool.and_eq_true, Bool.and_eq_true] at hdeclared
  exact (Option.any_eq_true _ _).2 ⟨member, hmember, hdeclared.1.1.1⟩

/-- A static method with the name of static constructors in the script is one. -/
theorem TypeModel.isStaticConstructor_of_emittedName {model : TypeModel} {member : Member}
    (hkind : member.kind = .method) (hstatic : member.isStatic = true)
    (hname : model.emittedName member = ".cctor") : isStaticConstructor member = true := by
  rw [emittedName] at hname
  split at hname
  · -- A position follows the name of a group after a dollar sign.
    rename_i group index _
    have hmem : '$' ∈ (group.mangledName index).toList := by simp [MethodGroup.mangledName]
    rw [hname] at hmem
    exact absurd hmem (by decide)
  · exact (isStaticConstructor_iff hkind).2 ⟨hname, hstatic⟩

namespace Script

/-- Where the static constructor of a type is put. -/
def Location.constructor (location : Location) : Owner × String :=
  (Owner.ofMember location.path true, Identifier.escape ".cctor")

/-- Where a method of a type is put. -/
def placeOf (model : TypeModel) (member : Member) : Owner × String :=
  (Owner.ofMember model.definition.location.path member.isStatic, methodName model member)

/-- The declaration stands for the static constructor of a type. -/
def Declaration.Constructs (declaration : Declaration) (definition : TypeDef) : Prop :=
  declaration.methodPlace? = some definition.location.constructor

/-- A type is sealed just if its static constructor has been declared before. -/
structure SealsFollow (output : List Declaration) : Prop where
  sealed_iff : ∀ definition : TypeDef, .sealed definition.location ∈ output ↔
    ∃ declaration ∈ output, declaration.Constructs definition
  before : ∀ (definition : TypeDef) (position : Nat),
    output[position]? = some (.sealed definition.location) →
    ∃ declaration ∈ output.take position, declaration.Constructs definition

/-- Inside a type nothing is sealed, and the only static constructor is that of the type. -/
structure Declaration.Fills (model : TypeModel) (declaration : Declaration) : Prop where
  not_sealed : declaration.sealed? = none
  constructs : ∀ definition, declaration.Constructs definition →
    definition.location = model.definition.location ∧ model.declaresConstructor = true

section

variable {declaration : Declaration} {model : TypeModel} {member : Member}

theorem Declaration.IsSilent.fills (h : declaration.IsSilent) (model : TypeModel) :
    declaration.Fills model :=
  ⟨h.1, fun _ hplace => absurd (h.2.symm.trans hplace) (Option.some_ne_none _).symm⟩

theorem Declaration.sealed?_of_methodPlace? {place : Owner × String}
    (h : declaration.methodPlace? = some place) : declaration.sealed? = none := by
  cases declaration with
  | sealed => cases h
  | _ => rfl

/-- Only where a type lives a declaration stands for its static constructor. -/
theorem eq_of_place_eq_constructor {definition : TypeDef}
    (h : placeOf model member = definition.location.constructor) :
    definition.location = model.definition.location ∧ member.isStatic = true ∧
      model.emittedName member = ".cctor" := by
  obtain ⟨howner, hname⟩ := Prod.mk.inj h
  obtain ⟨hpath, hstatic⟩ := Owner.mk.inj howner
  refine ⟨?_, ?_, Identifier.escape_injective hname⟩
  · have hfull : model.definition.fullName = definition.fullName :=
      Location.path_ofFullName_injective hpath
    rw [TypeDef.location, TypeDef.location, hfull]
  · simpa using hstatic

/-- A method that is not a static constructor stands for none. -/
theorem fills_of_not_isStaticConstructor (hkind : member.kind = .method)
    (hmember : TypeModel.isStaticConstructor member = false)
    (hplace : declaration.methodPlace? = some (placeOf model member)) :
    declaration.Fills model := by
  refine ⟨Declaration.sealed?_of_methodPlace? hplace, fun definition hconstructs => ?_⟩
  obtain ⟨-, hstatic, hname⟩ :=
    eq_of_place_eq_constructor (Option.some.inj (hplace.symm.trans hconstructs))
  rw [TypeModel.isStaticConstructor_of_emittedName hkind hstatic hname] at hmember
  cases hmember

/-- The static constructor stands for that of its own type. -/
theorem fills_of_staticConstructorMember? (hfull : model.kind.isDeclaredInFull = false)
    (hmember : model.staticConstructorMember? = some member) (hignored : member.isIgnored = false)
    (hdeclared : member.isDeclared = true)
    (hplace : declaration.methodPlace? = some (placeOf model member)) :
    declaration.Fills model := by
  refine ⟨Declaration.sealed?_of_methodPlace? hplace, fun definition hconstructs => ?_⟩
  obtain ⟨hlocation, hstatic, hname⟩ :=
    eq_of_place_eq_constructor (Option.some.inj (hplace.symm.trans hconstructs))
  refine ⟨hlocation, ?_⟩
  rw [TypeModel.declaresConstructor, hfull, hmember]
  simp [hignored, hdeclared, hstatic, hname]

/-- A model that declares a static constructor has a member for it, and that member is declared
at the place of constructors. -/
theorem place_of_declaresConstructor (h : model.declaresConstructor = true) :
    ∃ member, model.staticConstructorMember? = some member ∧ member.isIgnored = false ∧
      member.isDeclared = true ∧
      placeOf model member = model.definition.location.constructor := by
  rw [TypeModel.declaresConstructor, Bool.and_eq_true] at h
  obtain ⟨member, hmember, hdeclared⟩ := (Option.any_eq_true _ _).1 h.2
  simp only [Bool.and_eq_true, Bool.not_eq_true', beq_iff_eq] at hdeclared
  obtain ⟨⟨⟨hignored, hdeclared⟩, hstatic⟩, hname⟩ := hdeclared
  refine ⟨member, hmember, hignored, hdeclared, ?_⟩
  rw [placeOf, methodName, hname, hstatic, Location.constructor]

end

namespace Run

section

variable {model : TypeModel} {member : Member} {start : Session}

theorem goes_declareMethod {owner : Owner} {name : String} {declared : MethodDef}
    (result : Except Error Function) {kind : Declaration → Prop}
    (hkind : ∀ declaration, declaration.methodPlace? = some (owner, name) → kind declaration) :
    Goes (fun _ => kind) (declareMethod owner name declared result)
      (fun _ later => ∃ declaration ∈ later.output,
        declaration.methodPlace? = some (owner, name)) start := by
  cases result with
  | ok function =>
    exact (goes_emit (hkind _ rfl)).mono (fun _ _ _ => id) fun _ _ _ hmem => ⟨_, hmem, rfl⟩
  | error error =>
    rw [declareMethod]
    split
    · refine (goes_report _).bind (lasting_const kind) fun _ later _ _ => ?_
      exact (goes_emit (hkind _ rfl)).mono (fun _ _ _ => id) fun _ _ _ hmem => ⟨_, hmem, rfl⟩
    · exact goes_throw _

/-- A method is declared in its place, unless it is left out. -/
theorem goes_translateMethod (initializers : Block) {kind : Declaration → Prop}
    (hkind : member.isDeclared = true → ∀ declaration,
      declaration.methodPlace? = some (placeOf model member) → kind declaration) :
    Goes (fun _ => kind)
      (translateMethod model model.definition.location.path initializers member)
      (fun _ later => member.isDeclared = true → ∃ declaration ∈ later.output,
        declaration.methodPlace? = some (placeOf model member)) start := by
  rw [translateMethod_eq]
  cases hmethod : member.definition.method? with
  | none =>
    have hnone : member.isDeclared = false := by rw [Member.isDeclared, hmethod, Option.any_none]
    exact goes_pure fun h => absurd (hnone.symm.trans h) Bool.false_ne_true
  | some declared =>
    have hsome : member.isDeclared = if member.isExternal then !member.isReplaced
        else !(member.replacement.getD declared).isAbstract := by
      rw [Member.isDeclared, hmethod, Option.any_some]
    rw [hsome] at hkind ⊢
    dsimp only
    split
    · rename_i hexternal
      rw [if_pos hexternal] at hkind
      split
      · rename_i hkept
        exact (goes_emit (hkind hkept _ rfl)).mono (fun _ _ _ => id)
          fun _ _ _ hmem _ => ⟨_, hmem, rfl⟩
      · rename_i hreplaced
        exact goes_pure fun h => absurd h hreplaced
    rename_i hown
    rw [if_neg hown] at hkind
    split
    · rename_i hbody
      refine goes_consult fun translator => ?_
      exact (goes_declareMethod _ (hkind hbody)).mono (fun _ _ _ => id) fun _ _ _ h _ => h
    · rename_i habstract
      exact goes_pure fun h => absurd h habstract

/-- A method that is no static constructor fills its type. -/
theorem goes_translatePlainMethod (hmember : member ∈ model.methods)
    (hplain : TypeModel.isStaticConstructor member = false) :
    Goes (fun _ => Declaration.Fills model)
      (translateMethod model model.definition.location.path [] member) (fun _ _ => True) start :=
  (goes_translateMethod [] fun _ _ hplace =>
    fills_of_not_isStaticConstructor (TypeModel.mem_methods_iff.1 hmember).2 hplain hplace).mono
      (fun _ _ _ => id) fun _ _ _ _ => trivial

/-- The static constructor of a type is declared if the model says so. -/
theorem goes_translateStaticConstructor (hfull : model.kind.isDeclaredInFull = false) :
    Goes (fun _ => Declaration.Fills model)
      (translateStaticConstructor model model.definition.location.path)
      (fun _ later => model.declaresConstructor = true →
        ∃ declaration ∈ later.output, declaration.Constructs model.definition) start := by
  rw [translateStaticConstructor]
  cases hfound : model.staticConstructorMember? with
  | none =>
    have hnone : ¬model.declaresConstructor = true := by
      intro h
      obtain ⟨member, hmember, -⟩ := place_of_declaresConstructor h
      rw [hfound] at hmember
      cases hmember
    split
    · exact goes_pure fun h => absurd h hnone
    · exact goes_throw _
  | some member =>
    have hsome : ¬model.staticConstructor?.isNone = true := by
      obtain ⟨static, hstatic, -⟩ := Option.bind_eq_some_iff.1 hfound
      rw [hstatic]
      exact Bool.false_ne_true
    rw [if_neg hsome]
    dsimp only
    cases hignored : member.isIgnored with
    | true =>
      refine goes_pure fun h => ?_
      obtain ⟨other, hother, hkept, -⟩ := place_of_declaresConstructor h
      obtain rfl := Option.some.inj (hfound.symm.trans hother)
      rw [hignored] at hkept
      cases hkept
    | false =>
      refine (goes_translateMethod _ fun hdeclared _ hplace =>
        fills_of_staticConstructorMember? hfull hfound hignored hdeclared hplace).mono
          (fun _ _ _ => id) fun _ later _ hdone h => ?_
      obtain ⟨other, hother, -, hdeclared, hplace⟩ := place_of_declaresConstructor h
      obtain rfl := Option.some.inj (hfound.symm.trans hother)
      obtain ⟨declaration, hmem, hdeclaration⟩ := hdone hdeclared
      exact ⟨declaration, hmem, hdeclaration.trans (congrArg some hplace)⟩

theorem IsSilent.goes_fills {α : Type} {step : Run α} (h : step.IsSilent) :
    Goes (fun _ => Declaration.Fills model) step (fun _ _ => True) start :=
  (h start).mono (fun _ _ _ hsilent => hsilent.fills model) fun _ _ _ => id

theorem isSilent_of_mem_details {store : Store} {path : String} {declaration : Declaration}
    (h : declaration ∈ Comparison.Kept.details store path model) : declaration.IsSilent := by
  have hdetail := (isDetail_and_path?_of_mem_tail h).1
  cases declaration with
  | property | implementedInterfaces | constant | initializer | structFields => exact ⟨rfl, rfl⟩
  | _ => cases hdetail

/-- The members of a model include its static constructor where it declares one. -/
theorem goes_translateMembers (hfull : model.kind.isDeclaredInFull = false) :
    Goes (fun _ => Declaration.Fills model) (translateMembers model)
      (fun _ later => model.declaresConstructor = true →
        ∃ declaration ∈ later.output, declaration.Constructs model.definition) start := by
  have hlasting : Lasting fun _ => Declaration.Fills model := lasting_const _
  rw [translateMembers]
  refine (goes_forIn hlasting fun member hmember later => ?_).bind hlasting fun _ _ _ _ => ?_
  · split
    · rename_i hplain
      rw [Bool.and_eq_true, Bool.not_eq_true', Bool.not_eq_true'] at hplain
      exact (goes_translatePlainMethod hmember hplain.2).bind hlasting fun _ _ _ _ =>
        goes_pure trivial
    · exact goes_pure trivial
  refine (goes_forIn hlasting fun group _ later => ?_).bind hlasting fun _ _ _ _ => ?_
  · exact (isSilent_translateGroup _ _ group).goes_fills.bind hlasting fun _ _ _ _ =>
      goes_pure trivial
  refine goes_consult fun translator => ?_
  have hdetails : (emitAll (Comparison.Kept.details translator.store
      model.definition.location.path model)).IsSilent :=
    isSilent_forM fun declaration hmem => isSilent_emit (isSilent_of_mem_details hmem)
  exact hdetails.goes_fills.bind hlasting fun _ _ _ _ => goes_translateStaticConstructor hfull

/-- What a run does for a model on the second walk. -/
theorem goes_translateType (model : TypeModel) (start : Session) :
    Goes (fun _ => Declaration.Fills model) (translateType model)
      (fun _ later => model.declaresConstructor = true →
        ∃ declaration ∈ later.output, declaration.Constructs model.definition) start := by
  rw [translateType]
  cases hfull : model.kind.isDeclaredInFull with
  | true =>
    refine goes_pure fun h => ?_
    rw [TypeModel.declaresConstructor, hfull] at h
    cases h
  | false => exact goes_translateMembers hfull

/-- What a run does for a model on the third walk. -/
theorem goes_sealType (model : TypeModel) (start : Session) :
    Goes (fun _ declaration => declaration = .sealed model.definition.location ∧
        model.needsSeal = true) (sealType model)
      (fun _ later => model.needsSeal = true →
        .sealed model.definition.location ∈ later.output) start := by
  rw [sealType]
  cases hneeds : model.needsSeal with
  | true => exact (goes_emit ⟨rfl, rfl⟩).mono (fun _ _ _ => id) fun _ _ _ hmem _ => hmem
  | false => exact goes_pure fun h => absurd h Bool.false_ne_true

end

end Run

/-! ## Accounts -/

/-- A model that is known declares the static constructor of the type. -/
def DeclaresFor (cache : Cache) (definition : TypeDef) : Prop :=
  ∃ id model, cache.model? id = some model ∧ model.definition.location = definition.location ∧
    model.declaresConstructor = true

/-- A type is sealed as a model that is known asks for it.  If the model declares the
static constructor as well, that is among what has been put out. -/
def SealsAt (cache : Cache) (told : List Declaration) (location : Location) : Prop :=
  ∃ id model, cache.model? id = some model ∧ model.definition.location = location ∧
    model.needsSeal = true ∧
    (model.declaresConstructor = true →
      ∃ declaration ∈ told, declaration.Constructs model.definition)

/-- A model that declares the static constructor of the type is entered from one of
some definitions. -/
def EntersFor (cache : Cache) (tops : List TypeDef) (definition : TypeDef) : Prop :=
  ∃ top ∈ tops, ∃ model, cache.Enters top model ∧
    model.definition.location = definition.location ∧ model.declaresConstructor = true

/-- What has been put out, seals and static constructors, is accounted for by the models
that are known. -/
structure Session.Accounted (session : Session) : Prop where
  keyed : session.cache.Keyed
  seals : ∀ (position : Nat) (location : Location),
    session.output[position]? = some (.sealed location) →
      SealsAt session.cache (session.output.take position) location
  declares : ∀ declaration ∈ session.output, ∀ definition, declaration.Constructs definition →
    DeclaresFor session.cache definition

/-- Every type whose static constructor has been declared is sealed, or it can still be
entered from one of some definitions. -/
def Session.Pending (tops : List TypeDef) (session : Session) : Prop :=
  ∀ declaration ∈ session.output, ∀ definition, declaration.Constructs definition →
    .sealed definition.location ∈ session.output ∨ EntersFor session.cache tops definition

section

variable {cache later : Cache} {told more : List Declaration} {tops : List TypeDef}
  {definition : TypeDef} {start last : Session}

theorem DeclaresFor.mono (hextends : later.Extends cache) (h : DeclaresFor cache definition) :
    DeclaresFor later definition := by
  obtain ⟨id, model, hmodel, hdeclares⟩ := h
  exact ⟨id, model, hextends.model?_eq hmodel, hdeclares⟩

theorem SealsAt.mono {location : Location} (hextends : later.Extends cache)
    (hsubset : told ⊆ more) (h : SealsAt cache told location) : SealsAt later more location := by
  obtain ⟨id, model, hmodel, hlocation, hneeds, hdeclared⟩ := h
  refine ⟨id, model, hextends.model?_eq hmodel, hlocation, hneeds, fun hdeclares => ?_⟩
  obtain ⟨declaration, hmem, hconstructs⟩ := hdeclared hdeclares
  exact ⟨declaration, hsubset hmem, hconstructs⟩

theorem EntersFor.mono (hextends : later.Extends cache)
    (h : EntersFor cache tops definition) : EntersFor later tops definition := by
  obtain ⟨top, htop, model, henters, hdeclares⟩ := h
  exact ⟨top, htop, model, henters.mono hextends, hdeclares⟩

theorem EntersFor.declares (h : EntersFor cache tops definition) :
    DeclaresFor cache definition := by
  obtain ⟨top, -, model, henters, hdeclares⟩ := h
  obtain ⟨id, hmodel⟩ := henters.exists_model?
  exact ⟨id, model, hmodel, hdeclares⟩

/-- What is put out after some declarations is accounted for. -/
structure Accountable (told : List Declaration) (cache : Cache) (declaration : Declaration) :
    Prop where
  seals : ∀ location, declaration = .sealed location → SealsAt cache told location
  declares : ∀ definition, declaration.Constructs definition → DeclaresFor cache definition

/-- A session stays accounted for when all it gains is accountable. -/
theorem Session.Accounted.gains (h : start.Accounted)
    (hgains : start.Gains (Accountable start.output) last) : last.Accounted := by
  obtain ⟨added, houtput, hadded⟩ := hgains.output
  refine ⟨hgains.keyed h.keyed, fun position location hposition => ?_, ?_⟩
  · rw [houtput] at hposition ⊢
    by_cases hold : position < start.output.length
    · rw [List.getElem?_append_left hold] at hposition
      rw [List.take_append_of_le_length (Nat.le_of_lt hold)]
      exact (h.seals position location hposition).mono hgains.learns (List.Subset.refl _)
    · rw [Nat.not_lt] at hold
      rw [List.getElem?_append_right hold] at hposition
      have hseals := (hadded _ (List.mem_of_getElem? hposition)).seals location rfl
      refine hseals.mono (.refl _) ?_
      rw [List.take_append, List.take_of_length_le hold]
      exact List.subset_append_left _ _
  · rw [houtput, List.forall_mem_append]
    exact ⟨fun declaration hmem definition hconstructs =>
        (h.declares declaration hmem definition hconstructs).mono hgains.learns,
      fun declaration hmem => (hadded declaration hmem).declares⟩

/-- Static constructors that are declared for models that can be entered may be pending. -/
theorem Session.Pending.gains {kind : Cache → Declaration → Prop} (h : start.Pending tops)
    (hgains : start.Gains kind last)
    (hkind : ∀ cache declaration, kind cache declaration → ∀ definition,
      declaration.Constructs definition → EntersFor cache tops definition) :
    last.Pending tops := by
  intro declaration hmem definition hconstructs
  obtain ⟨added, houtput, hadded⟩ := hgains.output
  rw [houtput, List.mem_append] at hmem
  rcases hmem with hold | hnew
  · exact (h declaration hold definition hconstructs).imp (fun hsealed => hgains.subset hsealed)
      fun henters => henters.mono hgains.learns
  · exact .inr (hkind _ declaration (hadded declaration hnew) definition hconstructs)

end

/-- A step leaves everything accounted for wherever it is stopped, and ends as described. -/
def Run.Upholds {α : Type} (step : Run α) (after : α → Session → Prop) (start : Session) : Prop :=
  (step.run.run start).2.Accounted ∧
    ∀ value, (step.run.run start).1 = .ok value → after value (step.run.run start).2

namespace Run

section

variable {α β : Type} {start : Session}

theorem upholds_pure {value : α} {after : α → Session → Prop} (hstart : start.Accounted)
    (h : after value start) : (pure value : Run α).Upholds after start :=
  ⟨hstart, fun _ heq => Except.ok.inj heq ▸ h⟩

theorem Upholds.bind {step : Run α} {next : α → Run β} {middle : α → Session → Prop}
    {after : β → Session → Prop} (h : step.Upholds middle start)
    (hnext : ∀ value later, later.Accounted → middle value later →
      (next value).Upholds after later) : (step >>= next).Upholds after start := by
  obtain ⟨haccounted, hmiddle⟩ := h
  rw [Upholds, Comparison.run_bind]
  cases hresult : (step.run.run start).1 with
  | error error =>
    refine ⟨haccounted, fun value heq => ?_⟩
    cases heq
  | ok value => exact hnext value _ haccounted (hmiddle value hresult)

theorem Goes.upholds {kind : Cache → Declaration → Prop} {step : Run α}
    {middle : α → Session → Prop} {after : α → Session → Prop} (h : Goes kind step middle start)
    (hstart : start.Accounted)
    (hkind : ∀ cache : Cache, cache.Extends start.cache → ∀ declaration, kind cache declaration →
      Accountable start.output cache declaration)
    (hafter : ∀ value later, start.Gains kind later → middle value later → after value later) :
    step.Upholds after start :=
  ⟨hstart.gains (h.1.mono hkind), fun value heq => hafter value _ h.1 (h.2 value heq)⟩

end

/-- The first walk declares no static constructor. -/
theorem upholds_declareAll {start : Session} {types tops : List TypeDef}
    (hstart : start.Accounted) (hpending : start.Pending tops) :
    (types.forM declareType : Run PUnit).Upholds (fun _ later => later.Pending tops) start := by
  have hsilent : (types.forM declareType : Run PUnit).IsSilent :=
    isSilent_forM fun definition _ => isSilent_declareType definition
  refine (hsilent start).upholds hstart (fun cache _ declaration h => ⟨?_, ?_⟩)
    fun _ later hgains _ => hpending.gains hgains
      fun cache declaration h definition hconstructs => ?_
  · rintro location rfl
    cases h.1
  · intro definition hconstructs
    cases h.2.symm.trans hconstructs
  · cases h.2.symm.trans hconstructs

/-- The second walk declares static constructors for models that it enters. -/
theorem upholds_translateAll {start : Session} {tops : List TypeDef} (hstart : start.Accounted)
    (hpending : start.Pending tops) :
    (walkAll translateType (fun _ => pure ()) tops).Upholds
      (fun _ later => later.Pending tops ∧ ∀ top ∈ tops, later.Visited (fun model output =>
        (model.declaresConstructor = true →
          ∃ declaration ∈ output, declaration.Constructs model.definition) ∧ True) top) start := by
  have hdone : Growing fun model output => model.declaresConstructor = true →
      ∃ declaration ∈ output, declaration.Constructs model.definition := by
    intro model output more hsubset h hdeclares
    obtain ⟨declaration, hmem, hconstructs⟩ := h hdeclares
    exact ⟨declaration, hsubset hmem, hconstructs⟩
  have henters : ∀ cache declaration,
      (∃ top ∈ tops, Entering (fun model declaration => Declaration.Fills model declaration) top
        cache declaration) → declaration.sealed? = none ∧
      ∀ definition, declaration.Constructs definition → EntersFor cache tops definition := by
    rintro cache declaration ⟨top, htop, model, henters, hfills⟩
    refine ⟨hfills.not_sealed, fun definition hconstructs => ?_⟩
    obtain ⟨hlocation, hdeclares⟩ := hfills.constructs definition hconstructs
    exact ⟨top, htop, model, henters, hlocation.symm, hdeclares⟩
  refine (goes_walkAll hdone (fun _ _ _ _ _ => trivial) goes_translateType
    (fun _ _ => goes_pure trivial) tops start).upholds hstart ?_ ?_
  · intro cache _ declaration h
    obtain ⟨hsealed, hconstructs⟩ := henters cache declaration h
    refine ⟨?_, fun definition h => (hconstructs definition h).declares⟩
    rintro location rfl
    cases hsealed
  · intro _ later hgains hvisited
    exact ⟨hpending.gains hgains fun cache declaration h => (henters cache declaration h).2,
      hvisited⟩

/-- The third walk seals the types whose static constructors have been declared. -/
theorem upholds_sealAll {start : Session} {tops : List TypeDef} (hstart : start.Accounted)
    (hpending : start.Pending tops)
    (hvisited : ∀ top ∈ tops, start.Visited (fun model output =>
      (model.declaresConstructor = true →
        ∃ declaration ∈ output, declaration.Constructs model.definition) ∧ True) top) :
    (walkAll (fun _ => pure ()) sealType tops).Upholds (fun _ later => later.Pending []) start := by
  have hdone : Growing fun model output => model.needsSeal = true →
      .sealed model.definition.location ∈ output :=
    fun _ _ _ hsubset h hneeds => hsubset (h hneeds)
  refine (goes_walkAll (fun _ _ _ _ _ => trivial) hdone (fun _ _ => goes_pure trivial)
    goes_sealType tops start).upholds hstart ?_ ?_
  · rintro cache hextends declaration ⟨top, htop, model, henters, rfl, hneeds⟩
    refine ⟨?_, fun definition hconstructs => ?_⟩
    · rintro location hsame
      obtain rfl := Declaration.sealed.inj hsame
      obtain ⟨id, hmodel⟩ := henters.exists_model?
      exact ⟨id, model, hmodel, rfl, hneeds, (hvisited top htop cache hextends model henters).1⟩
    · cases hconstructs
  · intro _ later hgains hsealed declaration hmem definition hconstructs
    have hlater : later.Pending tops := by
      refine hpending.gains hgains ?_
      rintro cache declaration ⟨top, -, model, -, rfl, -⟩ definition hconstructs
      cases hconstructs
    rcases hlater declaration hmem definition hconstructs with h | h
    · exact .inl h
    · obtain ⟨top, htop, model, henters, hlocation, hdeclares⟩ := h
      have hseal := (hsealed top htop later.cache (.refl _) model henters).2
        (TypeModel.needsSeal_of_declaresConstructor hdeclares)
      exact .inl (hlocation ▸ hseal)

/-- An assembly keeps the account and leaves no seal pending. -/
theorem upholds_translateAssembly {start : Session} (hstart : start.Accounted)
    (hpending : start.Pending []) (assembly : AssemblyDef) :
    (translateAssembly assembly).Upholds (fun _ later => later.Pending []) start := by
  rw [translateAssembly, Upholds, Stage.run_translator_bind, ← Upholds]
  split
  · exact upholds_pure hstart hpending
  have hbegun : (update fun translator => { translator with
      begun := assembly.fullName :: translator.begun }).Upholds
      (fun _ later => later.Pending (roots assembly)) start := by
    refine ⟨⟨hstart.keyed, hstart.seals, hstart.declares⟩, fun _ _ => ?_⟩
    intro declaration hmem definition hconstructs
    refine (hpending declaration hmem definition hconstructs).imp_right fun h => ?_
    obtain ⟨top, htop, -⟩ := h
    exact absurd htop List.not_mem_nil
  refine hbegun.bind fun _ begun hbegun hpending => ?_
  refine (upholds_declareAll hbegun hpending).bind fun _ declared hdeclared hpending => ?_
  refine (upholds_translateAll hdeclared hpending).bind fun _ filled hfilled hvisited => ?_
  exact upholds_sealAll hfilled hvisited.1 hvisited.2

/-- The assemblies of a list keep the account and leave no seal pending. -/
theorem upholds_translateListed {start : Session} (hstart : start.Accounted)
    (hpending : start.Pending []) (listed : List AssemblyDef) :
    (listed.forM translateAssembly : Run PUnit).Upholds
      (fun _ later => later.Pending []) start := by
  induction listed generalizing start with
  | nil => exact upholds_pure hstart hpending
  | cons assembly rest ih =>
    exact (upholds_translateAssembly hstart hpending assembly).bind fun _ _ haccounted hpending =>
      ih haccounted hpending

end Run

/-- Where nothing is pending, every type whose static constructor is declared is sealed. -/
theorem Session.Pending.sealed {session : Session} (h : session.Pending []) {definition : TypeDef}
    (hconstructed : ∃ declaration ∈ session.output, declaration.Constructs definition) :
    .sealed definition.location ∈ session.output := by
  obtain ⟨declaration, hmem, hconstructs⟩ := hconstructed
  refine (h declaration hmem definition hconstructs).resolve_right fun henters => ?_
  obtain ⟨top, htop, -⟩ := henters
  exact absurd htop List.not_mem_nil

/-- Where nothing is pending, seals follow static constructors exactly if no type is sealed
whose static constructor is left out. -/
theorem Session.Accounted.sealsFollow_iff {session : Session} (h : session.Accounted)
    (hpending : session.Pending []) :
    SealsFollow session.output ↔ ∀ id model, session.cache.model? id = some model →
      .sealed model.definition.location ∈ session.output → model.declaresConstructor = true := by
  -- The models of one type are one model.
  have hsame : ∀ {id other : TypeId} {model found : TypeModel},
      session.cache.model? id = some model → session.cache.model? other = some found →
      found.definition.location = model.definition.location → found = model := by
    intro id other model found hmodel hfound hlocation
    have hname : found.definition.fullName = model.definition.fullName :=
      Location.ofFullName_injective hlocation
    have hid : other = id := by
      rw [← h.keyed other found hfound, ← h.keyed id model hmodel, TypeDef.typeId, TypeDef.typeId,
        hname]
    subst hid
    exact Option.some.inj (hfound.symm.trans hmodel)
  constructor
  · intro hfollow id model hmodel hsealed
    obtain ⟨declaration, hmem, hconstructs⟩ := (hfollow.sealed_iff model.definition).1 hsealed
    obtain ⟨other, found, hfound, hlocation, hdeclares⟩ :=
      h.declares declaration hmem model.definition hconstructs
    exact hsame hmodel hfound hlocation ▸ hdeclares
  · intro hdeclare
    have hbefore : ∀ (definition : TypeDef) (position : Nat),
        session.output[position]? = some (.sealed definition.location) →
        ∃ declaration ∈ session.output.take position, declaration.Constructs definition := by
      intro definition position hposition
      obtain ⟨id, model, hmodel, hlocation, -, hdeclared⟩ := h.seals position _ hposition
      have hsealed := List.mem_of_getElem? hposition
      rw [← hlocation] at hsealed
      obtain ⟨declaration, hmem, hconstructs⟩ := hdeclared (hdeclare id model hmodel hsealed)
      rw [Declaration.Constructs, hlocation] at hconstructs
      exact ⟨declaration, hmem, hconstructs⟩
    refine ⟨fun definition => ⟨fun hsealed => ?_, hpending.sealed⟩, hbefore⟩
    obtain ⟨position, hposition⟩ := List.getElem?_of_mem hsealed
    obtain ⟨declaration, hmem, hconstructs⟩ := hbefore definition position hposition
    exact ⟨declaration, List.mem_of_mem_take hmem, hconstructs⟩

namespace Translator

/-- Wherever a run is stopped, a type is only sealed as its model asks for it, and then
its static constructor has been declared before if the model declares it.  A run that
comes to its end has sealed every type whose static constructor it has declared, and its
seals follow static constructors exactly if no model by which a type is sealed leaves its
static constructor out.  All of this holds of further runs as well. -/
theorem sealsFollow_translate_iff {translator : Translator}
    (hkeyed : translator.store.cache.Keyed) (sink : Sink) (listed : List AssemblyDef) :
    let outcome := translator.translate sink listed
    let cache := outcome.translator.store.cache
    cache.Keyed ∧
    (∀ (position : Nat) (location : Location),
      outcome.output[position]? = some (.sealed location) →
        SealsAt cache (outcome.output.take position) location) ∧
    (outcome.failure = none →
      (∀ definition : TypeDef, (∃ declaration ∈ outcome.output, declaration.Constructs definition) →
        .sealed definition.location ∈ outcome.output) ∧
      (SealsFollow outcome.output ↔ ∀ id model, cache.model? id = some model →
        .sealed model.definition.location ∈ outcome.output →
          model.declaresConstructor = true)) := by
  intro outcome cache
  have hstart : ({ translator, sink } : Session).Accounted :=
    ⟨hkeyed, fun _ _ h => absurd h.symm (Option.some_ne_none _),
      fun _ hmem => absurd hmem List.not_mem_nil⟩
  have hpending : ({ translator, sink } : Session).Pending [] :=
    fun _ hmem => absurd hmem List.not_mem_nil
  obtain ⟨haccounted, hend⟩ := Run.upholds_translateListed hstart hpending listed
  refine ⟨haccounted.keyed, haccounted.seals, fun hnone => ?_⟩
  obtain ⟨value, hvalue⟩ := exists_value_of_failure_eq_none hnone
  have hcomplete := hend value hvalue
  exact ⟨fun definition => hcomplete.sealed, haccounted.sealsFollow_iff hcomplete⟩

/-- A class with a static constructor that carries some marks. -/
def markedClass (name : String) (marks : List String) : TypeBlueprint :=
  { sampleClass name none [] with
    methods :=
      [{ MethodDef.staticConstructor with attributes := marks.map fun typeName => { typeName } }] }

/-- Static constructors that are translated, supplied by the runtime and ignored. -/
def markedAssembly : AssemblyBlueprint :=
  sampleAssembly
    [markedClass "Plain" [], markedClass "Supplied" [Attribute.external],
     markedClass "Hidden" [Attribute.ignore]]

/-- Of three static constructors one is translated, one is left to the runtime and one is
ignored: the first two types are sealed, after the constructors. -/
theorem sealsFollow_translate_iff_markedAssembly :
    let translator := ofBlueprint markedAssembly
    let outcome := translator.translate .collecting [markedAssembly.build]
    translator.store.cache.Keyed ∧ outcome.failure = none ∧
      outcome.output.map Declaration.kind =
        [.namespaceObject, .classShell, .classShell, .classShell, .untranslatable, .external,
          .sealed, .sealed] ∧
      SealsFollow outcome.output := by
  intro translator outcome
  have hkeyed : translator.store.cache.Keyed := Cache.keyed_empty
  have hnone : outcome.failure = none := Option.isNone_iff_eq_none.1 (by decide +kernel)
  have hdeclares : ∀ model ∈ outcome.translator.store.cache.models,
      model.definition.location ∈ outcome.output.filterMap Declaration.sealed? →
        model.declaresConstructor = true := by
    decide +kernel
  obtain ⟨-, -, hcomplete⟩ := sealsFollow_translate_iff hkeyed .collecting [markedAssembly.build]
  refine ⟨hkeyed, hnone, by decide +kernel, (hcomplete hnone).2.2 fun id model hmodel hsealed => ?_⟩
  exact hdeclares model (Cache.mem_models_of_model? hmodel) (List.mem_filterMap.2 ⟨_, hsealed, rfl⟩)

/-- A static constructor that the runtime supplies and that is replaced. -/
def replacedAssembly : AssemblyBlueprint :=
  sampleAssembly [markedClass "Config" [Attribute.external, Attribute.replacement]]

/-- A type whose static constructor is left out is sealed all the same. -/
theorem not_sealsFollow_translate :
    ¬∀ (translator : Translator) (sink : Sink) (listed : List AssemblyDef), translator.IsFresh →
      translator.store.graph.WellFormed → translator.store.graph.DefinesOnce →
      listed ⊆ translator.store.graph.assemblies →
      (translator.translate sink listed).failure = none →
      SealsFollow (translator.translate sink listed).output := by
  intro h
  let translator := ofBlueprint replacedAssembly
  let outcome := translator.translate .collecting [replacedAssembly.build]
  have honce : translator.store.graph.DefinesOnce := List.nodup_singleton _
  have hnone : outcome.failure = none := Option.isNone_iff_eq_none.1 (by decide +kernel)
  have hfollow : SealsFollow outcome.output :=
    h translator .collecting [replacedAssembly.build] (isFresh_ofBlueprint replacedAssembly)
      (wellFormed_ofBlueprint replacedAssembly) honce (List.Subset.refl _) hnone
  let config := (markedClass "Config" []).buildDetached
  have hsealed : config.location ∈ outcome.output.filterMap Declaration.sealed? := by
    decide +kernel
  have hnever : outcome.output.filterMap Declaration.methodPlace? = [] := by
    decide +kernel
  obtain ⟨declaration, hmem, hlocation⟩ := List.mem_filterMap.1 hsealed
  have hseal : .sealed config.location ∈ outcome.output := by
    cases declaration with
    | sealed => exact Option.some.inj hlocation ▸ hmem
    | _ => cases hlocation
  obtain ⟨constructor, hconstructor, hplace⟩ := (hfollow.sealed_iff config).1 hseal
  have hplaced := List.mem_filterMap.2 ⟨constructor, hconstructor, hplace⟩
  rw [hnever] at hplaced
  exact absurd hplaced List.not_mem_nil

end Translator

end Script

end Assemblage
