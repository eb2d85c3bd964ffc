import Assemblage.Proofs.Lowering.Closed
import Assemblage.Proofs.Script.Contract

/-!
# Contracts inside types

Declaring what is inside a type gives declarations of one kind, reports on
methods that cannot be translated, and now and then a type that a parameter
needs.  A contract that allows for these holds throughout.
-/

namespace Assemblage.Script

/-- Declarations come in three kinds: those that bring namespaces and types into
being, those of what is inside a type, and seals. -/
inductive Phase where
  | outline | members | seals
deriving DecidableEq

def Declaration.phase : Declaration → Phase
  | .namespaceObject _ | .classShell .. | .structShell .. | .staticClassShell .. | .interface ..
  | .enumeration .. => .outline
  | .sealed _ => .seals
  | _ => .members

theorem Declaration.declaredType?_of_phase {declaration : Declaration}
    (h : declaration.phase ≠ .outline) : declaration.declaredType? = none := by
  cases declaration with
  | classShell | structShell | staticClassShell | interface | enumeration => exact absurd rfl h
  | _ => rfl

/-- If the tree of a method is there, only types it should not name keep it from
being a function. -/
theorem Translator.isMethodLocal_of_function_eq_error {translator : Translator}
    (hdecompile : ∀ method error, translator.decompile method = .error error →
      error.isMethodLocal = true)
    {name : String} {declared implementation : MethodDef} {initializers : Block} {error : Error}
    (h : translator.function name declared implementation initializers = .error error) :
    error.isMethodLocal = true := by
  rw [function] at h
  cases htree : translator.decompile implementation with
  | error cause =>
    rw [htree] at h
    obtain rfl : cause = error := Except.error.inj h
    exact hdecompile implementation cause htree
  | ok tree =>
    simp only [htree, bind, Except.bind, Lowering.Pipeline.run, Lowering.Pipeline.lower_eq] at h
    cases hcheck : Lowering.IgnoredTypes.check
        { method := declared.fullName, oracle := translator.store.oracle } tree with
    | error cause =>
      obtain ⟨type, -, -, rfl⟩ := Lowering.IgnoredTypes.check_eq_error hcheck
      rw [hcheck] at h
      obtain rfl := Except.error.inj h
      rfl
    | ok checked =>
      rw [hcheck] at h
      cases h

/-- Whether a declaration says something about a type that is neither a method nor a
group of methods. -/
def Declaration.isDetail : Declaration → Bool
  | .property .. | .implementedInterfaces .. | .constant .. | .initializer ..
  | .structFields .. => true
  | _ => false

/-- The path of the type that a declaration adds something to. -/
def Declaration.path? : Declaration → Option String
  | .external owner _ | .method owner _ _ | .untranslatable owner _ _ | .overloads owner _ _
  | .property owner _ _ _ | .constant owner _ _ | .initializer owner _ _ => some owner.path
  | .implementedInterfaces path _ | .structFields path _ => some path
  | _ => none

theorem Declaration.phase_of_isDetail {declaration : Declaration}
    (h : declaration.isDetail = true) : declaration.phase = .members := by
  cases declaration with
  | property | implementedInterfaces | constant | initializer | structFields => rfl
  | _ => cases h

/-- Properties, interfaces and fields give declarations of details of their type. -/
theorem isDetail_and_path?_of_mem_tail {model : TypeModel} {path : String} {store : Store}
    {declaration : Declaration}
    (h : declaration ∈ model.properties.filterMap (propertyDeclaration? model path) ++
      interfaceDeclarations store path model.definition ++
      fieldDeclarations store.graph path model) :
    declaration.isDetail = true ∧ declaration.path? = some path := by
  rw [List.append_assoc, List.mem_append, List.mem_append] at h
  rcases h with h | h | h
  · obtain ⟨member, -, hmember⟩ := List.mem_filterMap.1 h
    rw [propertyDeclaration?] at hmember
    split at hmember
    · cases hmember
    · obtain ⟨property, -, rfl⟩ := Option.map_eq_some_iff.1 hmember
      exact ⟨rfl, rfl⟩
  · rw [interfaceDeclarations] at h
    split at h
    · cases h
    · rw [List.mem_singleton.1 h]
      exact ⟨rfl, rfl⟩
  · rw [fieldDeclarations, List.mem_append] at h
    rcases h with h | h
    · obtain ⟨member, -, hmember⟩ := List.mem_filterMap.1 h
      obtain ⟨field, -, hfield⟩ := Option.bind_eq_some_iff.1 hmember
      dsimp only at hfield
      split at hfield
      · obtain ⟨value, -, rfl⟩ := Option.map_eq_some_iff.1 hfield
        exact ⟨rfl, rfl⟩
      · split at hfield
        · cases hfield
        · obtain rfl := Option.some.inj hfield
          exact ⟨rfl, rfl⟩
    · split at h
      · cases h
      · rw [List.mem_singleton.1 h]
        exact ⟨rfl, rfl⟩

/-- Properties, interfaces and fields give declarations of what is inside a type. -/
theorem phase_of_mem_tail {model : TypeModel} {path : String} {store : Store}
    {declaration : Declaration}
    (h : declaration ∈ model.properties.filterMap (propertyDeclaration? model path) ++
      interfaceDeclarations store path model.definition ++
      fieldDeclarations store.graph path model) :
    declaration.phase = .members :=
  Declaration.phase_of_isDetail (isDetail_and_path?_of_mem_tail h).1

/-- A static constructor among the members is found there. -/
theorem TypeModel.exists_staticConstructorMember {model : TypeModel} {first : Member}
    (h : model.staticConstructor? = some first) :
    ∃ member, model.staticConstructorMember? = some member := by
  have hmem : first ∈ model.members := List.mem_of_find?_eq_some h
  rw [← Option.isSome_iff_exists, TypeModel.staticConstructorMember?, h, Option.bind_some,
    TypeModel.member?, List.find?_isSome]
  exact ⟨first, List.mem_reverse.2 hmem, beq_self_eq_true first.id⟩

theorem TypeModel.staticConstructorMember?_isSome {model : TypeModel}
    (h : model.staticConstructor?.isSome = true) :
    model.staticConstructorMember?.isSome = true := by
  obtain ⟨first, hfirst⟩ := Option.isSome_iff_exists.1 h
  exact Option.isSome_iff_exists.2 (exists_staticConstructorMember hfirst)

namespace Contract

open Stage

/-- Every act inside one of the types, and those nested in them, keeps the contract. -/
structure KeptInside (contract : Contract) (stage : Stage) (types : List TypeDef) : Prop where
  members : ∀ {view declaration}, contract.holds [] view → declaration.phase = .members →
    contract.holds [] (view.emit declaration)
  untranslated : ∀ {view method error}, contract.holds [] view →
    contract.holds [] (view.report (Run.untranslated method error))
  /-- A parameter may bring its type on record, once the types are. -/
  parameters : ∀ {view definition model group parameter}, contract.holds [] view →
    definition ∈ TypeDef.withNestedAll types → stage.Models definition model →
    model.ignored = false →
    (stage.program.graph.DefinesOnce →
      ∀ other ∈ TypeDef.withNestedAll types, stage.Settled other view) →
    group ∈ model.groups →
    parameter ∈ parameterTypes stage.program.graph model.definition group →
    contract.admits [] parameter view

variable {contract : Contract} {stage : Stage} {view : View} {types : List TypeDef}
  {definition : TypeDef} {model : TypeModel}

theorem KeptInside.ends_emit (hinside : contract.KeptInside stage types) (h : contract.Kept stage)
    (hholds : contract.holds [] view) {declaration : Declaration}
    (hphase : declaration.phase = .members) :
    stage.Ends (Run.emit declaration) (fun _ => contract.Lasts stage view) view := by
  refine (Stage.ends_emit (h.mayStop hholds)).mono ?_
  rintro - later rfl
  exact lasts_of_records (hinside.members hholds hphase) rfl rfl

theorem KeptInside.ends_translateMethod (hinside : contract.KeptInside stage types)
    (h : contract.Kept stage) (hholds : contract.holds [] view) (path : String)
    (initializers : Block) (member : Member) :
    stage.Ends (Run.translateMethod model path initializers member)
      (fun _ => contract.Lasts stage view) view := by
  rw [Run.translateMethod]
  have hkeep : contract.Lasts stage view view := lasts_of_records hholds rfl rfl
  cases member.definition.method? with
  | none => exact ends_pure hkeep
  | some declared =>
    dsimp only
    by_cases hexternal : member.isExternal = true
    · rw [if_pos hexternal]
      split
      · exact hinside.ends_emit h hholds rfl
      · exact ends_pure hkeep
    rw [if_neg hexternal]
    split
    · refine ends_consult ?_
      intro session hcarries _
      cases hfunction : session.translator.function (methodName model member) declared
          (member.replacement.getD declared) initializers with
      | ok function => exact hinside.ends_emit h hholds rfl
      | error error =>
        by_cases hlocal : error.isMethodLocal = true
        · simp only [if_pos hlocal]
          refine ends_report.bind ?_
          rintro - reported rfl
          have hreported : contract.Lasts stage view
              (view.report (Run.untranslated declared error)) :=
            lasts_of_records (hinside.untranslated hholds) rfl rfl
          exact (hinside.ends_emit h hreported.holds rfl).mono fun _ _ => hreported.trans
        · simp only [if_neg hlocal]
          refine ends_throw ((h.mayStop hholds).resolve_left fun hunfailing => hlocal ?_)
          refine Translator.isMethodLocal_of_function_eq_error ?_ hfunction
          rw [hcarries.decompile_eq]
          exact hunfailing.decompiles
    · exact ends_pure hkeep

/-- A static constructor is always found, so its absence cannot stop the run. -/
theorem KeptInside.ends_translateStaticConstructor (hinside : contract.KeptInside stage types)
    (h : contract.Kept stage) (hholds : contract.holds [] view) (path : String) :
    stage.Ends (Run.translateStaticConstructor model path) (fun _ => contract.Lasts stage view)
      view := by
  rw [Run.translateStaticConstructor]
  have hkeep : contract.Lasts stage view view := lasts_of_records hholds rfl rfl
  cases hfound : model.staticConstructor? with
  | none => exact ends_pure hkeep
  | some first =>
    obtain ⟨member, hmember⟩ := TypeModel.exists_staticConstructorMember hfound
    rw [hmember]
    dsimp only
    cases member.isIgnored with
    | true => exact ends_pure hkeep
    | false => exact hinside.ends_translateMethod h hholds path _ member

/-- The types of a group's parameters are resolved references. -/
theorem indexes_of_mem_parameterTypes {graph : Graph} {group : MethodGroup} {parameter : TypeDef}
    (h : parameter ∈ parameterTypes graph definition group) :
    graph.Indexes parameter ∧ parameter.sameModule definition = true := by
  obtain ⟨hresolved, hmodule⟩ := List.mem_filter.1 h
  obtain ⟨reference, -, hresolve⟩ := List.mem_filterMap.1 hresolved
  exact ⟨Graph.exists_index_of_resolve? hresolve, hmodule⟩

/-- The overloads of a group keep the contract, as the types of their parameters are settled. -/
theorem KeptInside.ends_translateGroup (hinside : contract.KeptInside stage types)
    (h : contract.Kept stage) (hgraph : stage.program.graph.IndexesNested)
    (hholds : contract.holds [] view) (hmem : definition ∈ TypeDef.withNestedAll types)
    (hmodel : stage.Models definition model) (hignored : model.ignored = false)
    (hsettled : stage.program.graph.DefinesOnce →
      ∀ other ∈ TypeDef.withNestedAll types, stage.Settled other view)
    (path : String) {group : MethodGroup} (hgroup : group ∈ model.groups) :
    stage.Ends (Run.translateGroup model path group) (fun _ => contract.Lasts stage view) view := by
  rw [Run.translateGroup]
  refine ends_consult ?_
  intro session hcarries _
  rw [hcarries.graph_eq]
  dsimp only
  refine (ends_forIn (contract.Lasts stage view) (lasts_of_records hholds rfl rfl) ?_).bind ?_
  · intro parameter hparameter later hlater
    refine ends_consult ?_
    intro current _ _
    split
    · have hadmits := hinside.parameters hlater.holds hmem hmodel hignored
        (fun honce other hother =>
        (hsettled honce other hother).mono hlater.advances.declared) hgroup hparameter
      refine (h.ends_declareType hgraph (indexes_of_mem_parameterTypes hparameter).1 hlater.holds
        hadmits).bind ?_
      intro _ last hlast
      exact ends_pure ⟨rfl, hlast.holds, hlater.advances.trans hlast.advances, by simp⟩
    · exact ends_pure ⟨rfl, hlater⟩
  · intro _ later hlater
    exact (hinside.ends_emit h hlater.holds rfl).mono fun _ _ => hlater.trans

/-- What is inside a type is declared when all of the types are settled. -/
theorem KeptInside.ends_translateMembers (hinside : contract.KeptInside stage types)
    (h : contract.Kept stage) (hgraph : stage.program.graph.IndexesNested)
    (hholds : contract.holds [] view) (hmem : definition ∈ TypeDef.withNestedAll types)
    (hmodel : stage.Models definition model) (hignored : model.ignored = false)
    (hsettled : stage.program.graph.DefinesOnce →
      ∀ other ∈ TypeDef.withNestedAll types, stage.Settled other view) :
    stage.Ends (Run.translateMembers model) (fun _ => contract.Lasts stage view) view := by
  rw [Run.translateMembers]
  dsimp only
  refine (ends_forIn (contract.Lasts stage view) (lasts_of_records hholds rfl rfl) ?_).bind ?_
  · intro member _ later hlater
    split
    · refine (hinside.ends_translateMethod h hlater.holds _ _ member).bind ?_
      intro _ last hlast
      exact ends_pure ⟨rfl, hlater.trans hlast⟩
    · exact ends_pure ⟨rfl, hlater⟩
  intro _ methods hmethods
  refine (ends_forIn (contract.Lasts stage view) hmethods ?_).bind ?_
  · intro group hgroup later hlater
    refine (hinside.ends_translateGroup h hgraph hlater.holds hmem hmodel hignored
      (fun honce other hother => (hsettled honce other hother).mono hlater.advances.declared)
      _ hgroup).bind ?_
    intro _ last hlast
    exact ends_pure ⟨rfl, hlater.trans hlast⟩
  intro _ groups hgroups
  refine ends_consult ?_
  intro session _ _
  refine (ends_forM (fun _ => contract.Lasts stage view) hgroups ?_).bind ?_
  · intro before declaration after later hdeclarations hlater
    have hmem := List.mem_append_right before (List.mem_cons_self (a := declaration) (l := after))
    rw [← hdeclarations] at hmem
    exact (hinside.ends_emit h hlater.holds (phase_of_mem_tail hmem)).mono fun _ _ => hlater.trans
  · intro _ later hlater
    exact (hinside.ends_translateStaticConstructor h hlater.holds _).mono fun _ _ => hlater.trans

end Contract

end Assemblage.Script
