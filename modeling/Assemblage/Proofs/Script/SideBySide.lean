import Assemblage.Proofs.Definition.Nesting
import Assemblage.Proofs.Script.Comparison
import Assemblage.Proofs.Script.Contributions

/-!
# Whole runs side by side

A comparison that every step keeps holds throughout two runs over the same
assemblies, up to the bodies in them.  Declaring types does none of the acts that
are counted; for each type that a walk comes by, every method is translated at most
once and the type is sealed at most once.
-/

namespace Assemblage.Script

/-- The types that can come up are those that come up without the bodies. -/
theorem Session.Keeps.reachable_eq {session : Session} {program : Program} {bodies : Body → Body}
    {records : Records} (h : session.Keeps program bodies records) (definition : TypeDef) :
    (Run.reachable session.translator.store (definition.mapBodies bodies)).map (·.typeId) =
      (Run.reachable { program, cache := records.cache } definition).map (·.typeId) := by
  have hmodels : session.translator.store.cache.models.map (·.definition) =
      (records.cache.models.map (·.definition)).map (·.mapBodies bodies) := by
    rw [h.cache_eq]
    simp only [Cache.models, Cache.mapBodies, List.filterMap_map, List.map_filterMap,
      Function.comp_def, Option.map_map, TypeModel.definition_mapBodies]
  rw [Run.reachable, Run.reachable, h.graph_eq, hmodels]
  simp [Graph.mapBodies, List.flatMap_map, List.map_flatMap, Function.comp_def, Store.graph]

namespace Comparison.Kept

open Contract

variable {comparison : Comparison} {known : Cache} {begun : List String} {plan : Plan}
  {definition : TypeDef} {model : TypeModel}

theorem ends_declareNamespace (h : comparison.Kept) (definition : TypeDef) :
    comparison.Ends known begun .idle
      (Run.declareNamespace (definition.mapBodies comparison.left))
      (Run.declareNamespace (definition.mapBodies comparison.right)) fun _ _ => True := by
  simp only [Run.declareNamespace, TypeDef.isNested_mapBodies, TypeDef.space_mapBodies]
  by_cases hplain : (definition.isNested || definition.space.isEmpty) = true
  · simp only [if_pos hplain]
    exact ends_pure trivial
  simp only [if_neg hplain]
  apply ends_consult
  intro records first second hfirst hsecond
  simp only [hfirst.namespaces_eq, hsecond.namespaces_eq]
  split
  · exact ends_pure trivial
  · let record (records : Records) : Records :=
      { records with namespaces := Identifier.escapePath definition.space :: records.namespaces }
    refine Ends.then (h.ends_update record ?_ (fun _ => ⟨rfl, rfl⟩)
      fun _ => ⟨rfl, rfl, rfl, rfl, rfl⟩) fun _ _ _ => h.emits rfl
    intro session program bodies records hkeeps
    exact ⟨hkeeps.program_eq, hkeeps.cache_eq, hkeeps.declared_eq,
      congrArg _ hkeeps.namespaces_eq, hkeeps.begun_eq⟩

theorem ends_markDeclared (h : comparison.Kept) (id : TypeId) :
    comparison.Ends known begun .idle (Run.markDeclared id) (Run.markDeclared id)
      fun _ _ => True := by
  refine h.ends_update (fun records => { records with declared := id :: records.declared }) ?_
    (fun _ => ⟨rfl, rfl⟩) fun _ => ⟨rfl, rfl, rfl, rfl, rfl⟩
  intro session program bodies records hkeeps
  exact ⟨hkeeps.program_eq, hkeeps.cache_eq, congrArg _ hkeeps.declared_eq,
    hkeeps.namespaces_eq, hkeeps.begun_eq⟩

theorem isPlain_typeDeclaration (model : TypeModel) : (typeDeclaration model).isPlain = true := by
  rw [typeDeclaration]
  cases model.kind <;> rfl

theorem ends_declareInFull (h : comparison.Kept) (model : TypeModel) :
    comparison.Ends known begun .idle (Run.declareInFull (model.mapBodies comparison.left))
      (Run.declareInFull (model.mapBodies comparison.right)) fun _ _ => True := by
  simp only [Run.declareInFull, TypeModel.kind_mapBodies, typeDeclaration_mapBodies,
    TypeModel.fullName_mapBodies]
  split
  · exact h.emits (isPlain_typeDeclaration model)
  · exact ends_throw _

theorem ends_declareShell (h : comparison.Kept) (model : TypeModel) :
    comparison.Ends known begun .idle (Run.declareShell (model.mapBodies comparison.left))
      (Run.declareShell (model.mapBodies comparison.right)) fun _ _ => True := by
  simp only [Run.declareShell, TypeModel.kind_mapBodies, typeDeclaration_mapBodies,
    TypeModel.fullName_mapBodies]
  split
  · exact ends_throw _
  · exact h.emits (isPlain_typeDeclaration model)

theorem ends_declareBase (h : comparison.Kept) {pending : List TypeId}
    {left right : TypeDef → Run Unit}
    (hdeclare : ∀ base, comparison.admits base →
      comparison.Ends known begun .idle (left (base.mapBodies comparison.left))
        (right (base.mapBodies comparison.right)) fun _ _ => True) :
    comparison.Ends known begun .idle
      (Run.declareBase (comparison.program.graph.mapBodies comparison.left) pending left
        (definition.mapBodies comparison.left))
      (Run.declareBase (comparison.program.graph.mapBodies comparison.right) pending right
        (definition.mapBodies comparison.right)) fun _ _ => True := by
  rw [Run.declareBase, Run.declareBase, ownBase?_mapBodies, ownBase?_mapBodies]
  cases hbase : Run.ownBase? comparison.program.graph definition with
  | none => exact ends_pure trivial
  | some base =>
    simp only [Option.map_some, TypeDef.typeId_mapBodies, baseCycle_mapBodies]
    split
    · exact h.reports (by simp [Run.baseCycle])
    · apply ends_consult
      intro records first second hfirst hsecond
      simp only [Translator.isDeclared, hfirst.declared_eq, hsecond.declared_eq]
      split
      · exact hdeclare base (h.indexed base
          (Graph.indexes_of_baseType? (Option.filter_eq_some_iff.1 hbase).1))
      · exact ends_pure trivial

/-- The declaration of a type goes the same way on both sides. -/
theorem ends_declare (h : comparison.Kept) {remaining pending : List TypeId}
    (hadmits : comparison.admits definition) :
    comparison.Ends known begun .idle
      (Run.declare (comparison.program.graph.mapBodies comparison.left) remaining pending
        (definition.mapBodies comparison.left))
      (Run.declare (comparison.program.graph.mapBodies comparison.right) remaining pending
        (definition.mapBodies comparison.right)) fun _ _ => True := by
  induction hlength : remaining.length using Nat.strongRecOn
    generalizing known remaining pending definition with
  | ind length ih =>
  subst hlength
  rw [Run.declare, Run.declare]
  apply h.ends_model hadmits
  intro later model _ hknows
  apply ends_consult
  intro records first second hfirst hsecond
  simp only [TypeModel.ignored_mapBodies, TypeDef.typeId_mapBodies, Translator.isDeclared,
    hfirst.declared_eq, hsecond.declared_eq]
  by_cases hdone : (model.ignored || records.declared.contains definition.typeId) = true
  · simp only [if_pos hdone]
    exact ends_pure trivial
  simp only [if_neg hdone]
  by_cases hreach : definition.typeId ∈ remaining
  swap
  · simp only [dif_neg hreach, TypeDef.fullName_mapBodies]
    exact ends_throw _
  simp only [dif_pos hreach]
  have hshorter := Run.length_idsWithout_lt hreach
  have hnested : ∀ outer, comparison.admits outer →
      comparison.Ends later begun .idle
        ((outer.mapBodies comparison.left).nested.forM fun nested =>
          Run.declare (comparison.program.graph.mapBodies comparison.left)
            (Run.idsWithout definition.typeId remaining) pending nested)
        ((outer.mapBodies comparison.right).nested.forM fun nested =>
          Run.declare (comparison.program.graph.mapBodies comparison.right)
            (Run.idsWithout definition.typeId remaining) pending nested) fun _ _ => True := by
    intro outer houter
    rw [TypeDef.nested_mapBodies, TypeDef.nested_mapBodies]
    exact ends_forM_idle fun inner hinner =>
      ih _ hshorter (h.nested outer houter inner hinner) rfl
  apply Ends.then (h.ends_markDeclared _)
  intro _ _ _
  apply Ends.then (h.ends_declareNamespace definition)
  intro _ _ _
  simp only [TypeModel.kind_mapBodies]
  split
  · exact Ends.then (h.ends_declareInFull model) fun _ _ _ => hnested definition hadmits
  · refine Ends.then (h.ends_declareBase fun base hbase => ih _ hshorter hbase rfl)
      fun _ _ _ => ?_
    exact Ends.then (h.ends_declareShell model) fun _ _ _ =>
      hnested model.definition hknows.admits

theorem ends_declareType (h : comparison.Kept) (hadmits : comparison.admits definition) :
    comparison.Ends known begun .idle
      (Run.declareType (definition.mapBodies comparison.left))
      (Run.declareType (definition.mapBodies comparison.right)) fun _ _ => True := by
  apply ends_consult
  intro records first second hfirst hsecond
  simp only [hfirst.graph_eq, hsecond.graph_eq, hfirst.reachable_eq, hsecond.reachable_eq]
  exact h.ends_declare hadmits

theorem ends_translateGroup (h : comparison.Kept) (path : String) (group : MethodGroup) :
    comparison.Ends known begun .idle
      (Run.translateGroup (model.mapBodies comparison.left) path
        (group.mapBodies comparison.left))
      (Run.translateGroup (model.mapBodies comparison.right) path
        (group.mapBodies comparison.right)) fun _ _ => True := by
  rw [Run.translateGroup, Run.translateGroup]
  apply ends_consult
  intro records first second hfirst hsecond
  simp only [hfirst.graph_eq, hsecond.graph_eq, TypeModel.definition_mapBodies,
    parameterTypes_mapBodies, overloadsOf_mapBodies]
  refine Ends.then (ends_forIn_idle fun parameter hparameter => ?_) fun _ _ _ => h.emits rfl
  have hindexed := (indexes_of_mem_parameterTypes hparameter).1
  apply ends_consult
  intro records first second hfirst hsecond
  simp only [Translator.isDeclared, hfirst.declared_eq, hsecond.declared_eq,
    TypeDef.typeId_mapBodies]
  split
  · exact Ends.then (h.ends_declareType (h.indexed parameter hindexed)) fun _ _ _ =>
      ends_pure ⟨rfl, rfl⟩
  · exact ends_pure ⟨rfl, rfl⟩

theorem ends_translateStaticConstructor (h : comparison.Kept) {id : TypeId}
    (hknows : comparison.Knows known id model) :
    comparison.Ends known begun (.once (.constructor id))
      (Run.translateStaticConstructor (model.mapBodies comparison.left)
        model.definition.location.path)
      (Run.translateStaticConstructor (model.mapBodies comparison.right)
        model.definition.location.path) fun _ _ => True := by
  simp only [Run.translateStaticConstructor, TypeModel.staticConstructor?_mapBodies,
    TypeModel.staticConstructorMember?_mapBodies, Option.isNone_map, fieldInitializers_mapBodies,
    TypeModel.fullName_mapBodies]
  split
  · exact ends_pure trivial
  cases hmember : model.staticConstructorMember? with
  | none => exact ends_throw _
  | some member =>
    refine ends_ite (by simp) (fun _ => h.translates (.constructor id) hknows ?_)
      fun _ => ends_pure trivial
    rw [Act.translated?, hmember]
    rfl

theorem isPlain_of_isDetail {declaration : Declaration} (h : declaration.isDetail = true) :
    declaration.isPlain = true := by
  cases declaration with
  | method | untranslatable | sealed => cases h
  | _ => rfl

theorem ends_emitAll (h : comparison.Kept) {declarations : List Declaration}
    (hplain : ∀ declaration ∈ declarations, declaration.isPlain = true) :
    comparison.Ends known begun .idle (Run.emitAll declarations) (Run.emitAll declarations)
      fun _ _ => True := by
  have hloop : comparison.Ends known begun .idle ((declarations.map id).forM Run.emit)
      ((declarations.map id).forM Run.emit) fun _ _ => True :=
    ends_forM_idle fun declaration hmem => h.emits (hplain declaration hmem)
  rw [List.map_id] at hloop
  exact hloop

/-- The methods of a type come one after the other, each at its own position. -/
theorem total_zipIdx_le (id : TypeId) (members : List Member) (start : Nat) (act : Act) :
    Plan.total (members.zipIdx start) (fun item => .once (.method id item.2)) act ≤
      match act with
      | .method type position => if type = id ∧ start ≤ position then 1 else 0
      | .constructor _ | .sealing _ => 0 := by
  induction members generalizing start with
  | nil => exact Nat.zero_le _
  | cons member rest ih =>
    rw [List.zipIdx_cons, Plan.total_cons]
    have hrest := ih (start + 1)
    cases act with
    | constructor | sealing => simpa [Plan.once] using hrest
    | method type position =>
      simp only [Plan.once, Act.method.injEq] at hrest ⊢
      by_cases htype : type = id
      · simp only [htype, true_and] at hrest ⊢
        split at hrest <;> split <;> split <;> omega
      · simpa [htype] using hrest

/-- The methods and then the static constructor. -/
theorem total_members_le (id : TypeId) (members : List Member) (act : Act) :
    Plan.total members.zipIdx (fun item => .once (.method id item.2)) act +
      Plan.once (.constructor id) act ≤ Plan.members id act := by
  have hmethods := total_zipIdx_le id members 0 act
  cases act with
  | method | sealing => simpa [Plan.once, Plan.members] using hmethods
  | constructor type =>
    rw [Nat.le_zero.1 hmethods, Nat.zero_add]
    simp [Plan.once, Plan.members]

/-- What follows the methods of a type and their groups. -/
def details (store : Store) (path : String) (model : TypeModel) : List Declaration :=
  model.properties.filterMap (propertyDeclaration? model path) ++
    interfaceDeclarations store path model.definition ++ fieldDeclarations store.graph path model

theorem details_mapBodies {session : Session} {program : Program} {bodies : Body → Body}
    {records : Records} (h : session.Keeps program bodies records) (path : String)
    (model : TypeModel) :
    details session.translator.store path (model.mapBodies bodies) =
      details { program, cache := records.cache } path model := by
  have hinterfaces := interfaceDeclarations_mapBodies { program, cache := records.cache } path
    model.definition h.program_eq h.cache_eq
  simp only [details, TypeModel.definition_mapBodies, hinterfaces, h.graph_eq,
    fieldDeclarations_mapBodies, TypeModel.properties_mapBodies, List.filterMap_map,
    Function.comp_def, propertyDeclaration?_mapBodies]
  rfl

theorem ends_translateMembers (h : comparison.Kept) {id : TypeId}
    (hknows : comparison.Knows known id model) :
    comparison.Ends known begun (.members id)
      (Run.translateMembers (model.mapBodies comparison.left))
      (Run.translateMembers (model.mapBodies comparison.right)) fun _ _ => True := by
  have hmethods : ∀ bodies : Body → Body, (model.mapBodies bodies).methods =
      model.methods.zipIdx.map fun item => item.1.mapBodies bodies := by
    intro bodies
    rw [TypeModel.methods_mapBodies]
    conv => lhs; rw [← List.zipIdx_map_fst 0 model.methods]
    rw [List.map_map]
    rfl
  rw [Run.translateMembers, Run.translateMembers]
  simp only [TypeModel.definition_mapBodies, TypeDef.location_mapBodies, hmethods,
    TypeModel.groups_mapBodies]
  refine Ends.mono (Ends.bind (ends_forIn fun item hitem => ?_) fun _ _ _ => ?_)
    (total_members_le id model.methods) fun _ _ h => h
  · refine ends_ite (by simp) (fun hplain => ?_) fun _ => ends_pure ⟨rfl, rfl⟩
    refine Ends.then_idle (h.translates (.method id item.2) hknows ?_) fun _ _ _ =>
      ends_pure ⟨rfl, rfl⟩
    rw [Bool.and_eq_true, TypeModel.isStaticConstructor_mapBodies] at hplain
    rw [Act.translated?, List.mk_mem_zipIdx_iff_getElem?.1 hitem, Option.filter_some,
      if_pos hplain.2]
    rfl
  · refine Ends.then (ends_forIn_idle fun group _ => ?_) fun _ _ _ => ?_
    · exact Ends.then (h.ends_translateGroup _ group) fun _ _ _ => ends_pure ⟨rfl, rfl⟩
    apply ends_consult
    intro records first second hfirst hsecond
    have hleft := details_mapBodies hfirst model.definition.location.path model
    have hright := details_mapBodies hsecond model.definition.location.path model
    rw [details, TypeModel.definition_mapBodies] at hleft hright
    simp only [hleft, hright]
    refine Ends.then (h.ends_emitAll fun declaration hdeclaration => ?_) fun _ _ _ =>
      h.ends_translateStaticConstructor hknows
    exact isPlain_of_isDetail (isDetail_and_path?_of_mem_tail hdeclaration).1

/-! ## Walks -/

theorem ends_translateType (h : comparison.Kept) {id : TypeId}
    (hknows : comparison.Knows known id model) :
    comparison.Ends known begun (.members id)
      (Run.translateType (model.mapBodies comparison.left))
      (Run.translateType (model.mapBodies comparison.right)) fun _ _ => True := by
  rw [Run.translateType, Run.translateType]
  exact ends_ite (by simp) (fun _ => h.ends_translateMembers hknows) fun _ => ends_pure trivial

theorem ends_sealType (h : comparison.Kept) {id : TypeId}
    (hknows : comparison.Knows known id model) :
    comparison.Ends known begun (.once (.sealing id))
      (Run.sealType (model.mapBodies comparison.left))
      (Run.sealType (model.mapBodies comparison.right)) fun _ _ => True := by
  rw [Run.sealType, Run.sealType]
  refine ends_ite (by simp) (fun _ => ?_) fun _ => ends_pure trivial
  simp only [TypeModel.definition_mapBodies, TypeDef.location_mapBodies]
  exact h.seals hknows

/-- A walk does for each type what is done for its model. -/
theorem ends_walk (h : comparison.Kept) {enter leave : TypeModel → Run Unit}
    {first last : TypeId → Plan} (hadmits : comparison.admits definition)
    (henter : ∀ later id model, later.Extends known → comparison.Knows later id model →
      comparison.Ends later begun (first id) (enter (model.mapBodies comparison.left))
        (enter (model.mapBodies comparison.right)) fun _ _ => True)
    (hleave : ∀ later id model, later.Extends known → comparison.Knows later id model →
      comparison.Ends later begun (last id) (leave (model.mapBodies comparison.left))
        (leave (model.mapBodies comparison.right)) fun _ _ => True) :
    comparison.Ends known begun
      (Plan.total definition.withNested fun inside act =>
        first inside.typeId act + last inside.typeId act)
      (Run.walk enter leave (definition.mapBodies comparison.left))
      (Run.walk enter leave (definition.mapBodies comparison.right)) fun _ _ => True := by
  induction definition using TypeDef.induction_nested generalizing known with
  | step definition ih =>
  rw [Run.walk_eq, Run.walk_eq]
  apply h.ends_model hadmits
  intro later model hextends hknows
  apply ends_ite (by simp) (fun _ => ends_pure trivial)
  intro _
  simp only [TypeDef.nested_mapBodies]
  have hnested : ∀ inner ∈ definition.nested, _ := fun inner hinner =>
    ih inner hinner (h.nested definition hadmits inner hinner)
      (fun final id found hfinal => henter final id found (hextends.trans hfinal))
      (fun final id found hfinal => hleave final id found (hextends.trans hfinal))
  refine Ends.mono (Ends.bind (henter later _ model hextends hknows) fun _ _ _ =>
    Ends.bind (ends_forM hnested) fun _ _ _ => hleave later _ model hextends hknows)
    (fun act => ?_) fun _ _ h => h
  rw [TypeDef.withNested_eq_cons, Plan.total_cons, Plan.total_flatMap]
  omega

theorem ends_walkAll (h : comparison.Kept) {enter leave : TypeModel → Run Unit}
    (first last : TypeId → Plan) {types : List TypeDef}
    (hadmits : ∀ top ∈ types, comparison.admits top)
    (henter : ∀ later id model, later.Extends known → comparison.Knows later id model →
      comparison.Ends later begun (first id) (enter (model.mapBodies comparison.left))
        (enter (model.mapBodies comparison.right)) fun _ _ => True)
    (hleave : ∀ later id model, later.Extends known → comparison.Knows later id model →
      comparison.Ends later begun (last id) (leave (model.mapBodies comparison.left))
        (leave (model.mapBodies comparison.right)) fun _ _ => True) :
    comparison.Ends known begun
      (Plan.total (TypeDef.withNestedAll types) fun inside act =>
        first inside.typeId act + last inside.typeId act)
      (Run.walkAll enter leave (types.map (·.mapBodies comparison.left)))
      (Run.walkAll enter leave (types.map (·.mapBodies comparison.right))) fun _ _ => True := by
  rw [Run.walkAll_eq_forM, Run.walkAll_eq_forM, TypeDef.withNestedAll_eq_flatMap,
    Plan.total_flatMap]
  exact ends_forM fun top htop => h.ends_walk (hadmits top htop) henter hleave

/-- One turn of a type: its methods are translated and it is sealed. -/
theorem total_turn (types : List TypeDef) (act : Act) :
    Plan.total types (fun inside act => Plan.members inside.typeId act + Plan.idle act) act +
      Plan.total types (fun inside act =>
        Plan.idle act + Plan.once (.sealing inside.typeId) act) act =
      Plan.turns (types.map (·.typeId)) act := by
  induction types with
  | nil => rfl
  | cons definition rest ih =>
    have hone : Plan.members definition.typeId act + Plan.once (.sealing definition.typeId) act =
        if definition.typeId == act.type then 1 else 0 := by
      cases act <;> simp [Plan.members, Plan.once, Act.type, eq_comm (a := definition.typeId)]
    rw [Plan.total_cons, Plan.total_cons, List.map_cons, Plan.turns, List.count_cons, ← hone,
      ← Plan.turns, ← ih]
    simp only [Plan.idle]
    omega

/-- The walks over an assembly that is translated. -/
theorem ends_walks (h : comparison.Kept) {assembly : AssemblyDef}
    (hadmits : ∀ top ∈ Run.roots assembly, comparison.admits top) :
    comparison.Ends known begun
      (.turns ((TypeDef.withNestedAll (Run.roots assembly)).map (·.typeId)))
      (do
        (Run.roots (assembly.mapBodies comparison.left)).forM Run.declareType
        Run.walkAll Run.translateType (fun _ => pure ())
          (Run.roots (assembly.mapBodies comparison.left))
        Run.walkAll (fun _ => pure ()) Run.sealType
          (Run.roots (assembly.mapBodies comparison.left)))
      (do
        (Run.roots (assembly.mapBodies comparison.right)).forM Run.declareType
        Run.walkAll Run.translateType (fun _ => pure ())
          (Run.roots (assembly.mapBodies comparison.right))
        Run.walkAll (fun _ => pure ()) Run.sealType
          (Run.roots (assembly.mapBodies comparison.right))) fun _ _ => True := by
  simp only [roots_mapBodies]
  refine Ends.then (ends_forM_idle fun top htop => h.ends_declareType (hadmits top htop))
    fun _ _ _ => ?_
  refine Ends.mono (Ends.bind
    (h.ends_walkAll .members (fun _ => .idle) hadmits ?_ ?_) fun _ _ _ =>
    h.ends_walkAll (fun _ => .idle) (fun id => .once (.sealing id)) hadmits ?_ ?_)
    (fun act => Nat.le_of_eq (total_turn _ act)) fun _ _ h => h
  · exact fun _ _ _ _ hknows => h.ends_translateType hknows
  · exact fun _ _ _ _ _ => ends_pure trivial
  · exact fun _ _ _ _ _ => ends_pure trivial
  · exact fun _ _ _ _ hknows => h.ends_sealType hknows

/-- An assembly is translated in its first turn; after that it is on record. -/
theorem comes_translateAssembly (h : comparison.Kept) {assembly : AssemblyDef}
    (hadmits : ∀ top ∈ Run.roots assembly, comparison.admits top) {acts : List Act}
    {records : Records} {first second : Session}
    (hjoins : comparison.Joins acts records first second) :
    let known := records.begun.contains assembly.fullName
    comparison.Comes acts records.cache
      (if known then records.begun else assembly.fullName :: records.begun)
      (if known then .idle
        else .turns ((TypeDef.withNestedAll (Run.roots assembly)).map (·.typeId)))
      (fun _ _ => True)
      ((Run.translateAssembly (assembly.mapBodies comparison.left)).run.run first)
      ((Run.translateAssembly (assembly.mapBodies comparison.right)).run.run second) := by
  intro known
  rw [Run.translateAssembly, Run.translateAssembly, Stage.run_translator_bind,
    Stage.run_translator_bind]
  simp only [hjoins.left.begun_eq, hjoins.right.begun_eq, AssemblyDef.fullName_mapBodies]
  by_cases hknown : records.begun.contains assembly.fullName = true
  · simp only [known, if_pos hknown]
    exact ends_pure trivial acts records first second hjoins (.refl _) rfl
  · simp only [known, if_neg hknown]
    let begin (session : Session) : Session :=
      { session with
        translator := { session.translator with
          begun := assembly.fullName :: session.translator.begun } }
    let started : Records := { records with begun := assembly.fullName :: records.begun }
    have hstarted : comparison.Joins acts started (begin first) (begin second) :=
      { left := ⟨hjoins.left.program_eq, hjoins.left.cache_eq, hjoins.left.declared_eq,
          hjoins.left.namespaces_eq, congrArg _ hjoins.left.begun_eq⟩
        right := ⟨hjoins.right.program_eq, hjoins.right.cache_eq, hjoins.right.declared_eq,
          hjoins.right.namespaces_eq, congrArg _ hjoins.right.begun_eq⟩
        finishes := hjoins.finishes
        holds := h.steady hjoins.holds (.refl _) ⟨rfl, rfl, rfl, rfl, rfl⟩
          ⟨rfl, rfl, rfl, rfl, rfl⟩ }
    exact h.ends_walks hadmits acts started (begin first) (begin second) hstarted (.refl _) rfl

end Comparison.Kept

/-- The types that are walked over when assemblies are translated one after the other:
those of each assembly in its first turn. -/
def Run.walked (listed : List AssemblyDef) : List TypeDef :=
  (listed.eraseDupsBy fun left right => left.fullName == right.fullName).flatMap fun assembly =>
    TypeDef.withNestedAll (roots assembly)

theorem forM_concat {α : Type} (items : List α) (item : α) (step : α → Run PUnit) :
    (items ++ [item]).forM step = (do items.forM step; step item) := by
  have hlast : (forM [item] step : Run PUnit) = step item := by
    rw [List.forM_cons, List.forM_nil, bind_pure_unit]
  rw [List.forM_eq_forM, List.forM_append, hlast]

/-- The types of one more assembly come last, if it has not had its turn. -/
theorem Run.walked_concat (before : List AssemblyDef) (assembly : AssemblyDef) :
    walked (before ++ [assembly]) = walked before ++
      if (before.eraseDupsBy fun left right => left.fullName == right.fullName).any
        (assembly.fullName == ·.fullName) then []
      else TypeDef.withNestedAll (roots assembly) := by
  rw [walked, eraseDupsBy_concat, walked]
  split
  · rw [List.append_nil]
  · rw [List.flatMap_append, List.flatMap_singleton]

/-- The assemblies on record are those that have had their turns. -/
def Records.HasBegun (records : Records) (listed : List AssemblyDef) : Prop :=
  ∀ name, name ∈ records.begun ↔
    ∃ assembly ∈ listed.eraseDupsBy fun left right => left.fullName == right.fullName,
      assembly.fullName = name

theorem Records.HasBegun.contains_eq {records : Records} {before : List AssemblyDef}
    (h : records.HasBegun before) (assembly : AssemblyDef) :
    records.begun.contains assembly.fullName =
      (before.eraseDupsBy fun left right => left.fullName == right.fullName).any
        (assembly.fullName == ·.fullName) := by
  rw [Bool.eq_iff_iff, List.contains_iff_mem, h, List.any_eq_true]
  simp only [beq_iff_eq]
  exact exists_congr fun other => and_congr_right fun _ => eq_comm

theorem Records.HasBegun.concat {records later : Records} {before : List AssemblyDef}
    {assembly : AssemblyDef} (h : records.HasBegun before)
    (hlater : later.begun = if records.begun.contains assembly.fullName then records.begun
      else assembly.fullName :: records.begun) :
    later.HasBegun (before ++ [assembly]) := by
  intro name
  rw [hlater, h.contains_eq, eraseDupsBy_concat]
  split
  · exact h name
  · rw [List.mem_cons, h]
    simp only [List.mem_append, List.mem_singleton, or_and_right, exists_or, exists_eq_left]
    rw [or_comm, eq_comm]

/-- A new session has nothing on record. -/
theorem Translator.IsFresh.keeps {translator : Translator} (h : translator.IsFresh) (sink : Sink)
    {program : Program} {bodies : Body → Body}
    (hprogram : translator.store.program = program.mapBodies bodies) :
    Session.Keeps { translator, sink } program bodies .empty where
  program_eq := hprogram
  cache_eq := h.cache_eq
  declared_eq := h.declared_eq
  namespaces_eq := h.namespaces_eq
  begun_eq := h.begun_eq

namespace Comparison.Kept

variable {comparison : Comparison}

/-- The translations of a list of assemblies stay side by side to the end. -/
theorem comes_translateAll (h : comparison.Kept) {listed : List AssemblyDef}
    (hadmits : ∀ assembly ∈ listed, ∀ top ∈ Run.roots assembly, comparison.admits top)
    {acts : List Act} {records : Records} {first second : Session}
    (hjoins : comparison.Joins acts records first second) (hbegun : records.begun = []) :
    let left := ((listed.map (·.mapBodies comparison.left)).forM Run.translateAssembly).run.run
      first
    let right := ((listed.map (·.mapBodies comparison.right)).forM Run.translateAssembly).run.run
      second
    ∃ more later, Plan.Allows (.turns ((Run.walked listed).map (·.typeId))) more ∧
      comparison.Joins (acts ++ more) later left.2 right.2 ∧
      Agree (fun _ _ => later.HasBegun listed) left.1 right.1 := by
  induction listed using List.reverseRecOn with
  | nil =>
    refine ⟨[], records, Plan.allows_nil _, ?_, ?_⟩
    · rw [List.append_nil]
      exact hjoins
    · change records.HasBegun []
      simp [Records.HasBegun, hbegun]
  | append_singleton before assembly ih =>
    obtain ⟨more, later, hallows, hend, hagree⟩ :=
      ih fun other hother => hadmits other (List.mem_append_left _ hother)
    intro left right
    simp only [left, right, List.map_append, List.map_cons, List.map_nil, forM_concat, run_bind]
    generalize ((before.map (·.mapBodies comparison.left)).forM Run.translateAssembly).run.run
      first = leftBefore at hend hagree
    generalize ((before.map (·.mapBodies comparison.right)).forM Run.translateAssembly).run.run
      second = rightBefore at hend hagree
    obtain ⟨_ | _, leftSession⟩ := leftBefore
    all_goals obtain ⟨_ | _, rightSession⟩ := rightBefore
    · refine ⟨more, later, hallows.mono fun act => ?_, hend, hagree⟩
      rw [Run.walked_concat, List.map_append, Plan.turns, Plan.turns, List.count_append]
      exact Nat.le_add_right _ _
    · exact hagree.elim
    · exact hagree.elim
    have hrecord : later.HasBegun before := hagree
    obtain ⟨further, last, hfurther, -, hturn, hlast, hsame⟩ :=
      h.comes_translateAssembly (hadmits assembly (by simp)) hend
    rw [List.append_assoc] at hlast
    refine ⟨more ++ further, last, (hallows.append hfurther).mono fun act => ?_, hlast,
      hsame.mono fun _ _ _ => hrecord.concat hturn⟩
    rw [hrecord.contains_eq, Run.walked_concat, List.map_append, Plan.turns, Plan.turns,
      List.count_append]
    split
    · exact Nat.le_refl _
    · exact Nat.le_refl _

end Comparison.Kept

end Assemblage.Script
