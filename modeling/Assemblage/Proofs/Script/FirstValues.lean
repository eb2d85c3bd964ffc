import Assemblage.Proofs.Model.StaticFields
import Assemblage.Proofs.Script.Passages

/-!
# First values of fields

A field gets its first value as a constant, among the fields that hold structs, at the
start of the static constructor or by an initializer.  Which of them it is was decided
in part when the model was built, and in part when the members are declared.  The
two agree: each field that the script has to provide for is provided for once.
-/

namespace Assemblage

/-- The ways in which a field can get its first value. -/
inductive Provision where
  | constant
  /-- An entry among the fields that hold structs. -/
  | structEntry
  /-- An assignment at the start of the static constructor. -/
  | assignment
  | initializer
deriving DecidableEq

/-- The way that suits a field. -/
def Program.provision (program : Program) (field : FieldDef) : Provision :=
  if field.isLiteral then .constant
  else if !field.isStatic && program.graph.isStruct field.type then .structEntry
  else if field.isStatic && program.needsStaticConstructor field.type then .assignment
  else .initializer

/-- Where all items but one lead to nothing, that one is all that counts. -/
theorem flatMap_eq_of_unique {α β γ : Type} {items : List α} {key : α → γ} {item : α}
    (hmem : item ∈ items) (hnodup : (items.map key).Nodup) {f : α → List β}
    (hother : ∀ other ∈ items, key other ≠ key item → f other = []) :
    items.flatMap f = f item := by
  obtain ⟨before, after, rfl⟩ := List.append_of_mem hmem
  rw [List.map_append, List.map_cons, List.nodup_middle, List.nodup_cons, List.mem_append,
    not_or] at hnodup
  obtain ⟨⟨hbefore, hafter⟩, -⟩ := hnodup
  have hfirst : before.flatMap f = [] := List.flatMap_eq_nil_iff.2 fun other hmem =>
    hother other (by simp [hmem]) fun heq => hbefore (heq ▸ List.mem_map_of_mem hmem)
  have hlast : after.flatMap f = [] := List.flatMap_eq_nil_iff.2 fun other hmem =>
    hother other (by simp [hmem]) fun heq => hafter (heq ▸ List.mem_map_of_mem hmem)
  rw [List.flatMap_append, List.flatMap_cons, hfirst, hlast, List.nil_append, List.append_nil]

namespace Script

open Comparison.Kept (details)

namespace Declaration

/-- What a declaration does for a field of the type at a path. -/
def provisions (path : String) (field : FieldDef) : Declaration → List Provision
  | .constant owner name _ =>
    if owner = Owner.ofMember path field.isStatic ∧ name = Identifier.escape field.name then
      [.constant]
    else []
  | .initializer owner name _ =>
    if owner = Owner.ofMember path field.isStatic ∧ name = Identifier.escape field.name then
      [.initializer]
    else []
  | .structFields place entries =>
    if place = path then
      (entries.filter (·.1 = Identifier.escape field.name)).map fun _ => .structEntry
    else []
  | _ => []

variable {path : String} {field : FieldDef} {declaration : Declaration}

/-- Declarations for other types do nothing for a field. -/
theorem provisions_of_path?_ne (h : declaration.path? ≠ some path) :
    declaration.provisions path field = [] := by
  have howner : ∀ {owner : Owner}, some owner.path ≠ some path →
      ∀ name,
        ¬(owner = Owner.ofMember path field.isStatic ∧ name = Identifier.escape field.name) := by
    rintro owner hpath name ⟨rfl, -⟩
    exact hpath rfl
  cases declaration with
  | constant owner name | initializer owner name => exact if_neg (howner h name)
  | structFields place entries => exact if_neg fun heq => h (congrArg some heq)
  | _ => rfl

/-- Only what is inside a type provides for its fields. -/
theorem provisions_of_phase_ne (h : declaration.phase ≠ .members) :
    declaration.provisions path field = [] := by
  cases declaration with
  | constant | initializer | structFields => exact absurd rfl h
  | _ => rfl

/-- Fields are provided among the members and nowhere else. -/
theorem flatMap_provisions_filter (declarations : List Declaration) :
    (declarations.filter (·.phase = .members)).flatMap (provisions path field) =
      declarations.flatMap (provisions path field) := by
  induction declarations with
  | nil => rfl
  | cons declaration rest ih =>
    by_cases hphase : declaration.phase = .members
    · rw [List.filter_cons_of_pos (by simpa using hphase), List.flatMap_cons, List.flatMap_cons, ih]
    · rw [List.filter_cons_of_neg (by simpa using hphase), List.flatMap_cons, ih,
        provisions_of_phase_ne hphase, List.nil_append]

end Declaration

open Declaration (provisions)

/-- The assignment that gives a static field its first value. -/
def defaultAssignment (model : TypeModel) (field : FieldDef) : Stmt :=
  .expr (.assign none (.staticField model.definition.signature field.name field.type)
    (.defaultValue field.type))

section

variable {model : TypeModel} {member other : Member} {field : FieldDef} {graph : Graph}
  {path : String}

theorem field?_of_providedField? (h : providedField? member = some field) :
    member.isIgnored = false ∧ member.definition.field? = some field := by
  rw [providedField?] at h
  split at h
  · cases h
  · rename_i hkept
    rw [Bool.or_eq_true, not_or, Bool.not_eq_true] at hkept
    exact ⟨hkept.1, h⟩

theorem name_of_field? (h : member.definition.field? = some field) : member.name = field.name := by
  rw [Member.name]
  cases hdefinition : member.definition with
  | field found =>
    rw [hdefinition] at h
    rw [← Option.some.inj h]
    rfl
  | method | property =>
    rw [hdefinition] at h
    cases h

/-- A member of another name does nothing for the field. -/
theorem provisions_fieldDeclaration?_of_ne (hname : other.name ≠ field.name) :
    (fieldDeclaration? graph path other).toList.flatMap (provisions path field) = [] := by
  rw [fieldDeclaration?]
  cases hprovided : providedField? other with
  | none => rfl
  | some found =>
    rw [name_of_field? (field?_of_providedField? hprovided).2] at hname
    have hescape : Identifier.escape found.name ≠ Identifier.escape field.name :=
      fun heq => hname (Identifier.escape_injective heq)
    rw [Option.bind_some]
    dsimp only
    split
    · cases found.constant with
      | none => rfl
      | some value => simp [provisions, hescape]
    · split
      · rfl
      · simp [provisions, hescape]

theorem provisions_structField?_of_ne (hname : other.name ≠ field.name) :
    (structField? graph other).toList.filter (·.1 = Identifier.escape field.name) = [] := by
  rw [structField?]
  cases hprovided : providedField? other with
  | none => rfl
  | some found =>
    rw [name_of_field? (field?_of_providedField? hprovided).2] at hname
    have hescape : Identifier.escape found.name ≠ Identifier.escape field.name :=
      fun heq => hname (Identifier.escape_injective heq)
    rw [Option.bind_some]
    split
    · simp [hescape]
    · rfl

/-- What the field itself is declared as, unless it is set or listed elsewhere. -/
theorem provisions_fieldDeclaration? (hprovided : providedField? member = some field) :
    (fieldDeclaration? graph path member).toList.flatMap (provisions path field) =
      if field.isLiteral then [.constant]
      else if graph.isStruct field.type || member.setByStaticConstructor then []
      else [.initializer] := by
  rw [fieldDeclaration?, hprovided, Option.bind_some]
  dsimp only
  by_cases hliteral : field.isLiteral = true
  · obtain ⟨value, hvalue⟩ := Option.isSome_iff_exists.1 (Bool.and_eq_true_iff.1 hliteral).2
    simp [hliteral, hvalue, provisions]
  · rw [if_neg hliteral, if_neg hliteral]
    split
    · rfl
    · simp [provisions]

/-- A field has an entry among the fields of a struct exactly if it is an instance field of a
struct type. -/
theorem provisions_structField? (hprovided : providedField? member = some field) :
    ((structField? graph member).toList.filter (·.1 = Identifier.escape field.name)).map
        (fun _ => Provision.structEntry) =
      if !field.isLiteral && graph.isStruct field.type && !field.isStatic then [.structEntry]
      else [] := by
  rw [structField?, hprovided, Option.bind_some]
  split
  · simp
  · rfl

/-- All that the fields of a type are declared as comes down to one of them. -/
theorem provisions_fieldDeclarations (hmember : member ∈ model.fields)
    (hnames : (model.fields.map Member.name).Nodup)
    (hprovided : providedField? member = some field) :
    (fieldDeclarations graph path model).flatMap (provisions path field) =
      (if field.isLiteral then [.constant]
        else if graph.isStruct field.type || member.setByStaticConstructor then []
        else [.initializer]) ++
      if !field.isLiteral && graph.isStruct field.type && !field.isStatic then [.structEntry]
      else [] := by
  have hname := name_of_field? (field?_of_providedField? hprovided).2
  have hstructs : ∀ entries : List (String × String),
      (if entries.isEmpty then [] else [Declaration.structFields path entries]).flatMap
          (provisions path field) =
        (entries.filter (·.1 = Identifier.escape field.name)).map fun _ => .structEntry := by
    intro entries
    cases entries with
    | nil => rfl
    | cons => simp [provisions]
  rw [fieldDeclarations, List.flatMap_append, hstructs, ← provisions_fieldDeclaration? hprovided,
    ← provisions_structField? hprovided, List.filterMap_eq_flatMap_toList,
    List.filterMap_eq_flatMap_toList, List.flatMap_assoc, List.filter_flatMap]
  congr 1
  · exact flatMap_eq_of_unique hmember hnames fun other _ hother =>
      provisions_fieldDeclaration?_of_ne (hname ▸ hother)
  · congr 1
    exact flatMap_eq_of_unique hmember hnames fun other _ hother =>
      provisions_structField?_of_ne (hname ▸ hother)

/-- Members that are not fields have no part in what fields come to. -/
theorem filterMap_fields {β : Type} {found? : Member → Option β}
    (hother : ∀ other, other.definition.field? = none → found? other = none) :
    model.fields.filterMap found? = model.members.filterMap found? := by
  rw [TypeModel.fields, List.filterMap_filter]
  refine List.filterMap_congr fun found _ => ?_
  have hkind : (found.kind == .field) = found.definition.field?.isSome := by
    rw [Member.kind, Member.id]
    cases found.definition <;> rfl
  rw [hkind]
  cases hfound : found.definition.field? with
  | none => exact (hother found hfound).symm
  | some => rfl

/-- The field that a member is, if the static constructor sets it. -/
def setField? (member : Member) : Option FieldDef :=
  if member.setByStaticConstructor then member.definition.field? else none

theorem staticConstructorFields_eq (model : TypeModel) :
    model.staticConstructorFields = model.fields.filterMap setField? := by
  rw [filterMap_fields, TypeModel.staticConstructorFields, List.filterMap_filter]
  · rfl
  · intro other hother
    rw [setField?, hother, ite_self]

/-- The static constructor sets fields in the order of the member table. -/
theorem staticConstructorFields_sublist (model : TypeModel) :
    model.staticConstructorFields.Sublist (model.fields.filterMap (·.definition.field?)) := by
  rw [filterMap_fields fun _ => id, TypeModel.staticConstructorFields]
  exact List.filter_sublist.filterMap _

/-- The static constructor sets the field at most once. -/
theorem staticConstructorFields_of_name (hmember : member ∈ model.fields)
    (hnames : (model.fields.map Member.name).Nodup)
    (hfield : member.definition.field? = some field) :
    model.staticConstructorFields.filter (·.name = field.name) =
      if member.setByStaticConstructor then [field] else [] := by
  have hname := name_of_field? hfield
  rw [staticConstructorFields_eq, List.filterMap_eq_flatMap_toList, List.filter_flatMap]
  refine (flatMap_eq_of_unique hmember hnames fun other _ hother => ?_).trans ?_
  · refine List.filter_eq_nil_iff.2 fun found hfound => ?_
    rw [Option.mem_toList, setField?] at hfound
    split at hfound
    · rw [hname, name_of_field? hfound] at hother
      simpa using hother
    · cases hfound
  · rw [setField?, hfield]
    split
    · simp
    · rfl

end

/-- The ways of providing for a field that are open add up to the one that suits it. -/
theorem provisions_add_up (program : Program) (field : FieldDef) {set : Bool}
    (hset : set =
      (field.isStatic && !field.isLiteral && program.needsStaticConstructor field.type)) :
    (if field.isLiteral then [Provision.constant]
        else if program.graph.isStruct field.type || set then []
        else [.initializer]) ++
      (if !field.isLiteral && program.graph.isStruct field.type && !field.isStatic then
        [.structEntry] else []) ++
      (if set then [.assignment] else []) = [program.provision field] := by
  have hneeds := @Program.needsStaticConstructor_of_isStruct program field.type
  rw [hset, Program.provision]
  cases field.isLiteral with
  | true => simp
  | false =>
    cases hstruct : program.graph.isStruct field.type with
    | true =>
      rw [hneeds hstruct]
      cases field.isStatic <;> simp
    | false =>
      cases field.isStatic with
      | false => simp
      | true => cases program.needsStaticConstructor field.type <;> simp

section

variable {stage : Stage} {model : TypeModel} {path : String} {declaration : Declaration}
  {field : FieldDef}

/-- What a method declares is at the place of the method. -/
theorem mem_methodPassage {initializers : Block} {member : Member}
    (h : declaration ∈ (stage.methodPassage model path initializers member).output) :
    declaration.methodPlace? =
      some (Owner.ofMember path member.isStatic, methodName model member) := by
  rw [Stage.methodPassage] at h
  split at h
  · cases h
  · dsimp only at h
    split at h
    · split at h
      · rw [List.mem_singleton.1 h]
        rfl
      · cases h
    · split at h
      · rw [List.mem_singleton.1 h]
        rename_i declared _ _ _
        cases stage.translator.function (methodName model member) declared
          (member.replacement.getD declared) initializers <;> rfl
      · cases h

/-- A method is kept under the path of its owner. -/
theorem Declaration.path?_of_methodPlace? {owner : Owner} {name : String}
    (h : declaration.methodPlace? = some (owner, name)) : declaration.path? = some owner.path := by
  cases declaration with
  | external | method | untranslatable =>
    obtain ⟨rfl, -⟩ := Prod.mk.inj (Option.some.inj h)
    rfl
  | _ => cases h

/-- A method provides for no field. -/
theorem Declaration.provisions_of_methodPlace? {owner : Owner} {name : String}
    (h : declaration.methodPlace? = some (owner, name)) :
    declaration.provisions path field = [] := by
  cases declaration with
  | external | method | untranslatable => rfl
  | _ => cases h

theorem mem_constructorPassage
    (h : declaration ∈ (stage.constructorPassage model path).output) :
    ∃ member, declaration.methodPlace? =
      some (Owner.ofMember path member.isStatic, methodName model member) := by
  rw [Stage.constructorPassage] at h
  split at h
  · split at h
    · cases h
    · exact ⟨_, mem_methodPassage h⟩
  · cases h

/-- The members of a model are declared in four runs: plain methods, groups, details and the
static constructor. -/
theorem output_membersPassage (stage : Stage) (model : TypeModel) :
    (stage.membersPassage model).output =
      (Stage.plainMethods model).flatMap (fun member =>
          (stage.methodPassage model model.definition.location.path [] member).output) ++
        model.groups.flatMap (fun group =>
          (Stage.groupPassage model.definition.location.path group).output) ++
        details stage.translator.store model.definition.location.path model ++
        (stage.constructorPassage model model.definition.location.path).output := by
  rw [← Passage.output_all_map, ← Passage.output_all_map]
  rfl

/-- What is declared inside a type is a method of it, a group, a detail or its static
constructor. -/
theorem mem_membersPassage (h : declaration ∈ (stage.membersPassage model).output) :
    declaration.path? = some model.definition.location.path := by
  rw [output_membersPassage, List.mem_append, List.mem_append, List.mem_append] at h
  rcases h with ((h | h) | h) | h
  · obtain ⟨member, -, hmember⟩ := List.mem_flatMap.1 h
    exact Declaration.path?_of_methodPlace? (mem_methodPassage hmember)
  · obtain ⟨group, -, hgroup⟩ := List.mem_flatMap.1 h
    rw [List.mem_singleton.1 hgroup]
    rfl
  · exact (isDetail_and_path?_of_mem_tail h).2
  · obtain ⟨member, hmember⟩ := mem_constructorPassage h
    exact Declaration.path?_of_methodPlace? hmember

/-- Only the declarations of its fields provide for the fields of a type. -/
theorem provisions_membersPassage (stage : Stage) (model : TypeModel) (path : String)
    (field : FieldDef) :
    (stage.membersPassage model).output.flatMap (provisions path field) =
      (fieldDeclarations stage.program.graph model.definition.location.path model).flatMap
        (provisions path field) := by
  have hmethods : (Stage.plainMethods model).flatMap (fun member =>
      (stage.methodPassage model model.definition.location.path [] member).output.flatMap
        (provisions path field)) = [] :=
    List.flatMap_eq_nil_iff.2 fun member _ => List.flatMap_eq_nil_iff.2 fun declaration hmem =>
      Declaration.provisions_of_methodPlace? (mem_methodPassage hmem)
  have hgroups : model.groups.flatMap (fun group =>
      (Stage.groupPassage model.definition.location.path group).output.flatMap
        (provisions path field)) = [] :=
    List.flatMap_eq_nil_iff.2 fun group _ => rfl
  have hconstructor : (stage.constructorPassage model
      model.definition.location.path).output.flatMap (provisions path field) = [] :=
    List.flatMap_eq_nil_iff.2 fun declaration hmem => by
      obtain ⟨member, hmember⟩ := mem_constructorPassage hmem
      exact Declaration.provisions_of_methodPlace? hmember
  have hproperties : (model.properties.filterMap (propertyDeclaration? model
      model.definition.location.path)).flatMap (provisions path field) = [] := by
    refine List.flatMap_eq_nil_iff.2 fun declaration hmem => ?_
    obtain ⟨member, -, hmember⟩ := List.mem_filterMap.1 hmem
    rw [propertyDeclaration?] at hmember
    split at hmember
    · cases hmember
    · obtain ⟨property, -, rfl⟩ := Option.map_eq_some_iff.1 hmember
      rfl
  have hinterfaces : (interfaceDeclarations stage.translator.store model.definition.location.path
      model.definition).flatMap (provisions path field) = [] := by
    rw [interfaceDeclarations]
    split
    · rfl
    · rfl
  rw [output_membersPassage, details]
  simp only [List.flatMap_append, List.flatMap_assoc, hmethods, hgroups, hconstructor, hproperties,
    hinterfaces, List.nil_append, List.append_nil]
  rfl

/-! ## Static constructors -/

/-- A method is declared with a function, which its own tree comes to. -/
structure Translator.Defines (translator : Translator) (model : TypeModel) (member : Member)
    (function : Function) : Prop where
  kept : member.isIgnored = false
  supplied : member.isExternal = false
  translated : ∃ declared, member.definition.method? = some declared ∧
    (member.replacement.getD declared).isAbstract = false ∧
    translator.function (methodName model member) declared
      (member.replacement.getD declared) [] = .ok function

/-- Statements that are put before a body are the only difference they make. -/
theorem Translator.function_prepend {translator : Translator} {name : String}
    {declared implementation : MethodDef} {function : Function}
    (h : translator.function name declared implementation [] = .ok function)
    (initializers : Block) :
    translator.function name declared implementation initializers =
      .ok (function.prepend initializers) := by
  rw [Translator.function] at h ⊢
  cases htree : translator.decompile implementation with
  | error error =>
    rw [htree] at h
    cases h
  | ok tree =>
    simp only [htree, bind, Except.bind] at h ⊢
    split at h
    · cases h
    · obtain rfl := Except.ok.inj h
      rfl

/-- A static constructor begins with the first values of the fields, before its own statements.
-/
theorem Translator.Defines.constructorPassage_eq {member : Member} {own : Function}
    (h : stage.translator.Defines model member own)
    (hmember : model.staticConstructorMember? = some member) :
    (stage.constructorPassage model path).output =
      [.method (Owner.ofMember path member.isStatic) (methodName model member)
        (own.prepend (fieldInitializers model))] := by
  obtain ⟨hkept, hsupplied, declared, hdeclared, hconcrete, hfunction⟩ := h
  simp only [Stage.constructorPassage, Stage.methodPassage, hmember, hkept, hsupplied, hdeclared,
    hconcrete, Translator.function_prepend hfunction]
  rfl

/-- A method among what comes before the static constructor is one of the others. -/
theorem exists_plain_of_mem {owner : Owner} {name : String} {function : Function} {store : Store}
    (h : .method owner name function ∈
      (Stage.plainMethods model).flatMap (fun member =>
          (stage.methodPassage model path [] member).output) ++
        model.groups.flatMap (fun group => (Stage.groupPassage path group).output) ++
        details store path model) :
    ∃ other ∈ model.methods, TypeModel.isStaticConstructor other = false ∧
      Owner.ofMember path other.isStatic = owner ∧ methodName model other = name := by
  rw [List.mem_append, List.mem_append] at h
  rcases h with (h | h) | h
  · obtain ⟨other, hother, hmem⟩ := List.mem_flatMap.1 h
    obtain ⟨hmethod, hplain⟩ := List.mem_filter.1 hother
    rw [Bool.and_eq_true, Bool.not_eq_true', Bool.not_eq_true'] at hplain
    obtain ⟨howner, hname⟩ := Prod.mk.inj (Option.some.inj (mem_methodPassage hmem))
    exact ⟨other, hmethod, hplain.2, howner.symm, hname.symm⟩
  · obtain ⟨group, -, hgroup⟩ := List.mem_flatMap.1 h
    cases List.mem_singleton.1 hgroup
  · cases (isDetail_and_path?_of_mem_tail h).1

end

/-- What has been declared for the fields of a type, if the static constructor sets those
in the prelude. -/
structure ProvidesFields (translator : Translator) (model : TypeModel)
    (output : List Declaration) (prelude : List FieldDef) : Prop where
  /-- Fields are set in the order of the member table. -/
  ordered : prelude.Sublist (model.fields.filterMap (·.definition.field?))
  /-- The static constructor is declared in one place, and sets the fields before it does
  what its own tree comes to.  What else goes by its name is not a static constructor. -/
  constructed : ∀ member, model.staticConstructorMember? = some member →
    let owner := Owner.ofMember model.definition.location.path member.isStatic
    let name := methodName model member
    ∃ own before after, translator.Defines model member own ∧
      output = before ++
        .method owner name (own.prepend (prelude.map (defaultAssignment model))) :: after ∧
      ∀ function, .method owner name function ∈ before ++ after →
        ∃ other ∈ model.methods, TypeModel.isStaticConstructor other = false ∧
          Owner.ofMember model.definition.location.path other.isStatic = owner ∧
          methodName model other = name
  /-- Without a static constructor no field is set. -/
  unconstructed : model.staticConstructorMember? = none → prelude = []
  /-- Each field is provided for once, in the way that suits it. -/
  once : ∀ member ∈ model.fields, ∀ field, providedField? member = some field →
    output.flatMap (provisions model.definition.location.path field) ++
        (prelude.filter (·.name = field.name)).map (fun _ => Provision.assignment) =
      [translator.store.program.provision field]

section

variable {stage : Stage} {definition : TypeDef} {declaration : Declaration}
  {types : List TypeDef} {output : List Declaration}

theorem path?_of_mem_passageOf (h : declaration ∈ (stage.passageOf definition).output) :
    declaration.path? = some definition.location.path := by
  rw [Stage.passageOf] at h
  split at h
  · cases h
  · rw [mem_membersPassage h, Program.definition_modelOf]

/-- What is declared inside other types is kept under other paths. -/
theorem path?_ne_of_mem_passageOf {other : TypeDef} (hne : other.fullName ≠ definition.fullName)
    (h : declaration ∈ (stage.passageOf other).output) :
    declaration.path? ≠ some definition.location.path := by
  rw [path?_of_mem_passageOf h]
  exact fun heq => hne (Location.path_ofFullName_injective (Option.some.inj heq))

theorem passageOf_eq (hignored : (stage.program.modelOf definition).ignored = false)
    (hkind : (stage.program.modelOf definition).kind.isDeclaredInFull = false) :
    stage.passageOf definition = stage.membersPassage (stage.program.modelOf definition) := by
  have hkept : stage.program.ignoresDefinition definition = false := hignored
  have hshell : definition.kind.isDeclaredInFull = false := hkind
  rw [Stage.passageOf, hkept, hshell]
  rfl

/-- Among all declarations, only those for the fields of a type provide for them. -/
theorem flatMap_provisions_eq
    (htold : output.filter (·.phase = .members) =
      types.flatMap fun other => (stage.passageOf other).output)
    (hmem : definition ∈ types) (hnodup : (types.map (·.fullName)).Nodup)
    (hignored : (stage.program.modelOf definition).ignored = false)
    (hkind : (stage.program.modelOf definition).kind.isDeclaredInFull = false) (field : FieldDef) :
    output.flatMap (provisions definition.location.path field) =
      (fieldDeclarations stage.program.graph definition.location.path
        (stage.program.modelOf definition)).flatMap
          (provisions definition.location.path field) := by
  rw [← Declaration.flatMap_provisions_filter, htold, List.flatMap_assoc]
  refine (flatMap_eq_of_unique hmem hnodup fun other _ hother => ?_).trans ?_
  · exact List.flatMap_eq_nil_iff.2 fun declaration hdeclaration =>
      Declaration.provisions_of_path?_ne (path?_ne_of_mem_passageOf hother hdeclaration)
  · rw [passageOf_eq hignored hkind, provisions_membersPassage, Program.definition_modelOf]

/-- The static constructor comes last of all that is declared inside its type. -/
theorem exists_constructor
    (htold : output.filter (·.phase = .members) =
      types.flatMap fun other => (stage.passageOf other).output)
    (hmem : definition ∈ types) (hnodup : (types.map (·.fullName)).Nodup) {model : TypeModel}
    (hmodel : model = stage.program.modelOf definition) (hignored : model.ignored = false)
    (hkind : model.kind.isDeclaredInFull = false) {member : Member}
    (hmember : model.staticConstructorMember? = some member) {own : Function}
    (hdefines : stage.translator.Defines model member own) :
    let owner := Owner.ofMember model.definition.location.path member.isStatic
    let name := methodName model member
    ∃ before after,
      output = before ++
        .method owner name (own.prepend (model.staticConstructorFields.map
          (defaultAssignment model))) :: after ∧
      ∀ function, .method owner name function ∈ before ++ after →
        ∃ other ∈ model.methods, TypeModel.isStaticConstructor other = false ∧
          Owner.ofMember model.definition.location.path other.isStatic = owner ∧
          methodName model other = name := by
  intro owner name
  have hplace : model.definition.location = definition.location := by
    rw [hmodel, Program.definition_modelOf]
  obtain ⟨first, last, rfl⟩ := List.append_of_mem hmem
  rw [List.map_append, List.map_cons, List.nodup_middle, List.nodup_cons, List.mem_append,
    not_or] at hnodup
  obtain ⟨⟨hfirst, hlast⟩, -⟩ := hnodup
  rw [List.flatMap_append, List.flatMap_cons, passageOf_eq (hmodel ▸ hignored) (hmodel ▸ hkind),
    ← hmodel, output_membersPassage, hdefines.constructorPassage_eq hmember,
    List.append_assoc _ [_], ← List.append_assoc, List.singleton_append] at htold
  obtain ⟨taken, rest, rfl, htaken, hrest⟩ := List.filter_eq_append_iff.1 htold
  obtain ⟨others, after, rfl, hothers, -, hafter⟩ := List.filter_eq_cons_iff.1 hrest
  refine ⟨taken ++ others, after, by rw [List.append_assoc]; rfl, fun function hfunction => ?_⟩
  -- No other type has anything under this path.
  have helsewhere : ∀ {outside : List TypeDef}, definition.fullName ∉ outside.map (·.fullName) →
      .method owner name function ∉
        outside.flatMap fun other => (stage.passageOf other).output := by
    intro outside houtside hmethod
    obtain ⟨other, hother, hdeclared⟩ := List.mem_flatMap.1 hmethod
    have hne : other.fullName ≠ definition.fullName :=
      fun heq => houtside (heq ▸ List.mem_map_of_mem hother)
    exact path?_ne_of_mem_passageOf hne hdeclared (by rw [← hplace]; rfl)
  have hkept : ∀ {declarations : List Declaration}, .method owner name function ∈ declarations →
      .method owner name function ∈ declarations.filter (·.phase = .members) :=
    fun hmethod => List.mem_filter.2 ⟨hmethod, rfl⟩
  rw [List.mem_append, List.mem_append] at hfunction
  rcases hfunction with (hmethod | hmethod) | hmethod
  · have hmethod := hkept hmethod
    rw [htaken, List.mem_append] at hmethod
    exact exists_plain_of_mem (hmethod.resolve_left (helsewhere hfirst))
  · exact absurd rfl (hothers _ hmethod)
  · have hmethod := hkept hmethod
    rw [hafter] at hmethod
    exact absurd hmethod (helsewhere hlast)

/-- Without a static constructor no field is set by it. -/
theorem staticConstructorFields_eq_nil
    (h : (stage.program.modelOf definition).staticConstructorMember? = none) :
    (stage.program.modelOf definition).staticConstructorFields = [] := by
  rw [TypeModel.staticConstructorFields]
  refine List.filterMap_eq_nil_iff.2 fun member hmember => ?_
  obtain ⟨hmem, hset⟩ := List.mem_filter.1 hmember
  have hsome := TypeModel.staticConstructorMember?_isSome
    (Program.exists_staticConstructor hmem hset)
  rw [h] at hsome
  cases hsome

end

namespace Translator

/-- A run that comes to its end has a model of each type that it has walked over.  If the
type is not ignored and its static constructor can be declared as a method, each field is
provided for once, in the way that suits it. -/
theorem translate_provides_fields_once {translator : Translator} (hfresh : translator.IsFresh)
    (hgraph : translator.store.graph.WellFormed) (honce : translator.store.graph.DefinesOnce)
    {sink : Sink} {listed : List AssemblyDef} (hlisted : listed ⊆ translator.store.graph.assemblies)
    (hcomplete : (translator.translate sink listed).failure = none) {definition : TypeDef}
    (hwalked : definition ∈ Run.walked listed) :
    let outcome := translator.translate sink listed
    ∃ model, (outcome.translator.store.requestDefinition definition).2 = some model ∧
      (model.ignored = false → model.kind.isDeclaredInFull = false →
        (model.fields.map Member.name).Nodup →
        (∀ member, model.staticConstructorMember? = some member →
          ∃ own, translator.Defines model member own) →
        ∃ prelude, ProvidesFields translator model outcome.output prelude) := by
  intro outcome
  let stage := translator.stage sink fun _ _ => True
  let model := stage.program.modelOf definition
  obtain ⟨hcarries, htold⟩ := told_translate hfresh hgraph honce hlisted hcomplete
  have hnodup := Stage.nodup_walked hgraph.toLoaded honce hlisted
  have hindexed : translator.store.graph.Indexes definition := by
    obtain ⟨assembly, hassembly, hinside⟩ := List.mem_flatMap.1 hwalked
    exact hgraph.indexes_iff.2 ⟨assembly, hlisted (eraseDupsBy_subset _ listed hassembly),
      Run.mem_allTypes_of_mem_roots hinside⟩
  have hrequest : (outcome.translator.store.requestDefinition definition).2 = some model := by
    obtain ⟨cache, found, hrequest, -, hfound⟩ := hcarries.exists_requestDefinition hindexed
    rw [congrArg Prod.snd hrequest, hfound.eq_modelOf honce]
  refine ⟨model, hrequest, fun hignored hkind hnames hconstructor => ?_⟩
  have hfunction : translator.function = stage.translator.function :=
    (hfresh.carries sink fun _ _ => True).function_eq honce
  refine ⟨model.staticConstructorFields, staticConstructorFields_sublist _, ?_,
    staticConstructorFields_eq_nil, ?_⟩
  · intro member hmember
    obtain ⟨own, hdefines⟩ := hconstructor member hmember
    have hstage : stage.translator.Defines model member own :=
      ⟨hdefines.kept, hdefines.supplied, hfunction ▸ hdefines.translated⟩
    obtain ⟨before, after, houtput, hothers⟩ :=
      exists_constructor htold hwalked hnodup rfl hignored hkind hmember hstage
    exact ⟨own, before, after, hdefines, houtput, hothers⟩
  · intro member hmember field hprovided
    obtain ⟨hkept, hfield⟩ := field?_of_providedField? hprovided
    rw [Program.definition_modelOf, flatMap_provisions_eq htold hwalked hnodup hignored hkind,
      provisions_fieldDeclarations hmember hnames hprovided,
      staticConstructorFields_of_name hmember hnames hfield]
    refine (congrArg _ ?_).trans (provisions_add_up translator.store.program field
      (Program.setByStaticConstructor_eq (List.mem_filter.1 hmember).1 hkind hkept hfield))
    split
    · rfl
    · rfl

def pointStruct : TypeBlueprint :=
  .struct "App" "Point"

/-- A class with fields for all ways of providing for them, of which two are set by a
static constructor that the class does not have. -/
def meterClass : TypeBlueprint :=
  { sampleClass "Meter" none [] with
    fields :=
      [({ name := "Limit", type := .primitive .int32 } : FieldDef).asLiteral (.int 9),
       ({ name := "total", type := .primitive .int32 } : FieldDef).asStatic,
       { name := "place", type := .value { space := "App", path := "Point" } },
       ({ name := "origin",
          type := .value { space := "App", path := "Point" } } : FieldDef).asStatic,
       ({ name := "unit", type := .primitive .string } : FieldDef).asStatic,
       { name := "count", type := .primitive .int32 }] }

def meterAssembly : AssemblyBlueprint :=
  sampleAssembly [pointStruct, meterClass]

/-- A constant, a static field of a struct type, an instance field of a struct type and plain
fields are each provided in their own way. -/
theorem translate_provides_fields_once_meterAssembly :
    let translator := ofBlueprint meterAssembly
    let outcome := translator.translate .collecting [meterAssembly.build]
    let definition := meterClass.build sampleScope none
    outcome.failure = none ∧ definition ∈ Run.walked [meterAssembly.build] ∧
      ∃ model, (outcome.translator.store.requestDefinition definition).2 = some model ∧
        (model.fields.filterMap providedField?).map translator.store.program.provision =
          [.constant, .assignment, .structEntry, .assignment, .initializer, .initializer] ∧
        ∃ prelude, ProvidesFields translator model outcome.output prelude := by
  intro translator outcome definition
  have hcomplete : outcome.failure = none := by decide +kernel
  have hwalked : definition ∈ Run.walked [meterAssembly.build] :=
    List.mem_cons_of_mem _ List.mem_cons_self
  have honce : translator.store.graph.DefinesOnce := by
    rw [Graph.DefinesOnce]
    decide +kernel
  have hlisted : [meterAssembly.build] ⊆ translator.store.graph.assemblies := List.Subset.refl _
  obtain ⟨model, hmodel, hprovides⟩ := translate_provides_fields_once
    (isFresh_ofBlueprint meterAssembly) (wellFormed_ofBlueprint meterAssembly) honce hlisted
    hcomplete hwalked
  have hall : ((outcome.translator.store.requestDefinition definition).2.all fun model =>
      !model.ignored && !model.kind.isDeclaredInFull &&
        decide (model.fields.map Member.name).Nodup &&
        decide ((model.fields.filterMap providedField?).map translator.store.program.provision =
          [.constant, .assignment, .structEntry, .assignment, .initializer, .initializer]) &&
        model.staticConstructorMember?.all fun member =>
          !member.isIgnored && !member.isExternal && member.definition.method?.any fun declared =>
            !(member.replacement.getD declared).isAbstract &&
              (translator.function (methodName model member) declared
                (member.replacement.getD declared) []).toOption.isSome) = true := by
    decide +kernel
  rw [hmodel, Option.all_some] at hall
  simp only [Bool.and_eq_true, Bool.not_eq_true', decide_eq_true_eq] at hall
  obtain ⟨⟨⟨⟨hignored, hkind⟩, hnames⟩, hways⟩, hconstructor⟩ := hall
  refine ⟨hcomplete, hwalked, model, hmodel, hways, hprovides hignored hkind hnames ?_⟩
  intro member hmember
  rw [hmember, Option.all_some, Bool.and_eq_true, Bool.and_eq_true, Bool.not_eq_true',
    Bool.not_eq_true', Option.any_eq_true] at hconstructor
  obtain ⟨⟨hkept, hsupplied⟩, declared, hdeclared, htranslated⟩ := hconstructor
  rw [Bool.and_eq_true, Bool.not_eq_true'] at htranslated
  obtain ⟨own, hown⟩ := Option.isSome_iff_exists.1 htranslated.2
  refine ⟨own, hkept, hsupplied, declared, hdeclared, htranslated.1, ?_⟩
  cases hresult : translator.function (methodName model member) declared
      (member.replacement.getD declared) [] with
  | ok function =>
    rw [hresult] at hown
    exact congrArg Except.ok (Option.some.inj hown)
  | error error =>
    rw [hresult] at hown
    cases hown

end Translator

end Script

end Assemblage
