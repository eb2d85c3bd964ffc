import Assemblage.Script.Forward

/-!
# Members

What is declared for a type once every type is known: its methods, the groups
they form, its properties and interfaces, its fields, and last its static
constructor.  Each field gets its first value in exactly one place.
-/

namespace Assemblage.Script

/-- The name of a method in the script. -/
def methodName (model : TypeModel) (member : Member) : String :=
  Identifier.escape (model.emittedName member)

/-- The function for a method, with statements put before its own. -/
def Translator.function (translator : Translator) (name : String)
    (declared implementation : MethodDef) (initializers : Block) : Except Error Function := do
  let tree ← translator.decompile implementation
  let context := { method := declared.fullName, oracle := translator.store.oracle }
  let function ← translator.pipeline.run name context tree
  return function.prepend initializers

namespace Run

def untranslated (method : MethodDef) (error : Error) : Diagnostic :=
  { severity := .error
    category := .method
    message := error.message
    subject := some method.fullName }

/-- Declares a method.  One that the runtime supplies is only named, and one that
replaces another or is abstract is left out. -/
def translateMethod (model : TypeModel) (path : String) (initializers : Block)
    (member : Member) : Run Unit := do
  let some declared := member.definition.method? | return
  let implementation := member.replacement.getD declared
  let owner := Owner.ofMember path member.isStatic
  let name := methodName model member
  if member.isExternal then
    if !member.isReplaced then emit (.external owner name)
  else if !implementation.isAbstract then
    match (← translator).function name declared implementation initializers with
    | .ok function => emit (.method owner name function)
    | .error error =>
      if error.isMethodLocal then
        report (untranslated declared error)
        emit (.untranslatable owner name declared.fullName)
      else throw error

end Run

def overloadsOf (group : MethodGroup) : List Overload :=
  group.methods.mapIdx fun index member =>
    { name := Identifier.escape (group.mangledName index), parameters := member.id.parameters }

/-- The types of the same module that are parameters of a group. -/
def parameterTypes (graph : Graph) (definition : TypeDef) (group : MethodGroup) : List TypeDef :=
  let parameters := (group.methods.filterMap (·.definition.method?)).flatMap (·.parameters)
  (parameters.filterMap fun parameter => graph.resolve? parameter.type.element).filter
    (·.sameModule definition)

namespace Run

/-- Declares a group, after the parameter types that are still undeclared. -/
def translateGroup (model : TypeModel) (path : String) (group : MethodGroup) : Run Unit := do
  let graph := (← translator).store.graph
  for type in parameterTypes graph model.definition group do
    if !(← translator).isDeclared type.typeId then declareType type
  emit (.overloads (Owner.ofMember path group.isStatic) (Identifier.escape group.name)
    (overloadsOf group))

end Run

/-- The name of an accessor in the script, unless it is ignored. -/
def accessorName? (model : TypeModel) (accessor : MethodDef) : Option String :=
  ((model.member? accessor.id).filter (!·.isIgnored)).map (methodName model)

def propertyDeclaration? (model : TypeModel) (path : String) (member : Member) :
    Option Declaration :=
  if member.isIgnored then none
  else
    member.definition.property?.map fun property =>
      .property (Owner.ofMember path property.isStatic) (Identifier.escape property.name)
        (property.getter.bind (accessorName? model)) (property.setter.bind (accessorName? model))

/-- Names the interfaces that are not ignored, if there are any. -/
def interfaceDeclarations (store : Store) (path : String) (definition : TypeDef) :
    List Declaration :=
  let interfaces := definition.interfaces.filter (!store.ignores ·)
  if interfaces.isEmpty then [] else [.implementedInterfaces path (interfaces.map (·.fullName))]

def constantText : Constant → String
  | .null => "null"
  | .boolean value => if value then "true" else "false"
  | .char value => Text.Quoted.string (String.singleton value)
  | .int value => toString value
  | .unsigned value => toString value
  | .float bits => Decimal.literalStyle.render (.ofBits bits)
  | .string value => Text.Quoted.string value

/-- The first value of a field of a type that is not a struct. -/
def defaultText (graph : Graph) (type : Signature) : String :=
  match type.primitive? with
  | some .boolean => "false"
  | some .char => Text.Quoted.string "\x00"
  | some .string | some .object => "null"
  | some _ => "0"
  | none => if graph.isEnum type then "0" else "null"

/-- The definition of a field that the script has to provide for. -/
def providedField? (member : Member) : Option FieldDef :=
  if member.isIgnored || member.isExternal then none else member.definition.field?

/-- What gives a field its first value, unless it is listed with the structs or
set by the static constructor. -/
def fieldDeclaration? (graph : Graph) (path : String) (member : Member) : Option Declaration :=
  (providedField? member).bind fun field =>
    let owner := Owner.ofMember path field.isStatic
    let name := Identifier.escape field.name
    if field.isLiteral then
      field.constant.map fun value => .constant owner name (constantText value)
    else if graph.isStruct field.type || member.setByStaticConstructor then none
    else some (.initializer owner name (defaultText graph field.type))

/-- A field of an object that holds a struct, with its type. -/
def structField? (graph : Graph) (member : Member) : Option (String × String) :=
  (providedField? member).bind fun field =>
    if !field.isLiteral && graph.isStruct field.type && !field.isStatic then
      some (Identifier.escape field.name, field.type.fullName)
    else none

def fieldDeclarations (graph : Graph) (path : String) (model : TypeModel) : List Declaration :=
  let structs := model.fields.filterMap (structField? graph)
  model.fields.filterMap (fieldDeclaration? graph path) ++
    if structs.isEmpty then [] else [.structFields path structs]

/-- The statements that give static fields their first values. -/
def fieldInitializers (model : TypeModel) : Block :=
  model.staticConstructorFields.map fun field =>
    .expr (.assign none
      (.staticField model.definition.signature field.name field.type) (.defaultValue field.type))

namespace Run

/-! ## Whole types -/

def translateStaticConstructor (model : TypeModel) (path : String) : Run Unit := do
  if model.staticConstructor?.isNone then return
  match model.staticConstructorMember? with
  | some member =>
    if !member.isIgnored then translateMethod model path (fieldInitializers model) member
  | none =>
    throw (.invariant none
      ("static constructor of " ++ model.fullName ++ " is not in its member table"))

/-- Declares everything inside a type. -/
def translateMembers (model : TypeModel) : Run Unit := do
  let path := model.definition.location.path
  for member in model.methods do
    if !member.isIgnored && !TypeModel.isStaticConstructor member then
      translateMethod model path [] member
  for group in model.groups do
    translateGroup model path group
  let store := (← translator).store
  emitAll (model.properties.filterMap (propertyDeclaration? model path) ++
    interfaceDeclarations store path model.definition ++ fieldDeclarations store.graph path model)
  translateStaticConstructor model path

end Run

end Assemblage.Script
