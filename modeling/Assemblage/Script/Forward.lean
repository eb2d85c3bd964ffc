import Assemblage.Script.Session

/-!
# Forward declarations

Types are declared before any of their members.  Interfaces and enumerations
are declared in full at once; other types get a shell, after that of a base
from the same assembly, and the types nested in them follow.
-/

namespace Assemblage.Script

def interfaceMember? (member : Member) : Option (String × InterfaceMember) :=
  if member.isIgnored then none
  else
    match member.definition with
    | .method method => some (Identifier.escape method.name, .function)
    | .property property => some (Identifier.escape property.name, .property)
    | .field _ => none

/-- Adds an entry unless there is one of its name. -/
def addIfNew (entries : List (String × InterfaceMember)) (entry : String × InterfaceMember) :
    List (String × InterfaceMember) :=
  if entries.any (·.1 == entry.1) then entries else entries ++ [entry]

/-- The members of an interface; of several with one name only the first counts. -/
def interfaceMembers (model : TypeModel) : List (String × InterfaceMember) :=
  (model.members.filterMap interfaceMember?).foldl addIfNew []

def enumerationValues (model : TypeModel) : List (String × Int) :=
  model.enumMembers.map fun member => (Identifier.escape member.name, member.value)

/-- The declaration that brings a type into being. -/
def typeDeclaration (model : TypeModel) : Declaration :=
  let definition := model.definition
  let location := definition.location
  match model.kind with
  | .interface => .interface location model.fullName (interfaceMembers model)
  | .enumeration => .enumeration location model.fullName (enumerationValues model) model.isFlags
  | .struct => .structShell location model.fullName
  | .staticClass => .staticClassShell location model.fullName
  | .reference =>
    .classShell ((definition.base.map (·.fullName)).getD "System.Object") location model.fullName

namespace Run

def markDeclared (id : TypeId) : Run Unit :=
  update fun translator => { translator with declared := id :: translator.declared }

/-- Declares the namespace of a type that is not nested, once for each path. -/
def declareNamespace (definition : TypeDef) : Run Unit := do
  if definition.isNested || definition.space.isEmpty then return
  let path := Identifier.escapePath definition.space
  if (← translator).namespaces.contains path then return
  update fun translator => { translator with namespaces := path :: translator.namespaces }
  emit (.namespaceObject path)

def baseCycle (definition : TypeDef) : Diagnostic :=
  { severity := .error
    category := .declaration
    message := "inheritance cycle; base declaration skipped"
    subject := some definition.fullName }

def idsWithout (id : TypeId) (ids : List TypeId) : List TypeId :=
  ids.filter (· ≠ id)

theorem length_idsWithout_lt {id : TypeId} {ids : List TypeId} (h : id ∈ ids) :
    (idsWithout id ids).length < ids.length := by
  rw [idsWithout, List.length_filter_lt_length_iff_exists]
  exact ⟨id, h, by simp⟩

/-- Declares a type with all there is to say about it. -/
def declareInFull (model : TypeModel) : Run Unit := do
  if model.kind.isDeclaredInFull then emit (typeDeclaration model)
  else
    throw (.invariant none
      (model.fullName ++ " is a " ++ model.kind.text ++ " and has no full declaration"))

/-- Declares a type without its members. -/
def declareShell (model : TypeModel) : Run Unit := do
  if model.kind.isDeclaredInFull then
    throw (.invariant none
      (model.fullName ++ " is a " ++ model.kind.text ++ " and has no shell declaration"))
  else emit (typeDeclaration model)

/-- The base of a type, if it comes from the same assembly. -/
def ownBase? (graph : Graph) (definition : TypeDef) : Option TypeDef :=
  (graph.baseType? definition).filter (·.sameAssembly definition)

/-- Declares the base of a type from the same assembly, unless that has been done
or the base is itself one of the types `pending`. -/
def declareBase (graph : Graph) (pending : List TypeId) (declare : TypeDef → Run Unit)
    (definition : TypeDef) : Run Unit := do
  match ownBase? graph definition with
  | some base =>
    if pending.contains base.typeId then report (baseCycle definition)
    else if !(← translator).isDeclared base.typeId then declare base
  | none => return

/-- Declares a type with its base and what is nested in it.  `pending` are the
types whose shell waits for that of a base; `remaining` holds every type that
may still be declared, and those that are being declared are not among them.  A
type that is neither there nor declared would end the run. -/
def declare (graph : Graph) (remaining pending : List TypeId) (definition : TypeDef) :
    Run Unit := do
  let model ← model definition
  let id := definition.typeId
  if model.ignored || (← translator).isDeclared id then return
  if _h : id ∈ remaining then
    markDeclared id
    declareNamespace definition
    if model.kind.isDeclaredInFull then
      declareInFull model
      definition.nested.forM fun nested => declare graph (idsWithout id remaining) pending nested
    else
      declareBase graph (id :: pending)
        (fun base => declare graph (idsWithout id remaining) (id :: pending) base) definition
      declareShell model
      model.definition.nested.forM fun nested =>
        declare graph (idsWithout id remaining) pending nested
  else throw (.invariant none ("type " ++ definition.fullName ++ " is out of reach"))
termination_by remaining.length
decreasing_by
  all_goals exact length_idsWithout_lt _h

/-- Every type that can come up while a type is declared: those of the graph, and
those nested in it or in a type that has a model. -/
def reachable (store : Store) (definition : TypeDef) : List TypeDef :=
  let known := definition :: store.cache.models.map (·.definition)
  store.graph.index.map (·.definition) ++ known.flatMap (·.withNested)

/-- Declares a type, unless that has been done. -/
def declareType (definition : TypeDef) : Run Unit := do
  let store := (← translator).store
  declare store.graph ((reachable store definition).map (·.typeId)) [] definition

end Run

end Assemblage.Script
