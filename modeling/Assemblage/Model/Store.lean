import Assemblage.Diagnostic
import Assemblage.Model.Construction
import Assemblage.Tree.Stmt

/-!
# The store of models

Models are built on request, kept, and never built again.  A request that comes
to nothing is kept as well, and reported the first time.
-/

namespace Assemblage

structure Store where
  program : Program
  /-- The attribute that declares a proxy. -/
  proxyAttribute : String := Attribute.proxy
  cache : Cache := {}
  diagnostics : Diagnostics := {}
deriving Inhabited

namespace Store

def graph (store : Store) : Graph :=
  store.program.graph

def report (store : Store) (entry : Diagnostic) : Store :=
  { store with diagnostics := store.diagnostics.push entry }

/-- Registers a type as a proxy, if it is one and no proxy has its name. -/
def addProxy (store : Store) (definition : TypeDef) : Store :=
  match Proxy.ofDefinition? definition store.proxyAttribute with
  | some proxy =>
    { store with
      program := { store.program with proxies := Proxy.register store.program.proxies proxy } }
  | none => store

/-- Registers the proxies among the types of an assembly.  Models that have been
built before stay as they are. -/
def addProxies (store : Store) (assembly : AssemblyDef) : Store :=
  assembly.allTypes.foldl addProxy store

def model? (store : Store) (id : TypeId) : Option TypeModel :=
  store.cache.model? id

def unresolved (id : TypeId) : Diagnostic :=
  { severity := .warning
    category := .type
    message := "type could not be resolved"
    subject := some id.text }

/-- The model of a definition. -/
def requestDefinition (store : Store) (definition : TypeDef) : Store × Option TypeModel :=
  match store.cache.find? definition.typeId with
  | some entry => (store, entry)
  | none =>
    let cache := store.program.construct store.cache definition
    ({ store with cache }, cache.model? definition.typeId)

/-- Records that there is no model for a signature.  Only a signature that names
a type is worth a warning. -/
def recordAbsent (store : Store) (signature : Signature) : Store :=
  let id := signature.typeId
  let reported :=
    if signature.definitionName?.isSome && signature.primitive?.isNone then
      store.report (unresolved id)
    else store
  { reported with cache := reported.cache.insert id none }

/-- The model of the type that a signature stands for. -/
def request (store : Store) (signature : Signature) : Store × Option TypeModel :=
  match store.cache.find? signature.typeId with
  | some entry => (store, entry)
  | none =>
    match store.graph.resolve? signature with
    | none => (store.recordAbsent signature, none)
    | some definition =>
      let cache := store.program.construct store.cache definition
      let model := cache.model? definition.typeId
      let cache := cache.insert signature.typeId model
      ({ store with cache }, cache.model? signature.typeId)

def ownerNotLoaded (owner : Signature) (id : MemberId) : Diagnostic :=
  { severity := .warning
    category := .type
    message := "type of member '" ++ id.text ++ "' is not loaded"
    subject := some owner.fullName }

def memberNotDefined (model : TypeModel) (id : MemberId) : Diagnostic :=
  { severity := .warning
    category := .member
    message := "member '" ++ id.text ++ "' is not defined"
    subject := some model.fullName }

/-- A member of the type that a signature stands for. -/
def requestMember (store : Store) (owner : Signature) (id : MemberId) :
    Store × Option Member :=
  match store.request owner with
  | (store, none) => (store.report (ownerNotLoaded owner id), none)
  | (store, some model) =>
    match model.member? id with
    | some member => (store, some member)
    | none => (store.report (memberNotDefined model id), none)

def ignores (store : Store) (signature : Signature) : Bool :=
  store.program.ignores store.cache signature

def oracle (store : Store) : Oracle :=
  { isIgnored := store.ignores, isStruct := store.graph.isStruct }

end Store

/-- Without models, only pointers are ignored. -/
def Graph.oracle (graph : Graph) : Oracle :=
  { isIgnored := Signature.isPointer, isStruct := graph.isStruct }

end Assemblage
