import Assemblage.Model.Store
import Assemblage.Lowering.Pipeline
import Assemblage.Script.Declaration

/-!
# Sessions

A translator keeps what it has learned and declared from one run to the next.
During a run it belongs to a session, together with the sink that declarations
go to and what it has taken.  A sink decides from that whether it takes one
more, and its refusal ends the run.  A run that is stopped by an error leaves
everything as it was at that moment.
-/

namespace Assemblage

/-- The tree that was kept with a definition. -/
def MethodDef.decompile (method : MethodDef) : Except Error MethodTree :=
  match method.body with
  | some (.tree _ tree) => .ok tree
  | some (.undecompilable _ message) => .error (.decompilation method.fullName message)
  | none => .error (.decompilation method.fullName "method has no body")

namespace Script

structure Sink where
  accept : List Declaration → Declaration → Except Error Unit

/-- Takes everything. -/
def Sink.collecting : Sink :=
  { accept := fun _ _ => .ok () }

/-- A destination for text.  It is asked about every piece with the text that
was written before. -/
structure Writer where
  write : String → String → Except Error Unit
  flush : Except Error Unit := .ok ()

/-- Writes every declaration on a line of its own. -/
def Writer.sink (writer : Writer) : Sink :=
  { accept := fun taken declaration =>
      writer.write (Declaration.lines taken) (Declaration.lines [declaration]) }

structure Translator where
  store : Store
  pipeline : Lowering.Pipeline := {}
  /-- How the tree of a method is found. -/
  decompile : MethodDef → Except Error MethodTree := MethodDef.decompile
  /-- The types that have been declared. -/
  declared : List TypeId := []
  /-- The paths of the namespaces that have been declared. -/
  namespaces : List String := []
  /-- Display names of the assemblies that have been begun. -/
  begun : List String := []
deriving Inhabited

namespace Translator

def isDeclared (translator : Translator) (id : TypeId) : Bool :=
  translator.declared.contains id

def addProxies (translator : Translator) (assembly : AssemblyDef) : Translator :=
  { translator with store := translator.store.addProxies assembly }

def diagnostics (translator : Translator) : Diagnostics :=
  translator.store.diagnostics

end Translator

structure Session where
  translator : Translator
  sink : Sink
  output : List Declaration := []

/-- A step of a run. -/
abbrev Run := ExceptT Error (StateM Session)

namespace Run

def translator : Run Translator :=
  return (← get).translator

def update (change : Translator → Translator) : Run Unit :=
  modify fun session => { session with translator := change session.translator }

def emit (declaration : Declaration) : Run Unit := do
  let session ← get
  match session.sink.accept session.output declaration with
  | .ok () => set { session with output := session.output ++ [declaration] }
  | .error error => throw error

def emitAll (declarations : List Declaration) : Run Unit :=
  declarations.forM emit

def report (entry : Diagnostic) : Run Unit :=
  update fun translator => { translator with store := translator.store.report entry }

/-- The model of a definition. -/
def model (definition : TypeDef) : Run TypeModel := do
  let (store, model?) := (← translator).store.requestDefinition definition
  update fun translator => { translator with store }
  match model? with
  | some model => return model
  | none => throw (.invariant none ("type " ++ definition.fullName ++ " has no model"))

end Run

end Script

end Assemblage
