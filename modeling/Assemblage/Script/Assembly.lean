import Assemblage.Script.Members

/-!
# Assemblies

An assembly is translated in three walks over its types: the first declares the
types, the second everything inside them, and the third seals those with a
static constructor, nested ones before the types around them.  An assembly is
translated at most once.
-/

namespace Assemblage.Script

namespace Run

mutual

/-- Walks over a type and the types nested in it, passing over what is ignored:
`enter` comes before the nested types and `leave` after them. -/
def walk (enter leave : TypeModel → Run Unit) : TypeDef → Run Unit
  | ⟨space, name, flags, base, interfaces, fields, methods, properties, nested, generics,
      attributes, scope, outer⟩ => do
    let definition : TypeDef := ⟨space, name, flags, base, interfaces, fields, methods,
      properties, nested, generics, attributes, scope, outer⟩
    let model ← model definition
    if model.ignored then return
    enter model
    walkAll enter leave nested
    leave model

def walkAll (enter leave : TypeModel → Run Unit) : List TypeDef → Run Unit
  | [] => pure ()
  | definition :: rest => do
    walk enter leave definition
    walkAll enter leave rest

end

/-- Declares the members of a type that has only been given a shell. -/
def translateType (model : TypeModel) : Run Unit := do
  if !model.kind.isDeclaredInFull then translateMembers model

def sealType (model : TypeModel) : Run Unit := do
  if model.needsSeal then emit (.sealed model.definition.location)

/-- The types that are not nested, without those of ignored modules. -/
def roots (assembly : AssemblyDef) : List TypeDef :=
  (assembly.modules.filter (!·.isIgnored)).flatMap (·.types)

def translateAssembly (assembly : AssemblyDef) : Run Unit := do
  let name := assembly.fullName
  if (← translator).begun.contains name then return
  update fun translator => { translator with begun := name :: translator.begun }
  (roots assembly).forM declareType
  walkAll translateType (fun _ => pure ()) (roots assembly)
  walkAll (fun _ => pure ()) sealType (roots assembly)

end Run

/-- What a run leaves behind. -/
structure Outcome where
  translator : Translator
  output : List Declaration
  failure : Option Error

namespace Outcome

/-- The text that a writer has got from a run, once it is flushed. -/
def text (outcome : Outcome) (writer : Writer) : Except Error String :=
  match outcome.failure with
  | some error => .error error
  | none => writer.flush.map fun _ => Declaration.lines outcome.output

end Outcome

/-- Translates assemblies one after the other, up to the first error. -/
def Translator.translate (translator : Translator) (sink : Sink)
    (assemblies : List AssemblyDef) : Outcome :=
  let (result, session) := ((assemblies.forM Run.translateAssembly).run).run { translator, sink }
  { translator := session.translator
    output := session.output
    failure := match result with
      | .ok _ => none
      | .error error => some error }

end Assemblage.Script
