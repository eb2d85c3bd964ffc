import Assemblage.Model.Cache

/-!
# Ignored types

What is settled before any model is built: the graph, the types that are ignored
by name and the proxies.  A type is ignored if it is listed, if its attributes,
those of a proxy for it or those of its module say so, or if a type around it is
ignored.  A reference is ignored if any type it is made of is; a pointer always
is, and so is a type that cannot be found.
-/

namespace Assemblage

structure Program where
  graph : Graph
  ignoredTypes : List String := []
  proxies : List Proxy := []
deriving Inhabited

namespace Program

def proxiesFor (program : Program) (definition : TypeDef) : List Proxy :=
  Proxy.applying program.proxies program.graph definition

/-- The marks of a type with those of the proxies for it. -/
def marksOf (program : Program) (definition : TypeDef) : Marks :=
  (program.proxiesFor definition).foldl (fun marks proxy => marks.merge proxy.marks)
    definition.marks

def moduleOf? (program : Program) (definition : TypeDef) : Option ModuleModel :=
  (program.graph.moduleOf? definition).map ModuleModel.of

/-- Whether a type is ignored on its own account. -/
def ignoresItself (program : Program) (definition : TypeDef) : Bool :=
  program.ignoredTypes.contains definition.fullName || (program.marksOf definition).ignored ||
    (program.moduleOf? definition).any (·.ignored)

theorem length_fullName_declaringType? {graph : Graph} {definition outer : TypeDef}
    (h : graph.declaringType? definition = some outer) :
    outer.fullName.length < definition.fullName.length := by
  obtain ⟨-, -, -, hname⟩ := Graph.exists_entry_of_declaringType? h
  have hfull : definition.fullName = outer.fullName ++ "/" ++ definition.name := by
    rw [TypeDef.fullName, hname]
  have hslash : "/".length = 1 := by decide
  rw [hfull, String.length_append, String.length_append, hslash]
  omega

/-- Whether a type or one around it is ignored. -/
def ignoresDefinition (program : Program) (definition : TypeDef) : Bool :=
  program.ignoresItself definition ||
    match _h : program.graph.declaringType? definition with
    | some outer => program.ignoresDefinition outer
    | none => false
termination_by definition.fullName.length
decreasing_by exact length_fullName_declaringType? _h

theorem ignoresDefinition_eq (program : Program) (definition : TypeDef) :
    program.ignoresDefinition definition = (program.ignoresItself definition ||
      (program.graph.declaringType? definition).any program.ignoresDefinition) := by
  rw [ignoresDefinition]
  congr 1
  split
  · rename_i outer houter
    rw [houter, Option.any_some]
  · rename_i hnone
    rw [hnone, Option.any_none]

/-- Whether a named type is ignored.  A model in the cache decides by what was
found when it was built. -/
def ignoresNamed (program : Program) (cache : Cache) (signature : Signature) : Bool :=
  program.ignoredTypes.contains signature.fullName ||
    signature.primitive?.isNone &&
      match program.graph.resolve? signature with
      | none => true
      | some definition =>
        match cache.model? definition.typeId with
        | some model => model.ignored
        | none => program.ignoresDefinition definition

mutual

def ignores (program : Program) (cache : Cache) : Signature → Bool
  | .pointer _ => true
  | .byRef inner | .vector inner | .array inner _ => program.ignores cache inner
  | .generic definition arguments =>
    program.ignores cache definition || program.ignoresAny cache arguments
  | .typeParameter _ | .methodParameter _ => false
  | .primitive p => program.ignoresNamed cache (.primitive p)
  | .reference name => program.ignoresNamed cache (.reference name)
  | .value name => program.ignoresNamed cache (.value name)

def ignoresAny (program : Program) (cache : Cache) : List Signature → Bool
  | [] => false
  | signature :: rest => program.ignores cache signature || program.ignoresAny cache rest

end

/-- Whether a static field of this type is given its first value by the static
constructor: structs, primitive values, parameters and types that cannot be
found are. -/
def needsStaticConstructor (program : Program) : Signature → Bool
  | .vector _ | .array .. | .byRef _ | .pointer _ => false
  | .typeParameter _ | .methodParameter _ => true
  | signature =>
    if signature.primitive?.isSome then signature.isPrimitive
    else
      program.graph.isStruct signature ||
        match program.graph.resolve? signature with
        | none => true
        | some definition => definition.isValueType && !definition.isEnum

end Program

end Assemblage
