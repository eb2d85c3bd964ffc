import Assemblage.Model.Store

/-!
# Walks that decide what is ignored

A reference is taken apart on a stack: what is on top is either taken apart itself or
decided, and the first part that is ignored ends the walk.  From a type the walk goes
outwards to the types around it, and would end where it meets a name again.
-/

namespace Assemblage

namespace Signature

mutual

/-- The number of references a reference is put together from. -/
def weight : Signature → Nat
  | .byRef inner | .pointer inner | .vector inner | .array inner _ => inner.weight + 1
  | .generic definition arguments => definition.weight + weightOfList arguments + 1
  | .primitive _ | .reference _ | .value _ | .typeParameter _ | .methodParameter _ => 1

def weightOfList : List Signature → Nat
  | [] => 0
  | signature :: rest => signature.weight + weightOfList rest

end

theorem weightOfList_append (left right : List Signature) :
    weightOfList (left ++ right) = weightOfList left + weightOfList right := by
  induction left with
  | nil => rw [List.nil_append, weightOfList, Nat.zero_add]
  | cons signature rest ih => rw [List.cons_append, weightOfList, ih, weightOfList, Nat.add_assoc]

theorem weightOfList_reverse (signatures : List Signature) :
    weightOfList signatures.reverse = weightOfList signatures := by
  induction signatures with
  | nil => rfl
  | cons signature rest ih =>
    rw [List.reverse_cons, weightOfList_append, ih, weightOfList, weightOfList, weightOfList,
      Nat.add_zero, Nat.add_comm]

end Signature

namespace Program

/-- Goes from a type outwards until one is ignored itself, with the names of the types
that it has left behind. -/
def walkOutwards (program : Program) (seen : List String) (definition : TypeDef) : Bool :=
  if seen.contains definition.fullName then false
  else if program.ignoresItself definition then true
  else
    match _h : program.graph.declaringType? definition with
    | some outer => program.walkOutwards (definition.fullName :: seen) outer
    | none => false
termination_by definition.fullName.length
decreasing_by exact length_fullName_declaringType? _h

/-- Decides a named type, from its model if there is one. -/
def decideNamed (program : Program) (cache : Cache) (signature : Signature) : Bool :=
  if program.ignoredTypes.contains signature.fullName then true
  else if signature.primitive?.isSome then false
  else
    match program.graph.resolve? signature with
    | none => true
    | some definition =>
      match cache.model? definition.typeId with
      | some model => model.ignored
      | none => program.walkOutwards [] definition

/-- Takes the references on a stack apart, the last argument of a generic instance first. -/
def walkStack (program : Program) (cache : Cache) : List Signature → Bool
  | [] => false
  | .pointer _ :: _ => true
  | .byRef inner :: rest | .vector inner :: rest | .array inner _ :: rest =>
    program.walkStack cache (inner :: rest)
  | .generic definition arguments :: rest =>
    program.walkStack cache (arguments.reverse ++ definition :: rest)
  | .typeParameter _ :: rest | .methodParameter _ :: rest => program.walkStack cache rest
  | .primitive p :: rest =>
    if program.decideNamed cache (.primitive p) then true else program.walkStack cache rest
  | .reference name :: rest =>
    if program.decideNamed cache (.reference name) then true else program.walkStack cache rest
  | .value name :: rest =>
    if program.decideNamed cache (.value name) then true else program.walkStack cache rest
termination_by stack => Signature.weightOfList stack
decreasing_by
  all_goals
    simp only [List.unattach_reverse, List.unattach_attach, Signature.weightOfList_append,
      Signature.weightOfList_reverse, Signature.weightOfList, Signature.weight]
    omega

end Program

namespace Store

def walkSignature (store : Store) (signature : Signature) : Bool :=
  store.program.walkStack store.cache [signature]

def walkDefinition (store : Store) (definition : TypeDef) : Bool :=
  store.program.walkOutwards [] definition

end Store

end Assemblage
