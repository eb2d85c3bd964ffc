/-!
# Type signatures

How metadata refers to a type: a primitive, a named class or value type, a
generic instance, a type built around another one, or a parameter of a generic
type or method.  A named reference may spell out a primitive; both spellings
have the same full name.
-/

namespace Assemblage

/-- The name of a type.  The path of a nested type holds the names of the
enclosing types, separated by `/`, and its namespace is that of the outermost. -/
structure TypeName where
  /-- Simple name of the assembly the reference points into. -/
  scope : Option String := none
  space : String
  path : String
deriving DecidableEq, Inhabited

inductive Primitive where
  | void | boolean | char
  | int8 | uint8 | int16 | uint16 | int32 | uint32 | int64 | uint64
  | float32 | float64 | nativeInt | nativeUInt
  | string | object
deriving DecidableEq, Inhabited

namespace Primitive

def all : List Primitive :=
  [void, boolean, char, int8, uint8, int16, uint16, int32, uint32, int64, uint64, float32,
   float64, nativeInt, nativeUInt, string, object]

def simpleName : Primitive → String
  | void => "Void"
  | boolean => "Boolean"
  | char => "Char"
  | int8 => "SByte"
  | uint8 => "Byte"
  | int16 => "Int16"
  | uint16 => "UInt16"
  | int32 => "Int32"
  | uint32 => "UInt32"
  | int64 => "Int64"
  | uint64 => "UInt64"
  | float32 => "Single"
  | float64 => "Double"
  | nativeInt => "IntPtr"
  | nativeUInt => "UIntPtr"
  | string => "String"
  | object => "Object"

def fullName (primitive : Primitive) : String :=
  "System." ++ primitive.simpleName

def ofFullName? (name : String) : Option Primitive :=
  all.find? (·.fullName == name)

/-- The primitives whose values are copied: all but void, strings and objects. -/
def isValue : Primitive → Bool
  | void | string | object => false
  | _ => true

end Primitive

namespace TypeName

def fullName (name : TypeName) : String :=
  if name.space.isEmpty then name.path else name.space ++ "." ++ name.path

end TypeName

inductive Signature where
  | primitive (primitive : Primitive)
  | reference (name : TypeName)
  | value (name : TypeName)
  | generic (definition : Signature) (arguments : List Signature)
  | vector (element : Signature)
  | array (element : Signature) (rank : Nat)
  | byRef (target : Signature)
  | pointer (target : Signature)
  | typeParameter (index : Nat)
  | methodParameter (index : Nat)
deriving Inhabited

namespace Signature

/-- The primitive a signature stands for, spelled by its own form or by name. -/
def primitive? : Signature → Option Primitive
  | .primitive p => some p
  | .reference name | .value name => Primitive.ofFullName? name.fullName
  | _ => none

def isPrimitive (signature : Signature) : Bool :=
  match signature.primitive? with
  | some p => p.isValue
  | none => false

/-- Whether the reference itself is encoded as one to a value type. -/
def isValueType : Signature → Bool
  | .value _ => true
  | .generic definition _ => definition.isValueType
  | .primitive p => p.isValue
  | _ => false

/-- Whether this is a pointer, or an array of or reference to one. -/
def isPointer : Signature → Bool
  | .pointer _ => true
  | .byRef inner | .vector inner | .array inner _ => inner.isPointer
  | _ => false

/-- The signature inside all arrays, references and pointers around it. -/
def element : Signature → Signature
  | .byRef inner | .pointer inner | .vector inner | .array inner _ => inner.element
  | other => other

/-- The name under which the definition of the type is looked up. -/
def definitionName? : Signature → Option TypeName
  | .reference name | .value name => some name
  | .generic definition _ => definition.definitionName?
  | .primitive p => some { space := "System", path := p.simpleName }
  | _ => none

/-- What follows the element type of an array: brackets around a comma for each
dimension after the first. -/
def arraySuffix (rank : Nat) : String :=
  "[" ++ String.ofList (List.replicate (rank - 1) ',') ++ "]"

mutual

def fullName : Signature → String
  | .primitive p => p.fullName
  | .reference name | .value name => name.fullName
  | .generic definition arguments =>
    definition.fullName ++ "<" ++ ",".intercalate (fullNames arguments) ++ ">"
  | .vector element => element.fullName ++ "[]"
  | .array element rank => element.fullName ++ arraySuffix rank
  | .byRef target => target.fullName ++ "&"
  | .pointer target => target.fullName ++ "*"
  | .typeParameter index => "!" ++ toString index
  | .methodParameter index => "!!" ++ toString index

def fullNames : List Signature → List String
  | [] => []
  | signature :: rest => signature.fullName :: fullNames rest

end

mutual

def beq : Signature → Signature → Bool
  | .primitive p, .primitive q => p == q
  | .reference name, .reference name' => name == name'
  | .value name, .value name' => name == name'
  | .generic definition arguments, .generic definition' arguments' =>
    beq definition definition' && beqList arguments arguments'
  | .vector element, .vector element' => beq element element'
  | .array element rank, .array element' rank' => beq element element' && rank == rank'
  | .byRef target, .byRef target' => beq target target'
  | .pointer target, .pointer target' => beq target target'
  | .typeParameter index, .typeParameter index' => index == index'
  | .methodParameter index, .methodParameter index' => index == index'
  | _, _ => false

def beqList : List Signature → List Signature → Bool
  | [], [] => true
  | signature :: rest, signature' :: rest' => beq signature signature' && beqList rest rest'
  | _, _ => false

end

instance : BEq Signature := ⟨beq⟩

/-- A name that spells out a primitive is the primitive's own full name. -/
theorem fullName_eq_of_primitive? {signature : Signature} {p : Primitive}
    (h : signature.primitive? = some p) : signature.fullName = p.fullName := by
  cases signature with
  | primitive q =>
    simp only [primitive?, Option.some.injEq] at h
    rw [fullName, h]
  | reference name | value name =>
    have := List.find?_some h
    simp only [beq_iff_eq] at this
    rw [fullName, this]
  | _ => simp [primitive?] at h

end Signature

end Assemblage
