import Assemblage.Decimal.Shortest
import Assemblage.Tree.Operator
import Assemblage.Tree.Variable

/-!
# Expressions

The expressions of a method body.  A variable is `raw` as long as it has not
been bound to its declaration and `bound` from then on.  `children` lists the
operands of a node in the order of their evaluation, and every walk over an
expression follows that order.
-/

namespace Assemblage

inductive Literal where
  | null
  | boolean (value : Bool)
  | int (value : Int)
  /-- A double precision number by its bits. -/
  | float (bits : UInt64)
  | char (value : Char)
  | string (value : String)
deriving DecidableEq, Inhabited

/-- Equality of the values: floating point literals compare as numbers. -/
def Literal.sameValue : Literal → Literal → Bool
  | .float bits, .float bits' =>
    (Decimal.Binary.ofBits bits).sameNumber (Decimal.Binary.ofBits bits')
  | left, right => left == right

/-- The method that a call names. -/
structure MethodRef where
  declaring : Signature
  name : String
  result : Signature
  parameters : List Signature
  isStatic : Bool
deriving Inhabited

namespace MethodRef

def fullName (method : MethodRef) : String :=
  method.result.fullName ++ " " ++ method.declaring.fullName ++ "::" ++ method.name ++ "(" ++
    ",".intercalate (method.parameters.map Signature.fullName) ++ ")"

def beq (left right : MethodRef) : Bool :=
  left.declaring == right.declaring && left.name == right.name && left.result == right.result &&
    left.parameters == right.parameters && left.isStatic == right.isStatic

instance : BEq MethodRef := ⟨beq⟩

end MethodRef

inductive Expr where
  | literal (value : Literal)
  | raw (id : VariableId)
  | bound (id : VariableId)
  /-- The instance the method runs on. -/
  | self
  | staticField (owner : Signature) (name : String) (type : Signature)
  | field (target : Expr) (owner : Signature) (name : String) (type : Signature)
  | element (array index : Expr) (type : Signature)
  | staticCall (method : MethodRef) (arguments : List Expr)
  | call (target : Expr) (method : MethodRef) (arguments : List Expr)
  | create (type : Signature) (arguments : List Expr)
  | binary (op : BinaryOp) (left right : Expr)
  | unary (op : UnaryOp) (operand : Expr)
  /-- A compound assignment where there is an operator. -/
  | assign (op : Option BinaryOp) (target value : Expr)
  | conditional (condition whenTrue whenFalse : Expr)
  /-- A copy of the value of a struct. -/
  | copy (value : Expr)
  | defaultValue (type : Signature)
  | cast (type : Signature) (value : Expr)
deriving Inhabited

namespace Expr

/-- The variable an expression consists of. -/
def asVariable? : Expr → Option VariableId
  | .raw id | .bound id => some id
  | _ => none

def isVariable (expr : Expr) (id : VariableId) : Bool :=
  expr.asVariable? == some id

/-- The type of an expression where the expression itself tells it. -/
def type? (table : VariableTable) : Expr → Option Signature
  | .literal value =>
    match value with
    | .null => none
    | .boolean _ => some (.primitive .boolean)
    | .int _ => some (.primitive .int32)
    | .float _ => some (.primitive .float64)
    | .char _ => some (.primitive .char)
    | .string _ => some (.primitive .string)
  | .raw id | .bound id => (table.get? id).map (·.type)
  | .self => none
  | .staticField _ _ type | .field _ _ _ type | .element _ _ type => some type
  | .create type _ | .defaultValue type | .cast type _ => some type
  | .staticCall method _ | .call _ method _ =>
    match method.result with
    | .primitive .void => none
    | type => some type
  | .binary op left _ => if op.isComparison then some (.primitive .boolean) else left.type? table
  | .unary .not _ => some (.primitive .boolean)
  | .unary _ operand => operand.type? table
  | .assign _ target _ => target.type? table
  | .conditional _ whenTrue _ => whenTrue.type? table
  | .copy value => value.type? table

/-- The operands of a node in the order of their evaluation. -/
def children : Expr → List Expr
  | .literal _ | .raw _ | .bound _ | .self | .staticField .. | .defaultValue _ => []
  | .field target .. => [target]
  | .element array index _ => [array, index]
  | .staticCall _ arguments | .create _ arguments => arguments
  | .call target _ arguments => target :: arguments
  | .binary _ left right => [left, right]
  | .unary _ operand => [operand]
  | .assign _ target value => [target, value]
  | .conditional condition whenTrue whenFalse => [condition, whenTrue, whenFalse]
  | .copy value | .cast _ value => [value]

/-- The types a node names. -/
def types : Expr → List Signature
  | .create type _ | .cast type _ | .defaultValue type | .element _ _ type => [type]
  | .staticField owner _ type | .field _ owner _ type => [owner, type]
  | .staticCall method _ | .call _ method _ =>
    method.declaring :: method.result :: method.parameters
  | _ => []

/-- Whether the evaluation of the node itself, its operands apart, can write. -/
def isEffectfulNode : Expr → Bool
  | .staticCall .. | .call .. | .create .. | .assign .. => true
  | .unary op _ => op.isMutating
  | _ => false

/-- Whether the value depends on no state at all. -/
def isConstant : Expr → Bool
  | .literal _ | .defaultValue _ | .self => true
  | _ => false

/-- Whether this reads something that can be written to: a variable, a field or
an array element. -/
def isLocation : Expr → Bool
  | .raw _ | .bound _ | .staticField .. | .field .. | .element .. => true
  | _ => false

mutual

/-- The node and all nodes below it, each before its operands. -/
def nodes : Expr → List Expr
  | e@(.literal _) | e@(.raw _) | e@(.bound _) | e@.self | e@(.staticField ..)
  | e@(.defaultValue _) => [e]
  | .field target owner name type => .field target owner name type :: target.nodes
  | .element array index type => .element array index type :: (array.nodes ++ index.nodes)
  | .staticCall method arguments => .staticCall method arguments :: nodesOfList arguments
  | .call target method arguments =>
    .call target method arguments :: (target.nodes ++ nodesOfList arguments)
  | .create type arguments => .create type arguments :: nodesOfList arguments
  | .binary op left right => .binary op left right :: (left.nodes ++ right.nodes)
  | .unary op operand => .unary op operand :: operand.nodes
  | .assign op target value => .assign op target value :: (target.nodes ++ value.nodes)
  | .conditional condition whenTrue whenFalse =>
    .conditional condition whenTrue whenFalse ::
      (condition.nodes ++ whenTrue.nodes ++ whenFalse.nodes)
  | .copy value => .copy value :: value.nodes
  | .cast type value => .cast type value :: value.nodes

def nodesOfList : List Expr → List Expr
  | [] => []
  | expr :: rest => expr.nodes ++ nodesOfList rest

end

mutual

/-- The node and all nodes below it, each after its operands. -/
def nodesAfter : Expr → List Expr
  | e@(.literal _) | e@(.raw _) | e@(.bound _) | e@.self | e@(.staticField ..)
  | e@(.defaultValue _) => [e]
  | .field target owner name type => target.nodesAfter ++ [.field target owner name type]
  | .element array index type =>
    array.nodesAfter ++ index.nodesAfter ++ [.element array index type]
  | .staticCall method arguments => nodesAfterOfList arguments ++ [.staticCall method arguments]
  | .call target method arguments =>
    target.nodesAfter ++ nodesAfterOfList arguments ++ [.call target method arguments]
  | .create type arguments => nodesAfterOfList arguments ++ [.create type arguments]
  | .binary op left right => left.nodesAfter ++ right.nodesAfter ++ [.binary op left right]
  | .unary op operand => operand.nodesAfter ++ [.unary op operand]
  | .assign op target value => target.nodesAfter ++ value.nodesAfter ++ [.assign op target value]
  | .conditional condition whenTrue whenFalse =>
    condition.nodesAfter ++ whenTrue.nodesAfter ++ whenFalse.nodesAfter ++
      [.conditional condition whenTrue whenFalse]
  | .copy value => value.nodesAfter ++ [.copy value]
  | .cast type value => value.nodesAfter ++ [.cast type value]

def nodesAfterOfList : List Expr → List Expr
  | [] => []
  | expr :: rest => expr.nodesAfter ++ nodesAfterOfList rest

end

mutual

/-- Applies a step to every node after its operands, and adds up what it reports. -/
def mapCounting (step : Expr → Expr × Nat) : Expr → Expr × Nat
  | e@(.literal _) | e@(.raw _) | e@(.bound _) | e@.self | e@(.staticField ..)
  | e@(.defaultValue _) => step e
  | .field target owner name type =>
    let (target, n) := target.mapCounting step
    let (result, k) := step (.field target owner name type)
    (result, n + k)
  | .element array index type =>
    let (array, n) := array.mapCounting step
    let (index, m) := index.mapCounting step
    let (result, k) := step (.element array index type)
    (result, n + m + k)
  | .staticCall method arguments =>
    let (arguments, n) := mapCountingList step arguments
    let (result, k) := step (.staticCall method arguments)
    (result, n + k)
  | .call target method arguments =>
    let (target, n) := target.mapCounting step
    let (arguments, m) := mapCountingList step arguments
    let (result, k) := step (.call target method arguments)
    (result, n + m + k)
  | .create type arguments =>
    let (arguments, n) := mapCountingList step arguments
    let (result, k) := step (.create type arguments)
    (result, n + k)
  | .binary op left right =>
    let (left, n) := left.mapCounting step
    let (right, m) := right.mapCounting step
    let (result, k) := step (.binary op left right)
    (result, n + m + k)
  | .unary op operand =>
    let (operand, n) := operand.mapCounting step
    let (result, k) := step (.unary op operand)
    (result, n + k)
  | .assign op target value =>
    let (target, n) := target.mapCounting step
    let (value, m) := value.mapCounting step
    let (result, k) := step (.assign op target value)
    (result, n + m + k)
  | .conditional condition whenTrue whenFalse =>
    let (condition, n) := condition.mapCounting step
    let (whenTrue, m) := whenTrue.mapCounting step
    let (whenFalse, l) := whenFalse.mapCounting step
    let (result, k) := step (.conditional condition whenTrue whenFalse)
    (result, n + m + l + k)
  | .copy value =>
    let (value, n) := value.mapCounting step
    let (result, k) := step (.copy value)
    (result, n + k)
  | .cast type value =>
    let (value, n) := value.mapCounting step
    let (result, k) := step (.cast type value)
    (result, n + k)

def mapCountingList (step : Expr → Expr × Nat) : List Expr → List Expr × Nat
  | [] => ([], 0)
  | expr :: rest =>
    let (expr, n) := expr.mapCounting step
    let (rest, m) := mapCountingList step rest
    (expr :: rest, n + m)

end

/-- Applies a function to every node after its operands. -/
def map (f : Expr → Expr) (expr : Expr) : Expr :=
  (expr.mapCounting fun e => (f e, 0)).1

/-- Whether some node below or at the top can write. -/
def hasSideEffects (expr : Expr) : Bool :=
  expr.nodes.any isEffectfulNode

def mentions (id : VariableId) (expr : Expr) : Bool :=
  expr.nodes.any (·.isVariable id)

mutual

/-- Equality of expressions; a literal that is no number differs from itself. -/
def beq : Expr → Expr → Bool
  | .literal value, .literal value' => value.sameValue value'
  | .raw id, .raw id' => id == id'
  | .bound id, .bound id' => id == id'
  | .self, .self => true
  | .staticField owner name type, .staticField owner' name' type' =>
    owner == owner' && name == name' && type == type'
  | .field target owner name type, .field target' owner' name' type' =>
    beq target target' && owner == owner' && name == name' && type == type'
  | .element array index type, .element array' index' type' =>
    beq array array' && beq index index' && type == type'
  | .staticCall method arguments, .staticCall method' arguments' =>
    method == method' && beqList arguments arguments'
  | .call target method arguments, .call target' method' arguments' =>
    beq target target' && method == method' && beqList arguments arguments'
  | .create type arguments, .create type' arguments' =>
    type == type' && beqList arguments arguments'
  | .binary op left right, .binary op' left' right' =>
    op == op' && beq left left' && beq right right'
  | .unary op operand, .unary op' operand' => op == op' && beq operand operand'
  | .assign op target value, .assign op' target' value' =>
    op == op' && beq target target' && beq value value'
  | .conditional condition whenTrue whenFalse, .conditional condition' whenTrue' whenFalse' =>
    beq condition condition' && beq whenTrue whenTrue' && beq whenFalse whenFalse'
  | .copy value, .copy value' => beq value value'
  | .defaultValue type, .defaultValue type' => type == type'
  | .cast type value, .cast type' value' => type == type' && beq value value'
  | _, _ => false

def beqList : List Expr → List Expr → Bool
  | [], [] => true
  | expr :: rest, expr' :: rest' => beq expr expr' && beqList rest rest'
  | _, _ => false

end

instance : BEq Expr := ⟨beq⟩

end Expr

end Assemblage
