import Assemblage.Tree.Stmt

/-!
# Evaluation

What a method body does.  The operands of a node are evaluated from left to
right, those of `&&`, `||` and `?:` only as far as they are needed.  Every
expression evaluates to a place first; reading the place gives its value, and an
assignment writes there instead.  Values, the heap and everything that operators
and calls do with them are parameters.
-/

namespace Assemblage

/-- A place in the heap. -/
inductive HeapPlace (Value : Type) where
  | static (owner : Signature) (name : String) (type : Signature)
  | field (target : Value) (owner : Signature) (name : String) (type : Signature)
  | element (array index : Value) (type : Signature)

/-- The meaning of what trees leave open.  Calls and the creation of objects see
the heap, may change it, and return a value or throw one. -/
structure Interpretation where
  Value : Type
  Heap : Type
  literal : Literal → Value
  self : Value
  defaultValue : Signature → Value
  isTrue : Value → Bool
  binary : BinaryOp → Value → Value → Value
  unary : UnaryOp → Value → Value
  copy : Value → Value
  cast : Signature → Value → Value
  read : HeapPlace Value → Heap → Value
  write : HeapPlace Value → Value → Heap → Heap
  call : Option Value → MethodRef → List Value → Heap → Except Value Value × Heap
  create : Signature → List Value → Heap → Except Value Value × Heap
  /-- What a variable holds once it is declared without a value. -/
  declared : Value → Value

@[ext]
structure State (I : Interpretation) where
  heap : I.Heap
  slots : VariableId → I.Value

namespace State

variable {I : Interpretation}

def set (state : State I) (id : VariableId) (value : I.Value) : State I :=
  { state with slots := fun other => if other = id then value else state.slots other }

def withHeap (state : State I) (heap : I.Heap) : State I :=
  { state with heap }

end State

/-- What runs on a state and comes to a result or throws a value. -/
abbrev Action (I : Interpretation) : Type → Type :=
  ExceptT I.Value (StateM (State I))

/-- What an expression evaluates to before it is read. -/
inductive Located (I : Interpretation) where
  | slot (id : VariableId)
  | heap (place : HeapPlace I.Value)
  | value (value : I.Value)

namespace Evaluation

variable (I : Interpretation)

variable {I} in
def load : Located I → Action I I.Value
  | .slot id => return (← get).slots id
  | .heap place => return I.read place (← get).heap
  | .value value => return value

variable {I} in
/-- A value that is no place is not written to. -/
def store : Located I → I.Value → Action I Unit
  | .slot id, value => modify (·.set id value)
  | .heap place, value => modify fun state => state.withHeap (I.write place value state.heap)
  | .value _, _ => return ()

variable {I} in
def invoke (method : I.Heap → Except I.Value I.Value × I.Heap) : Action I I.Value :=
  ExceptT.mk do
    let state ← get
    set (state.withHeap (method state.heap).2)
    return (method state.heap).1

/-- Whether the operator returns what the operand held before. -/
def isPostfix : UnaryOp → Bool
  | .postIncrement | .postDecrement => true
  | _ => false

mutual

def locate : Expr → Action I (Located I)
  | .literal value => return .value (I.literal value)
  | .raw id | .bound id => return .slot id
  | .self => return .value I.self
  | .staticField owner name type => return .heap (.static owner name type)
  | .field target owner name type => do
    let target ← locate target >>= load
    return .heap (.field target owner name type)
  | .element array index type => do
    let array ← locate array >>= load
    let index ← locate index >>= load
    return .heap (.element array index type)
  | .staticCall method arguments => do
    let arguments ← valuesOf arguments
    return .value (← invoke (I.call none method arguments))
  | .call target method arguments => do
    let target ← locate target >>= load
    let arguments ← valuesOf arguments
    return .value (← invoke (I.call (some target) method arguments))
  | .create type arguments => do
    let arguments ← valuesOf arguments
    return .value (← invoke (I.create type arguments))
  | .binary op left right => do
    let left ← locate left >>= load
    if op.isShortCircuit then
      if I.isTrue left = (op == .and) then return .value (← locate right >>= load)
      else return .value left
    else
      let right ← locate right >>= load
      return .value (I.binary op left right)
  | .unary op operand => do
    let place ← locate operand
    let old ← load place
    if op.isMutating then
      store place (I.unary op old)
      return .value (if isPostfix op then old else I.unary op old)
    else return .value (I.unary op old)
  | .assign none target value => do
    let place ← locate target
    let value ← locate value >>= load
    store place value
    return .value value
  | .assign (some op) target value => do
    let place ← locate target
    let old ← load place
    let value ← locate value >>= load
    store place (I.binary op old value)
    return .value (I.binary op old value)
  | .conditional condition whenTrue whenFalse => do
    let condition ← locate condition >>= load
    if I.isTrue condition then return .value (← locate whenTrue >>= load)
    else return .value (← locate whenFalse >>= load)
  | .copy value => do
    let value ← locate value >>= load
    return .value (I.copy value)
  | .defaultValue type => return .value (I.defaultValue type)
  | .cast type value => do
    let value ← locate value >>= load
    return .value (I.cast type value)

def valuesOf : List Expr → Action I (List I.Value)
  | [] => return []
  | expr :: rest => do
    let value ← locate expr >>= load
    let values ← valuesOf rest
    return value :: values

end

def valueOf (expr : Expr) : Action I I.Value :=
  locate I expr >>= load

/-- How a statement ends. -/
inductive Completion where
  | normal
  | broke
  | continued
  | returned (value : Option I.Value)
  | thrown (value : I.Value)

/-- What a statement does with a state.  It has no outcome if some loop takes more
turns than it is given. -/
abbrev Run : Type :=
  State I → Option (Completion I × State I)

variable {I}

def finish (completion : Completion I) : Run I :=
  fun state => some (completion, state)

/-- What an action comes to, with the state that it leaves. -/
def outcome {α : Type} (action : Action I α) (state : State I) : Except I.Value α × State I :=
  action.run.run state

/-- Goes on with the value of an action unless it throws. -/
def evaluating {α : Type} (action : Action I α) (next : α → Run I) : Run I :=
  fun state =>
    match outcome action state with
    | (.ok value, state) => next value state
    | (.error value, state) => some (.thrown value, state)

def followedBy (first second : Run I) : Run I :=
  fun state =>
    match first state with
    | some (.normal, state) => second state
    | outcome => outcome

def repeating (condition : Action I I.Value) (body : Run I) : Nat → Run I
  | 0 => fun _ => none
  | turns + 1 => evaluating condition fun value =>
    if I.isTrue value then fun state =>
      match body state with
      | some (.normal, state) | some (.continued, state) => repeating condition body turns state
      | some (.broke, state) => some (.normal, state)
      | outcome => outcome
    else finish .normal

def assigning (id : VariableId) (value : I.Value) : Run I :=
  fun state => some (.normal, state.set id value)

variable (I) in
mutual

/-- Runs a statement in which no loop takes more than the given number of turns. -/
def execute (turns : Nat) : Stmt → Run I
  | .expr value => evaluating (valueOf I value) fun _ => finish .normal
  | .declare id none => fun state => assigning id (I.declared (state.slots id)) state
  | .declare id (some value) => evaluating (valueOf I value) (assigning id)
  | .block body => executeAll turns body
  | .ifThen condition body => evaluating (valueOf I condition) fun value =>
    if I.isTrue value then executeAll turns body else finish .normal
  | .ifElse condition body otherwise => evaluating (valueOf I condition) fun value =>
    if I.isTrue value then executeAll turns body else executeAll turns otherwise
  | .loop condition body => repeating (valueOf I condition) (executeAll turns body) turns
  | .ret none => finish (.returned none)
  | .ret (some value) => evaluating (valueOf I value) fun value => finish (.returned (some value))
  | .breakLoop => finish .broke
  | .continueLoop => finish .continued
  | .raise value => evaluating (valueOf I value) fun value => finish (.thrown value)

def executeAll (turns : Nat) : List Stmt → Run I
  | [] => finish .normal
  | stmt :: rest => followedBy (execute turns stmt) (executeAll turns rest)

end

end Evaluation

end Assemblage
