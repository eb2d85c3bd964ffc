import Assemblage.Tree.Expr

/-!
# Statements

The statements of a method body.  A block is a list of statements.  Every walk
takes a statement first, then the blocks inside it, then the next statement.
-/

namespace Assemblage

inductive Stmt where
  | expr (value : Expr)
  | declare (id : VariableId) (value : Option Expr)
  | block (body : List Stmt)
  | ifThen (condition : Expr) (body : List Stmt)
  | ifElse (condition : Expr) (body otherwise : List Stmt)
  | loop (condition : Expr) (body : List Stmt)
  | ret (value : Option Expr)
  | breakLoop
  | continueLoop
  | raise (value : Expr)
deriving Inhabited

abbrev Block := List Stmt

namespace Stmt

/-- The variable and the value of a statement that only assigns one. -/
def assignment? : Stmt → Option (VariableId × Expr)
  | .expr (.assign none target value) => target.asVariable?.map fun id => (id, value)
  | _ => none

def declared? : Stmt → Option VariableId
  | .declare id _ => some id
  | _ => none

/-- The expressions that belong to the statement itself. -/
def exprs : Stmt → List Expr
  | .expr value | .raise value => [value]
  | .declare _ value | .ret value => value.toList
  | .ifThen condition _ | .ifElse condition _ _ | .loop condition _ => [condition]
  | .block _ | .breakLoop | .continueLoop => []

/-- The blocks directly inside the statement. -/
def blocks : Stmt → List Block
  | .block body | .ifThen _ body | .loop _ body => [body]
  | .ifElse _ body otherwise => [body, otherwise]
  | _ => []

mutual

/-- The statement and all statements inside it. -/
def all : Stmt → List Stmt
  | .block body => .block body :: allOfBlock body
  | .ifThen condition body => .ifThen condition body :: allOfBlock body
  | .ifElse condition body otherwise =>
    .ifElse condition body otherwise :: (allOfBlock body ++ allOfBlock otherwise)
  | .loop condition body => .loop condition body :: allOfBlock body
  | s@(.expr _) | s@(.declare ..) | s@(.ret _) | s@.breakLoop | s@.continueLoop
  | s@(.raise _) => [s]

def allOfBlock : List Stmt → List Stmt
  | [] => []
  | stmt :: rest => stmt.all ++ allOfBlock rest

end

mutual

/-- How deep blocks are nested inside the statement. -/
def depth : Stmt → Nat
  | .block body | .ifThen _ body | .loop _ body => depthOfBlock body + 1
  | .ifElse _ body otherwise => max (depthOfBlock body) (depthOfBlock otherwise) + 1
  | _ => 0

def depthOfBlock : List Stmt → Nat
  | [] => 0
  | stmt :: rest => max stmt.depth (depthOfBlock rest)

end

/-- The nodes of the statement's own expressions. -/
def nodes (stmt : Stmt) : List Expr :=
  stmt.exprs.flatMap Expr.nodes

def mapCountingOption (step : Expr → Expr × Nat) : Option Expr → Option Expr × Nat
  | none => (none, 0)
  | some value =>
    let (value, n) := value.mapCounting step
    (some value, n)

mutual

/-- Applies a step to every expression node inside the statement, operands first,
and then one to the statement around them; adds up what the two report. -/
def mapCounting (step : Expr → Expr × Nat) (close : Stmt → Stmt × Nat) : Stmt → Stmt × Nat
  | .expr value =>
    let (value, n) := value.mapCounting step
    let (stmt, k) := close (.expr value)
    (stmt, n + k)
  | .declare id value =>
    let (value, n) := mapCountingOption step value
    let (stmt, k) := close (.declare id value)
    (stmt, n + k)
  | .block body =>
    let (body, n) := mapCountingBlock step close body
    let (stmt, k) := close (.block body)
    (stmt, n + k)
  | .ifThen condition body =>
    let (condition, n) := condition.mapCounting step
    let (body, m) := mapCountingBlock step close body
    let (stmt, k) := close (.ifThen condition body)
    (stmt, n + m + k)
  | .ifElse condition body otherwise =>
    let (condition, n) := condition.mapCounting step
    let (body, m) := mapCountingBlock step close body
    let (otherwise, l) := mapCountingBlock step close otherwise
    let (stmt, k) := close (.ifElse condition body otherwise)
    (stmt, n + m + l + k)
  | .loop condition body =>
    let (condition, n) := condition.mapCounting step
    let (body, m) := mapCountingBlock step close body
    let (stmt, k) := close (.loop condition body)
    (stmt, n + m + k)
  | .ret value =>
    let (value, n) := mapCountingOption step value
    let (stmt, k) := close (.ret value)
    (stmt, n + k)
  | .breakLoop => close .breakLoop
  | .continueLoop => close .continueLoop
  | .raise value =>
    let (value, n) := value.mapCounting step
    let (stmt, k) := close (.raise value)
    (stmt, n + k)

def mapCountingBlock (step : Expr → Expr × Nat) (close : Stmt → Stmt × Nat) :
    List Stmt → List Stmt × Nat
  | [] => ([], 0)
  | stmt :: rest =>
    let (stmt, n) := stmt.mapCounting step close
    let (rest, m) := mapCountingBlock step close rest
    (stmt :: rest, n + m)

end

/-- Applies a function to every expression node inside the statement, operands first. -/
def mapExprs (f : Expr → Expr) (stmt : Stmt) : Stmt :=
  (stmt.mapCounting (fun e => (f e, 0)) fun s => (s, 0)).1

end Stmt

namespace Block

/-- Every statement of a block, nested ones included. -/
def statements (block : Block) : List Stmt :=
  Stmt.allOfBlock block

/-- Every expression node of a block, nested blocks included. -/
def nodes (block : Block) : List Expr :=
  (statements block).flatMap Stmt.nodes

/-- The variables that some declaration of the block declares. -/
def declared (block : Block) : List VariableId :=
  (statements block).filterMap Stmt.declared?

def mapCounting (step : Expr → Expr × Nat) (block : Block) : Block × Nat :=
  Stmt.mapCountingBlock step (fun stmt => (stmt, 0)) block

end Block

namespace Stmt

def mentions (id : VariableId) (stmt : Stmt) : Bool :=
  (stmt.all.flatMap nodes).any (·.isVariable id)

end Stmt

/-- The body of a method as read from its instructions. -/
structure MethodTree where
  table : VariableTable := {}
  /-- In the order of the signature. -/
  parameters : List VariableId := []
  body : Block := []
deriving Inhabited

/-- The body of a method, ready to be written out. -/
structure Function where
  name : String
  parameters : List String
  table : VariableTable
  body : Block
deriving Inhabited

/-- The function with further statements before its own. -/
def Function.prepend (function : Function) (statements : List Stmt) : Function :=
  { function with body := statements ++ function.body }

/-- What has to be known of the program around a method body. -/
structure Oracle where
  /-- Whether the type is left out of the script. -/
  isIgnored : Signature → Bool
  /-- Whether values of the type are copied by assignment. -/
  isStruct : Signature → Bool

/-- The method a tree belongs to, and the program around it. -/
structure MethodContext where
  method : String
  oracle : Oracle

end Assemblage
