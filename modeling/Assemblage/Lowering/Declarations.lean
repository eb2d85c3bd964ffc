import Assemblage.Tree.Stmt

/-!
# Declarations

Variables of the script belong to the whole function, so each local is declared
once, at the top level of the body, before the statement of its first
occurrence.  If that statement only assigns the variable, it becomes the
declaration.  A struct that is declared without a value starts out as the
default of its type.
-/

namespace Assemblage.Lowering.Declarations

/-- The variables of a statement in the order of their first occurrences. -/
def occurrences (stmt : Stmt) : List VariableId :=
  ((stmt.all.flatMap Stmt.nodes).filterMap Expr.asVariable?).eraseDups

def initialValue (oracle : Oracle) (table : VariableTable) (id : VariableId) : Option Expr :=
  match table.get? id with
  | some entry => if oracle.isStruct entry.type then some (.defaultValue entry.type) else none
  | none => none

def declare (oracle : Oracle) (table : VariableTable) (id : VariableId) : Stmt :=
  .declare id (initialValue oracle table id)

/-- The variable that a statement can declare by itself, and its value. -/
def initialized? (fresh : List VariableId) (stmt : Stmt) : Option (VariableId × Expr) :=
  stmt.assignment?.filter fun (id, value) => fresh.contains id && !value.mentions id

/-- A statement with declarations for the variables it is the first to mention. -/
def introduce (oracle : Oracle) (table : VariableTable) (fresh : List VariableId)
    (stmt : Stmt) : List Stmt :=
  match initialized? fresh stmt with
  | some (id, value) =>
    (fresh.filter (· ≠ id)).map (declare oracle table) ++ [.declare id (some value)]
  | none => fresh.map (declare oracle table) ++ [stmt]

def declareAll (oracle : Oracle) (table : VariableTable) (declared : List VariableId) :
    List Stmt → List Stmt × Nat
  | [] => ([], 0)
  | stmt :: rest =>
    let fresh := (occurrences stmt).filter fun id => !declared.contains id
    let (rest, n) := declareAll oracle table (fresh ++ declared) rest
    (introduce oracle table fresh stmt ++ rest, fresh.length + n)

/-- Declares the locals of a tree and counts them. -/
def run (oracle : Oracle) (tree : MethodTree) : MethodTree × Nat :=
  let declared := Block.declared tree.body ++ tree.table.parameters
  let (body, n) := declareAll oracle tree.table declared tree.body
  ({ tree with body }, n)

end Assemblage.Lowering.Declarations
