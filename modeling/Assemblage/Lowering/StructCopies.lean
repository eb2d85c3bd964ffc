import Assemblage.Tree.Stmt

/-!
# Struct copies

The script shares objects where metadata copies structs.  A struct that is read
from a location and stored in another one is therefore copied in so many words:
in an assignment, a declaration and each argument of a call.  A returned field
or array element is copied too; a returned local is not, as nobody else can
reach it any more.
-/

namespace Assemblage.Lowering.StructCopies

def needsCopy (oracle : Oracle) (table : VariableTable) (expr : Expr) : Bool :=
  expr.isLocation && (expr.type? table).any oracle.isStruct

def copied (oracle : Oracle) (table : VariableTable) (expr : Expr) : Expr × Nat :=
  if needsCopy oracle table expr then (.copy expr, 1) else (expr, 0)

def copiedAll (oracle : Oracle) (table : VariableTable) : List Expr → List Expr × Nat
  | [] => ([], 0)
  | expr :: rest =>
    let (expr, n) := copied oracle table expr
    let (rest, m) := copiedAll oracle table rest
    (expr :: rest, n + m)

def copyInExpr (oracle : Oracle) (table : VariableTable) : Expr → Expr × Nat
  | .assign none target value =>
    let (value, n) := copied oracle table value
    (.assign none target value, n)
  | .staticCall method arguments =>
    let (arguments, n) := copiedAll oracle table arguments
    (.staticCall method arguments, n)
  | .call target method arguments =>
    let (arguments, n) := copiedAll oracle table arguments
    (.call target method arguments, n)
  | .create type arguments =>
    let (arguments, n) := copiedAll oracle table arguments
    (.create type arguments, n)
  | expr => (expr, 0)

/-- A location that outlives the method. -/
def isShared : Expr → Bool
  | .staticField .. | .field .. | .element .. => true
  | _ => false

def copyInStmt (oracle : Oracle) (table : VariableTable) : Stmt → Stmt × Nat
  | .declare id (some value) =>
    let (value, n) := copied oracle table value
    (.declare id (some value), n)
  | .ret (some value) =>
    if isShared value then
      let (value, n) := copied oracle table value
      (.ret (some value), n)
    else (.ret (some value), 0)
  | stmt => (stmt, 0)

/-- Inserts the copies a tree needs and counts them. -/
def run (oracle : Oracle) (tree : MethodTree) : MethodTree × Nat :=
  let (body, n) :=
    Stmt.mapCountingBlock (copyInExpr oracle tree.table) (copyInStmt oracle tree.table)
      tree.body
  ({ tree with body }, n)

end Assemblage.Lowering.StructCopies
