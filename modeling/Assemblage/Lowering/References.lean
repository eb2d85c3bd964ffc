import Assemblage.Error
import Assemblage.Tree.Stmt

/-!
# References

Binds every raw variable to its declaration.  A variable that is neither a
parameter nor declared anywhere in the body makes the method untranslatable.
-/

namespace Assemblage.Lowering.References

def passName : String :=
  "introduce-references"

def declared (tree : MethodTree) : List VariableId :=
  tree.table.parameters ++ Block.declared tree.body

def rawVariable? : Expr → Option VariableId
  | .raw id => some id
  | _ => none

/-- The first raw variable without a declaration. -/
def undeclared? (tree : MethodTree) : Option VariableId :=
  ((Block.nodes tree.body).filterMap rawVariable?).find? fun id => !(declared tree).contains id

def bind : Expr → Expr × Nat
  | .raw id => (.bound id, 1)
  | expr => (expr, 0)

/-- Binds the variables of a tree and counts the occurrences. -/
def run (context : MethodContext) (tree : MethodTree) : Except Error (MethodTree × Nat) :=
  match undeclared? tree with
  | some id =>
    .error (.transform passName context.method
      ("variable '" ++ tree.table.nameOf id ++ "' is used without a declaration"))
  | none =>
    let (body, n) := Block.mapCounting bind tree.body
    .ok ({ tree with body }, n)

end Assemblage.Lowering.References
