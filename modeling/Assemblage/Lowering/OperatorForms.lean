import Assemblage.Tree.Stmt

/-!
# Operator forms

Assignments and negations that have a shorter form get it:
`x = x + y` becomes `x += y`, `x += 1` becomes `++x`, `!!b` becomes `b` for a
boolean, and the negation of an equality becomes an inequality and the other
way round.  Only a variable becomes the target of a compound assignment, since
evaluating it twice shows nowhere.
-/

namespace Assemblage.Lowering.OperatorForms

/-- One application of a rule at the top of an expression. -/
def step? (table : VariableTable) : Expr → Option Expr
  | .assign none target (.binary op left right) =>
    if target.asVariable?.isSome && left.asVariable? == target.asVariable? && op.isCompoundable then
      some (.assign (some op) target right)
    else none
  | .assign (some .add) target (.literal (.int 1)) =>
    if target.asVariable?.isSome then some (.unary .preIncrement target) else none
  | .assign (some .sub) target (.literal (.int 1)) =>
    if target.asVariable?.isSome then some (.unary .preDecrement target) else none
  | .unary .not (.unary .not operand) =>
    match operand.type? table with
    | some (.primitive .boolean) => some operand
    | _ => none
  | .unary .not (.binary .equal left right) => some (.binary .notEqual left right)
  | .unary .not (.binary .notEqual left right) => some (.binary .equal left right)
  | _ => none

/-- Every rule takes at least one node away. -/
theorem length_nodes_step? {table : VariableTable} {expr result : Expr}
    (h : step? table expr = some result) : result.nodes.length < expr.nodes.length := by
  unfold step? at h
  split at h
  · split at h
    · cases h
      simp only [Expr.nodes, List.length_cons, List.length_append]
      omega
    · simp at h
  · split at h
    · cases h
      simp [Expr.nodes]
    · simp at h
  · split at h
    · cases h
      simp [Expr.nodes]
    · simp at h
  · split at h
    · cases h
      simp only [Expr.nodes, List.length_cons]
      omega
    · simp at h
  · cases h
    simp [Expr.nodes]
  · cases h
    simp [Expr.nodes]
  · simp at h

/-- Applies rules at the top of an expression until none applies, and counts. -/
def normalize (table : VariableTable) (expr : Expr) : Expr × Nat :=
  match _h : step? table expr with
  | some next =>
    let (result, n) := normalize table next
    (result, n + 1)
  | none => (expr, 0)
termination_by expr.nodes.length
decreasing_by exact length_nodes_step? _h

/-- Shortens the expressions of a tree and counts the rules applied. -/
def run (tree : MethodTree) : MethodTree × Nat :=
  let (body, n) := Block.mapCounting (normalize tree.table) tree.body
  ({ tree with body }, n)

end Assemblage.Lowering.OperatorForms
