import Assemblage.Error
import Assemblage.Tree.Stmt

/-!
# Ignored types in a body

A method that mentions an ignored type, as the type of a variable or inside an
expression, cannot be translated.  The check changes nothing.
-/

namespace Assemblage.Lowering.IgnoredTypes

/-- Every type the tree mentions: those of its variables, then those its
expressions name. -/
def types (tree : MethodTree) : List Signature :=
  tree.table.all.map Variable.type ++ (Block.nodes tree.body).flatMap Expr.types

def offending? (oracle : Oracle) (tree : MethodTree) : Option Signature :=
  (types tree).find? oracle.isIgnored

def check (context : MethodContext) (tree : MethodTree) : Except Error MethodTree :=
  match offending? context.oracle tree with
  | some type => .error (.ignoredTypeUsage context.method type.fullName)
  | none => .ok tree

theorem check_eq_ok_iff {context : MethodContext} {tree result : MethodTree} :
    check context tree = .ok result ↔
      (∀ type ∈ types tree, context.oracle.isIgnored type = false) ∧ result = tree := by
  unfold check offending?
  split
  · rename_i type h
    simp only [reduceCtorEq, false_iff, not_and]
    intro hall
    have := hall type (List.mem_of_find?_eq_some h)
    simp [List.find?_some h] at this
  · rename_i h
    simp only [Except.ok.injEq, List.find?_eq_none] at h ⊢
    constructor
    · rintro rfl
      exact ⟨fun type hmem => by simpa using h type hmem, rfl⟩
    · rintro ⟨-, rfl⟩
      rfl

end Assemblage.Lowering.IgnoredTypes
