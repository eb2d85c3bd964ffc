import Assemblage.Lowering.Pipeline

/-!
# Passes in place

The pipeline hands one tree from pass to pass, and a pass works on it where it is.
It returns the number of its changes, or it stops with an error and leaves the tree
in the state in which it was at that point.
-/

namespace Assemblage.Lowering

/-- A computation on a tree in place.  An error does not take back what was done. -/
abbrev InPlace : Type → Type :=
  EStateM Error MethodTree

/-- Looks at one item after the other and stops at the first one to reject. -/
def rejectFirst {α : Type} (isRejected : α → Bool) (error : α → Error) : List α → InPlace Unit
  | [] => pure ()
  | item :: rest =>
    if isRejected item then throw (error item) else rejectFirst isRejected error rest

def IgnoredTypes.checkInPlace (context : MethodContext) : InPlace Nat := do
  let tree ← get
  rejectFirst context.oracle.isIgnored
    (fun type => .ignoredTypeUsage context.method type.fullName) (types tree)
  return 0

/-- Replaces the tree, or a part of it, and returns the number of changes. -/
def rewriteInPlace (rewrite : MethodTree → MethodTree × Nat) : InPlace Nat :=
  modifyGet fun tree => (rewrite tree).swap

def References.runInPlace (context : MethodContext) : InPlace Nat := do
  let tree ← get
  rejectFirst (fun id => !(declared tree).contains id)
    (fun id => .transform passName context.method
      ("variable '" ++ tree.table.nameOf id ++ "' is used without a declaration"))
    ((Block.nodes tree.body).filterMap rawVariable?)
  rewriteInPlace fun tree =>
    let (body, n) := Block.mapCounting bind tree.body
    ({ tree with body }, n)

/-- Runs a pass once on the tree where it is. -/
def Pass.runInPlace (pass : Pass) (context : MethodContext) : InPlace Nat :=
  match pass with
  | ignoredTypes => IgnoredTypes.checkInPlace context
  | variableNames => rewriteInPlace VariableNames.run
  | temporaries => rewriteInPlace Temporaries.run
  | structCopies => rewriteInPlace (StructCopies.run context.oracle)
  | declarations => rewriteInPlace (Declarations.run context.oracle)
  | references => References.runInPlace context
  | operatorForms => rewriteInPlace OperatorForms.run

end Assemblage.Lowering
