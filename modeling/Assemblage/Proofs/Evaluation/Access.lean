import Assemblage.Proofs.Evaluation.Semantics
import Assemblage.Proofs.Tree.Structure

/-!
# What an expression reads and writes

Each node by itself reads at most one variable or the heap, and writes at most
one of them.  Heap places are not told apart.
-/

namespace Assemblage

inductive Access where
  | slot (id : VariableId)
  | heap
deriving DecidableEq

namespace Expr

/-- What lies at the place an expression evaluates to. -/
def access? : Expr → Option Access
  | .raw id | .bound id => some (.slot id)
  | .staticField .. | .field .. | .element .. => some .heap
  | _ => none

/-- What the evaluation of the node itself writes, its operands apart. -/
def written? : Expr → Option Access
  | .staticCall .. | .call .. | .create .. => some .heap
  | .assign _ target _ => target.access?
  | .unary op operand => if op.isMutating then operand.access? else none
  | _ => none

/-- The places an expression is made of.  Calls apart, its value is read from these. -/
def reads (expr : Expr) : List Access :=
  expr.nodes.filterMap access?

/-- What evaluating the expression can write. -/
def writes (expr : Expr) : List Access :=
  expr.nodes.filterMap written?

/-- An expression reads the place it stands for and what its operands read. -/
theorem reads_eq (expr : Expr) :
    expr.reads = expr.access?.toList ++ expr.children.flatMap reads := by
  rw [reads, nodes_eq_cons, List.filterMap_cons, List.filterMap_flatMap]
  cases expr.access? <;> rfl

/-- An expression writes what it writes itself and what its operands write. -/
theorem writes_eq (expr : Expr) :
    expr.writes = expr.written?.toList ++ expr.children.flatMap writes := by
  rw [writes, nodes_eq_cons, List.filterMap_cons, List.filterMap_flatMap]
  cases expr.written? <;> rfl

theorem isVariable_iff_access? {expr : Expr} {id : VariableId} :
    expr.isVariable id = true ↔ expr.access? = some (.slot id) := by
  cases expr <;> simp [isVariable, asVariable?, access?]

/-- A variable is written as an operand. -/
theorem exists_child_of_written? {expr : Expr} {id : VariableId}
    (h : expr.written? = some (.slot id)) :
    ∃ child ∈ expr.children, child.isVariable id = true := by
  cases expr with
  | assign op target value =>
    exact ⟨target, List.mem_cons_self, isVariable_iff_access?.2 h⟩
  | unary op operand =>
    rw [written?] at h
    split at h
    · exact ⟨operand, List.mem_cons_self, isVariable_iff_access?.2 h⟩
    · cases h
  | staticCall | call | create => cases h
  | _ => cases h

/-- An expression mentions none of the variables. -/
def Avoids (ids : List VariableId) (expr : Expr) : Prop :=
  ∀ id ∈ ids, Access.slot id ∉ expr.reads

theorem Avoids.child {ids : List VariableId} {expr child : Expr} (h : expr.Avoids ids)
    (hchild : child ∈ expr.children) : child.Avoids ids := by
  intro id hid hread
  apply h id hid
  rw [reads_eq]
  exact List.mem_append_right _ (List.mem_flatMap.2 ⟨child, hchild, hread⟩)

theorem Avoids.not_isVariable {ids : List VariableId} {expr : Expr} (h : expr.Avoids ids)
    {id : VariableId} (hid : id ∈ ids) : expr.isVariable id = false := by
  rw [Bool.eq_false_iff]
  intro hvariable
  apply h id hid
  rw [reads_eq, isVariable_iff_access?.1 hvariable]
  exact List.mem_append_left _ List.mem_cons_self

end Expr

/-- Two states hold the same at what is accessed. -/
def State.SameAt {I : Interpretation} (left right : State I) : Access → Prop
  | .slot id => left.slots id = right.slots id
  | .heap => left.heap = right.heap

def Located.access? {I : Interpretation} : Located I → Option Access
  | .slot id => some (.slot id)
  | .heap _ => some .heap
  | .value _ => none

end Assemblage
