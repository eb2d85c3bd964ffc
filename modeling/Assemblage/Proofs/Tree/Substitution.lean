import Assemblage.Lowering.Temporaries
import Assemblage.Proofs.Tree.Labels
import Mathlib.Data.List.Basic

/-!
# Substitution of a variable

Moving a value to the read of a variable replaces every node that is this
variable and keeps all others, each with its operands rewritten.
-/

namespace Assemblage

open Lowering.Temporaries (substitute)

namespace Expr

def substitute (expr : Expr) (id : VariableId) (value : Expr) : Expr :=
  expr.map fun expr => if expr.isVariable id then value else expr

theorem isVariable_mapChildren (f : Expr → Expr) (expr : Expr) (id : VariableId) :
    (expr.mapChildren f).isVariable id = expr.isVariable id := by
  rw [isVariable, asVariable?_mapChildren, isVariable]

/-- A node is an occurrence of a variable if it is that variable, bound or not. -/
theorem isVariable_eq_true_iff {expr : Expr} {id : VariableId} :
    expr.isVariable id = true ↔ expr.asVariable? = some id := by
  rw [isVariable, beq_iff_eq]

/-- An occurrence becomes the value, and another node is searched further down. -/
theorem substitute_eq (id : VariableId) (value expr : Expr) :
    expr.substitute id value =
      if expr.isVariable id then value else expr.mapChildren (·.substitute id value) := by
  rw [substitute, map_eq, isVariable_mapChildren]
  rfl

theorem substitute_of_isVariable {id : VariableId} {value expr : Expr}
    (h : expr.isVariable id = true) : expr.substitute id value = value := by
  rw [substitute_eq, if_pos h]

theorem substitute_of_not_isVariable {id : VariableId} {value expr : Expr}
    (h : expr.isVariable id = false) :
    expr.substitute id value = expr.mapChildren (·.substitute id value) := by
  rw [substitute_eq, h]
  exact if_neg Bool.false_ne_true

theorem children_eq_nil_of_isVariable {id : VariableId} {expr : Expr}
    (h : expr.isVariable id = true) : expr.children = [] := by
  cases expr <;> first | rfl | simp [isVariable, asVariable?] at h

/-- The nodes after a substitution: those of the value for every occurrence of
the variable, and one for every other node. -/
theorem nodes_substitute (id : VariableId) (value expr : Expr) :
    (expr.substitute id value).nodes =
      expr.nodes.flatMap fun node =>
        if node.isVariable id then value.nodes else [node.substitute id value] := by
  induction expr using induction_children with
  | step expr ih =>
    rw [nodes_eq_cons expr, List.flatMap_cons]
    by_cases h : expr.isVariable id = true
    · rw [substitute_of_isVariable h, if_pos h, children_eq_nil_of_isVariable h,
        List.flatMap_nil, List.flatMap_nil, List.append_nil]
    · rw [if_neg h, List.flatMap_assoc, List.singleton_append]
      have hnodes : (expr.substitute id value).nodes =
          expr.substitute id value ::
            expr.children.flatMap fun child => (child.substitute id value).nodes := by
        rw [nodes_eq_cons, substitute_of_not_isVariable (by simpa using h), children_mapChildren,
          List.flatMap_map]
      rw [hnodes]
      congr 1
      exact List.flatMap_congr ih

end Expr

namespace Stmt

/-- A substitution goes into the expressions and into the blocks of a statement. -/
theorem substitute_eq (id : VariableId) (value : Expr) (stmt : Stmt) :
    substitute id value stmt =
      stmt.mapParts (·.substitute id value) (List.map (substitute id value)) :=
  mapExprs_eq _ stmt

end Stmt

namespace Block

theorem nodes_map_substitute_of_forall {id : VariableId} {value : Expr} {block : Block}
    (h : ∀ stmt ∈ block, nodes [substitute id value stmt] =
      (nodes [stmt]).flatMap fun node =>
        if node.isVariable id then value.nodes else [node.substitute id value]) :
    nodes (block.map (substitute id value)) =
      (nodes block).flatMap fun node =>
        if node.isVariable id then value.nodes else [node.substitute id value] := by
  induction block with
  | nil => rfl
  | cons stmt rest ih =>
    rw [List.map_cons, nodes_cons, nodes_cons stmt, List.flatMap_append,
      h stmt List.mem_cons_self, ih fun other hother => h other (List.mem_cons_of_mem _ hother)]

theorem nodes_substitute (id : VariableId) (value : Expr) (stmt : Stmt) :
    nodes [substitute id value stmt] =
      (nodes [stmt]).flatMap fun node =>
        if node.isVariable id then value.nodes else [node.substitute id value] := by
  induction stmt using Stmt.induction_blocks with
  | step stmt ih =>
    rw [nodes_singleton, nodes_singleton, Stmt.substitute_eq, Stmt.blocks_mapParts,
      List.flatMap_append, Stmt.nodes, Stmt.nodes, Stmt.exprs_mapParts, List.flatMap_map,
      List.flatMap_map, List.flatMap_assoc, List.flatMap_assoc]
    congr 1
    · exact List.flatMap_congr fun expr _ => Expr.nodes_substitute id value expr
    · exact List.flatMap_congr fun block hblock =>
        nodes_map_substitute_of_forall (ih block hblock)

theorem nodes_map_substitute (id : VariableId) (value : Expr) (block : Block) :
    nodes (block.map (substitute id value)) =
      (nodes block).flatMap fun node =>
        if node.isVariable id then value.nodes else [node.substitute id value] :=
  nodes_map_substitute_of_forall fun stmt _ => nodes_substitute id value stmt

theorem gather_substitute_subset {α : Type} {label : Expr → List α} (hlabel : IsLabel label)
    (id : VariableId) (value : Expr) (stmt : Stmt) :
    gather label [substitute id value stmt] ⊆ value.gather label ++ gather label [stmt] := by
  rw [gather, nodes_substitute, List.flatMap_assoc]
  intro entry hentry
  obtain ⟨node, hnode, hmem⟩ := List.mem_flatMap.1 hentry
  by_cases h : node.isVariable id = true
  · rw [if_pos h] at hmem
    exact List.mem_append_left _ hmem
  · rw [if_neg h, List.flatMap_singleton,
      Expr.substitute_of_not_isVariable (by simpa using h), hlabel.mapChildren] at hmem
    exact List.mem_append_right _ (List.mem_flatMap.2 ⟨node, hnode, hmem⟩)

theorem declared_map {f : Stmt → Stmt} {block : Block}
    (h : ∀ stmt ∈ block, declared [f stmt] = declared [stmt]) :
    declared (block.map f) = declared block := by
  induction block with
  | nil => rfl
  | cons stmt rest ih =>
    rw [List.map_cons, declared_cons, declared_cons stmt, h stmt List.mem_cons_self,
      ih fun other hother => h other (List.mem_cons_of_mem _ hother)]

/-- A statement keeps its declarations as long as its blocks do. -/
theorem declared_mapParts {f : Expr → Expr} {g : Block → Block} {stmt : Stmt}
    (h : ∀ block ∈ stmt.blocks, declared (g block) = declared block) :
    declared [stmt.mapParts f g] = declared [stmt] := by
  rw [declared_singleton, declared_singleton, Stmt.declared?_mapParts, Stmt.blocks_mapParts,
    List.flatMap_map, List.flatMap_congr h]

/-- A substitution does not change what is declared. -/
theorem declared_substitute (id : VariableId) (value : Expr) (stmt : Stmt) :
    declared [substitute id value stmt] = declared [stmt] := by
  induction stmt using Stmt.induction_blocks with
  | step stmt ih =>
    rw [Stmt.substitute_eq]
    exact declared_mapParts fun block hblock => declared_map (ih block hblock)

/-- A walk over expressions does not change what is declared. -/
theorem declared_mapCounting (step : Expr → Expr × Nat) (block : Block) :
    declared (mapCounting step block).1 = declared block := by
  rw [mapCounting_fst]
  apply declared_map
  intro stmt hstmt
  clear hstmt
  induction stmt using Stmt.induction_blocks with
  | step stmt ih =>
    rw [Stmt.mapCounting_fst]
    apply declared_mapParts
    intro inner hinner
    rw [Stmt.mapCountingBlock_fst]
    exact declared_map (ih inner hinner)

end Block

end Assemblage
