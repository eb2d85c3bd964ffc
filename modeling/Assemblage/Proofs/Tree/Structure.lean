import Assemblage.Tree.Stmt

/-!
# The structure of trees

Every walk over an expression goes to its operands, and every walk over a
statement to its own expressions and to the blocks inside it.  This module
states each walk once in terms of `Expr.children`, `Stmt.exprs` and
`Stmt.blocks`, so that what follows does not depend on the single
constructors.
-/

namespace Assemblage

namespace Expr

mutual

/-- Induction over an expression from its operands upwards. -/
theorem induction_children {P : Expr → Prop}
    (step : ∀ expr : Expr, (∀ child ∈ expr.children, P child) → P expr) : ∀ expr : Expr, P expr
  | .literal _ | .raw _ | .bound _ | .self | .staticField .. | .defaultValue _ =>
    step _ (by simp [children])
  | .field target .. | .unary _ target | .copy target | .cast _ target =>
    step _ (by simpa [children] using induction_children step target)
  | .element left right _ | .binary _ left right | .assign _ left right =>
    step _ (by
      simpa [children] using
        ⟨induction_children step left, induction_children step right⟩)
  | .conditional condition whenTrue whenFalse =>
    step _ (by
      simpa [children] using ⟨induction_children step condition,
        induction_children step whenTrue, induction_children step whenFalse⟩)
  | .staticCall _ arguments | .create _ arguments =>
    step _ (by simpa [children] using induction_childrenOfList step arguments)
  | .call target _ arguments =>
    step _ (by
      simpa [children] using
        ⟨induction_children step target, induction_childrenOfList step arguments⟩)

theorem induction_childrenOfList {P : Expr → Prop}
    (step : ∀ expr : Expr, (∀ child ∈ expr.children, P child) → P expr) :
    ∀ exprs : List Expr, ∀ expr ∈ exprs, P expr
  | [] => by simp
  | expr :: rest => by
    simpa using ⟨induction_children step expr, induction_childrenOfList step rest⟩

end

theorem nodesOfList_eq_flatMap (exprs : List Expr) : nodesOfList exprs = exprs.flatMap nodes := by
  induction exprs with
  | nil => rfl
  | cons expr rest ih => rw [nodesOfList, ih, List.flatMap_cons]

/-- A node comes before the nodes of its operands. -/
theorem nodes_eq_cons (expr : Expr) : expr.nodes = expr :: expr.children.flatMap nodes := by
  cases expr <;> simp [nodes, children, nodesOfList_eq_flatMap]

theorem mem_nodes_self (expr : Expr) : expr ∈ expr.nodes := by
  rw [nodes_eq_cons]
  exact List.mem_cons_self

theorem mem_nodes_of_child {node child expr : Expr} (hchild : child ∈ expr.children)
    (hnode : node ∈ child.nodes) : node ∈ expr.nodes := by
  rw [nodes_eq_cons]
  exact List.mem_cons_of_mem _ (List.mem_flatMap.2 ⟨child, hchild, hnode⟩)

/-- What stands inside a part of an expression stands inside the expression. -/
theorem nodes_subset_of_mem {node expr : Expr} (h : node ∈ expr.nodes) :
    node.nodes ⊆ expr.nodes := by
  induction expr using induction_children with
  | step expr ih =>
    rw [nodes_eq_cons expr] at h
    cases List.mem_cons.1 h with
    | inl heq =>
      subst heq
      exact List.Subset.refl _
    | inr h =>
      obtain ⟨child, hchild, hnode⟩ := List.mem_flatMap.1 h
      exact fun other hother => mem_nodes_of_child hchild (ih child hchild hnode hother)

/-- The node with a function applied to each of its operands. -/
def mapChildren (f : Expr → Expr) : Expr → Expr
  | .field target owner name type => .field (f target) owner name type
  | .element array index type => .element (f array) (f index) type
  | .staticCall method arguments => .staticCall method (arguments.map f)
  | .call target method arguments => .call (f target) method (arguments.map f)
  | .create type arguments => .create type (arguments.map f)
  | .binary op left right => .binary op (f left) (f right)
  | .unary op operand => .unary op (f operand)
  | .assign op target value => .assign op (f target) (f value)
  | .conditional condition whenTrue whenFalse =>
    .conditional (f condition) (f whenTrue) (f whenFalse)
  | .copy value => .copy (f value)
  | .cast type value => .cast type (f value)
  | expr => expr

@[simp]
theorem children_mapChildren (f : Expr → Expr) (expr : Expr) :
    (expr.mapChildren f).children = expr.children.map f := by
  cases expr <;> simp [mapChildren, children]

@[simp]
theorem types_mapChildren (f : Expr → Expr) (expr : Expr) :
    (expr.mapChildren f).types = expr.types := by
  cases expr <;> rfl

@[simp]
theorem asVariable?_mapChildren (f : Expr → Expr) (expr : Expr) :
    (expr.mapChildren f).asVariable? = expr.asVariable? := by
  cases expr <;> rfl

theorem mapChildren_congr {f g : Expr → Expr} {expr : Expr}
    (h : ∀ child ∈ expr.children, f child = g child) :
    expr.mapChildren f = expr.mapChildren g := by
  cases expr <;> simp_all [mapChildren, children]

theorem mapChildren_eq_self {f : Expr → Expr} {expr : Expr}
    (h : ∀ child ∈ expr.children, f child = child) : expr.mapChildren f = expr := by
  rw [mapChildren_congr h]
  cases expr <;> simp [mapChildren]

theorem mapCountingList_fst (step : Expr → Expr × Nat) (exprs : List Expr) :
    (mapCountingList step exprs).1 = exprs.map fun expr => (expr.mapCounting step).1 := by
  induction exprs with
  | nil => rfl
  | cons expr rest ih => simp [mapCountingList, ih]

/-- A step is applied to a node whose operands have been rewritten already. -/
theorem mapCounting_fst (step : Expr → Expr × Nat) (expr : Expr) :
    (expr.mapCounting step).1 =
      (step (expr.mapChildren fun child => (child.mapCounting step).1)).1 := by
  cases expr <;> simp [mapCounting, mapChildren, mapCountingList_fst]

theorem map_eq (f : Expr → Expr) (expr : Expr) : expr.map f = f (expr.mapChildren (map f)) :=
  mapCounting_fst (fun e => (f e, 0)) expr

end Expr

namespace Stmt

mutual

/-- Induction over a statement from the statements of its blocks upwards. -/
theorem induction_blocks {P : Stmt → Prop}
    (step : ∀ stmt : Stmt, (∀ block ∈ stmt.blocks, ∀ inner ∈ block, P inner) → P stmt) :
    ∀ stmt : Stmt, P stmt
  | .expr _ | .declare .. | .ret _ | .breakLoop | .continueLoop | .raise _ =>
    step _ (by simp [blocks])
  | .block body | .ifThen _ body | .loop _ body =>
    step _ (by simpa [blocks] using induction_blocksOfBlock step body)
  | .ifElse _ body otherwise =>
    step _ (by
      simpa [blocks] using
        ⟨induction_blocksOfBlock step body, induction_blocksOfBlock step otherwise⟩)

theorem induction_blocksOfBlock {P : Stmt → Prop}
    (step : ∀ stmt : Stmt, (∀ block ∈ stmt.blocks, ∀ inner ∈ block, P inner) → P stmt) :
    ∀ block : List Stmt, ∀ stmt ∈ block, P stmt
  | [] => by simp
  | stmt :: rest => by
    simpa using ⟨induction_blocks step stmt, induction_blocksOfBlock step rest⟩

end

/-- A statement comes before the statements of the blocks inside it. -/
theorem all_eq_cons (stmt : Stmt) : stmt.all = stmt :: stmt.blocks.flatMap allOfBlock := by
  cases stmt <;> simp [all, blocks]

theorem allOfBlock_eq_flatMap (block : Block) : allOfBlock block = block.flatMap all := by
  induction block with
  | nil => rfl
  | cons stmt rest ih => rw [allOfBlock, ih, List.flatMap_cons]

/-- The statement with functions applied to its own expressions and to its blocks. -/
def mapParts (f : Expr → Expr) (g : Block → Block) : Stmt → Stmt
  | .expr value => .expr (f value)
  | .declare id value => .declare id (value.map f)
  | .block body => .block (g body)
  | .ifThen condition body => .ifThen (f condition) (g body)
  | .ifElse condition body otherwise => .ifElse (f condition) (g body) (g otherwise)
  | .loop condition body => .loop (f condition) (g body)
  | .ret value => .ret (value.map f)
  | .breakLoop => .breakLoop
  | .continueLoop => .continueLoop
  | .raise value => .raise (f value)

@[simp]
theorem exprs_mapParts (f : Expr → Expr) (g : Block → Block) (stmt : Stmt) :
    (stmt.mapParts f g).exprs = stmt.exprs.map f := by
  cases stmt with
  | declare id value => cases value <;> rfl
  | ret value => cases value <;> rfl
  | _ => rfl

@[simp]
theorem blocks_mapParts (f : Expr → Expr) (g : Block → Block) (stmt : Stmt) :
    (stmt.mapParts f g).blocks = stmt.blocks.map g := by
  cases stmt <;> rfl

@[simp]
theorem declared?_mapParts (f : Expr → Expr) (g : Block → Block) (stmt : Stmt) :
    (stmt.mapParts f g).declared? = stmt.declared? := by
  cases stmt <;> rfl

theorem mapParts_congr {f f' : Expr → Expr} {g g' : Block → Block} {stmt : Stmt}
    (hexprs : ∀ expr ∈ stmt.exprs, f expr = f' expr)
    (hblocks : ∀ block ∈ stmt.blocks, g block = g' block) :
    stmt.mapParts f g = stmt.mapParts f' g' := by
  cases stmt with
  | declare id value => cases value <;> simp_all [mapParts, exprs]
  | ret value => cases value <;> simp_all [mapParts, exprs]
  | _ => simp_all [mapParts, exprs, blocks]

theorem mapCountingOption_fst (step : Expr → Expr × Nat) (value : Option Expr) :
    (mapCountingOption step value).1 = value.map fun expr => (expr.mapCounting step).1 := by
  cases value <;> rfl

/-- The closing step is applied to a statement whose parts have been rewritten
already. -/
theorem mapCounting_fst (step : Expr → Expr × Nat) (close : Stmt → Stmt × Nat) (stmt : Stmt) :
    (stmt.mapCounting step close).1 =
      (close (stmt.mapParts (fun expr => (expr.mapCounting step).1)
        fun block => (mapCountingBlock step close block).1)).1 := by
  cases stmt <;> simp [mapCounting, mapParts, mapCountingOption_fst]

theorem mapCountingBlock_fst (step : Expr → Expr × Nat) (close : Stmt → Stmt × Nat)
    (block : Block) :
    (mapCountingBlock step close block).1 =
      block.map fun stmt => (stmt.mapCounting step close).1 := by
  induction block with
  | nil => rfl
  | cons stmt rest ih => simp [mapCountingBlock, ih]

theorem mapExprs_eq (f : Expr → Expr) (stmt : Stmt) :
    stmt.mapExprs f = stmt.mapParts (Expr.map f) (List.map (mapExprs f)) := by
  have hblock : (fun block => (mapCountingBlock (fun e => (f e, 0)) (fun s => (s, 0)) block).1) =
      List.map (mapExprs f) := by
    funext block
    exact mapCountingBlock_fst _ _ block
  rw [mapExprs, mapCounting_fst, hblock]
  rfl

end Stmt

namespace Block

/-- The statements of a block, by the blocks inside each of them. -/
theorem statements_eq_flatMap (block : Block) :
    statements block = block.flatMap fun stmt => stmt :: stmt.blocks.flatMap statements := by
  rw [statements, Stmt.allOfBlock_eq_flatMap]
  exact congrArg (List.flatMap · block) (funext Stmt.all_eq_cons)

/-- The nodes of a block are those of its statements' own expressions and those
of the blocks inside them. -/
theorem nodes_eq_flatMap (block : Block) :
    nodes block = block.flatMap fun stmt => stmt.nodes ++ stmt.blocks.flatMap nodes := by
  rw [nodes, statements_eq_flatMap, List.flatMap_assoc]
  simp only [List.flatMap_cons, List.flatMap_assoc]
  rfl

/-- The variables that a block declares, by the blocks inside its statements. -/
theorem declared_eq_flatMap (block : Block) :
    declared block =
      block.flatMap fun stmt => stmt.declared?.toList ++ stmt.blocks.flatMap declared := by
  rw [declared, statements_eq_flatMap, List.filterMap_flatMap]
  congr 1
  funext stmt
  rw [List.filterMap_cons, List.filterMap_flatMap]
  cases stmt.declared? <;> rfl

theorem nodes_cons (stmt : Stmt) (rest : Block) :
    nodes (stmt :: rest) = nodes [stmt] ++ nodes rest := by
  rw [nodes_eq_flatMap, nodes_eq_flatMap [stmt], nodes_eq_flatMap rest]
  simp

theorem nodes_append (left right : Block) : nodes (left ++ right) = nodes left ++ nodes right := by
  rw [nodes_eq_flatMap, nodes_eq_flatMap left, nodes_eq_flatMap right, List.flatMap_append]

theorem nodes_singleton (stmt : Stmt) :
    nodes [stmt] = stmt.nodes ++ stmt.blocks.flatMap nodes := by
  rw [nodes_eq_flatMap, List.flatMap_singleton]

@[simp]
theorem declared_nil : declared [] = [] :=
  rfl

theorem declared_cons (stmt : Stmt) (rest : Block) :
    declared (stmt :: rest) = declared [stmt] ++ declared rest := by
  rw [declared_eq_flatMap, declared_eq_flatMap [stmt], declared_eq_flatMap rest]
  simp

theorem declared_append (left right : Block) :
    declared (left ++ right) = declared left ++ declared right := by
  rw [declared_eq_flatMap, declared_eq_flatMap left, declared_eq_flatMap right,
    List.flatMap_append]

theorem declared_singleton (stmt : Stmt) :
    declared [stmt] = stmt.declared?.toList ++ stmt.blocks.flatMap declared := by
  rw [declared_eq_flatMap, List.flatMap_singleton]

theorem nodes_subset_of_mem {stmt : Stmt} {block : Block} (h : stmt ∈ block) :
    nodes [stmt] ⊆ nodes block := by
  rw [nodes_eq_flatMap, nodes_eq_flatMap block, List.flatMap_singleton]
  exact fun node hnode => List.mem_flatMap.2 ⟨stmt, h, hnode⟩

theorem declared_subset_of_mem {stmt : Stmt} {block : Block} (h : stmt ∈ block) :
    declared [stmt] ⊆ declared block := by
  rw [declared_eq_flatMap, declared_eq_flatMap block, List.flatMap_singleton]
  exact fun id hid => List.mem_flatMap.2 ⟨stmt, h, hid⟩

theorem mapCounting_fst (step : Expr → Expr × Nat) (block : Block) :
    (mapCounting step block).1 =
      block.map fun stmt => (stmt.mapCounting step fun stmt => (stmt, 0)).1 :=
  Stmt.mapCountingBlock_fst _ _ block

end Block

end Assemblage
