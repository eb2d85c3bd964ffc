import Assemblage.Proofs.Tree.Structure

/-!
# What the nodes of a tree carry

The types a tree names and the variables it mentions are lists gathered from its
nodes.  A rewriting that adds nothing at a single node adds nothing to the
whole tree, whatever list is gathered.
-/

namespace Assemblage

/-- What is read off a node without its operands. -/
structure IsLabel {α : Type} (label : Expr → List α) : Prop where
  mapChildren (f : Expr → Expr) (expr : Expr) : label (expr.mapChildren f) = label expr
  assign (op : Option BinaryOp) (target value : Expr) : label (.assign op target value) = []
  unary (op : UnaryOp) (operand : Expr) : label (.unary op operand) = []
  binary (op : BinaryOp) (left right : Expr) : label (.binary op left right) = []
  copy (value : Expr) : label (.copy value) = []

namespace Expr

/-- The variable a node consists of, as a list. -/
def variableIds (expr : Expr) : List VariableId :=
  expr.asVariable?.toList

theorem isLabel_types : IsLabel types where
  mapChildren := types_mapChildren
  assign _ _ _ := rfl
  unary _ _ := rfl
  binary _ _ _ := rfl
  copy _ := rfl

theorem isLabel_variableIds : IsLabel variableIds where
  mapChildren f expr := by rw [variableIds, asVariable?_mapChildren, variableIds]
  assign _ _ _ := rfl
  unary _ _ := rfl
  binary _ _ _ := rfl
  copy _ := rfl

/-- The labels of all nodes of an expression. -/
def gather {α : Type} (label : Expr → List α) (expr : Expr) : List α :=
  expr.nodes.flatMap label

variable {α : Type} {label : Expr → List α}

theorem gather_eq (label : Expr → List α) (expr : Expr) :
    expr.gather label = label expr ++ expr.children.flatMap (gather label) := by
  rw [gather, nodes_eq_cons, List.flatMap_cons, List.flatMap_assoc]
  rfl

/-- Two nodes that differ in their operands only carry the same label. -/
theorem gather_eq_of_mapChildren_eq (hlabel : IsLabel label) {left right : Expr}
    (hnode : left.mapChildren (fun _ => .self) = right.mapChildren fun _ => .self)
    (hchildren : left.children.flatMap (gather label) = right.children.flatMap (gather label)) :
    left.gather label = right.gather label := by
  rw [gather_eq, gather_eq, hchildren, ← hlabel.mapChildren (fun _ => .self) left, hnode,
    hlabel.mapChildren]

theorem flatMap_subset_flatMap {β γ : Type} {f g : β → List γ} {items : List β}
    (h : ∀ item ∈ items, f item ⊆ g item) : items.flatMap f ⊆ items.flatMap g := by
  intro entry hentry
  obtain ⟨item, hitem, hmem⟩ := List.mem_flatMap.1 hentry
  exact List.mem_flatMap.2 ⟨item, hitem, h item hitem hmem⟩

theorem gather_mapChildren_subset (hlabel : IsLabel label) {f : Expr → Expr} {expr : Expr}
    (h : ∀ child ∈ expr.children, (f child).gather label ⊆ child.gather label) :
    (expr.mapChildren f).gather label ⊆ expr.gather label := by
  rw [gather_eq, gather_eq, hlabel.mapChildren, children_mapChildren, List.flatMap_map]
  exact List.append_subset.2 ⟨List.subset_append_left _ _,
    List.Subset.trans (flatMap_subset_flatMap h) (List.subset_append_right _ _)⟩

theorem gather_mapCounting_subset (hlabel : IsLabel label) {step : Expr → Expr × Nat}
    (hstep : ∀ expr, (step expr).1.gather label ⊆ expr.gather label) (expr : Expr) :
    (expr.mapCounting step).1.gather label ⊆ expr.gather label := by
  induction expr using induction_children with
  | step expr ih =>
    rw [mapCounting_fst]
    exact List.Subset.trans (hstep _) (gather_mapChildren_subset hlabel ih)

end Expr

namespace Block

/-- The labels of all nodes of a block. -/
def gather {α : Type} (label : Expr → List α) (block : Block) : List α :=
  (nodes block).flatMap label

variable {α : Type} {label : Expr → List α}

theorem gather_cons (label : Expr → List α) (stmt : Stmt) (rest : Block) :
    gather label (stmt :: rest) = gather label [stmt] ++ gather label rest := by
  rw [gather, nodes_cons, List.flatMap_append]
  rfl

theorem gather_append (label : Expr → List α) (left right : Block) :
    gather label (left ++ right) = gather label left ++ gather label right := by
  rw [gather, nodes_append, List.flatMap_append]
  rfl

theorem gather_singleton (label : Expr → List α) (stmt : Stmt) :
    gather label [stmt] =
      stmt.exprs.flatMap (Expr.gather label) ++ stmt.blocks.flatMap (gather label) := by
  rw [gather, nodes_singleton, List.flatMap_append, Stmt.nodes, List.flatMap_assoc,
    List.flatMap_assoc]
  rfl

theorem gather_exprStmt (label : Expr → List α) (value : Expr) :
    gather label [.expr value] = value.gather label := by
  simp [gather_singleton, Stmt.exprs, Stmt.blocks]

theorem gather_map_subset {f : Stmt → Stmt} {block : Block}
    (h : ∀ stmt ∈ block, gather label [f stmt] ⊆ gather label [stmt]) :
    gather label (block.map f) ⊆ gather label block := by
  induction block with
  | nil => exact List.Subset.refl _
  | cons stmt rest ih =>
    rw [List.map_cons, gather_cons, gather_cons label stmt]
    have hhead := h stmt List.mem_cons_self
    have htail := ih fun other hother => h other (List.mem_cons_of_mem _ hother)
    exact List.append_subset.2 ⟨List.Subset.trans hhead (List.subset_append_left _ _),
      List.Subset.trans htail (List.subset_append_right _ _)⟩

theorem gather_mapParts_subset {f : Expr → Expr} {g : Block → Block} {stmt : Stmt}
    (hexprs : ∀ expr ∈ stmt.exprs, (f expr).gather label ⊆ expr.gather label)
    (hblocks : ∀ block ∈ stmt.blocks, gather label (g block) ⊆ gather label block) :
    gather label [stmt.mapParts f g] ⊆ gather label [stmt] := by
  rw [gather_singleton, gather_singleton, Stmt.exprs_mapParts, Stmt.blocks_mapParts,
    List.flatMap_map, List.flatMap_map]
  exact List.append_subset.2
    ⟨List.Subset.trans (Expr.flatMap_subset_flatMap hexprs) (List.subset_append_left _ _),
      List.Subset.trans (Expr.flatMap_subset_flatMap hblocks) (List.subset_append_right _ _)⟩

variable {step : Expr → Expr × Nat} {close : Stmt → Stmt × Nat}

theorem gather_stmt_mapCounting_subset (hlabel : IsLabel label)
    (hstep : ∀ expr, (step expr).1.gather label ⊆ expr.gather label)
    (hclose : ∀ stmt, gather label [(close stmt).1] ⊆ gather label [stmt]) (stmt : Stmt) :
    gather label [(stmt.mapCounting step close).1] ⊆ gather label [stmt] := by
  induction stmt using Stmt.induction_blocks with
  | step stmt ih =>
    rw [Stmt.mapCounting_fst]
    apply List.Subset.trans (hclose _)
    apply gather_mapParts_subset
    · intro expr _
      exact Expr.gather_mapCounting_subset hlabel hstep expr
    · intro block hblock
      rw [Stmt.mapCountingBlock_fst]
      exact gather_map_subset (ih block hblock)

/-- A rewriting that adds no label at a node and none at a statement adds none at
all. -/
theorem gather_mapCountingBlock_subset (hlabel : IsLabel label)
    (hstep : ∀ expr, (step expr).1.gather label ⊆ expr.gather label)
    (hclose : ∀ stmt, gather label [(close stmt).1] ⊆ gather label [stmt]) (block : Block) :
    gather label (Stmt.mapCountingBlock step close block).1 ⊆ gather label block := by
  rw [Stmt.mapCountingBlock_fst]
  exact gather_map_subset fun stmt _ => gather_stmt_mapCounting_subset hlabel hstep hclose stmt

/-- A walk whose step adds no labels to a node adds none to a block. -/
theorem gather_mapCounting_subset (hlabel : IsLabel label)
    (hstep : ∀ expr, (step expr).1.gather label ⊆ expr.gather label) (block : Block) :
    gather label (mapCounting step block).1 ⊆ gather label block :=
  gather_mapCountingBlock_subset hlabel hstep (fun _ => List.Subset.refl _) block

theorem gather_map_eq_nil {f : Stmt → Stmt} {block : Block}
    (h : ∀ stmt ∈ block, gather label [f stmt] = []) : gather label (block.map f) = [] := by
  induction block with
  | nil => rfl
  | cons stmt rest ih =>
    rw [List.map_cons, gather_cons, h stmt List.mem_cons_self, List.nil_append]
    exact ih fun other hother => h other (List.mem_cons_of_mem _ hother)

/-- A rewriting that leaves no label in any expression leaves none in a block. -/
theorem gather_mapCounting_eq_nil
    (h : ∀ expr : Expr, (expr.mapCounting step).1.gather label = []) (block : Block) :
    gather label (mapCounting step block).1 = [] := by
  rw [mapCounting_fst]
  apply gather_map_eq_nil
  intro stmt hstmt
  clear hstmt
  induction stmt using Stmt.induction_blocks with
  | step stmt ih =>
    rw [Stmt.mapCounting_fst, gather_singleton, Stmt.exprs_mapParts, Stmt.blocks_mapParts,
      List.flatMap_map, List.flatMap_map, List.append_eq_nil_iff, List.flatMap_eq_nil_iff,
      List.flatMap_eq_nil_iff]
    refine ⟨fun expr _ => h expr, fun inner hinner => ?_⟩
    rw [Stmt.mapCountingBlock_fst]
    exact gather_map_eq_nil (ih inner hinner)

end Block

end Assemblage
