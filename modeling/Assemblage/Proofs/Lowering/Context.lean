import Assemblage.Proofs.Lowering.Move

/-!
# Blocks in a context

The statements around a block.  What can be said of a block in a context splits
into the block and what stands around it, and the context does the same with two
blocks that match as long as it only does what their similarity allows.
-/

namespace Assemblage.Lowering.Temporaries

open Evaluation Similarity

/-- A statement around a block, with the nodes and the declarations that it has
besides those of the block. -/
structure Wrapper where
  wrap : Block → Stmt
  others : List Expr
  declared : List VariableId
  countP_wrap : ∀ (p : Expr → Bool) (block : Block), (Block.nodes [wrap block]).countP p =
    (Block.nodes block).countP p + others.countP p
  declared_wrap : ∀ (id : VariableId) (block : Block), id ∈ Block.declared [wrap block] ↔
    id ∈ Block.declared block ∨ id ∈ declared
  matches_wrap : ∀ {I : Interpretation} {R : Similarity I} {turns : Nat} {block result : Block},
    (∀ node ∈ Block.nodes [wrap []], R.Permits node) →
    (∀ id ∈ Block.declared [wrap []], R.Reads (.slot id) ∧ R.Writes (.slot id)) →
    R.Matches (executeAll I turns block) (executeAll I turns result) →
    R.Matches (execute I turns (wrap block)) (execute I turns (wrap result))

namespace Wrapper

theorem relates_condition {I : Interpretation} {R : Similarity I} {condition : Expr}
    {stmt : Stmt} (hcondition : condition ∈ stmt.exprs)
    (h : ∀ node ∈ Block.nodes [stmt], R.Permits node) :
    R.Relates (valueOf I condition) (valueOf I condition) := by
  refine (similar_self fun node hnode => h node ?_).valueOf
  rw [Block.nodes_singleton]
  exact List.mem_append_left _ (List.mem_flatMap.2 ⟨condition, hcondition, hnode⟩)

/-- The blocks of a statement do the same from similar states if its nodes may be evaluated
there. -/
theorem matches_of_mem_blocks {I : Interpretation} {R : Similarity I} {turns : Nat} {stmt : Stmt}
    {block : Block} (hblock : block ∈ stmt.blocks)
    (h : ∀ node ∈ Block.nodes [stmt], R.Permits node)
    (hdeclared : ∀ id ∈ Block.declared [stmt], R.Reads (.slot id) ∧ R.Writes (.slot id)) :
    R.Matches (executeAll I turns block) (executeAll I turns block) := by
  rw [Block.nodes_singleton] at h
  rw [Block.declared_singleton] at hdeclared
  refine matches_executeAll_self (fun node hnode => h node ?_) fun id hid => hdeclared id ?_
  · exact List.mem_append_right _ (List.mem_flatMap.2 ⟨block, hblock, hnode⟩)
  · exact List.mem_append_right _ (List.mem_flatMap.2 ⟨block, hblock, hid⟩)

def block : Wrapper where
  wrap := .block
  others := []
  declared := []
  countP_wrap p block := by
    simp [Block.nodes_singleton, Stmt.nodes, Stmt.exprs, Stmt.blocks]
  declared_wrap id block := by
    simp [Block.declared_singleton, Stmt.declared?, Stmt.blocks]
  matches_wrap _ _ h := h

def ifThen (condition : Expr) : Wrapper where
  wrap := .ifThen condition
  others := condition.nodes
  declared := []
  countP_wrap p block := by
    simp [Block.nodes_singleton, Stmt.nodes, Stmt.exprs, Stmt.blocks, Nat.add_comm]
  declared_wrap id block := by
    simp [Block.declared_singleton, Stmt.declared?, Stmt.blocks]
  matches_wrap hpermits _ h := by
    have hcondition := relates_condition List.mem_cons_self hpermits
    apply matches_evaluating hcondition
    intro value
    split
    · exact h
    · exact matches_finish .normal

def loop (condition : Expr) : Wrapper where
  wrap := .loop condition
  others := condition.nodes
  declared := []
  countP_wrap p block := by
    simp [Block.nodes_singleton, Stmt.nodes, Stmt.exprs, Stmt.blocks, Nat.add_comm]
  declared_wrap id block := by
    simp [Block.declared_singleton, Stmt.declared?, Stmt.blocks]
  matches_wrap hpermits _ h := by
    have hcondition := relates_condition List.mem_cons_self hpermits
    exact matches_repeating hcondition h _

/-- The block for the case that the condition is true. -/
def whenTrue (condition : Expr) (otherwise : Block) : Wrapper where
  wrap body := .ifElse condition body otherwise
  others := condition.nodes ++ Block.nodes otherwise
  declared := Block.declared otherwise
  countP_wrap p block := by
    simp only [Block.nodes_singleton, Stmt.nodes, Stmt.exprs, Stmt.blocks, List.flatMap_cons,
      List.flatMap_nil, List.append_nil, List.countP_append]
    omega
  declared_wrap id block := by
    simp [Block.declared_singleton, Stmt.declared?, Stmt.blocks]
  matches_wrap hpermits hdeclared h := by
    have hcondition := relates_condition List.mem_cons_self hpermits
    have hmem : otherwise ∈ (Stmt.ifElse condition [] otherwise).blocks :=
      List.mem_cons_of_mem _ List.mem_cons_self
    apply matches_evaluating hcondition
    intro value
    split
    · exact h
    · exact matches_of_mem_blocks hmem hpermits hdeclared

/-- The block for the case that the condition is false. -/
def whenFalse (condition : Expr) (body : Block) : Wrapper where
  wrap otherwise := .ifElse condition body otherwise
  others := condition.nodes ++ Block.nodes body
  declared := Block.declared body
  countP_wrap p block := by
    simp only [Block.nodes_singleton, Stmt.nodes, Stmt.exprs, Stmt.blocks, List.flatMap_cons,
      List.flatMap_nil, List.append_nil, List.countP_append]
    omega
  declared_wrap id block := by
    simp [Block.declared_singleton, Stmt.declared?, Stmt.blocks, or_comm]
  matches_wrap hpermits hdeclared h := by
    have hcondition := relates_condition List.mem_cons_self hpermits
    apply matches_evaluating hcondition
    intro value
    split
    · exact matches_of_mem_blocks List.mem_cons_self hpermits hdeclared
    · exact h

end Wrapper

/-- Statements around a block.  The nodes and declarations around it are those of
the context filled with nothing. -/
structure Context where
  fill : Block → Block
  countP_fill : ∀ (p : Expr → Bool) (block : Block), (Block.nodes (fill block)).countP p =
    (Block.nodes block).countP p + (Block.nodes (fill [])).countP p
  declared_fill : ∀ (id : VariableId) (block : Block), id ∈ Block.declared (fill block) ↔
    id ∈ Block.declared block ∨ id ∈ Block.declared (fill [])
  matches_fill : ∀ {I : Interpretation} {R : Similarity I} {turns : Nat} {block result : Block},
    (∀ node ∈ Block.nodes (fill []), R.Permits node) →
    (∀ id ∈ Block.declared (fill []), R.Reads (.slot id) ∧ R.Writes (.slot id)) →
    R.Matches (executeAll I turns block) (executeAll I turns result) →
    R.Matches (executeAll I turns (fill block)) (executeAll I turns (fill result))

namespace Context

/-- What stands after a statement. -/
def after (stmt : Stmt) : Context where
  fill rest := stmt :: rest
  countP_fill p block := by
    rw [Block.nodes_cons, List.countP_append, Nat.add_comm]
  declared_fill id block := by
    rw [Block.declared_cons, List.mem_append, or_comm]
  matches_fill hpermits hdeclared h :=
    matches_executeAll_cons (matches_self hpermits hdeclared) h

/-- The block of a statement with other statements after it. -/
def inside (wrapper : Wrapper) (rest : List Stmt) : Context where
  fill block := wrapper.wrap block :: rest
  countP_fill p block := by
    have hempty : (Block.nodes []).countP p = 0 := rfl
    rw [Block.nodes_cons, Block.nodes_cons (wrapper.wrap []), List.countP_append,
      List.countP_append, wrapper.countP_wrap, wrapper.countP_wrap p [], hempty]
    omega
  declared_fill id block := by
    rw [Block.declared_cons, Block.declared_cons (wrapper.wrap []), List.mem_append,
      List.mem_append, wrapper.declared_wrap, wrapper.declared_wrap id [], Block.declared_nil]
    simp only [List.not_mem_nil, false_or]
    exact or_assoc
  matches_fill hpermits hdeclared h := by
    rw [Block.nodes_cons] at hpermits
    rw [Block.declared_cons] at hdeclared
    refine matches_executeAll_cons (wrapper.matches_wrap ?_ ?_ h) (matches_executeAll_self ?_ ?_)
    · exact fun node hnode => hpermits node (List.mem_append_left _ hnode)
    · exact fun id hid => hdeclared id (List.mem_append_left _ hid)
    · exact fun node hnode => hpermits node (List.mem_append_right _ hnode)
    · exact fun id hid => hdeclared id (List.mem_append_right _ hid)

variable {id : VariableId} {block : Block}

theorem occurrences_fill (context : Context) (id : VariableId) (block : Block) :
    occurrences id (Block.nodes (context.fill block)) =
      occurrences id (Block.nodes block) + occurrences id (Block.nodes (context.fill [])) :=
  context.countP_fill _ block

theorem assignments_fill (context : Context) (id : VariableId) (block : Block) :
    assignments id (Block.nodes (context.fill block)) =
      assignments id (Block.nodes block) + assignments id (Block.nodes (context.fill [])) :=
  context.countP_fill _ block

/-- What fits a block in context fits the block. -/
theorem fits_of_fits_fill (context : Context) (h : Fits id (context.fill block)) :
    Fits id block where
  twice := by
    have htwice := h.twice
    rw [occurrences_fill] at htwice
    omega
  once := by
    have honce := h.once
    rw [assignments_fill] at honce
    omega
  undeclared hmem := h.undeclared ((context.declared_fill id block).2 (.inl hmem))

end Context

end Assemblage.Lowering.Temporaries
