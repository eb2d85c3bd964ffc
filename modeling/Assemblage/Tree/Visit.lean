import Assemblage.Tree.Stmt

/-!
# Visits

Walks over whole bodies.  An expression is as deep as it was in the source, and
a walk over it recurs; blocks can be nested to any depth, and a walk over these
keeps a stack of its own.  What is to be done at a place is a function that
carries a state along, and a walk that rewrites goes on in what it has written.
-/

namespace Assemblage

variable {σ : Type}

namespace Expr

/-- The node with other operands in place of its own. -/
def withChildren : Expr → List Expr → Expr
  | .field _ owner name type, [target] => .field target owner name type
  | .element _ _ type, [array, index] => .element array index type
  | .staticCall method _, arguments => .staticCall method arguments
  | .call _ method _, target :: arguments => .call target method arguments
  | .create type _, arguments => .create type arguments
  | .binary op _ _, [left, right] => .binary op left right
  | .unary op _, [operand] => .unary op operand
  | .assign op _ _, [target, value] => .assign op target value
  | .conditional _ _ _, [condition, whenTrue, whenFalse] =>
    .conditional condition whenTrue whenFalse
  | .copy _, [value] => .copy value
  | .cast type _, [value] => .cast type value
  | expr, _ => expr

theorem sizeOf_lt_of_mem_children {child expr : Expr} (h : child ∈ expr.children) :
    sizeOf child < sizeOf expr := by
  have hlist : ∀ arguments : List Expr, child ∈ arguments → sizeOf child < sizeOf arguments :=
    fun _ => List.sizeOf_lt_of_mem
  cases expr <;> simp only [children, List.mem_cons, List.not_mem_nil, or_false] at h <;>
    grind

/-- Visits a node and all nodes below it, each before its operands. -/
def visit (f : σ → Expr → σ) (expr : Expr) (state : σ) : σ :=
  expr.children.attach.foldl (fun state child => child.1.visit f state) (f state expr)
termination_by expr
decreasing_by exact sizeOf_lt_of_mem_children child.2

/-- Rewrites a node and all nodes below it, each after its operands. -/
def rewrite (f : Expr → StateM σ Expr) (expr : Expr) : StateM σ Expr := do
  let operands ← expr.children.attach.mapM fun child => child.1.rewrite f
  f (expr.withChildren operands)
termination_by expr
decreasing_by exact sizeOf_lt_of_mem_children child.2

end Expr

namespace Stmt

/-- Rewrites the expressions that belong to the statement itself. -/
def rewriteOwn (f : Expr → StateM σ Expr) : Stmt → StateM σ Stmt
  | .expr value => return .expr (← value.rewrite f)
  | .declare id value => return .declare id (← value.mapM (Expr.rewrite f))
  | .ifThen condition body => return .ifThen (← condition.rewrite f) body
  | .ifElse condition body otherwise => return .ifElse (← condition.rewrite f) body otherwise
  | .loop condition body => return .loop (← condition.rewrite f) body
  | .ret value => return .ret (← value.mapM (Expr.rewrite f))
  | .raise value => return .raise (← value.rewrite f)
  | stmt => return stmt

/-- The statement with other blocks in place of its own. -/
def withBlocks : Stmt → List Block → Stmt
  | .block _, [body] => .block body
  | .ifThen condition _, [body] => .ifThen condition body
  | .ifElse condition _ _, [body, otherwise] => .ifElse condition body otherwise
  | .loop condition _, [body] => .loop condition body
  | stmt, _ => stmt

theorem sizeOf_blocks_append_lt (stmt : Stmt) (rest : Block) (stack : List Block) :
    sizeOf (stmt.blocks ++ rest :: stack) < sizeOf ((stmt :: rest) :: stack) := by
  have hexpr : ∀ expr : Expr, 0 < sizeOf expr := fun expr => by cases expr <;> grind
  cases stmt with
  | ifElse condition body otherwise =>
    have hcondition := hexpr condition
    simp only [blocks, List.cons_append, List.nil_append, List.cons.sizeOf_spec,
      ifElse.sizeOf_spec]
    omega
  | _ =>
    simp only [blocks, List.cons_append, List.nil_append, List.cons.sizeOf_spec]
    grind

end Stmt

namespace Block

/-- Visits what is left of the blocks on a stack.  The blocks of a statement come
on top, the last one first, and its own block is taken up again after them. -/
def visitStack (f : σ → Stmt → σ) (stack : List Block) (state : σ) : σ :=
  match stack with
  | [] => state
  | [] :: stack => visitStack f stack state
  | (stmt :: rest) :: stack =>
    visitStack f (stmt.blocks.foldr List.cons (rest :: stack)) (f state stmt)
termination_by stack
decreasing_by
  · simp
  · rw [List.foldr_cons_eq_append']
    exact stmt.sizeOf_blocks_append_lt rest stack

/-- Visits every statement of a block, nested ones included. -/
def visitStatements (f : σ → Stmt → σ) (block : Block) (state : σ) : σ :=
  visitStack f [block] state

/-- Visits every expression node of a block, nested blocks included. -/
def visitExprs (f : σ → Expr → σ) (block : Block) (state : σ) : σ :=
  visitStatements (fun state stmt => stmt.exprs.foldl (fun state expr => expr.visit f state) state)
    block state

/-! ## Blocks -/

/-- The blocks directly inside the statements of a block. -/
def nested (block : Block) : List Block :=
  block.flatMap Stmt.blocks

/-- The block with other blocks inside its statements. -/
def withNested : Block → List Block → Block
  | [], _ => []
  | stmt :: rest, blocks =>
    stmt.withBlocks (blocks.take stmt.blocks.length) ::
      withNested rest (blocks.drop stmt.blocks.length)

/-- The way down to a block: each number is a position among the blocks directly
inside the one before. -/
abbrev Place := List Nat

def inside? (block : Block) : Place → Option Block
  | [] => some block
  | index :: place => (nested block)[index]?.bind fun inner => inside? inner place

/-- Puts a block in place of the one at a place. -/
def put (new : Block) : Place → Block → Block
  | [], _ => new
  | index :: place, block => withNested block ((nested block).modify index (put new place))

/-- Puts the places of blocks inside the one at a place on a stack, the last one
first.  The first of them has the given position. -/
def push (place : Place) (position : Nat) (blocks : List Block) (stack : List Place) :
    List Place :=
  (blocks.zipIdx position).foldr (fun (_, index) stack => (place ++ [index]) :: stack) stack

/-- Rewrites the blocks at the places on a stack, and then those inside of what has
been written, in no more turns than given.  There is no result where these do not
suffice; a place that leads nowhere is passed over. -/
def rewriteStack (f : Block → StateM σ Block) :
    Nat → Block → List Place → σ → Option (Block × σ)
  | _, root, [], state => some (root, state)
  | 0, _, _ :: _, _ => none
  | turns + 1, root, place :: stack, state =>
    match inside? root place with
    | none => rewriteStack f turns root stack state
    | some block =>
      let (block, state) := f block state
      rewriteStack f turns (put block place root) (push place 0 (nested block) stack) state

/-- Rewrites a block and every block inside it, outer ones first. -/
def rewriteBlocks (f : Block → StateM σ Block) (turns : Nat) (block : Block) (state : σ) :
    Option (Block × σ) :=
  rewriteStack f turns block [[]] state

/-- Rewrites every statement of a block, nested ones included. -/
def rewriteStatements (f : Stmt → StateM σ Stmt) (turns : Nat) (block : Block) (state : σ) :
    Option (Block × σ) :=
  rewriteBlocks (List.mapM f) turns block state

/-- Rewrites every expression node of a block, nested blocks included. -/
def rewriteExprs (f : Expr → StateM σ Expr) (turns : Nat) (block : Block) (state : σ) :
    Option (Block × σ) :=
  rewriteStatements (Stmt.rewriteOwn f) turns block state

end Block

/-- The number of statements and expression nodes. -/
def MethodTree.instructionCount (tree : MethodTree) : Nat :=
  Block.visitStatements
    (fun count stmt =>
      stmt.exprs.foldl (fun count expr => expr.visit (fun count _ => count + 1) count) (count + 1))
    tree.body 0

end Assemblage
