import Assemblage.Proofs.Tree.Structure

/-!
# What is inside a tree

What an expression, a statement and a block are made of, said constructor by
constructor and without a walk.  The lists that the walks of the passes go
through hold exactly this: no operand, statement or block is missed at any
depth.
-/

namespace Assemblage

namespace Expr

/-- `Operand child expr` says that `child` is a direct operand of `expr`. -/
inductive Operand : Expr → Expr → Prop
  | fieldTarget (target : Expr) (owner : Signature) (name : String) (type : Signature) :
    Operand target (.field target owner name type)
  | array (array index : Expr) (type : Signature) : Operand array (.element array index type)
  | index (array index : Expr) (type : Signature) : Operand index (.element array index type)
  | staticArgument {argument : Expr} {arguments : List Expr} (method : MethodRef)
      (h : argument ∈ arguments) :
    Operand argument (.staticCall method arguments)
  | receiver (target : Expr) (method : MethodRef) (arguments : List Expr) :
    Operand target (.call target method arguments)
  | argument {argument : Expr} {arguments : List Expr} (target : Expr) (method : MethodRef)
      (h : argument ∈ arguments) :
    Operand argument (.call target method arguments)
  | createArgument {argument : Expr} {arguments : List Expr} (type : Signature)
      (h : argument ∈ arguments) :
    Operand argument (.create type arguments)
  | left (op : BinaryOp) (left right : Expr) : Operand left (.binary op left right)
  | right (op : BinaryOp) (left right : Expr) : Operand right (.binary op left right)
  | unary (op : UnaryOp) (operand : Expr) : Operand operand (.unary op operand)
  | assigned (op : Option BinaryOp) (target value : Expr) : Operand target (.assign op target value)
  | value (op : Option BinaryOp) (target value : Expr) : Operand value (.assign op target value)
  | condition (condition whenTrue whenFalse : Expr) :
    Operand condition (.conditional condition whenTrue whenFalse)
  | whenTrue (condition whenTrue whenFalse : Expr) :
    Operand whenTrue (.conditional condition whenTrue whenFalse)
  | whenFalse (condition whenTrue whenFalse : Expr) :
    Operand whenFalse (.conditional condition whenTrue whenFalse)
  | copied (value : Expr) : Operand value (.copy value)
  | converted (type : Signature) (value : Expr) : Operand value (.cast type value)

/-- `Inside node expr` says that `node` is `expr` or below it at any depth. -/
inductive Inside (node : Expr) : Expr → Prop
  | here : Inside node node
  | under {child expr : Expr} (hoperand : Operand child expr) (h : Inside node child) :
    Inside node expr

/-- `Stores expr type` says that the node itself holds a reference to the type. -/
inductive Stores : Expr → Signature → Prop
  | create (type : Signature) (arguments : List Expr) : Stores (.create type arguments) type
  | cast (type : Signature) (value : Expr) : Stores (.cast type value) type
  | defaultValue (type : Signature) : Stores (.defaultValue type) type
  | element (array index : Expr) (type : Signature) : Stores (.element array index type) type
  | staticFieldOwner (owner : Signature) (name : String) (type : Signature) :
    Stores (.staticField owner name type) owner
  | staticFieldType (owner : Signature) (name : String) (type : Signature) :
    Stores (.staticField owner name type) type
  | fieldOwner (target : Expr) (owner : Signature) (name : String) (type : Signature) :
    Stores (.field target owner name type) owner
  | fieldType (target : Expr) (owner : Signature) (name : String) (type : Signature) :
    Stores (.field target owner name type) type
  | staticCallDeclaring (method : MethodRef) (arguments : List Expr) :
    Stores (.staticCall method arguments) method.declaring
  | staticCallResult (method : MethodRef) (arguments : List Expr) :
    Stores (.staticCall method arguments) method.result
  | staticCallParameter {type : Signature} (method : MethodRef) (arguments : List Expr)
      (h : type ∈ method.parameters) :
    Stores (.staticCall method arguments) type
  | callDeclaring (target : Expr) (method : MethodRef) (arguments : List Expr) :
    Stores (.call target method arguments) method.declaring
  | callResult (target : Expr) (method : MethodRef) (arguments : List Expr) :
    Stores (.call target method arguments) method.result
  | callParameter {type : Signature} (target : Expr) (method : MethodRef) (arguments : List Expr)
      (h : type ∈ method.parameters) :
    Stores (.call target method arguments) type

/-- The list of operands has just the operands. -/
theorem mem_children_iff {child expr : Expr} : child ∈ expr.children ↔ Operand child expr := by
  constructor
  · intro h
    cases expr <;> simp only [children, List.mem_cons, List.not_mem_nil, or_false] at h
    case staticCall => exact .staticArgument _ h
    case create => exact .createArgument _ h
    case call =>
      cases h with
      | inl heq =>
        subst heq
        exact .receiver ..
      | inr h => exact .argument _ _ h
    case conditional => rcases h with rfl | rfl | rfl <;> constructor
    case element => rcases h with rfl | rfl <;> constructor
    case binary => rcases h with rfl | rfl <;> constructor
    case assign => rcases h with rfl | rfl <;> constructor
    all_goals subst h; constructor
  · rintro (_ | _ | _) <;> simp_all [children]

/-- The list of nodes has just what stands inside an expression. -/
theorem mem_nodes_iff {node expr : Expr} : node ∈ expr.nodes ↔ Inside node expr := by
  constructor
  · induction expr using induction_children with
    | step expr ih =>
      intro h
      rw [nodes_eq_cons, List.mem_cons, List.mem_flatMap] at h
      rcases h with rfl | ⟨child, hchild, hnode⟩
      · exact .here
      · exact .under (mem_children_iff.1 hchild) (ih child hchild hnode)
  · intro h
    induction h with
    | here => exact mem_nodes_self node
    | under hoperand _ ih => exact mem_nodes_of_child (mem_children_iff.2 hoperand) ih

theorem mem_types_iff {expr : Expr} {type : Signature} : type ∈ expr.types ↔ Stores expr type := by
  constructor
  · intro h
    cases expr <;> simp only [types, List.mem_cons, List.not_mem_nil, or_false] at h
    case staticField => rcases h with rfl | rfl <;> constructor
    case field => rcases h with rfl | rfl <;> constructor
    case staticCall => rcases h with rfl | rfl | h <;> constructor; exact h
    case call => rcases h with rfl | rfl | h <;> constructor; exact h
    all_goals subst h; constructor
  · intro h
    cases h <;> simp_all [types]

end Expr

namespace Stmt

/-- `Owns stmt expr` says that `expr` belongs to the statement itself. -/
inductive Owns : Stmt → Expr → Prop
  | expr (value : Expr) : Owns (.expr value) value
  | declare (id : VariableId) (value : Expr) : Owns (.declare id (some value)) value
  | ifThen (condition : Expr) (body : Block) : Owns (.ifThen condition body) condition
  | ifElse (condition : Expr) (body otherwise : Block) :
    Owns (.ifElse condition body otherwise) condition
  | loop (condition : Expr) (body : Block) : Owns (.loop condition body) condition
  | ret (value : Expr) : Owns (.ret (some value)) value
  | raise (value : Expr) : Owns (.raise value) value

/-- `Encloses stmt block` says that `block` stands directly inside the statement. -/
inductive Encloses : Stmt → Block → Prop
  | block (body : Block) : Encloses (.block body) body
  | ifThen (condition : Expr) (body : Block) : Encloses (.ifThen condition body) body
  | ifElseBody (condition : Expr) (body otherwise : Block) :
    Encloses (.ifElse condition body otherwise) body
  | ifElseOtherwise (condition : Expr) (body otherwise : Block) :
    Encloses (.ifElse condition body otherwise) otherwise
  | loop (condition : Expr) (body : Block) : Encloses (.loop condition body) body

theorem mem_exprs_iff {stmt : Stmt} {expr : Expr} : expr ∈ stmt.exprs ↔ stmt.Owns expr := by
  constructor
  · intro h
    cases stmt <;> simp only [exprs, List.mem_cons, List.not_mem_nil, or_false,
      Option.mem_toList] at h
    all_goals subst h; constructor
  · intro h
    cases h <;> simp [exprs]

theorem mem_blocks_iff {stmt : Stmt} {block : Block} :
    block ∈ stmt.blocks ↔ stmt.Encloses block := by
  constructor
  · intro h
    cases stmt <;> simp only [blocks, List.mem_cons, List.not_mem_nil, or_false] at h
    case ifElse => rcases h with rfl | rfl <;> constructor
    all_goals subst h; constructor
  · intro h
    cases h <;> simp [blocks]

end Stmt

namespace Block

/-- `Contains stmt block` says that the statement stands in the block at any depth. -/
inductive Contains (stmt : Stmt) : Block → Prop
  | here {block : Block} (h : stmt ∈ block) : Contains stmt block
  | deeper {outer : Stmt} {block inner : Block} (houter : outer ∈ block)
      (hinner : outer.Encloses inner) (h : Contains stmt inner) :
    Contains stmt block

/-- Some statement at any depth has the node in one of its expressions. -/
def Inside (node : Expr) (block : Block) : Prop :=
  ∃ stmt expr, Contains stmt block ∧ stmt.Owns expr ∧ Expr.Inside node expr

/-- Some statement at any depth declares the variable. -/
def Declares (id : VariableId) (block : Block) : Prop :=
  ∃ value, Contains (.declare id value) block

theorem mem_statements_of_mem {stmt inner : Stmt} {block : Block} (hstmt : stmt ∈ block)
    (hinner : inner ∈ stmt.all) : inner ∈ statements block := by
  rw [statements, Stmt.allOfBlock_eq_flatMap]
  exact List.mem_flatMap.2 ⟨stmt, hstmt, hinner⟩

theorem contains_of_mem_all {inner outer : Stmt} (h : inner ∈ outer.all) :
    ∀ block : Block, outer ∈ block → Contains inner block := by
  induction outer using Stmt.induction_blocks with
  | step outer ih =>
    intro block houter
    rw [Stmt.all_eq_cons, List.mem_cons, List.mem_flatMap] at h
    rcases h with rfl | ⟨nested, hnested, hinner⟩
    · exact .here houter
    · rw [Stmt.allOfBlock_eq_flatMap, List.mem_flatMap] at hinner
      obtain ⟨stmt, hstmt, hinner⟩ := hinner
      exact .deeper houter (Stmt.mem_blocks_iff.1 hnested)
        (ih nested hnested stmt hstmt hinner nested hstmt)

/-- The list of statements has just what a block contains, at any depth. -/
theorem mem_statements_iff {stmt : Stmt} {block : Block} :
    stmt ∈ statements block ↔ Contains stmt block := by
  constructor
  · intro h
    rw [statements, Stmt.allOfBlock_eq_flatMap, List.mem_flatMap] at h
    obtain ⟨outer, houter, hstmt⟩ := h
    exact contains_of_mem_all hstmt block houter
  · intro h
    induction h with
    | here h =>
      apply mem_statements_of_mem h
      rw [Stmt.all_eq_cons]
      exact List.mem_cons_self
    | deeper houter hinner _ ih =>
      apply mem_statements_of_mem houter
      rw [Stmt.all_eq_cons]
      exact List.mem_cons_of_mem _
        (List.mem_flatMap.2 ⟨_, Stmt.mem_blocks_iff.2 hinner, ih⟩)

/-- The nodes of a block are those inside an expression of a statement that it contains. -/
theorem mem_nodes_iff {node : Expr} {block : Block} : node ∈ nodes block ↔ Inside node block := by
  simp only [nodes, Stmt.nodes, List.mem_flatMap, mem_statements_iff, Stmt.mem_exprs_iff,
    Expr.mem_nodes_iff]
  constructor
  · rintro ⟨stmt, hstmt, expr, hexpr, hnode⟩
    exact ⟨stmt, expr, hstmt, hexpr, hnode⟩
  · rintro ⟨stmt, expr, hstmt, hexpr, hnode⟩
    exact ⟨stmt, hstmt, expr, hexpr, hnode⟩

/-- The declared variables are those for which the block contains a declaration. -/
theorem mem_declared_iff {id : VariableId} {block : Block} :
    id ∈ declared block ↔ Declares id block := by
  rw [declared, List.mem_filterMap]
  constructor
  · rintro ⟨stmt, hstmt, hid⟩
    cases stmt <;> simp only [Stmt.declared?, Option.some.injEq, reduceCtorEq] at hid
    subst hid
    exact ⟨_, mem_statements_iff.1 hstmt⟩
  · rintro ⟨value, h⟩
    exact ⟨_, mem_statements_iff.2 h, rfl⟩

end Block

end Assemblage
