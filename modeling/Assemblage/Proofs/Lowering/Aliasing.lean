import Assemblage.Model.Store
import Assemblage.Proofs.Lowering.Passes
import Assemblage.Proofs.Tree.Inside

/-!
# Shared structs

A value that is stored in a location or handed to a method must not be the very
object that another location holds, where that object stands for a struct.  The
copies the pass inserts ensure this for values that are locations themselves.
A value that only passes the object of a location on, as a conditional, a cast
or a chained assignment does, is left as it is.  So the tree that the pass
returns is free of shared structs exactly if no such value occurs in the tree
it was given.
-/

namespace Assemblage

namespace Expr

/-- `Yields expr location` says that the value of `expr` may be the object that
`location` holds. -/
inductive Yields : Expr → Expr → Prop
  | stored {location : Expr} (h : location.isLocation = true) : Yields location location
  | assigned {target : Expr} (value : Expr) (h : target.isLocation = true) :
    Yields (.assign none target value) target
  | whenTrue {whenTrue location : Expr} (condition whenFalse : Expr)
      (h : Yields whenTrue location) :
    Yields (.conditional condition whenTrue whenFalse) location
  | whenFalse {whenFalse location : Expr} (condition whenTrue : Expr)
      (h : Yields whenFalse location) :
    Yields (.conditional condition whenTrue whenFalse) location
  | converted {value location : Expr} (type : Signature) (h : Yields value location) :
    Yields (.cast type value) location

/-- The value may be the object that holds the struct of some location. -/
def SharesStruct (oracle : Oracle) (table : VariableTable) (expr : Expr) : Prop :=
  ∃ location, expr.Yields location ∧ (location.type? table).any oracle.isStruct = true

/-- The values that a node stores in a location or hands to a method. -/
def handed : Expr → List Expr
  | .assign none _ value => [value]
  | .staticCall _ arguments | .call _ _ arguments | .create _ arguments => arguments
  | _ => []

/-- Whether the value is new, or at least not an object that a location holds. -/
def isDetached : Expr → Bool
  | .raw _ | .bound _ | .staticField .. | .field .. | .element .. => false
  | .assign none .. | .conditional .. | .cast .. => false
  | _ => true

theorem handed_mapChildren (f : Expr → Expr) (expr : Expr) :
    (expr.mapChildren f).handed = expr.handed.map f := by
  cases expr with
  | assign op target value => cases op <;> rfl
  | _ => rfl

theorem isLocation_mapChildren (f : Expr → Expr) (expr : Expr) :
    (expr.mapChildren f).isLocation = expr.isLocation := by
  cases expr <;> rfl

section SharesStruct

variable {oracle : Oracle} {table : VariableTable}

theorem sharesStruct_of_isLocation {expr : Expr} (hlocation : expr.isLocation = true) :
    expr.SharesStruct oracle table ↔ (expr.type? table).any oracle.isStruct = true := by
  constructor
  · intro ⟨location, hyields, hstruct⟩
    cases hyields with
    | stored => exact hstruct
    | _ => simp [isLocation] at hlocation
  · intro hstruct
    exact ⟨expr, .stored hlocation, hstruct⟩

theorem sharesStruct_assign {target value : Expr} :
    (Expr.assign none target value).SharesStruct oracle table ↔
      target.isLocation = true ∧ (target.type? table).any oracle.isStruct = true := by
  constructor
  · intro ⟨location, hyields, hstruct⟩
    cases hyields with
    | stored hlocation => simp [isLocation] at hlocation
    | assigned _ hlocation => exact ⟨hlocation, hstruct⟩
  · intro ⟨hlocation, hstruct⟩
    exact ⟨target, .assigned value hlocation, hstruct⟩

/-- A conditional shares what either of its branches shares. -/
theorem sharesStruct_conditional {condition whenTrue whenFalse : Expr} :
    (Expr.conditional condition whenTrue whenFalse).SharesStruct oracle table ↔
      whenTrue.SharesStruct oracle table ∨ whenFalse.SharesStruct oracle table := by
  constructor
  · intro ⟨location, hyields, hstruct⟩
    cases hyields with
    | stored hlocation => simp [isLocation] at hlocation
    | whenTrue _ _ h => exact .inl ⟨location, h, hstruct⟩
    | whenFalse _ _ h => exact .inr ⟨location, h, hstruct⟩
  · intro hbranch
    cases hbranch with
    | inl h =>
      obtain ⟨location, hyields, hstruct⟩ := h
      exact ⟨location, .whenTrue _ _ hyields, hstruct⟩
    | inr h =>
      obtain ⟨location, hyields, hstruct⟩ := h
      exact ⟨location, .whenFalse _ _ hyields, hstruct⟩

theorem sharesStruct_cast {type : Signature} {value : Expr} :
    (Expr.cast type value).SharesStruct oracle table ↔ value.SharesStruct oracle table := by
  constructor
  · intro ⟨location, hyields, hstruct⟩
    cases hyields with
    | stored hlocation => simp [isLocation] at hlocation
    | converted _ h => exact ⟨location, h, hstruct⟩
  · intro ⟨location, hyields, hstruct⟩
    exact ⟨location, .converted type hyields, hstruct⟩

/-- What is detached shares nothing. -/
theorem not_sharesStruct_of_isDetached {expr : Expr} (hdetached : expr.isDetached = true) :
    ¬expr.SharesStruct oracle table := by
  intro ⟨location, hyields, _⟩
  cases hyields with
  | stored hlocation => cases expr <;> simp_all [isLocation, isDetached]
  | _ => simp [isDetached] at hdetached

end SharesStruct

end Expr

namespace Stmt

/-- The value a declaration starts its variable with. -/
def initial? : Stmt → Option Expr
  | .declare _ value => value
  | _ => none

/-- The values that the statement itself, without the blocks inside it, stores
in a location or hands to a method. -/
def handed (stmt : Stmt) : List Expr :=
  stmt.initial?.toList ++ stmt.exprs.flatMap (Expr.gather Expr.handed)

end Stmt

namespace Block

/-- The values that are stored in a location or handed to a method anywhere in
the block. -/
def handed (block : Block) : List Expr :=
  (statements block).flatMap Stmt.handed

/-- `Hands value block` says that some assignment, declaration or call in the
block, at any depth, stores the value in a location or hands it to a method. -/
inductive Hands (value : Expr) (block : Block) : Prop
  | assigned {target : Expr} (h : Inside (.assign none target value) block)
  | initial {id : VariableId} (h : Contains (.declare id (some value)) block)
  | staticArgument {method : MethodRef} {arguments : List Expr} (hmem : value ∈ arguments)
      (h : Inside (.staticCall method arguments) block)
  | argument {target : Expr} {method : MethodRef} {arguments : List Expr}
      (hmem : value ∈ arguments) (h : Inside (.call target method arguments) block)
  | createArgument {type : Signature} {arguments : List Expr} (hmem : value ∈ arguments)
      (h : Inside (.create type arguments) block)

theorem mem_handed {value : Expr} {block : Block} :
    value ∈ handed block ↔
      (∃ stmt, Contains stmt block ∧ stmt.initial? = some value) ∨
        ∃ node, Inside node block ∧ value ∈ node.handed := by
  have hnodes : (∃ node, Inside node block ∧ value ∈ node.handed) ↔
      ∃ stmt ∈ statements block, value ∈ stmt.exprs.flatMap (Expr.gather Expr.handed) := by
    simp only [← mem_nodes_iff, nodes, Stmt.nodes, Expr.gather, List.mem_flatMap]
    constructor
    · rintro ⟨node, ⟨stmt, hstmt, expr, hexpr, hnode⟩, hvalue⟩
      exact ⟨stmt, hstmt, expr, hexpr, node, hnode, hvalue⟩
    · rintro ⟨stmt, hstmt, expr, hexpr, node, hnode, hvalue⟩
      exact ⟨node, ⟨stmt, hstmt, expr, hexpr, hnode⟩, hvalue⟩
  rw [hnodes, handed, List.mem_flatMap]
  simp only [Stmt.handed, List.mem_append, Option.mem_toList,
    ← mem_statements_iff, and_or_left, exists_or]

/-- The list of what is handed on is the list of the places where values are handed on. -/
theorem mem_handed_iff {value : Expr} {block : Block} :
    value ∈ handed block ↔ Hands value block := by
  rw [mem_handed]
  constructor
  · intro h
    cases h with
    | inl h =>
      obtain ⟨stmt, hstmt, hvalue⟩ := h
      cases stmt <;> simp only [Stmt.initial?, reduceCtorEq] at hvalue
      subst hvalue
      exact .initial hstmt
    | inr h =>
      obtain ⟨node, hnode, hvalue⟩ := h
      cases node with
      | assign op target assigned =>
        cases op <;> simp only [Expr.handed, List.mem_singleton, List.not_mem_nil] at hvalue
        subst hvalue
        exact .assigned hnode
      | staticCall method arguments => exact .staticArgument hvalue hnode
      | call target method arguments => exact .argument hvalue hnode
      | create type arguments => exact .createArgument hvalue hnode
      | _ => simp [Expr.handed] at hvalue
  · intro h
    cases h with
    | initial h => exact .inl ⟨_, h, rfl⟩
    | assigned h => exact .inr ⟨_, h, List.mem_singleton_self value⟩
    | staticArgument hmem h => exact .inr ⟨_, h, hmem⟩
    | argument hmem h => exact .inr ⟨_, h, hmem⟩
    | createArgument hmem h => exact .inr ⟨_, h, hmem⟩

end Block

/-- The values that the statement, with the blocks inside it, stores in a
location or hands to a method. -/
def Stmt.handedWithin (stmt : Stmt) : List Expr :=
  stmt.handed ++ stmt.blocks.flatMap Block.handed

theorem Block.handed_eq_flatMap (block : Block) :
    handed block = block.flatMap Stmt.handedWithin := by
  rw [handed, statements_eq_flatMap, List.flatMap_assoc]
  simp only [List.flatMap_cons, List.flatMap_assoc]
  rfl

namespace Lowering.StructCopies

variable (oracle : Oracle) (table : VariableTable)

/-- The expression with the copies inserted into its operands at every depth. -/
def rewritten (expr : Expr) : Expr :=
  (expr.mapCounting (copyInExpr oracle table)).1

/-- A handed value as the pass leaves it. -/
def handedOn (value : Expr) : Expr :=
  (copied oracle table (rewritten oracle table value)).1

/-- The pass rewrites the parts of an expression and then the expression. -/
theorem rewritten_eq (expr : Expr) :
    rewritten oracle table expr =
      (copyInExpr oracle table (expr.mapChildren (rewritten oracle table))).1 :=
  Expr.mapCounting_fst (copyInExpr oracle table) expr

theorem handed_copyInExpr (expr : Expr) :
    (copyInExpr oracle table expr).1.handed =
      expr.handed.map fun value => (copied oracle table value).1 := by
  cases expr with
  | assign op target value => cases op <;> rfl
  | staticCall method arguments => exact copiedAll_fst oracle table arguments
  | call target method arguments => exact copiedAll_fst oracle table arguments
  | create type arguments => exact copiedAll_fst oracle table arguments
  | _ => rfl

/-- A copy hands nothing over itself. -/
theorem gather_handed_copied (expr : Expr) :
    (copied oracle table expr).1.gather Expr.handed = expr.gather Expr.handed := by
  rw [copied]
  split
  · rw [Expr.gather_eq, Expr.children, List.flatMap_singleton]
    rfl
  · rfl

theorem gather_handed_children (expr : Expr) :
    (copyInExpr oracle table expr).1.children.flatMap (Expr.gather Expr.handed) =
      expr.children.flatMap (Expr.gather Expr.handed) := by
  have harguments : ∀ arguments : List Expr,
      (copiedAll oracle table arguments).1.flatMap (Expr.gather Expr.handed) =
        arguments.flatMap (Expr.gather Expr.handed) := by
    intro arguments
    rw [copiedAll_fst, List.flatMap_map]
    simp only [gather_handed_copied]
  cases expr with
  | assign op target value =>
    cases op
    · simp [copyInExpr, Expr.children, gather_handed_copied]
    · rfl
  | staticCall method arguments => exact harguments arguments
  | call target method arguments =>
    simp [copyInExpr, Expr.children, harguments]
  | create type arguments => exact harguments arguments
  | _ => rfl

/-- What is handed on in a rewritten expression is what was handed on, copied where a copy is
needed. -/
theorem gather_handed_rewritten (expr : Expr) :
    (rewritten oracle table expr).gather Expr.handed =
      (expr.gather Expr.handed).map (handedOn oracle table) := by
  induction expr using Expr.induction_children with
  | step expr ih =>
    rw [Expr.gather_eq, Expr.gather_eq Expr.handed expr, List.map_append, List.map_flatMap,
      rewritten_eq, handed_copyInExpr, gather_handed_children, Expr.handed_mapChildren,
      Expr.children_mapChildren, List.map_map, List.flatMap_map]
    congr 1
    exact List.flatMap_congr ih

theorem blocks_copyInStmt (stmt : Stmt) :
    (copyInStmt oracle table stmt).1.blocks = stmt.blocks := by
  unfold copyInStmt
  split
  · rfl
  · split <;> rfl
  · rfl

theorem handed_copyInStmt (f : Block → Block) (stmt : Stmt) :
    (copyInStmt oracle table (stmt.mapParts (rewritten oracle table) f)).1.handed =
      stmt.handed.map (handedOn oracle table) := by
  cases stmt with
  | declare id value =>
    cases value with
    | none => rfl
    | some value =>
      simp [copyInStmt, Stmt.mapParts, Stmt.handed, Stmt.initial?, Stmt.exprs,
        gather_handed_copied, gather_handed_rewritten, handedOn]
  | ret value =>
    cases value with
    | none => rfl
    | some value =>
      by_cases hshared : isShared (rewritten oracle table value) = true <;>
        simp [copyInStmt, Stmt.mapParts, Stmt.handed, Stmt.initial?, Stmt.exprs,
          hshared, gather_handed_copied, gather_handed_rewritten]
  | _ =>
    simp [copyInStmt, Stmt.mapParts, Stmt.handed, Stmt.initial?, Stmt.exprs,
      gather_handed_rewritten]

/-- The statement as the pass leaves it. -/
def rewrittenStmt (stmt : Stmt) : Stmt :=
  (stmt.mapCounting (copyInExpr oracle table) (copyInStmt oracle table)).1

/-- The pass rewrites the parts of a statement and then the statement. -/
theorem rewrittenStmt_eq (stmt : Stmt) :
    rewrittenStmt oracle table stmt =
      (copyInStmt oracle table (stmt.mapParts (rewritten oracle table)
        (List.map (rewrittenStmt oracle table)))).1 := by
  have hblocks : (fun block => (Stmt.mapCountingBlock (copyInExpr oracle table)
      (copyInStmt oracle table) block).1) = List.map (rewrittenStmt oracle table) := by
    funext block
    exact Stmt.mapCountingBlock_fst _ _ block
  rw [rewrittenStmt, Stmt.mapCounting_fst, hblocks]
  rfl

theorem body_run (tree : MethodTree) :
    (run oracle tree).1.body = tree.body.map (rewrittenStmt oracle tree.table) :=
  Stmt.mapCountingBlock_fst _ _ tree.body

/-- What is handed on in a rewritten statement, at any depth, is what was handed on, copied
where a copy is needed. -/
theorem handedWithin_rewrittenStmt (stmt : Stmt) :
    (rewrittenStmt oracle table stmt).handedWithin =
      stmt.handedWithin.map (handedOn oracle table) := by
  induction stmt using Stmt.induction_blocks with
  | step stmt ih =>
    rw [Stmt.handedWithin, Stmt.handedWithin, List.map_append, List.map_flatMap,
      rewrittenStmt_eq, handed_copyInStmt, blocks_copyInStmt, Stmt.blocks_mapParts,
      List.flatMap_map]
    congr 1
    apply List.flatMap_congr
    intro block hblock
    rw [Block.handed_eq_flatMap, Block.handed_eq_flatMap block, List.flatMap_map,
      List.map_flatMap]
    exact List.flatMap_congr (ih block hblock)

/-- The pass changes the values that are handed over one by one: it adds none
and drops none. -/
theorem handed_run (tree : MethodTree) :
    Block.handed (run oracle tree).1.body =
      (Block.handed tree.body).map (handedOn oracle tree.table) := by
  rw [body_run, Block.handed_eq_flatMap, Block.handed_eq_flatMap tree.body, List.flatMap_map,
    List.map_flatMap]
  exact List.flatMap_congr fun stmt _ => handedWithin_rewrittenStmt oracle tree.table stmt

/-! ## Sharing before and after the pass -/

variable {oracle table}

theorem isLocation_rewritten (expr : Expr) :
    (rewritten oracle table expr).isLocation = expr.isLocation := by
  have hstep : ∀ expr : Expr, (copyInExpr oracle table expr).1.isLocation = expr.isLocation := by
    intro expr
    unfold copyInExpr
    split <;> rfl
  rw [rewritten_eq, hstep, Expr.isLocation_mapChildren]

/-- A location keeps its type. -/
theorem type?_rewritten {expr : Expr} (hlocation : expr.isLocation = true) :
    (rewritten oracle table expr).type? table = expr.type? table := by
  rw [rewritten_eq]
  cases expr with
  | raw | bound | staticField | field | element => rfl
  | _ => simp [Expr.isLocation] at hlocation

/-- The copies inside an expression do not change whose object its value is. -/
theorem sharesStruct_rewritten (expr : Expr) :
    (rewritten oracle table expr).SharesStruct oracle table ↔ expr.SharesStruct oracle table := by
  induction expr using Expr.induction_children with
  | step expr ih =>
    have hdetached : expr.isDetached = true →
        (rewritten oracle table expr).isDetached = true →
        ((rewritten oracle table expr).SharesStruct oracle table ↔
          expr.SharesStruct oracle table) :=
      fun hbefore hafter => iff_of_false (Expr.not_sharesStruct_of_isDetached hafter)
        (Expr.not_sharesStruct_of_isDetached hbefore)
    by_cases hlocation : expr.isLocation = true
    · rw [Expr.sharesStruct_of_isLocation hlocation,
        Expr.sharesStruct_of_isLocation (by rw [isLocation_rewritten, hlocation]),
        type?_rewritten hlocation]
    · cases expr with
      | assign op target value =>
        cases op with
        | none =>
          have htarget : (rewritten oracle table target).isLocation = true ∧
              ((rewritten oracle table target).type? table).any oracle.isStruct = true ↔
              target.isLocation = true ∧ (target.type? table).any oracle.isStruct = true := by
            rw [isLocation_rewritten]
            exact and_congr_right fun h => by rw [type?_rewritten h]
          rw [rewritten_eq, Expr.sharesStruct_assign, ← htarget]
          exact Expr.sharesStruct_assign
        | some op => exact hdetached rfl rfl
      | conditional condition whenTrue whenFalse =>
        rw [Expr.sharesStruct_conditional, ← ih whenTrue (by simp [Expr.children]),
          ← ih whenFalse (by simp [Expr.children]), rewritten_eq]
        exact Expr.sharesStruct_conditional
      | cast type value =>
        rw [Expr.sharesStruct_cast, ← ih value (by simp [Expr.children]), rewritten_eq]
        exact Expr.sharesStruct_cast
      | raw | bound | staticField | field | element => simp [Expr.isLocation] at hlocation
      | _ => exact hdetached rfl (by rw [rewritten_eq]; rfl)

theorem copied_eq (value : Expr) :
    (copied oracle table value).1 =
      if needsCopy oracle table value then .copy value else value := by
  rw [copied]
  split <;> rfl

/-- A handed value shares a struct after the pass exactly if it did before and
is not itself the location. -/
theorem sharesStruct_handedOn (value : Expr) :
    (handedOn oracle table value).SharesStruct oracle table ↔
      value.isLocation = false ∧ value.SharesStruct oracle table := by
  rw [handedOn, copied_eq, ← @isLocation_rewritten oracle table value,
    ← sharesStruct_rewritten value]
  generalize rewritten oracle table value = value
  by_cases hlocation : value.isLocation = true
  · have hdirect : needsCopy oracle table value = true ↔ value.SharesStruct oracle table := by
      rw [Expr.sharesStruct_of_isLocation hlocation, needsCopy, hlocation, Bool.true_and]
    have hcopy : ¬(Expr.copy value).SharesStruct oracle table :=
      Expr.not_sharesStruct_of_isDetached rfl
    by_cases hneeds : needsCopy oracle table value = true
    · simp [hneeds, hlocation, hcopy]
    · simp [hneeds, hlocation, ← hdirect]
  · simp [needsCopy, hlocation]

end Lowering.StructCopies

/-- No assignment, declaration or call of the tree, at any depth, hands over
the object of a location that holds a struct. -/
def MethodTree.SharesNoStruct (oracle : Oracle) (tree : MethodTree) : Prop :=
  ∀ value, Block.Hands value tree.body → ¬value.SharesStruct oracle tree.table

namespace Lowering.StructCopies

/-- The tree that the pass returns shares no struct exactly if every value that
shares one in the tree it was given is the location itself. -/
theorem sharesNoStruct_run_iff (oracle : Oracle) (tree : MethodTree) :
    (run oracle tree).1.SharesNoStruct oracle ↔
      ∀ value, Block.Hands value tree.body → value.SharesStruct oracle tree.table →
        value.isLocation = true := by
  have hhanded : ∀ value, Block.Hands value (run oracle tree).1.body ↔
      ∃ given, Block.Hands given tree.body ∧ handedOn oracle tree.table given = value := by
    intro value
    rw [← Block.mem_handed_iff, handed_run, List.mem_map]
    simp only [Block.mem_handed_iff]
  constructor
  · intro hfree value hvalue hshares
    have hlocation := hfree _ ((hhanded _).2 ⟨value, hvalue, rfl⟩)
    rw [table_run, sharesStruct_handedOn] at hlocation
    by_contra hother
    exact hlocation ⟨by simpa using hother, hshares⟩
  · intro honly value hvalue
    obtain ⟨given, hgiven, rfl⟩ := (hhanded value).1 hvalue
    rw [table_run, sharesStruct_handedOn]
    intro ⟨hlocation, hshares⟩
    rw [honly given hgiven hshares] at hlocation
    exact absurd hlocation (by decide)

/-- An assignment `a = flag ? b : d` of structs. -/
def choosingTree : MethodTree where
  table := ⟨[{ name := "a", type := .value { space := "Geo", path := "Point" } },
    { name := "b", type := .value { space := "Geo", path := "Point" } },
    { name := "d", type := .value { space := "Geo", path := "Point" } },
    { name := "flag", type := .primitive .boolean }]⟩
  body := [.expr (.assign none (.raw ⟨0⟩) (.conditional (.raw ⟨3⟩) (.raw ⟨1⟩) (.raw ⟨2⟩)))]

/-- The pass leaves the conditional as it is. -/
theorem body_run_choosingTree :
    (run (Graph.oracle {}) choosingTree).1.body = choosingTree.body :=
  rfl

/-- A conditional hands on the struct of either branch, and no copy is made. -/
theorem not_sharesNoStruct_run :
    ¬∀ (oracle : Oracle) (tree : MethodTree), (run oracle tree).1.SharesNoStruct oracle := by
  intro h
  have hvalue : Block.Hands (.conditional (.raw ⟨3⟩) (.raw ⟨1⟩) (.raw ⟨2⟩))
      (run (Graph.oracle {}) choosingTree).1.body := by
    rw [body_run_choosingTree]
    exact .assigned ⟨_, _, .here List.mem_cons_self, .expr _, .here⟩
  apply h (Graph.oracle {}) choosingTree _ hvalue
  exact ⟨.raw ⟨1⟩, .whenTrue _ _ (.stored rfl), by decide +kernel⟩

end Lowering.StructCopies

end Assemblage
