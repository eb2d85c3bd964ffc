import Assemblage.Proofs.Tree.Structure

/-!
# Properties of all nodes and statements

A property holds everywhere in a tree if all of its nodes and statements have
it.  A rewriting goes through a tree from the operands upwards, so what holds
everywhere in its result follows from what a single step makes of a node whose
operands have been rewritten already.  A rewriting that finds nothing to do at
any node returns the tree it was given.
-/

namespace Assemblage

namespace Expr

variable {P P' : Expr → Prop} {step : Expr → Expr × Nat}

/-- All nodes of the expression have the property. -/
def Everywhere (P : Expr → Prop) (expr : Expr) : Prop :=
  ∀ node ∈ expr.nodes, P node

/-- A property holds everywhere in an expression if it holds at its top and everywhere in its
operands. -/
theorem everywhere_iff {expr : Expr} :
    expr.Everywhere P ↔ P expr ∧ ∀ child ∈ expr.children, child.Everywhere P := by
  simp only [Everywhere, nodes_eq_cons expr, List.forall_mem_cons, List.mem_flatMap]
  apply and_congr_right
  intro _
  exact ⟨fun h child hchild node hnode => h node ⟨child, hchild, hnode⟩,
    fun h node ⟨child, hchild, hnode⟩ => h child hchild node hnode⟩

theorem Everywhere.here {expr : Expr} (h : expr.Everywhere P) : P expr :=
  (everywhere_iff.1 h).1

theorem Everywhere.child {expr child : Expr} (h : expr.Everywhere P)
    (hchild : child ∈ expr.children) : child.Everywhere P :=
  (everywhere_iff.1 h).2 child hchild

/-- What a step makes true at a node, once it is true in the operands, holds everywhere in the
result. -/
theorem everywhere_mapCounting
    (hstep : ∀ expr, P expr →
      (∀ child ∈ expr.children, (child.mapCounting step).1.Everywhere P') →
      (step (expr.mapChildren fun child => (child.mapCounting step).1)).1.Everywhere P')
    {expr : Expr} (h : expr.Everywhere P) : (expr.mapCounting step).1.Everywhere P' := by
  induction expr using induction_children with
  | step expr ih =>
    rw [mapCounting_fst]
    exact hstep expr h.here fun child hchild => ih child hchild (h.child hchild)

theorem mapCounting_eq_self {expr : Expr}
    (h : expr.Everywhere fun node => (step node).1 = node) : (expr.mapCounting step).1 = expr := by
  induction expr using induction_children with
  | step expr ih =>
    have hchildren : expr.mapChildren (fun child => (child.mapCounting step).1) = expr :=
      mapChildren_eq_self fun child hchild => ih child hchild (h.child hchild)
    rw [mapCounting_fst, hchildren]
    exact h.here

end Expr

theorem Stmt.mapParts_eq_self {f : Expr → Expr} {g : Block → Block} {stmt : Stmt}
    (hexprs : ∀ expr ∈ stmt.exprs, f expr = expr)
    (hblocks : ∀ block ∈ stmt.blocks, g block = block) :
    stmt.mapParts f g = stmt := by
  have hid : stmt.mapParts id id = stmt := by
    cases stmt <;> simp [mapParts]
  rw [mapParts_congr hexprs hblocks]
  exact hid

namespace Block

variable {P P' : Expr → Prop} {Q Q' : Stmt → Prop} {step : Expr → Expr × Nat}
  {close : Stmt → Stmt × Nat}

/-- All nodes of the block have the first property, and all of its statements the
second. -/
def Everywhere (P : Expr → Prop) (Q : Stmt → Prop) (block : Block) : Prop :=
  (∀ node ∈ nodes block, P node) ∧ ∀ stmt ∈ statements block, Q stmt

/-- A property of nodes and one of statements hold everywhere in a block if they do in each of
its statements and in the blocks inside them. -/
theorem everywhere_iff {block : Block} :
    Everywhere P Q block ↔ ∀ stmt ∈ block,
      Q stmt ∧ (∀ expr ∈ stmt.exprs, expr.Everywhere P) ∧
        ∀ inner ∈ stmt.blocks, Everywhere P Q inner := by
  simp only [Everywhere, Expr.Everywhere]
  rw [nodes_eq_flatMap, statements_eq_flatMap]
  simp only [List.mem_flatMap, List.mem_append, List.mem_cons, Stmt.nodes]
  constructor
  · rintro ⟨hnodes, hstmts⟩ stmt hstmt
    refine ⟨hstmts stmt ⟨stmt, hstmt, .inl rfl⟩,
      fun expr hexpr node hnode => hnodes node ⟨stmt, hstmt, .inl ⟨expr, hexpr, hnode⟩⟩,
      fun inner hinner => ⟨fun node hnode => ?_, fun below hbelow => ?_⟩⟩
    · exact hnodes node ⟨stmt, hstmt, .inr ⟨inner, hinner, hnode⟩⟩
    · exact hstmts below ⟨stmt, hstmt, .inr ⟨inner, hinner, hbelow⟩⟩
  · intro h
    refine ⟨?_, ?_⟩
    · rintro node ⟨stmt, hstmt, ⟨expr, hexpr, hnode⟩ | ⟨inner, hinner, hnode⟩⟩
      · exact (h stmt hstmt).2.1 expr hexpr node hnode
      · exact ((h stmt hstmt).2.2 inner hinner).1 node hnode
    · rintro below ⟨stmt, hstmt, rfl | ⟨inner, hinner, hbelow⟩⟩
      · exact (h below hstmt).1
      · exact ((h stmt hstmt).2.2 inner hinner).2 below hbelow

theorem everywhere_nil : Everywhere P Q [] :=
  everywhere_iff.2 fun _ hstmt => absurd hstmt List.not_mem_nil

theorem everywhere_singleton {stmt : Stmt} :
    Everywhere P Q [stmt] ↔ Q stmt ∧ (∀ expr ∈ stmt.exprs, expr.Everywhere P) ∧
      ∀ inner ∈ stmt.blocks, Everywhere P Q inner := by
  rw [everywhere_iff, List.forall_mem_singleton]

/-- A block is settled if each of its statements is, taken by itself. -/
theorem everywhere_iff_singletons {block : Block} :
    Everywhere P Q block ↔ ∀ stmt ∈ block, Everywhere P Q [stmt] := by
  simp only [everywhere_singleton]
  exact everywhere_iff

theorem everywhere_append {left right : Block} :
    Everywhere P Q (left ++ right) ↔ Everywhere P Q left ∧ Everywhere P Q right := by
  simp only [@everywhere_iff P Q (left ++ right), @everywhere_iff P Q left,
    @everywhere_iff P Q right, List.forall_mem_append]

theorem everywhere_cons {stmt : Stmt} {rest : Block} :
    Everywhere P Q (stmt :: rest) ↔ Everywhere P Q [stmt] ∧ Everywhere P Q rest :=
  @everywhere_append P Q [stmt] rest

theorem Everywhere.imp {block : Block} (h : Everywhere P Q block) (hP : ∀ node, P node → P' node)
    (hQ : ∀ stmt, Q stmt → Q' stmt) : Everywhere P' Q' block :=
  ⟨fun node hnode => hP node (h.1 node hnode), fun stmt hstmt => hQ stmt (h.2 stmt hstmt)⟩

section Rewriting

variable
  (hstep : ∀ expr, P expr →
    (∀ child ∈ expr.children, (child.mapCounting step).1.Everywhere P') →
    (step (expr.mapChildren fun child => (child.mapCounting step).1)).1.Everywhere P')
  (hclose : ∀ stmt parts, Q stmt →
    parts = stmt.mapParts (fun expr => (expr.mapCounting step).1)
      (fun block => (Stmt.mapCountingBlock step close block).1) →
    (∀ expr ∈ parts.exprs, expr.Everywhere P') → (∀ inner ∈ parts.blocks, Everywhere P' Q' inner) →
    Everywhere P' Q' [(close parts).1])

include hstep hclose

theorem everywhere_stmt_mapCounting {stmt : Stmt} (h : Everywhere P Q [stmt]) :
    Everywhere P' Q' [(stmt.mapCounting step close).1] := by
  induction stmt using Stmt.induction_blocks with
  | step stmt ih =>
    obtain ⟨hstmt, hexprs, hblocks⟩ := everywhere_singleton.1 h
    rw [Stmt.mapCounting_fst]
    apply hclose stmt _ hstmt rfl
    · rw [Stmt.exprs_mapParts, List.forall_mem_map]
      exact fun expr hexpr => Expr.everywhere_mapCounting hstep (hexprs expr hexpr)
    · rw [Stmt.blocks_mapParts, List.forall_mem_map]
      intro block hblock
      rw [Stmt.mapCountingBlock_fst, everywhere_iff_singletons, List.forall_mem_map]
      exact fun inner hinner =>
        ih block hblock inner hinner
          (everywhere_iff_singletons.1 (hblocks block hblock) inner hinner)

/-- A walk over a block makes true everywhere what its two steps make true at nodes and
statements. -/
theorem everywhere_mapCountingBlock {block : Block} (h : Everywhere P Q block) :
    Everywhere P' Q' (Stmt.mapCountingBlock step close block).1 := by
  rw [Stmt.mapCountingBlock_fst, everywhere_iff_singletons, List.forall_mem_map]
  exact fun stmt hstmt =>
    everywhere_stmt_mapCounting hstep hclose (everywhere_iff_singletons.1 h stmt hstmt)

end Rewriting

/-- A rewriting of the expressions alone leaves every statement as it is, up to
the expressions. -/
theorem everywhere_mapCounting
    (hstep : ∀ expr, P expr →
      (∀ child ∈ expr.children, (child.mapCounting step).1.Everywhere P') →
      (step (expr.mapChildren fun child => (child.mapCounting step).1)).1.Everywhere P')
    (hstmt : ∀ stmt g, Q stmt →
      Q' (stmt.mapParts (fun expr => (expr.mapCounting step).1) g))
    {block : Block} (h : Everywhere P Q block) : Everywhere P' Q' (mapCounting step block).1 := by
  apply everywhere_mapCountingBlock hstep _ h
  rintro stmt parts hQ rfl hexprs hblocks
  exact everywhere_singleton.2 ⟨hstmt stmt _ hQ, hexprs, hblocks⟩

theorem stmt_mapCounting_eq_self {stmt : Stmt}
    (h : Everywhere (fun node => (step node).1 = node) (fun stmt => (close stmt).1 = stmt) [stmt]) :
    (stmt.mapCounting step close).1 = stmt := by
  induction stmt using Stmt.induction_blocks with
  | step stmt ih =>
    obtain ⟨hstmt, hexprs, hblocks⟩ := everywhere_singleton.1 h
    have hparts : stmt.mapParts (fun expr => (expr.mapCounting step).1)
        (fun block => (Stmt.mapCountingBlock step close block).1) = stmt := by
      apply Stmt.mapParts_eq_self
      · exact fun expr hexpr => Expr.mapCounting_eq_self (hexprs expr hexpr)
      · intro block hblock
        have hinner : ∀ inner ∈ block, (inner.mapCounting step close).1 = inner :=
          fun inner hinner => ih block hblock inner hinner
            (everywhere_iff_singletons.1 (hblocks block hblock) inner hinner)
        rw [Stmt.mapCountingBlock_fst, List.map_congr_left hinner, List.map_id']
    rw [Stmt.mapCounting_fst, hparts]
    exact hstmt

/-- A rewriting that has nothing to do anywhere changes nothing. -/
theorem mapCountingBlock_eq_self {block : Block}
    (h : Everywhere (fun node => (step node).1 = node) (fun stmt => (close stmt).1 = stmt) block) :
    (Stmt.mapCountingBlock step close block).1 = block := by
  have hstmts : ∀ stmt ∈ block, (stmt.mapCounting step close).1 = stmt :=
    fun stmt hstmt => stmt_mapCounting_eq_self (everywhere_iff_singletons.1 h stmt hstmt)
  rw [Stmt.mapCountingBlock_fst, List.map_congr_left hstmts, List.map_id']

/-- A walk over a block whose step changes no node in it changes nothing. -/
theorem mapCounting_eq_self {block : Block} (h : ∀ node ∈ nodes block, (step node).1 = node) :
    (mapCounting step block).1 = block :=
  mapCountingBlock_eq_self ⟨h, fun _ _ => rfl⟩

end Block

end Assemblage
