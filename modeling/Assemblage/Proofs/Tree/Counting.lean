import Assemblage.Proofs.Tree.Everywhere
import Assemblage.Proofs.Tree.Rewriting

/-!
# What walks report

A walk adds up what its steps report at the nodes and statements of a tree.  Where
each step reports something exactly if it changes something, a walk that reports
nothing returns the tree it was given, and one that finds nothing to do at any node
or statement reports nothing.
-/

namespace Assemblage

/-- The step reports something exactly if it changes something. -/
def Reports {α : Type} (step : α → α × Nat) : Prop :=
  ∀ item, (step item).2 = 0 ↔ (step item).1 = item

theorem reports_unchanged {α : Type} : Reports fun item : α => (item, 0) :=
  fun _ => iff_of_true rfl rfl

variable {step : Expr → Expr × Nat} {close : Stmt → Stmt × Nat}

namespace Expr

/-- An expression in which nothing was counted is as it was. -/
theorem mapCounting_eq_self_of_snd (hstep : Reports step) {expr : Expr}
    (h : (expr.mapCounting step).2 = 0) : (expr.mapCounting step).1 = expr := by
  induction expr using induction_children with
  | step expr ih =>
    rw [mapCounting_snd, Nat.add_eq_zero_iff, List.sum_eq_zero_iff_forall_eq_nat,
      List.forall_mem_map] at h
    have hchildren : expr.mapChildren (fun child => (child.mapCounting step).1) = expr :=
      mapChildren_eq_self fun child hchild => ih child hchild (h.1 child hchild)
    rw [hchildren] at h
    rw [mapCounting_fst, hchildren]
    exact (hstep expr).1 h.2

/-- Nothing is counted where the step leaves every node alone. -/
theorem mapCounting_snd_eq_zero (hstep : Reports step) {expr : Expr}
    (h : expr.Everywhere fun node => (step node).1 = node) : (expr.mapCounting step).2 = 0 := by
  induction expr using induction_children with
  | step expr ih =>
    have hchildren : expr.mapChildren (fun child => (child.mapCounting step).1) = expr :=
      mapChildren_eq_self fun child hchild => mapCounting_eq_self (h.child hchild)
    rw [mapCounting_snd, Nat.add_eq_zero_iff, List.sum_eq_zero_iff_forall_eq_nat,
      List.forall_mem_map, hchildren]
    exact ⟨fun child hchild => ih child hchild (h.child hchild), (hstep expr).2 h.here⟩

end Expr

namespace Stmt

/-- What is counted in a block is the sum over its statements. -/
theorem mapCountingBlock_snd (step : Expr → Expr × Nat) (close : Stmt → Stmt × Nat)
    (block : Block) :
    (mapCountingBlock step close block).2 =
      (block.map fun stmt => (stmt.mapCounting step close).2).sum := by
  induction block with
  | nil => rfl
  | cons stmt rest ih => simp [mapCountingBlock, ih]

/-- What a walk reports is what it reports of the parts and then of the statement. -/
theorem mapCounting_snd (step : Expr → Expr × Nat) (close : Stmt → Stmt × Nat) (stmt : Stmt) :
    (stmt.mapCounting step close).2 =
      (stmt.exprs.map fun expr => (expr.mapCounting step).2).sum +
        (stmt.blocks.map fun block => (mapCountingBlock step close block).2).sum +
        (close (stmt.mapParts (fun expr => (expr.mapCounting step).1)
          fun block => (mapCountingBlock step close block).1)).2 := by
  cases stmt with
  | declare id value =>
    cases value <;> simp [mapCounting, mapCountingOption, mapParts, exprs, blocks]
  | ret value => cases value <;> simp [mapCounting, mapCountingOption, mapParts, exprs, blocks]
  | _ => simp [mapCounting, mapParts, exprs, blocks, Nat.add_assoc]

/-- A statement in which nothing was counted is as it was. -/
theorem mapCounting_eq_self_of_snd (hstep : Reports step) (hclose : Reports close) {stmt : Stmt}
    (h : (stmt.mapCounting step close).2 = 0) : (stmt.mapCounting step close).1 = stmt := by
  induction stmt using induction_blocks with
  | step stmt ih =>
    rw [mapCounting_snd, Nat.add_eq_zero_iff, Nat.add_eq_zero_iff,
      List.sum_eq_zero_iff_forall_eq_nat, List.forall_mem_map,
      List.sum_eq_zero_iff_forall_eq_nat, List.forall_mem_map] at h
    obtain ⟨⟨hexprs, hblocks⟩, hself⟩ := h
    have hparts : stmt.mapParts (fun expr => (expr.mapCounting step).1)
        (fun block => (mapCountingBlock step close block).1) = stmt := by
      apply mapParts_eq_self
      · exact fun expr hexpr => Expr.mapCounting_eq_self_of_snd hstep (hexprs expr hexpr)
      · intro block hblock
        have hinner := hblocks block hblock
        rw [mapCountingBlock_snd, List.sum_eq_zero_iff_forall_eq_nat, List.forall_mem_map] at hinner
        rw [mapCountingBlock_fst, List.map_congr_left fun inner hmem =>
          ih block hblock inner hmem (hinner inner hmem), List.map_id']
    rw [hparts] at hself
    rw [mapCounting_fst, hparts]
    exact (hclose stmt).1 hself

end Stmt

namespace Block

/-- A walk that reports nothing changes nothing. -/
theorem mapCountingBlock_eq_self_of_snd (hstep : Reports step) (hclose : Reports close)
    {block : Block} (h : (Stmt.mapCountingBlock step close block).2 = 0) :
    (Stmt.mapCountingBlock step close block).1 = block := by
  rw [Stmt.mapCountingBlock_snd, List.sum_eq_zero_iff_forall_eq_nat, List.forall_mem_map] at h
  rw [Stmt.mapCountingBlock_fst, List.map_congr_left fun stmt hstmt =>
    Stmt.mapCounting_eq_self_of_snd hstep hclose (h stmt hstmt), List.map_id']

theorem stmt_mapCounting_snd_eq_zero (hstep : Reports step) (hclose : Reports close) {stmt : Stmt}
    (h : Everywhere (fun node => (step node).1 = node) (fun stmt => (close stmt).1 = stmt) [stmt]) :
    (stmt.mapCounting step close).2 = 0 := by
  induction stmt using Stmt.induction_blocks with
  | step stmt ih =>
    obtain ⟨hstmt, hexprs, hblocks⟩ := everywhere_singleton.1 h
    have hparts : stmt.mapParts (fun expr => (expr.mapCounting step).1)
        (fun block => (Stmt.mapCountingBlock step close block).1) = stmt :=
      Stmt.mapParts_eq_self (fun expr hexpr => Expr.mapCounting_eq_self (hexprs expr hexpr))
        fun block hblock => mapCountingBlock_eq_self (hblocks block hblock)
    rw [Stmt.mapCounting_snd, hparts, (hclose stmt).2 hstmt, Nat.add_zero, Nat.add_eq_zero_iff,
      List.sum_eq_zero_iff_forall_eq_nat, List.forall_mem_map,
      List.sum_eq_zero_iff_forall_eq_nat, List.forall_mem_map]
    refine ⟨fun expr hexpr => Expr.mapCounting_snd_eq_zero hstep (hexprs expr hexpr),
      fun block hblock => ?_⟩
    rw [Stmt.mapCountingBlock_snd, List.sum_eq_zero_iff_forall_eq_nat, List.forall_mem_map]
    exact fun inner hinner => ih block hblock inner hinner
      (everywhere_iff_singletons.1 (hblocks block hblock) inner hinner)

/-- A walk that has nothing to do anywhere reports nothing. -/
theorem mapCountingBlock_snd_eq_zero (hstep : Reports step) (hclose : Reports close)
    {block : Block}
    (h : Everywhere (fun node => (step node).1 = node) (fun stmt => (close stmt).1 = stmt) block) :
    (Stmt.mapCountingBlock step close block).2 = 0 := by
  rw [Stmt.mapCountingBlock_snd, List.sum_eq_zero_iff_forall_eq_nat, List.forall_mem_map]
  exact fun stmt hstmt =>
    stmt_mapCounting_snd_eq_zero hstep hclose (everywhere_iff_singletons.1 h stmt hstmt)

/-- A block in which nothing was counted is as it was. -/
theorem mapCounting_eq_self_of_snd (hstep : Reports step) {block : Block}
    (h : (mapCounting step block).2 = 0) : (mapCounting step block).1 = block :=
  mapCountingBlock_eq_self_of_snd hstep reports_unchanged h

theorem mapCounting_snd_eq_zero (hstep : Reports step) {block : Block}
    (h : ∀ node ∈ nodes block, (step node).1 = node) : (mapCounting step block).2 = 0 :=
  mapCountingBlock_snd_eq_zero hstep reports_unchanged ⟨h, fun _ _ => rfl⟩

end Block

end Assemblage
