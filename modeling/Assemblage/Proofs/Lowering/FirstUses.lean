import Assemblage.Proofs.Tree.Inside
import Assemblage.Proofs.Lowering.Passes
import Mathlib.Data.List.Perm.Basic
import Mathlib.Data.Set.Card

/-!
# Declarations at first uses

A body without declarations leaves the pass with one declaration for each local
it uses.  The declaration stands at the top level, and nothing before it, its
own value included, uses the local.  Taken back, the declarations leave the
statements there were.
-/

namespace Assemblage

/-- The variable stands in the expression at any depth, bound or not. -/
def Expr.Uses (id : VariableId) (expr : Expr) : Prop :=
  Expr.Inside (.raw id) expr ∨ Expr.Inside (.bound id) expr

/-- The variable stands in some expression of the block at any depth. -/
def Block.Uses (id : VariableId) (block : Block) : Prop :=
  ∃ stmt expr, Contains stmt block ∧ stmt.Owns expr ∧ expr.Uses id

theorem Expr.mem_variableIds_iff {id : VariableId} {expr : Expr} :
    id ∈ expr.variableIds ↔ expr = .raw id ∨ expr = .bound id := by
  cases expr <;> simp [variableIds, asVariable?, eq_comm]

theorem Expr.uses_iff {id : VariableId} {expr : Expr} :
    expr.Uses id ↔ id ∈ expr.gather variableIds := by
  rw [Uses, ← mem_nodes_iff, ← mem_nodes_iff, gather, List.mem_flatMap]
  simp only [mem_variableIds_iff]
  constructor
  · rintro (h | h)
    · exact ⟨_, h, .inl rfl⟩
    · exact ⟨_, h, .inr rfl⟩
  · rintro ⟨node, hnode, rfl | rfl⟩
    · exact .inl hnode
    · exact .inr hnode

theorem Expr.uses_iff_mentions {id : VariableId} {expr : Expr} :
    expr.Uses id ↔ expr.mentions id = true := by
  rw [uses_iff, gather, List.mem_flatMap, mentions, List.any_eq_true]
  simp only [variableIds, Option.mem_toList, isVariable, beq_iff_eq]

namespace Block

variable {id : VariableId}

theorem uses_iff {block : Block} : block.Uses id ↔ id ∈ gather Expr.variableIds block := by
  simp only [Uses, ← mem_statements_iff, ← Stmt.mem_exprs_iff, Expr.uses_iff, gather, nodes,
    Stmt.nodes, Expr.gather, List.flatMap_assoc, List.mem_flatMap]
  constructor
  · rintro ⟨stmt, expr, hstmt, hexpr, h⟩
    exact ⟨stmt, hstmt, expr, hexpr, h⟩
  · rintro ⟨stmt, hstmt, expr, hexpr, h⟩
    exact ⟨stmt, expr, hstmt, hexpr, h⟩

theorem not_uses_nil : ¬Uses id [] := by
  rw [uses_iff]
  exact List.not_mem_nil

theorem uses_cons_iff {stmt : Stmt} {rest : Block} :
    Uses id (stmt :: rest) ↔ Uses id [stmt] ∨ Uses id rest := by
  rw [uses_iff, gather_cons, List.mem_append, ← uses_iff, ← uses_iff]

theorem uses_append_iff {left right : Block} :
    Uses id (left ++ right) ↔ Uses id left ∨ Uses id right := by
  rw [uses_iff, gather_append, List.mem_append, ← uses_iff, ← uses_iff]

/-- A declaration of the variable stands in the block itself, and neither the
statements before it nor its own value use the variable. -/
def DeclaresAtFirstUse (id : VariableId) (block : Block) : Prop :=
  ∃ before value after, block = before ++ .declare id value :: after ∧
    ¬Uses id before ∧ ∀ expr ∈ value, ¬expr.Uses id

theorem DeclaresAtFirstUse.append {block : Block} (h : DeclaresAtFirstUse id block)
    (rest : Block) : DeclaresAtFirstUse id (block ++ rest) := by
  obtain ⟨before, value, after, rfl, hbefore, hvalue⟩ := h
  exact ⟨before, value, after ++ rest, by simp, hbefore, hvalue⟩

theorem DeclaresAtFirstUse.after {block front : Block} (h : DeclaresAtFirstUse id block)
    (hfront : ¬Uses id front) : DeclaresAtFirstUse id (front ++ block) := by
  obtain ⟨before, value, after, rfl, hbefore, hvalue⟩ := h
  refine ⟨front ++ before, value, after, by simp, ?_, hvalue⟩
  exact fun huses => (uses_append_iff.1 huses).elim hfront hbefore

end Block

namespace Lowering.Declarations

variable {oracle : Oracle} {table : VariableTable} {id : VariableId}

/-- `Restores oracle table block original` reads `block` statement by statement:
a declaration that only introduces a variable is dropped, one that stands for an
assignment is read as that assignment, and every other statement is kept. -/
inductive Restores (oracle : Oracle) (table : VariableTable) : Block → Block → Prop
  | done : Restores oracle table [] []
  | dropped {block original : Block} (id : VariableId) (h : Restores oracle table block original) :
    Restores oracle table (declare oracle table id :: block) original
  | assigned {block original : Block} {id : VariableId} {target : Expr} (value : Expr)
      (htarget : target.asVariable? = some id) (h : Restores oracle table block original) :
    Restores oracle table (.declare id (some value) :: block)
      (.expr (.assign none target value) :: original)
  | kept {block original : Block} (stmt : Stmt) (h : Restores oracle table block original) :
    Restores oracle table (stmt :: block) (stmt :: original)

theorem Restores.dropped_all {block original : Block} (ids : List VariableId)
    (h : Restores oracle table block original) :
    Restores oracle table (ids.map (declare oracle table) ++ block) original := by
  induction ids with
  | nil => exact h
  | cons id rest ih => exact .dropped id ih

theorem nodup_eraseDups (ids : List VariableId) : ids.eraseDups.Nodup := by
  induction hlength : ids.length using Nat.strong_induction_on generalizing ids with
  | _ n ih =>
    cases ids with
    | nil => exact List.nodup_nil
    | cons id rest =>
      have hshorter := List.length_filter_le (fun other => !other == id) rest
      rw [List.length_cons] at hlength
      rw [List.eraseDups_cons, List.nodup_cons, List.mem_eraseDups]
      exact ⟨by simp, ih _ (by omega) _ rfl⟩

theorem mem_occurrences_iff_uses {stmt : Stmt} : id ∈ occurrences stmt ↔ Block.Uses id [stmt] := by
  rw [mem_occurrences_iff, Block.uses_iff]

theorem not_uses_map_declare (ids : List VariableId) :
    ¬Block.Uses id (ids.map (declare oracle table)) := by
  induction ids with
  | nil => exact Block.not_uses_nil
  | cons other rest ih =>
    rw [List.map_cons, Block.uses_cons_iff, Block.uses_iff, gather_declare,
      variableIds_initialValue]
    simpa using ih

/-- Either the statement becomes a declaration itself, or it stays and all
declarations stand before it. -/
theorem introduce_cases (oracle : Oracle) (table : VariableTable) (fresh : List VariableId)
    (stmt : Stmt) :
    (∃ id target value, stmt = .expr (.assign none target value) ∧
      target.asVariable? = some id ∧ id ∈ fresh ∧ ¬value.Uses id ∧
      introduce oracle table fresh stmt =
        (fresh.filter (· ≠ id)).map (declare oracle table) ++ [.declare id (some value)]) ∨
    introduce oracle table fresh stmt = fresh.map (declare oracle table) ++ [stmt] := by
  unfold introduce
  split
  · rename_i id value hinitialized
    obtain ⟨hassignment, hfresh⟩ := Option.filter_eq_some_iff.1 hinitialized
    obtain ⟨target, rfl, htarget⟩ := Stmt.eq_of_assignment? hassignment
    rw [Bool.and_eq_true, List.contains_iff_mem, Bool.not_eq_true'] at hfresh
    refine .inl ⟨id, target, value, rfl, htarget, hfresh.1, fun huses => ?_, rfl⟩
    rw [Expr.uses_iff_mentions, hfresh.2] at huses
    exact Bool.noConfusion huses
  · exact .inr rfl

/-- A statement that declares nothing is introduced with the fresh variables declared. -/
theorem declared_introduce_perm (oracle : Oracle) (table : VariableTable)
    {fresh : List VariableId} (hfresh : fresh.Nodup) {stmt : Stmt}
    (hnone : Block.declared [stmt] = []) :
    (Block.declared (introduce oracle table fresh stmt)).Perm fresh := by
  rcases introduce_cases oracle table fresh stmt with
    ⟨id, target, value, rfl, -, hid, -, heq⟩ | heq
  · have hlast : Block.declared [.declare id (some value)] = [id] := rfl
    rw [heq, Block.declared_append, declared_map_declare, hlast]
    have hothers : fresh.filter (· ≠ id) = fresh.erase id := by
      rw [hfresh.erase_eq_filter]
      exact List.filter_congr fun other _ => Bool.eq_iff_iff.2 (by simp)
    rw [hothers]
    exact (List.perm_append_singleton id _).trans (List.perm_cons_erase hid).symm
  · rw [heq, Block.declared_append, declared_map_declare, hnone, List.append_nil]

theorem declaresAtFirstUse_map_declare {fresh : List VariableId} (hid : id ∈ fresh) :
    Block.DeclaresAtFirstUse id (fresh.map (declare oracle table)) := by
  obtain ⟨before, after, rfl⟩ := List.append_of_mem hid
  refine ⟨before.map (declare oracle table), initialValue oracle table id,
    after.map (declare oracle table), by simp [declare], not_uses_map_declare before, ?_⟩
  intro expr hexpr huses
  have hmem : id ∈ (initialValue oracle table id).toList.flatMap
      (Expr.gather Expr.variableIds) :=
    List.mem_flatMap.2 ⟨expr, Option.mem_toList.2 hexpr, Expr.uses_iff.1 huses⟩
  rw [variableIds_initialValue] at hmem
  exact absurd hmem List.not_mem_nil

/-- A fresh variable is declared where it is introduced. -/
theorem declaresAtFirstUse_introduce {fresh : List VariableId} (hid : id ∈ fresh) (stmt : Stmt) :
    Block.DeclaresAtFirstUse id (introduce oracle table fresh stmt) := by
  rcases introduce_cases oracle table fresh stmt with
    ⟨other, target, value, rfl, -, -, hvalue, heq⟩ | heq
  · rw [heq]
    by_cases hother : id = other
    · subst hother
      refine ⟨_, some value, [], rfl, not_uses_map_declare _, ?_⟩
      intro expr hexpr
      rwa [← Option.some.inj hexpr]
    · refine (declaresAtFirstUse_map_declare ?_).append _
      exact List.mem_filter.2 ⟨hid, by simpa using hother⟩
  · rw [heq]
    exact (declaresAtFirstUse_map_declare hid).append _

theorem Restores.introduce {block original : Block} (fresh : List VariableId) (stmt : Stmt)
    (h : Restores oracle table block original) :
    Restores oracle table (introduce oracle table fresh stmt ++ block) (stmt :: original) := by
  rcases introduce_cases oracle table fresh stmt with
    ⟨id, target, value, rfl, htarget, -, -, heq⟩ | heq
  · rw [heq, List.append_assoc]
    exact .dropped_all _ (.assigned value htarget h)
  · rw [heq, List.append_assoc]
    exact .dropped_all _ (.kept stmt h)

/-! ## All statements -/

/-- The variables that a statement is the first to use. -/
theorem mem_fresh_iff {declared : List VariableId} {stmt : Stmt} :
    id ∈ (occurrences stmt).filter (fun id => !declared.contains id) ↔
      Block.Uses id [stmt] ∧ id ∉ declared := by
  rw [List.mem_filter, mem_occurrences_iff_uses]
  simp

/-- What is declared is used and was not declared before, and is counted once. -/
theorem declared_declareAll_iff (oracle : Oracle) (table : VariableTable)
    (declared : List VariableId) {stmts : Block} (hnone : Block.declared stmts = []) :
    (Block.declared (declareAll oracle table declared stmts).1).Nodup ∧
      (∀ id, id ∈ Block.declared (declareAll oracle table declared stmts).1 ↔
        Block.Uses id stmts ∧ id ∉ declared) ∧
      (declareAll oracle table declared stmts).2 =
        (Block.declared (declareAll oracle table declared stmts).1).length := by
  induction stmts generalizing declared with
  | nil => exact ⟨List.nodup_nil, fun id => by simp [declareAll, Block.not_uses_nil], rfl⟩
  | cons stmt rest ih =>
    rw [Block.declared_cons, List.append_eq_nil_iff] at hnone
    let fresh := (occurrences stmt).filter fun id => !declared.contains id
    obtain ⟨hnodup, hmem, hcount⟩ := ih (fresh ++ declared) hnone.2
    have hfresh : fresh.Nodup := (nodup_eraseDups _).filter _
    have hperm := declared_introduce_perm oracle table hfresh hnone.1
    rw [declareAll, Block.declared_append]
    refine ⟨(List.nodup_append'.2 ⟨hperm.nodup_iff.2 hfresh, hnodup, ?_⟩), fun id => ?_, ?_⟩
    · intro id hid hrest
      exact ((hmem id).1 hrest).2 (List.mem_append_left _ (hperm.mem_iff.1 hid))
    · have huses : Block.Uses id (stmt :: rest) ↔ Block.Uses id [stmt] ∨ Block.Uses id rest :=
        Block.uses_cons_iff
      rw [List.mem_append, hperm.mem_iff, hmem id, mem_fresh_iff, List.mem_append, mem_fresh_iff,
        huses]
      tauto
    · rw [List.length_append, hperm.length_eq, ← hcount]

/-- A variable that is used and not declared before is declared at its first use. -/
theorem declaresAtFirstUse_declareAll (oracle : Oracle) (table : VariableTable)
    (declared : List VariableId) {stmts : Block} (huses : Block.Uses id stmts)
    (hdeclared : id ∉ declared) :
    Block.DeclaresAtFirstUse id (declareAll oracle table declared stmts).1 := by
  induction stmts generalizing declared with
  | nil => exact absurd huses Block.not_uses_nil
  | cons stmt rest ih =>
    rw [declareAll]
    by_cases hstmt : Block.Uses id [stmt]
    · exact (declaresAtFirstUse_introduce (mem_fresh_iff.2 ⟨hstmt, hdeclared⟩) stmt).append _
    · refine (ih _ ((Block.uses_cons_iff.1 huses).resolve_left hstmt) ?_).after ?_
      · rw [List.mem_append, mem_fresh_iff]
        tauto
      · rw [Block.uses_iff]
        exact fun hmem => hstmt (Block.uses_iff.2 (variableIds_introduce_subset _ _ _ _ hmem))

/-- Without the declarations the block is the one that was given. -/
theorem restores_declareAll (oracle : Oracle) (table : VariableTable)
    (declared : List VariableId) (stmts : Block) :
    Restores oracle table (declareAll oracle table declared stmts).1 stmts := by
  induction stmts generalizing declared with
  | nil => exact .done
  | cons stmt rest ih =>
    rw [declareAll]
    exact (ih _).introduce _ stmt

/-- The variable is used in the body and is no parameter. -/
def IsLocal (tree : MethodTree) (id : VariableId) : Prop :=
  tree.body.Uses id ∧ tree.table.isParameter id = false

/-- Every local of a tree that declares none is declared once, where it is used first,
and nothing else is declared; without the declarations it is the tree it was. -/
theorem declares_locals_at_first_uses (oracle : Oracle) (tree : MethodTree)
    (hnone : ∀ id, ¬tree.body.Declares id) :
    (Block.declared (run oracle tree).1.body).Nodup ∧
      (∀ id, (run oracle tree).1.body.Declares id ↔ IsLocal tree id) ∧
      (∀ id, IsLocal tree id → (run oracle tree).1.body.DeclaresAtFirstUse id) ∧
      (run oracle tree).2 = {id | IsLocal tree id}.ncard ∧
      Restores oracle tree.table (run oracle tree).1.body tree.body := by
  have hbody : Block.declared tree.body = [] :=
    List.eq_nil_iff_forall_not_mem.2 fun id hid => hnone id (Block.mem_declared_iff.1 hid)
  have hlocal : ∀ id, IsLocal tree id ↔
      tree.body.Uses id ∧ id ∉ Block.declared tree.body ++ tree.table.parameters := by
    intro id
    rw [IsLocal, hbody, List.nil_append, VariableTable.mem_parameters_iff, Bool.not_eq_true]
  obtain ⟨hnodup, hmem, hcount⟩ := declared_declareAll_iff oracle tree.table
    (Block.declared tree.body ++ tree.table.parameters) hbody
  refine ⟨hnodup, fun id => ?_, fun id hid => ?_, ?_, restores_declareAll ..⟩
  · rw [← Block.mem_declared_iff, hlocal]
    exact hmem id
  · rw [hlocal] at hid
    exact declaresAtFirstUse_declareAll _ _ _ hid.1 hid.2
  · have hset : {id | IsLocal tree id} =
        (Block.declared (run oracle tree).1.body).toFinset := by
      ext id
      rw [Set.mem_ofPred_eq, hlocal, Finset.mem_coe, List.mem_toFinset]
      exact (hmem id).symm
    have hcard := List.toFinset_card_of_nodup hnodup
    rw [hset, Set.ncard_coe_finset]
    exact hcount.trans hcard.symm

/-- `a = x; while (x) { b = a; }` with a parameter `x`. -/
def copyingTree : MethodTree where
  table := ⟨[{ name := "x", type := .primitive .boolean, isParameter := true },
    { name := "a", type := .primitive .boolean }, { name := "b", type := .primitive .boolean }]⟩
  parameters := [⟨0⟩]
  body := [.expr (.assign none (.raw ⟨1⟩) (.raw ⟨0⟩)),
    .loop (.raw ⟨0⟩) [.expr (.assign none (.raw ⟨2⟩) (.raw ⟨1⟩))]]

/-- The first local is declared by its assignment, the second in front of the loop. -/
theorem declares_locals_at_first_uses_copyingTree :
    ∃ oracle : Oracle, (∀ id, ¬copyingTree.body.Declares id) ∧
      {id | IsLocal copyingTree id}.ncard = 2 ∧
      (run oracle copyingTree).1.body.DeclaresAtFirstUse ⟨2⟩ := by
  have hnone : ∀ id, ¬copyingTree.body.Declares id := by
    intro id hid
    rw [← Block.mem_declared_iff] at hid
    exact absurd hid List.not_mem_nil
  have hlocal : IsLocal copyingTree ⟨2⟩ := by
    rw [IsLocal, Block.uses_iff]
    decide
  obtain ⟨-, -, hfirst, hcount, -⟩ :=
    declares_locals_at_first_uses ⟨fun _ => false, fun _ => false⟩ copyingTree hnone
  exact ⟨_, hnone, hcount.symm.trans (by decide +kernel), hfirst ⟨2⟩ hlocal⟩

end Lowering.Declarations

end Assemblage
