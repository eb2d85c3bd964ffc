import Assemblage.Proofs.Lowering.Passes
import Assemblage.Proofs.Lowering.Reach

/-!
# One move

What a single move does to a list of statements: an assignment goes away and its
value takes the place of the only read.  The variable is gone, no other variable
occurs more often than before, and the statements do the same as before, provided
that nothing the value writes has been read when its new place is reached.
-/

namespace Assemblage.Lowering.Temporaries

open Evaluation Similarity

/-- How many nodes write the variable. -/
def assignments (id : VariableId) (nodes : List Expr) : Nat :=
  nodes.countP fun node => node.written? == some (.slot id)

/-- What is left of a candidate in a part of the tree. -/
structure Fits (id : VariableId) (block : Block) : Prop where
  twice : occurrences id (Block.nodes block) ≤ 2
  once : assignments id (Block.nodes block) ≤ 1
  undeclared : id ∉ Block.declared block

theorem assignments_append (id : VariableId) (left right : List Expr) :
    assignments id (left ++ right) = assignments id left + assignments id right :=
  List.countP_append

variable {id : VariableId} {I : Interpretation} {turns : Nat}

theorem occurrences_eq_zero_iff {nodes : List Expr} :
    occurrences id nodes = 0 ↔ ∀ node ∈ nodes, node.isVariable id = false := by
  simp [occurrences]

theorem assignments_eq_zero_iff {nodes : List Expr} :
    assignments id nodes = 0 ↔ ∀ node ∈ nodes, node.written? ≠ some (.slot id) := by
  simp [assignments]

theorem occurrences_cons (stmt : Stmt) (rest : Block) :
    occurrences id (Block.nodes (stmt :: rest)) =
      occurrences id (Block.nodes [stmt]) + occurrences id (Block.nodes rest) := by
  rw [Block.nodes_cons, occurrences_append]

theorem assignments_cons (stmt : Stmt) (rest : Block) :
    assignments id (Block.nodes (stmt :: rest)) =
      assignments id (Block.nodes [stmt]) + assignments id (Block.nodes rest) := by
  rw [Block.nodes_cons, assignments_append]

theorem not_mem_writes {expr : Expr} (h : assignments id expr.nodes = 0) :
    Access.slot id ∉ expr.writes := by
  intro hmem
  obtain ⟨node, hnode, hwritten⟩ := List.mem_filterMap.1 hmem
  exact assignments_eq_zero_iff.1 h node hnode hwritten

theorem nodes_definition (target value : Expr) :
    Block.nodes [.expr (.assign none target value)] =
      .assign none target value :: (target.nodes ++ value.nodes) := by
  simp [Block.nodes_singleton, Stmt.nodes, Stmt.exprs, Stmt.blocks, Expr.nodes]

theorem occurrences_definition {target : Expr} (value : Expr) (h : target.isVariable id = true) :
    occurrences id (Block.nodes [.expr (.assign none target value)]) =
      1 + occurrences id value.nodes := by
  have htarget : occurrences id target.nodes = 1 := by
    rw [occurrences_nodes, if_pos h, Expr.children_eq_nil_of_isVariable h]
    rfl
  have hhead : occurrences id (.assign none target value :: (target.nodes ++ value.nodes)) =
      occurrences id (target.nodes ++ value.nodes) :=
    List.countP_cons_of_neg Bool.false_ne_true
  rw [nodes_definition, hhead, occurrences_append, htarget]

theorem assignments_definition {target : Expr} (value : Expr) (h : target.isVariable id = true) :
    assignments id (Block.nodes [.expr (.assign none target value)]) ≠ 0 := by
  rw [Ne, assignments_eq_zero_iff, nodes_definition]
  intro hnone
  exact hnone _ List.mem_cons_self (Expr.isVariable_iff_access?.1 h)

theorem mentions_eq_false_iff {stmt : Stmt} :
    stmt.mentions id = false ↔ occurrences id (Block.nodes [stmt]) = 0 := by
  rw [Stmt.mentions, List.any_eq_false, occurrences_eq_zero_iff, Block.nodes, Block.statements,
    Stmt.allOfBlock, Stmt.allOfBlock, List.append_nil]
  simp only [Bool.not_eq_true]

theorem nodes_subset_of_mem_block {node : Expr} {block : Block} (h : node ∈ Block.nodes block) :
    node.nodes ⊆ Block.nodes block := by
  obtain ⟨stmt, hstmt, hnode⟩ := List.mem_flatMap.1 h
  obtain ⟨expr, hexpr, hnode⟩ := List.mem_flatMap.1 hnode
  intro other hother
  refine List.mem_flatMap.2 ⟨stmt, hstmt, List.mem_flatMap.2 ⟨expr, hexpr, ?_⟩⟩
  exact Expr.nodes_subset_of_mem hnode hother

theorem permits_of_absent {ids : List VariableId} {block : Block}
    (h : ∀ id ∈ ids, occurrences id (Block.nodes block) = 0) {node : Expr}
    (hnode : node ∈ Block.nodes block) : (agreeing I ids).Permits node := by
  apply permits_agreeing
  intro id hid hread
  obtain ⟨inner, hinner, haccess⟩ := List.mem_filterMap.1 hread
  have hvariable := Expr.isVariable_iff_access?.2 haccess
  have hnot := occurrences_eq_zero_iff.1 (h id hid) inner (nodes_subset_of_mem_block hnode hinner)
  rw [hvariable] at hnot
  exact Bool.noConfusion hnot

theorem allows_of_undeclared {ids : List VariableId} {block : Block}
    (h : ∀ id ∈ ids, id ∉ Block.declared block) {id : VariableId}
    (hid : id ∈ Block.declared block) :
    (agreeing I ids).Reads (.slot id) ∧ (agreeing I ids).Writes (.slot id) := by
  refine ⟨fun other hother heq => ?_, trivial⟩
  rw [Access.slot.inj heq] at hid
  exact h other hother hid

/-- Statements without some variables do the same whatever these hold. -/
theorem matches_of_absent {ids : List VariableId} {stmts : List Stmt}
    (h : ∀ id ∈ ids, occurrences id (Block.nodes stmts) = 0)
    (hdeclared : ∀ id ∈ ids, id ∉ Block.declared stmts) :
    (agreeing I ids).Matches (executeAll I turns stmts) (executeAll I turns stmts) :=
  matches_executeAll_self (fun _ => permits_of_absent h) fun _ => allows_of_undeclared hdeclared

theorem matches_of_absent_one {stmts : List Stmt} (h : occurrences id (Block.nodes stmts) = 0)
    (hdeclared : id ∉ Block.declared stmts) :
    (agreeing I [id]).Matches (executeAll I turns stmts) (executeAll I turns stmts) := by
  apply matches_of_absent
  · intro other hother
    rw [List.mem_singleton.1 hother]
    exact h
  · intro other hother
    rw [List.mem_singleton.1 hother]
    exact hdeclared

/-- Nothing is substituted for a variable that does not occur. -/
theorem substitute_of_absent {stmt : Stmt} (value : Expr)
    (h : occurrences id (Block.nodes [stmt]) = 0) : substitute id value stmt = stmt := by
  induction stmt using Stmt.induction_blocks with
  | step stmt ih =>
    rw [Block.nodes_singleton, occurrences_append, Nat.add_eq_zero_iff] at h
    have hexprs : ∀ expr ∈ stmt.exprs, expr.substitute id value = expr := fun expr hexpr =>
      Expr.substitute_of_avoids value (avoids_of_occurrences_eq_zero h.1 expr hexpr)
    have hblocks : ∀ block ∈ stmt.blocks, block.map (substitute id value) = block := by
      intro block hblock
      have hsame : block.map (substitute id value) = block.map fun inner => inner := by
        refine List.map_congr_left fun inner hinner => ih block hblock inner hinner ?_
        have habsent := occurrences_eq_zero_iff.1 h.2
        refine occurrences_eq_zero_iff.2 fun node hnode => habsent node ?_
        exact List.mem_flatMap.2 ⟨block, hblock, Block.nodes_subset_of_mem hinner hnode⟩
      rw [hsame, List.map_id']
    rw [Stmt.substitute_eq, Stmt.mapParts_congr hexprs hblocks]
    cases stmt <;> simp [Stmt.mapParts]

theorem map_substitute_of_absent {stmts : List Stmt} (value : Expr)
    (h : occurrences id (Block.nodes stmts) = 0) : stmts.map (substitute id value) = stmts := by
  have hsame : stmts.map (substitute id value) = stmts.map fun stmt => stmt := by
    refine List.map_congr_left fun stmt hstmt => substitute_of_absent value ?_
    rw [occurrences_eq_zero_iff] at h ⊢
    exact fun node hnode => h node (Block.nodes_subset_of_mem hstmt hnode)
  rw [hsame, List.map_id']

/-- A value that is placed anywhere is substituted for the one occurrence. -/
theorem eq_map_of_placeAnywhere? {value : Expr} {stmts moved : List Stmt}
    (h : placeAnywhere? id value stmts = some moved)
    (honce : occurrences id (Block.nodes stmts) ≤ 1) :
    occurrences id (Block.nodes stmts) = 1 ∧ moved = stmts.map (substitute id value) := by
  induction stmts generalizing moved with
  | nil => cases h
  | cons stmt rest ih =>
    rw [occurrences_cons] at honce ⊢
    rw [placeAnywhere?] at h
    by_cases hmentions : stmt.mentions id = true
    · rw [if_pos hmentions, Option.some.injEq] at h
      have hpositive : occurrences id (Block.nodes [stmt]) ≠ 0 := by
        rw [Ne, ← mentions_eq_false_iff, hmentions]
        exact Bool.noConfusion
      rw [← h, List.map_cons, map_substitute_of_absent value (by omega)]
      exact ⟨by omega, rfl⟩
    · rw [if_neg hmentions] at h
      obtain ⟨others, hothers, rfl⟩ := Option.map_eq_some_iff.1 h
      have habsent : occurrences id (Block.nodes [stmt]) = 0 :=
        mentions_eq_false_iff.1 (Bool.eq_false_iff.2 hmentions)
      obtain ⟨hcount, rfl⟩ := ih hothers (by omega)
      rw [List.map_cons, substitute_of_absent value habsent]
      exact ⟨by omega, rfl⟩

/-- A receiving statement starts with the evaluation of one expression. -/
theorem exists_expr_of_receives {stmt : Stmt} (h : receives id stmt = true) :
    ∃ expr, stmt.exprs = [expr] ∧ reach id false false expr = .found true := by
  cases stmt with
  | expr value | raise value | ifThen value | ifElse value => exact ⟨value, rfl, eq_of_beq h⟩
  | declare other value | ret value =>
    cases value with
    | none => cases h
    | some value => exact ⟨value, rfl, eq_of_beq h⟩
  | _ => cases h

theorem occurrences_of_receives {stmt : Stmt} (h : receives id stmt = true) :
    occurrences id (Block.nodes [stmt]) ≠ 0 := by
  obtain ⟨expr, hexprs, hreach⟩ := exists_expr_of_receives h
  intro hzero
  rw [Block.nodes_singleton, occurrences_append, Nat.add_eq_zero_iff, Stmt.nodes, hexprs] at hzero
  exact not_avoids_of_found hreach (avoids_of_occurrences_eq_zero hzero.1 expr List.mem_cons_self)

/-- A value that is placed next is substituted in a statement that may receive it. -/
theorem eq_map_of_placeNext? {value : Expr} {stmts moved : List Stmt}
    (h : placeNext? id value stmts = some moved)
    (honce : occurrences id (Block.nodes stmts) ≤ 1) :
    occurrences id (Block.nodes stmts) = 1 ∧ moved = stmts.map (substitute id value) ∧
      ∃ stmt rest, stmts = stmt :: rest ∧ receives id stmt = true := by
  cases stmts with
  | nil => cases h
  | cons stmt rest =>
    rw [placeNext?] at h
    by_cases hreceives : receives id stmt = true
    · rw [if_pos hreceives, Option.some.injEq] at h
      have hpositive := occurrences_of_receives hreceives
      rw [occurrences_cons] at honce ⊢
      rw [← h, List.map_cons, map_substitute_of_absent value (by omega)]
      exact ⟨by omega, rfl, stmt, rest, rfl, hreceives⟩
    · rw [if_neg hreceives] at h
      cases h

/-! ## What a move does to a run -/

/-- An assignment to a variable is a spill. -/
theorem execute_definition {target : Expr} (value : Expr) (h : target.isVariable id = true) :
    execute I turns (.expr (.assign none target value)) =
      evaluating (spill I id value) fun _ => finish .normal := by
  have hvalue : valueOf I (.assign none target value) =
      valueOf I value >>= fun new => store (.slot id) new >>= fun _ => pure new := by
    rw [valueOf, locate, locate_of_isVariable h, valueOf]
    simp only [pure_bind, bind_assoc]
    rfl
  rw [execute, hvalue, spill, evaluating_bind, evaluating_bind]
  rfl

/-- A definition evaluates its value, and the rest runs with it. -/
theorem executeAll_definition {target : Expr} (value : Expr) (rest : List Stmt)
    (h : target.isVariable id = true) :
    executeAll I turns (.expr (.assign none target value) :: rest) =
      evaluating (spill I id value) fun _ => executeAll I turns rest := by
  rw [executeAll, execute_definition value h, followedBy_evaluating]
  rfl

/-- A statement that does not write a variable does the same with the constant the variable
holds. -/
theorem matches_pinned {constant : Expr} {value : I.Value}
    (hconstant : locate I constant = pure (.value value)) {stmt : Stmt}
    (hassigned : assignments id (Block.nodes [stmt]) = 0)
    (hundeclared : id ∉ Block.declared [stmt]) :
    (pinned I id value).Matches (execute I turns stmt)
      (execute I turns (substitute id constant stmt)) := by
  induction stmt using Stmt.induction_blocks with
  | step stmt ih =>
    rw [Block.nodes_singleton, assignments_append, Nat.add_eq_zero_iff] at hassigned
    rw [Block.declared_singleton, List.mem_append, not_or] at hundeclared
    rw [Stmt.substitute_eq]
    have hexprs : ∀ expr ∈ stmt.exprs,
        (pinned I id value).Similar expr (expr.substitute id constant) := by
      intro expr hexpr
      apply similar_substitute_constant hconstant
      apply not_mem_writes
      rw [assignments_eq_zero_iff] at hassigned ⊢
      intro node hnode
      exact hassigned.1 node (List.mem_flatMap.2 ⟨expr, hexpr, hnode⟩)
    have hblocks : ∀ block ∈ stmt.blocks, (pinned I id value).Matches (executeAll I turns block)
        (executeAll I turns (block.map (substitute id constant))) := by
      intro block hblock
      apply matches_executeAll_map
      intro inner hinner
      have hinnerAssigned : assignments id (Block.nodes [inner]) = 0 := by
        rw [assignments_eq_zero_iff, assignments_eq_zero_iff] at hassigned
        rw [assignments_eq_zero_iff]
        intro node hnode
        have hmem := Block.nodes_subset_of_mem hinner hnode
        exact hassigned.2 node (List.mem_flatMap.2 ⟨block, hblock, hmem⟩)
      have hinnerUndeclared : id ∉ Block.declared [inner] := by
        intro hmem
        have hdeclared := Block.declared_subset_of_mem hinner hmem
        exact hundeclared.2 (List.mem_flatMap.2 ⟨block, hblock, hdeclared⟩)
      exact ih block hblock inner hinner hinnerAssigned hinnerUndeclared
    have hdeclared : ∀ other, stmt.declared? = some other → Access.slot other ≠ .slot id ∧
        Access.slot other ≠ .slot id := by
      intro other heq
      have hne : Access.slot other ≠ .slot id := by
        rintro ⟨⟩
        exact hundeclared.1 (by rw [heq]; exact List.mem_cons_self)
      exact ⟨hne, hne⟩
    exact matches_mapParts turns hexprs hblocks hdeclared

/-- A constant can take the place of the variable wherever this is read. -/
theorem matches_constant {target constant : Expr} {rest : List Stmt}
    (htarget : target.isVariable id = true) (hconstant : constant.isConstant = true)
    (hassigned : assignments id (Block.nodes rest) = 0) (hundeclared : id ∉ Block.declared rest) :
    (agreeing I [id]).Matches
      (executeAll I turns (.expr (.assign none target constant) :: rest))
      (executeAll I turns (rest.map (substitute id constant))) := by
  obtain ⟨value, hvalue⟩ := exists_value_of_isConstant (I := I) hconstant
  have hspill : spill I id constant = store (.slot id) value := by
    rw [spill, valueOf, hvalue]
    rfl
  have hrest : (pinned I id value).Matches (executeAll I turns rest)
      (executeAll I turns (rest.map (substitute id constant))) := by
    refine matches_executeAll_map fun stmt hstmt => matches_pinned hvalue ?_ fun hmem => ?_
    · apply assignments_eq_zero_iff.2
      intro node hnode
      exact assignments_eq_zero_iff.1 hassigned node (Block.nodes_subset_of_mem hstmt hnode)
    · exact hundeclared (Block.declared_subset_of_mem hstmt hmem)
  intro s s' hrel
  rw [executeAll_definition constant rest htarget, hspill]
  have hpinned : (pinned I id value).Rel (s.set id value) s' := by
    refine ⟨⟨hrel.1, fun other hother => ?_⟩, State.set_slots_self s id value⟩
    have hne : other ≠ id := fun heq => hother (List.mem_singleton.2 heq)
    exact (State.set_slots_of_ne s value hne).trans (hrel.2 other hother)
  exact (hrest _ _ hpinned).mono fun _ _ hafter => hafter.1

/-- The value moves into the expression that a statement starts with, and the blocks
of the statement do not see it. -/
theorem matches_receiving {value : Expr} {stmt : Stmt} (hreceives : receives id stmt = true)
    (hmoved : ∀ expr ∈ stmt.exprs, Moved I id value expr)
    (hmap : ∀ block ∈ stmt.blocks, block.map (substitute id value) = block)
    (hself : ∀ block ∈ stmt.blocks,
      (agreeing I [id]).Matches (executeAll I turns block) (executeAll I turns block)) :
    (agreeing I [id]).Matches (evaluating (spill I id value) fun _ => execute I turns stmt)
      (execute I turns (substitute id value stmt)) := by
  rw [Stmt.substitute_eq]
  cases stmt with
  | expr assigned | raise assigned =>
    have hvalue := (hmoved assigned List.mem_cons_self).valueOf
    rw [execute, ← evaluating_bind]
    exact matches_evaluating hvalue fun result => matches_finish _
  | declare other assigned =>
    cases assigned with
    | none => cases hreceives
    | some assigned =>
      have hvalue := (hmoved assigned List.mem_cons_self).valueOf
      rw [execute, ← evaluating_bind]
      exact matches_evaluating hvalue (matches_assigning trivial)
  | ret returned =>
    cases returned with
    | none => cases hreceives
    | some returned =>
      have hvalue := (hmoved returned List.mem_cons_self).valueOf
      rw [execute, ← evaluating_bind]
      exact matches_evaluating hvalue fun result => matches_finish _
  | ifThen condition body =>
    have hcondition := (hmoved condition List.mem_cons_self).valueOf
    rw [Stmt.mapParts, hmap body List.mem_cons_self, execute, execute, ← evaluating_bind]
    apply matches_evaluating hcondition
    intro result
    split
    · exact hself body List.mem_cons_self
    · exact matches_finish .normal
  | ifElse condition body otherwise =>
    have hcondition := (hmoved condition List.mem_cons_self).valueOf
    have hotherwise : otherwise ∈ (Stmt.ifElse condition body otherwise).blocks :=
      List.mem_cons_of_mem _ List.mem_cons_self
    rw [Stmt.mapParts, hmap body List.mem_cons_self, hmap otherwise hotherwise, execute, execute,
      ← evaluating_bind]
    apply matches_evaluating hcondition
    intro result
    split
    · exact hself body List.mem_cons_self
    · exact hself otherwise hotherwise
  | _ => cases hreceives

/-- The value moves to its read in the statement after the assignment. -/
theorem matches_spill {value : Expr} {stmt : Stmt} (hvalue : value.Avoids [id])
    (hreceives : receives id stmt = true) (honce : occurrences id (Block.nodes [stmt]) ≤ 1)
    (hassigned : assignments id (Block.nodes [stmt]) = 0)
    (hundeclared : id ∉ Block.declared [stmt])
    (hunaffected : ∀ expr ∈ stmt.exprs, ∀ other ∈ earlier id expr,
      Expr.Unaffected I value other) :
    (agreeing I [id]).Matches (evaluating (spill I id value) fun _ => execute I turns stmt)
      (execute I turns (substitute id value stmt)) := by
  obtain ⟨expr, hexprs, hreach⟩ := exists_expr_of_receives hreceives
  rw [Block.nodes_singleton, occurrences_append, Stmt.nodes, hexprs,
    List.flatMap_singleton] at honce
  rw [Block.nodes_singleton, assignments_append, Stmt.nodes, hexprs, List.flatMap_singleton,
    Nat.add_eq_zero_iff] at hassigned
  rw [Block.declared_singleton, List.mem_append, not_or] at hundeclared
  rw [hexprs] at hunaffected
  have hpositive : occurrences id expr.nodes ≠ 0 := fun hzero =>
    not_avoids_of_found hreach (avoids_iff.2 hzero)
  have hplaceable : Placeable id (fun other => other.Undisturbed I id value) expr := by
    refine ⟨hreach, by omega, not_mem_writes hassigned.1, fun other hother hquiet havoids => ?_⟩
    exact ⟨hquiet, havoids, hunaffected expr List.mem_cons_self other hother⟩
  have hmoved : ∀ other ∈ stmt.exprs, Moved I id value other := by
    intro other hother
    rw [hexprs] at hother
    rw [List.mem_singleton.1 hother]
    exact moved_of_receives hvalue (receives_of_placeable hplaceable)
  have habsent : ∀ block ∈ stmt.blocks, occurrences id (Block.nodes block) = 0 := by
    have hblocks : occurrences id (stmt.blocks.flatMap Block.nodes) = 0 := by omega
    intro block hblock
    rw [occurrences_eq_zero_iff] at hblocks ⊢
    exact fun node hnode => hblocks node (List.mem_flatMap.2 ⟨block, hblock, hnode⟩)
  have hdeclared : ∀ block ∈ stmt.blocks, id ∉ Block.declared block :=
    fun block hblock hmem => hundeclared.2 (List.mem_flatMap.2 ⟨block, hblock, hmem⟩)
  exact matches_receiving hreceives hmoved
    (fun block hblock => map_substitute_of_absent value (habsent block hblock))
    fun block hblock => matches_of_absent_one (habsent block hblock) (hdeclared block hblock)

end Assemblage.Lowering.Temporaries
