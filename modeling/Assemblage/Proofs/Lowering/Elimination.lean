import Assemblage.Proofs.Lowering.Move

/-!
# Elimination of temporaries

One run over a tree is a sequence of moves, each inside some block.  A move leaves
every other candidate with at most as many occurrences as it had, so that each
eliminated variable lies in one block only and all around it goes on undisturbed.
A move is harmless as long as what it takes the value past comes to the same after
the value as before it.
-/

namespace Assemblage.Lowering.Temporaries

open Evaluation Similarity

/-- A substitution adds to the nodes of a kind no more than the value has, once for each
occurrence. -/
theorem countP_substituted_le {p : Expr → Bool} {id : VariableId} {value : Expr}
    {nodes : List Expr}
    (hp : ∀ node ∈ nodes, node.isVariable id = false → p (node.substitute id value) = p node) :
    (nodes.flatMap fun node =>
        if node.isVariable id then value.nodes else [node.substitute id value]).countP p ≤
      nodes.countP p + occurrences id nodes * value.nodes.countP p := by
  induction nodes with
  | nil => exact Nat.zero_le _
  | cons node rest ih =>
    have hrest := ih fun other hother => hp other (List.mem_cons_of_mem _ hother)
    have hcount : occurrences id (node :: rest) =
        occurrences id rest + if node.isVariable id = true then 1 else 0 := List.countP_cons
    rw [List.flatMap_cons, List.countP_append, List.countP_cons, hcount]
    by_cases hvariable : node.isVariable id = true
    · rw [if_pos hvariable, if_pos hvariable, Nat.add_mul, Nat.one_mul]
      omega
    · have hsame := hp node List.mem_cons_self (Bool.eq_false_iff.2 hvariable)
      rw [if_neg hvariable, if_neg hvariable, List.countP_singleton, hsame, Nat.add_zero]
      omega

theorem access?_mapChildren (f : Expr → Expr) (expr : Expr) :
    (expr.mapChildren f).access? = expr.access? := by
  cases expr <;> rfl

theorem access?_substitute {id : VariableId} {expr : Expr} (value : Expr)
    (h : expr.access? ≠ some (.slot id)) : (expr.substitute id value).access? = expr.access? := by
  have hvariable : expr.isVariable id = false :=
    Bool.eq_false_iff.2 fun heq => h (Expr.isVariable_iff_access?.1 heq)
  rw [Expr.substitute_of_not_isVariable hvariable, access?_mapChildren]

/-- A node that does not write the variable writes the same after a substitution. -/
theorem written?_substitute {id : VariableId} {node : Expr} (value : Expr)
    (hvariable : node.isVariable id = false) (h : node.written? ≠ some (.slot id)) :
    (node.substitute id value).written? = node.written? := by
  rw [Expr.substitute_of_not_isVariable hvariable]
  cases node with
  | assign op target assigned => exact access?_substitute value h
  | unary op operand =>
    rw [Expr.mapChildren, Expr.written?, Expr.written?]
    by_cases hop : op.isMutating = true
    · rw [Expr.written?, if_pos hop] at h
      rw [if_pos hop, if_pos hop]
      exact access?_substitute value h
    · rw [if_neg hop, if_neg hop]
  | _ => rfl

/-! ## Moves -/

/-- A value on its way from the assignment of a variable into the next statement, or
past it if the value is a constant. -/
structure Move where
  id : VariableId
  value : Expr
  target : Stmt

/-- What is evaluated before the value's new place comes to the same after the value
as before it. -/
def Move.IsHarmless (I : Interpretation) (move : Move) : Prop :=
  ∀ expr ∈ move.target.exprs, ∀ other ∈ earlier move.id expr, Expr.Unaffected I move.value other

/-- What is evaluated before the value's new place writes nothing and reads nothing
that the value writes. -/
def Move.isApart (move : Move) : Bool :=
  move.target.exprs.all fun expr => (earlier move.id expr).all fun other =>
    other.writes.isEmpty && other.reads.all fun access => !move.value.writes.contains access

/-- The check does not depend on the interpretation. -/
theorem Move.isHarmless_of_isApart (I : Interpretation) {move : Move}
    (h : move.isApart = true) : move.IsHarmless I := by
  simp only [isApart, List.all_eq_true, Bool.and_eq_true, List.isEmpty_iff, Bool.not_eq_true',
    List.contains_eq_mem, decide_eq_false_iff_not] at h
  intro expr hexpr other hother
  obtain ⟨hquiet, hreads⟩ := h expr hexpr other hother
  exact unaffected_of_writes hquiet hreads

def moveInto? (stmt : Stmt) (rest : List Stmt) : Option Move :=
  match stmt.assignment?, rest with
  | some (id, value), target :: _ => some { id, value, target }
  | _, _ => none

theorem moveInto?_definition {id : VariableId} {target : Expr} (value : Expr) (next : Stmt)
    (others : List Stmt) (h : target.isVariable id = true) :
    moveInto? (.expr (.assign none target value)) (next :: others) = some ⟨id, value, next⟩ := by
  have hassignment :
      (Stmt.expr (.assign none target value)).assignment? = some (id, value) := by
    rw [Stmt.assignment?, Expr.isVariable_eq_true_iff.1 h]
    rfl
  simp only [moveInto?, hassignment]

/-- The moves between the statements of one block. -/
def movesFlat (candidates : List VariableId) : List Stmt → List Move
  | [] => []
  | stmt :: rest =>
    match _h : move? candidates stmt rest with
    | some moved => (moveInto? stmt rest).toList ++ movesFlat candidates moved
    | none => movesFlat candidates rest
termination_by stmts => stmts.length
decreasing_by
  · simp [length_move? _h]
  · simp

/-- The moves in a block and in the blocks inside it, down to the given number of
levels. -/
def movesLevels (candidates : List VariableId) : Nat → Block → List Move
  | 0, _ => []
  | levels + 1, block =>
    movesFlat candidates block ++
      (eliminateFlat candidates block).1.flatMap fun stmt =>
        stmt.blocks.flatMap (movesLevels candidates levels)

/-- The moves of one run over a tree. -/
def moves (tree : MethodTree) : List Move :=
  movesLevels (candidates tree) (Stmt.depthOfBlock tree.body + 1) tree.body

theorem movesFlat_of_some {candidates : List VariableId} {stmt : Stmt} {rest moved : List Stmt}
    (h : move? candidates stmt rest = some moved) :
    movesFlat candidates (stmt :: rest) =
      (moveInto? stmt rest).toList ++ movesFlat candidates moved := by
  rw [movesFlat]
  split
  · rename_i other hother
    rw [h, Option.some.injEq] at hother
    rw [hother]
  · rename_i hnone
    rw [h] at hnone
    cases hnone

theorem movesFlat_of_none {candidates : List VariableId} {stmt : Stmt} {rest : List Stmt}
    (h : move? candidates stmt rest = none) :
    movesFlat candidates (stmt :: rest) = movesFlat candidates rest := by
  rw [movesFlat]
  split
  · rename_i other hother
    rw [h] at hother
    cases hother
  · rfl

theorem length_moveInto? {candidates : List VariableId} {stmt : Stmt} {rest moved : List Stmt}
    (h : move? candidates stmt rest = some moved) : (moveInto? stmt rest).toList.length = 1 := by
  rw [move?] at h
  split at h
  · rename_i id value hassignment
    cases rest with
    | nil =>
      rw [placeAnywhere?, placeNext?, ite_self, ite_self] at h
      cases h
    | cons next others =>
      simp only [moveInto?, hassignment, Option.toList_some, List.length_singleton]
  · cases h

/-- There are as many moves in one level as the pass counts. -/
theorem length_movesFlat (candidates : List VariableId) (block : Block) :
    (movesFlat candidates block).length = (eliminateFlat candidates block).2 := by
  fun_induction eliminateFlat candidates block with
  | case1 => rw [movesFlat, List.length_nil]
  | case2 stmt rest moved hmove stmts n heq ih =>
    rw [movesFlat_of_some hmove, List.length_append, length_moveInto? hmove, ih, heq, Nat.add_comm]
  | case3 stmt rest hmove stmts n heq ih => rw [movesFlat_of_none hmove, ih, heq]

theorem length_flatMap_blocks {f : Block → List Move} {g : Block → Block × Nat}
    (h : ∀ block, (f block).length = (g block).2) (stmt : Stmt) :
    (stmt.blocks.flatMap f).length = (mapBlocks g stmt).2 := by
  cases stmt <;> simp [mapBlocks, Stmt.blocks, h]

theorem length_flatMap_statements {f : Block → List Move} {g : Block → Block × Nat}
    (h : ∀ block, (f block).length = (g block).2) (block : Block) :
    (block.flatMap fun stmt => stmt.blocks.flatMap f).length = (mapBlocksOfAll g block).2 := by
  induction block with
  | nil => rfl
  | cons stmt rest ih =>
    rw [List.flatMap_cons, List.length_append, ih, length_flatMap_blocks h, mapBlocksOfAll]

theorem length_movesLevels (candidates : List VariableId) (levels : Nat) (block : Block) :
    (movesLevels candidates levels block).length =
      (eliminateLevels candidates levels block).2 := by
  induction levels generalizing block with
  | zero => rfl
  | succ levels ih =>
    rw [movesLevels, List.length_append, length_movesFlat, length_flatMap_statements ih,
      eliminateLevels]

/-- A run reports the number of its moves. -/
theorem length_moves (tree : MethodTree) : (moves tree).length = (run tree).2 :=
  length_movesLevels (candidates tree) (Stmt.depthOfBlock tree.body + 1) tree.body

/-- What is known about a move that is made. -/
structure Move.Made (id : VariableId) (target value : Expr) (rest moved : List Stmt) : Prop where
  defined : target.isVariable id = true
  avoids : value.Avoids [id]
  twice : 2 ≤ occurrences id (Block.nodes (.expr (.assign none target value) :: rest))
  once : occurrences id (Block.nodes rest) = 1
  unassigned : assignments id (Block.nodes rest) = 0
  undeclared : id ∉ Block.declared rest
  eq_map : moved = rest.map (substitute id value)
  receives : value.isConstant = true ∨
    ∃ next others, rest = next :: others ∧ receives id next = true

/-- Only the assignment of a candidate moves. -/
theorem exists_definition_of_move? {candidates : List VariableId} {stmt : Stmt}
    {rest moved : List Stmt} (h : move? candidates stmt rest = some moved) :
    ∃ id ∈ candidates, ∃ target value, stmt = .expr (.assign none target value) ∧
      target.isVariable id = true ∧
      (if value.isConstant then placeAnywhere? id value rest else placeNext? id value rest) =
        some moved := by
  rw [move?] at h
  split at h
  · rename_i id value hassignment
    obtain ⟨target, rfl, htarget⟩ := Stmt.eq_of_assignment? hassignment
    by_cases hmem : candidates.contains id = true
    · rw [if_pos hmem] at h
      exact ⟨id, List.contains_iff_mem.1 hmem, target, value, rfl,
        Expr.isVariable_eq_true_iff.2 htarget, h⟩
    · rw [if_neg hmem] at h
      cases h
  · cases h

/-- The value takes the place of the only occurrence that is left, in the next
statement unless it is a constant. -/
theorem eq_map_of_place? {id : VariableId} {value : Expr} {rest moved : List Stmt}
    (h : (if value.isConstant then placeAnywhere? id value rest else placeNext? id value rest) =
      some moved)
    (honce : occurrences id (Block.nodes rest) ≤ 1) :
    occurrences id (Block.nodes rest) = 1 ∧ moved = rest.map (substitute id value) ∧
      (value.isConstant = true ∨
        ∃ next others, rest = next :: others ∧ receives id next = true) := by
  by_cases hconstant : value.isConstant = true
  · rw [if_pos hconstant] at h
    obtain ⟨hread, hmap⟩ := eq_map_of_placeAnywhere? h honce
    exact ⟨hread, hmap, .inl hconstant⟩
  · rw [if_neg hconstant] at h
    obtain ⟨hread, hmap, hnext⟩ := eq_map_of_placeNext? h honce
    exact ⟨hread, hmap, .inr hnext⟩

/-- A move of a candidate that fits is made as described. -/
theorem exists_made_of_move? {candidates : List VariableId} {stmt : Stmt} {rest moved : List Stmt}
    (h : move? candidates stmt rest = some moved)
    (hfits : ∀ id ∈ candidates, Fits id (stmt :: rest)) :
    ∃ id ∈ candidates, ∃ target value, stmt = .expr (.assign none target value) ∧
      Move.Made id target value rest moved := by
  obtain ⟨id, hid, target, value, rfl, hvariable, hplaced⟩ := exists_definition_of_move? h
  have htwice := (hfits id hid).twice
  have honce := (hfits id hid).once
  have hcount := occurrences_definition value hvariable
  have hwritten := assignments_definition value hvariable
  rw [occurrences_cons, hcount] at htwice
  rw [assignments_cons] at honce
  obtain ⟨hread, hmap, hreceives⟩ := eq_map_of_place? hplaced (by omega)
  have havoids : value.Avoids [id] := avoids_iff.2 (by omega)
  have hundeclared : id ∉ Block.declared rest := by
    intro hdeclared
    apply (hfits id hid).undeclared
    rw [Block.declared_cons]
    exact List.mem_append_right _ hdeclared
  refine ⟨id, hid, target, value, rfl, hvariable, havoids, ?_, hread, by omega, hundeclared, hmap,
    hreceives⟩
  rw [occurrences_cons, hcount]
  omega

namespace Move.Made

variable {id : VariableId} {target value : Expr} {rest moved : List Stmt}

/-- The moved value accounts for all nodes that are new. -/
theorem countP_le (h : Move.Made id target value rest moved) {p : Expr → Bool}
    (hp : ∀ node ∈ Block.nodes rest, node.isVariable id = false →
      p (node.substitute id value) = p node) :
    (Block.nodes moved).countP p ≤
      (Block.nodes (.expr (.assign none target value) :: rest)).countP p := by
  have hle := countP_substituted_le hp
  rw [h.once, Nat.one_mul] at hle
  rw [h.eq_map, Block.nodes_map_substitute, Block.nodes_cons, nodes_definition, List.countP_append,
    List.countP_cons, List.countP_append]
  omega

theorem occurrences_le (h : Move.Made id target value rest moved) (other : VariableId) :
    occurrences other (Block.nodes moved) ≤
      occurrences other (Block.nodes (.expr (.assign none target value) :: rest)) := by
  apply h.countP_le
  intro node _ hnode
  rw [Expr.substitute_of_not_isVariable hnode, Expr.isVariable_mapChildren]

/-- The variable is gone. -/
theorem occurrences_eq_zero (h : Move.Made id target value rest moved) :
    occurrences id (Block.nodes moved) = 0 := by
  rw [h.eq_map, Block.nodes_map_substitute, occurrences_eq_zero_iff]
  intro node hnode
  obtain ⟨old, hold, hmem⟩ := List.mem_flatMap.1 hnode
  by_cases hvariable : old.isVariable id = true
  · rw [if_pos hvariable] at hmem
    exact occurrences_eq_zero_iff.1 (avoids_iff.1 h.avoids) node hmem
  · have hnot := Bool.eq_false_iff.2 hvariable
    rw [if_neg hvariable, List.mem_singleton] at hmem
    rw [hmem, Expr.substitute_of_not_isVariable hnot, Expr.isVariable_mapChildren, hnot]

theorem assignments_le (h : Move.Made id target value rest moved) (other : VariableId) :
    assignments other (Block.nodes moved) ≤
      assignments other (Block.nodes (.expr (.assign none target value) :: rest)) := by
  apply h.countP_le
  intro node hnode hvariable
  have hwritten := written?_substitute value hvariable
    (assignments_eq_zero_iff.1 h.unassigned node hnode)
  rw [hwritten]

theorem declared_eq (h : Move.Made id target value rest moved) :
    Block.declared moved = Block.declared (.expr (.assign none target value) :: rest) := by
  rw [h.eq_map, Block.declared_map fun stmt _ => Block.declared_substitute id value stmt,
    Block.declared_cons]
  rfl

/-- A harmless move changes nothing but the variable. -/
theorem matches_moved {I : Interpretation} (h : Move.Made id target value rest moved)
    (hharmless : ∀ move ∈ moveInto? (.expr (.assign none target value)) rest,
      move.IsHarmless I) (turns : Nat) :
    (agreeing I [id]).Matches (executeAll I turns (.expr (.assign none target value) :: rest))
      (executeAll I turns moved) := by
  rw [h.eq_map]
  rcases h.receives with hconstant | ⟨next, others, rfl, hreceives⟩
  · exact matches_constant h.defined hconstant h.unassigned h.undeclared
  · have honce := h.once
    have hassigned := h.unassigned
    have hundeclared := h.undeclared
    have hpositive := occurrences_of_receives hreceives
    rw [occurrences_cons] at honce
    rw [assignments_cons, Nat.add_eq_zero_iff] at hassigned
    rw [Block.declared_cons, List.mem_append, not_or] at hundeclared
    have habsent : occurrences id (Block.nodes others) = 0 := by omega
    have hmove := hharmless _ (moveInto?_definition value next others h.defined)
    have hnext : (agreeing I [id]).Matches
        (evaluating (spill I id value) fun _ => execute I turns next)
        (execute I turns (substitute id value next)) :=
      matches_spill h.avoids hreceives (by omega) hassigned.1 hundeclared.1
        hmove
    rw [executeAll_definition value _ h.defined, List.map_cons,
      map_substitute_of_absent value habsent, executeAll, executeAll, ← followedBy_evaluating]
    exact matches_followedBy hnext (matches_of_absent_one habsent hundeclared.2)

end Move.Made

end Assemblage.Lowering.Temporaries
