import Assemblage.Proofs.Lowering.Elimination
import Assemblage.Proofs.Tree.Rewriting
import Mathlib.Algebra.Order.BigOperators.Group.List
import Mathlib.Data.Finset.Card

/-!
# What a run of the elimination takes away

A run is a row of removals.  Each takes one assignment out of some block and puts
its value in the place of the only other occurrence of the variable.  Added up, a
run that reports `n` takes away `n` assignments with both occurrences of `n`
temporaries and nothing else.  So every run that changes something leaves fewer
temporaries, and enough runs reach a tree that the next one does not change.
-/

namespace Assemblage.Lowering.Temporaries

open Block (heads shells)

/-- An assignment at the start of a block goes away, and its value takes the place of
the one occurrence of the variable after it. -/
inductive Collapses (id : VariableId) : Block → Block → Prop
  | intro {target value : Expr} {rest : Block} (htarget : target.isVariable id = true)
      (hvalue : value.mentions id = false) (hread : occurrences id (Block.nodes rest) = 1) :
    Collapses id (.expr (.assign none target value) :: rest) (rest.map (substitute id value))

/-- An assignment to the variable goes away somewhere in a block. -/
def Removes (id : VariableId) : Block → Block → Prop :=
  Block.Within (Collapses id)

/-- An assignment without its operands. -/
def bareAssignment : Expr :=
  .assign none .self .self

variable {id : VariableId}

theorem head_of_isVariable {node : Expr} (h : node.isVariable id = true) : node.head = node := by
  cases node <;> first | rfl | simp [Expr.isVariable, Expr.asVariable?] at h

theorem isVariable_head (node : Expr) : node.head.isVariable id = node.isVariable id := by
  rw [Expr.isVariable, Expr.asVariable?_head, Expr.isVariable]

theorem occurrences_eq_countP (block : Block) :
    occurrences id (Block.nodes block) = (heads block).countP (·.isVariable id = true) := by
  rw [heads, Multiset.coe_countP, List.countP_map, occurrences]
  exact List.countP_congr fun node _ => by simp [isVariable_head]

/-- Each occurrence of the variable gives way to the nodes of the value. -/
theorem heads_substituted (id : VariableId) (value : Expr) (nodes : List Expr) :
    (↑((nodes.flatMap fun node =>
        if node.isVariable id then value.nodes else [node.substitute id value]).map Expr.head) :
          Multiset Expr) + ↑(nodes.filter (·.isVariable id)) =
      occurrences id nodes • (↑(value.nodes.map Expr.head) : Multiset Expr) +
        ↑(nodes.map Expr.head) := by
  induction nodes with
  | nil => rfl
  | cons node rest ih =>
    have hcount : occurrences id (node :: rest) =
        occurrences id rest + if node.isVariable id = true then 1 else 0 := List.countP_cons
    rw [List.flatMap_cons, List.map_append, ← Multiset.coe_add, List.map_cons, hcount, add_nsmul,
      ← Multiset.cons_coe node.head, ← Multiset.singleton_add]
    by_cases hvariable : node.isVariable id = true
    · rw [if_pos hvariable, if_pos hvariable, List.filter_cons, if_pos hvariable, one_nsmul,
        ← Multiset.cons_coe node, ← Multiset.singleton_add, head_of_isVariable hvariable,
        add_add_add_comm, ih]
      abel
    · rw [if_neg hvariable, if_neg hvariable, List.filter_cons, if_neg hvariable, zero_nsmul,
        add_zero, Expr.substitute_of_not_isVariable (Bool.eq_false_iff.2 hvariable),
        List.map_singleton, Expr.head_mapChildren, Multiset.coe_singleton, add_assoc, ih]
      abel

/-- What goes away with the assignment: the assignment and two occurrences of the
variable. -/
theorem Collapses.heads_eq {block result : Block} (h : Collapses id block result) :
    ∃ part : Multiset Expr, (∃ written read : Expr, written.isVariable id = true ∧
        read.isVariable id = true ∧ part = {bareAssignment} + ({written} + {read})) ∧
      heads block = part + heads result := by
  cases h with
  | @intro target value rest htarget hvalue hread =>
    have hlength : ((Block.nodes rest).filter (·.isVariable id)).length = 1 := by
      rw [← List.countP_eq_length_filter]
      exact hread
    obtain ⟨read, hfilter⟩ := List.length_eq_one_iff.1 hlength
    have hmem : read ∈ (Block.nodes rest).filter (·.isVariable id) := by
      rw [hfilter]
      exact List.mem_singleton_self read
    have hvariable : read.isVariable id = true := (List.mem_filter.1 hmem).2
    have hmoved := heads_substituted id value (Block.nodes rest)
    rw [hread, one_nsmul, hfilter, ← Block.nodes_map_substitute, Multiset.coe_singleton] at hmoved
    have htarget' : target.nodes = [target] := by
      rw [Expr.nodes_eq_cons, Expr.children_eq_nil_of_isVariable htarget]
      rfl
    refine ⟨_, ⟨target, read, htarget, hvariable, rfl⟩, ?_⟩
    have hblock : heads (.expr (.assign none target value) :: rest) =
        {bareAssignment} + {target} + (↑(value.nodes.map Expr.head) + heads rest) := by
      rw [heads, Block.nodes_cons, nodes_definition, htarget', List.map_append, List.map_cons,
        List.map_append, ← Multiset.coe_add, ← Multiset.cons_coe, ← Multiset.coe_add,
        List.map_singleton, head_of_isVariable htarget, ← Multiset.singleton_add, add_assoc,
        add_assoc, add_assoc]
      rfl
    have hrest : heads (rest.map (substitute id value)) + {read} =
        ↑(value.nodes.map Expr.head) + heads rest := hmoved
    rw [hblock, ← hrest]
    abel

theorem shells_map_of_forall {f : Stmt → Stmt} {block : Block}
    (h : ∀ stmt ∈ block, shells [f stmt] = shells [stmt]) :
    shells (block.map f) = shells block := by
  induction block with
  | nil => rfl
  | cons stmt rest ih =>
    have hhead := h stmt List.mem_cons_self
    have hsplit : ∀ (stmt : Stmt) (rest : Block), shells (stmt :: rest) =
        shells [stmt] + shells rest := by
      intro stmt rest
      rw [Block.shells_cons, Block.shells_cons stmt []]
      exact congrArg (· + shells rest) (add_zero _).symm
    rw [List.map_cons, hsplit, hsplit stmt, hhead,
      ih fun other hother => h other (List.mem_cons_of_mem _ hother)]

theorem shells_substitute (value : Expr) (stmt : Stmt) :
    shells [substitute id value stmt] = shells [stmt] := by
  induction stmt using Stmt.induction_blocks with
  | step stmt ih =>
    have hblocks : stmt.blocks.map (shells ∘ List.map (substitute id value)) =
        stmt.blocks.map shells :=
      List.map_congr_left fun inner hinner => shells_map_of_forall (ih inner hinner)
    rw [Stmt.substitute_eq, Block.shells_cons, Block.shells_cons stmt, Stmt.shell_mapParts,
      Stmt.blocks_mapParts, List.map_map, hblocks]

theorem Collapses.shells_eq {block result : Block} (h : Collapses id block result) :
    shells block = {.expr .self} + shells result := by
  cases h with
  | intro htarget hvalue hread =>
    rw [Block.shells_cons, shells_map_of_forall fun stmt _ => shells_substitute _ stmt]
    rfl

theorem isVariable_of_isVariable {node : Expr} (h : node.isVariable id = true)
    (other : VariableId) : node.isVariable other = true ↔ id = other := by
  rw [Expr.isVariable_eq_true_iff] at h
  rw [Expr.isVariable_eq_true_iff, h, Option.some.injEq]

/-- Apart from one assignment and two occurrences for each variable removed, a block
has the nodes it had. -/
theorem heads_of_removals {ids : List VariableId} {block result : Block}
    (h : Steps Removes ids block result) :
    ∃ gone : Multiset Expr, (∀ node ∈ gone, ∃ id ∈ ids, node.isVariable id = true) ∧
      (∀ id, gone.countP (·.isVariable id = true) = 2 * ids.count id) ∧
      heads block = Multiset.replicate ids.length bareAssignment + gone + heads result := by
  induction h with
  | done start => exact ⟨0, by simp, by simp, by simp⟩
  | @next id ids block middle result hstep _ ih =>
    obtain ⟨gone, hgone, hcount, heq⟩ := ih
    obtain ⟨_, ⟨written, read, hwritten, hread, rfl⟩, hpart⟩ :=
      Block.Within.measure_eq Block.additive_heads _ Collapses.heads_eq hstep
    refine ⟨{written} + {read} + gone, fun node hnode => ?_, fun other => ?_, ?_⟩
    · simp only [Multiset.mem_add, Multiset.mem_singleton] at hnode
      rcases hnode with (rfl | rfl) | hnode
      · exact ⟨id, List.mem_cons_self, hwritten⟩
      · exact ⟨id, List.mem_cons_self, hread⟩
      · obtain ⟨earlier, hearlier, hvariable⟩ := hgone node hnode
        exact ⟨earlier, List.mem_cons_of_mem _ hearlier, hvariable⟩
    · rw [Multiset.countP_add, Multiset.countP_add, hcount, List.count_cons,
        ← Multiset.cons_zero, ← Multiset.cons_zero, Multiset.countP_cons, Multiset.countP_cons,
        Multiset.countP_zero]
      simp only [isVariable_of_isVariable hwritten, isVariable_of_isVariable hread, beq_iff_eq]
      split <;> omega
    · rw [hpart, heq, List.length_cons, Multiset.replicate_succ, ← Multiset.singleton_add]
      abel

/-- Removals take away one expression statement for each variable. -/
theorem shells_of_removals {ids : List VariableId} {block result : Block}
    (h : Steps Removes ids block result) :
    shells block = Multiset.replicate ids.length (.expr .self) + shells result := by
  induction h with
  | done start => simp
  | next hstep _ ih =>
    obtain ⟨_, rfl, hpart⟩ := Block.Within.measure_eq Block.additive_shells
      (· = {Stmt.expr .self}) (fun h => ⟨_, rfl, h.shells_eq⟩) hstep
    rw [hpart, ih, List.length_cons, Multiset.replicate_succ, ← Multiset.singleton_add, add_assoc]

/-- A removal takes both occurrences of its variable and none of another. -/
theorem occurrences_of_removals {ids : List VariableId} {block result : Block}
    (h : Steps Removes ids block result) (id : VariableId) :
    occurrences id (Block.nodes block) =
      2 * ids.count id + occurrences id (Block.nodes result) := by
  obtain ⟨gone, -, hcount, heq⟩ := heads_of_removals h
  have hassignments : (Multiset.replicate ids.length bareAssignment).countP
      (·.isVariable id = true) = 0 := by
    rw [Multiset.countP_eq_zero]
    intro node hnode
    rw [Multiset.eq_of_mem_replicate hnode]
    exact Bool.false_ne_true
  rw [occurrences_eq_countP, heq, Multiset.countP_add, Multiset.countP_add, hassignments, hcount,
    zero_add, occurrences_eq_countP]

/-! ## The removals of a run -/

section Blocks

variable {candidates : List VariableId} {block : Block} {outcome : Block × Nat}

/-- An assignment to a candidate goes away somewhere in a block. -/
def RemovesOneOf (candidates : List VariableId) (id : VariableId) : Block → Block → Prop :=
  Block.Within fun block result => id ∈ candidates ∧ Collapses id block result

/-- Steps that each remove one of the candidates remove as many as are counted. -/
theorem exists_removals (h : StepsTo (RemovesOneOf candidates) block outcome) :
    ∃ ids ⊆ candidates, ids.length = outcome.2 ∧ Steps Removes ids block outcome.1 := by
  obtain ⟨ids, hlength, hsteps⟩ := h
  refine ⟨ids, hsteps.forall_mem fun hremoves => ?_, hlength, hsteps.mono fun _ _ _ hremoves =>
    hremoves.imp fun hcollapses => hcollapses.2⟩
  obtain ⟨_, _, hid, -⟩ := hremoves.exists_rule
  exact hid

/-- No variable occurs more often after removals. -/
theorem occurrences_le_of_stepsTo (h : StepsTo (RemovesOneOf candidates) block outcome)
    (id : VariableId) :
    occurrences id (Block.nodes outcome.1) ≤ occurrences id (Block.nodes block) := by
  obtain ⟨ids, -, -, hsteps⟩ := exists_removals h
  rw [occurrences_of_removals hsteps id]
  exact Nat.le_add_left _ _

/-- A move collapses the definition of one candidate into its use. -/
theorem exists_collapse_of_move? {stmt : Stmt} {rest moved : List Stmt}
    (h : move? candidates stmt rest = some moved)
    (htwice : ∀ id ∈ candidates, occurrences id (Block.nodes (stmt :: rest)) ≤ 2) :
    ∃ id ∈ candidates, Collapses id (stmt :: rest) moved := by
  obtain ⟨id, hid, target, value, rfl, hvariable, hplaced⟩ := exists_definition_of_move? h
  have hcount := htwice id hid
  rw [occurrences_cons, occurrences_definition value hvariable] at hcount
  obtain ⟨hread, rfl, -⟩ := eq_map_of_place? hplaced (by omega)
  have hvalue : value.mentions id = false := avoids_iff_mentions.1 (avoids_iff.2 (by omega))
  exact ⟨id, hid, .intro hvariable hvalue hread⟩

theorem stepsTo_eliminateFlat
    (htwice : ∀ id ∈ candidates, occurrences id (Block.nodes block) ≤ 2) :
    StepsTo (RemovesOneOf candidates) block (eliminateFlat candidates block) := by
  fun_induction eliminateFlat candidates block with
  | case1 => exact .none _ []
  | case2 stmt rest moved hmove stmts n heq ih =>
    obtain ⟨id, hid, hcollapses⟩ := exists_collapse_of_move? hmove htwice
    have hfirst : StepsTo (RemovesOneOf candidates) (stmt :: rest) (moved, 1) :=
      .one (Block.Within.here ⟨hid, hcollapses⟩)
    have hrest := ih fun other hother =>
      Nat.le_trans (occurrences_le_of_stepsTo hfirst other) (htwice other hother)
    rw [heq] at hrest
    rw [Nat.add_comm]
    exact hfirst.trans hrest
  | case3 stmt rest hmove stmts n heq ih =>
    have hrest := ih fun other hother => by
      have hcount := htwice other hother
      rw [occurrences_cons] at hcount
      omega
    rw [heq] at hrest
    exact hrest.map fun _ _ _ hremoves => Block.Within.later stmt hremoves

section Walk

variable {changes : VariableId → Block → Block → Prop} {f : Block → Block × Nat}

theorem stepsTo_mapBlocks {stmt : Stmt} (rest : Block)
    (h : ∀ inner ∈ stmt.blocks,
      StepsTo (fun id => Block.Within (changes id)) inner (f inner)) :
    StepsTo (fun id => Block.Within (changes id)) (stmt :: rest)
      ((mapBlocks f stmt).1 :: rest, (mapBlocks f stmt).2) := by
  cases stmt with
  | block body =>
    exact Block.stepsTo_of_blocks (f := .block) [] [] (fun _ => rfl) (fun _ _ => rfl) rest
      (h body List.mem_cons_self)
  | ifThen condition body =>
    exact Block.stepsTo_of_blocks (f := .ifThen condition) [] [] (fun _ => rfl) (fun _ _ => rfl)
      rest (h body List.mem_cons_self)
  | loop condition body =>
    exact Block.stepsTo_of_blocks (f := .loop condition) [] [] (fun _ => rfl) (fun _ _ => rfl)
      rest (h body List.mem_cons_self)
  | ifElse condition body otherwise =>
    have hbody := Block.stepsTo_of_blocks (f := fun inner => .ifElse condition inner otherwise)
      [] [otherwise] (fun _ => rfl) (fun _ _ => rfl) rest (h body List.mem_cons_self)
    have hotherwise := Block.stepsTo_of_blocks (f := .ifElse condition (f body).1)
      [(f body).1] [] (fun _ => rfl) (fun _ _ => rfl) rest
      (h otherwise (List.mem_cons_of_mem _ List.mem_cons_self))
    exact hbody.trans hotherwise
  | _ => exact .none _ _

theorem stepsTo_mapBlocksOfAll (h : ∀ stmt ∈ block, ∀ inner ∈ stmt.blocks,
      StepsTo (fun id => Block.Within (changes id)) inner (f inner)) :
    StepsTo (fun id => Block.Within (changes id)) block (mapBlocksOfAll f block) := by
  induction block with
  | nil => exact .none _ []
  | cons stmt rest ih =>
    have hstmt := stepsTo_mapBlocks rest (h stmt List.mem_cons_self)
    have hrest := ih fun other hother => h other (List.mem_cons_of_mem _ hother)
    exact hstmt.trans (hrest.map fun _ _ _ hstep => Block.Within.later _ hstep)

end Walk

theorem occurrences_le_of_mem {stmt : Stmt} (hstmt : stmt ∈ block) {inner : Block}
    (hinner : inner ∈ stmt.blocks) :
    occurrences id (Block.nodes inner) ≤ occurrences id (Block.nodes block) := by
  apply List.Sublist.countP_le
  have hblocks : (Block.nodes inner).Sublist (stmt.blocks.flatMap Block.nodes) :=
    List.sublist_flatten_of_mem (List.mem_map_of_mem hinner)
  have hall : (stmt.nodes ++ stmt.blocks.flatMap Block.nodes).Sublist (Block.nodes block) := by
    rw [Block.nodes_eq_flatMap block]
    exact List.sublist_flatten_of_mem
      (List.mem_map_of_mem (f := fun stmt => stmt.nodes ++ stmt.blocks.flatMap Block.nodes) hstmt)
  exact (hblocks.trans (List.sublist_append_right _ _)).trans hall

/-- The moves within all levels of a block are removals. -/
theorem stepsTo_eliminateLevels (levels : Nat)
    (htwice : ∀ id ∈ candidates, occurrences id (Block.nodes block) ≤ 2) :
    StepsTo (RemovesOneOf candidates) block (eliminateLevels candidates levels block) := by
  induction levels generalizing block with
  | zero => exact .none _ block
  | succ levels ih =>
    have hflat := stepsTo_eliminateFlat htwice
    refine hflat.trans (stepsTo_mapBlocksOfAll fun stmt hstmt inner hinner => ih ?_)
    intro id hid
    exact (occurrences_le_of_mem hstmt hinner).trans
      ((occurrences_le_of_stepsTo hflat id).trans (htwice id hid))

end Blocks

/-- A candidate is a temporary that is defined once and used once. -/
theorem isTemporary_of_mem_candidates {tree : MethodTree} (h : id ∈ candidates tree) :
    isTemporary tree.table id = true ∧
      (Block.nodes tree.body).countP (isDefinition id) = 1 ∧
      occurrences id (Block.nodes tree.body) = 2 := by
  have hcandidate := List.of_mem_filter h
  simp only [isCandidate, Bool.and_eq_true, beq_iff_eq] at hcandidate
  obtain ⟨⟨⟨⟨htemporary, hdefined⟩, htwice⟩, -⟩, -⟩ := hcandidate
  exact ⟨htemporary, hdefined, htwice⟩

/-- What one tree has more than the other: for each of the variables, the assignment
that is its definition and the read of the assigned value. -/
structure Accounts (tree : MethodTree) (ids : List VariableId) (result : MethodTree) : Prop where
  /-- Only the body is another one. -/
  body_only : result = { tree with body := result.body }
  /-- One removal after the other leads from body to body. -/
  removals : Steps Removes ids tree.body result.body
  nodup : ids.Nodup
  temporary : ∀ id ∈ ids, isTemporary tree.table id = true
  /-- The variables are those that are there before and not afterwards. -/
  mem_iff : ∀ id, id ∈ ids ↔ occurrences id (Block.nodes tree.body) ≠ 0 ∧
    occurrences id (Block.nodes result.body) = 0
  /-- Of the two occurrences one is the target of the only definition. -/
  twice : ∀ id ∈ ids, (Block.nodes tree.body).countP (isDefinition id) = 1 ∧
    occurrences id (Block.nodes tree.body) = 2
  kept : ∀ id ∉ ids,
    occurrences id (Block.nodes result.body) = occurrences id (Block.nodes tree.body)
  length_statements : (Block.statements tree.body).length =
    ids.length + (Block.statements result.body).length
  statements : shells tree.body =
    Multiset.replicate ids.length (.expr .self) + shells result.body
  nodes : ∃ gone : Multiset Expr, (∀ node ∈ gone, ∃ id ∈ ids, node.isVariable id = true) ∧
    (∀ id ∈ ids, gone.countP (·.isVariable id = true) = 2) ∧
    heads tree.body = Multiset.replicate ids.length bareAssignment + gone + heads result.body

/-- What a run counts is the number of variables it removes. -/
theorem exists_accounts (tree : MethodTree) :
    ∃ ids, ids.length = (run tree).2 ∧ Accounts tree ids (run tree).1 := by
  have htwice : ∀ id ∈ candidates tree, occurrences id (Block.nodes tree.body) ≤ 2 := fun id hid =>
    Nat.le_of_eq (isTemporary_of_mem_candidates hid).2.2
  obtain ⟨ids, hids, hlength, hsteps⟩ :=
    exists_removals (stepsTo_eliminateLevels (Stmt.depthOfBlock tree.body + 1) htwice)
  have hcount : ∀ id, occurrences id (Block.nodes tree.body) =
      2 * ids.count id + occurrences id (Block.nodes (run tree).1.body) :=
    occurrences_of_removals hsteps
  have hnodup : ids.Nodup := by
    refine List.nodup_iff_count_le_one.2 fun id => ?_
    by_cases hid : id ∈ ids
    · have honce := htwice id (hids hid)
      rw [hcount] at honce
      omega
    · rw [List.count_eq_zero_of_not_mem hid]
      exact Nat.zero_le 1
  obtain ⟨gone, hgone, hgoneCount, hheads⟩ := heads_of_removals hsteps
  have hshells := shells_of_removals hsteps
  refine ⟨ids, hlength, rfl, hsteps, hnodup, fun id hid => ?_, fun id => ⟨fun hid => ?_, ?_⟩,
    fun id hid => ?_, fun id hid => ?_, ?_, hshells, gone, hgone, fun id hid => ?_, hheads⟩
  · exact (isTemporary_of_mem_candidates (hids hid)).1
  · have hbefore := (isTemporary_of_mem_candidates (hids hid)).2.2
    have hafter := hcount id
    rw [hbefore, List.count_eq_one_of_mem hnodup hid] at hafter
    exact ⟨by omega, by omega⟩
  · rintro ⟨hbefore, hafter⟩
    by_contra hid
    rw [hcount, List.count_eq_zero_of_not_mem hid, hafter] at hbefore
    exact hbefore rfl
  · exact (isTemporary_of_mem_candidates (hids hid)).2
  · have hkept := hcount id
    rw [List.count_eq_zero_of_not_mem hid] at hkept
    omega
  · have hcard := congrArg Multiset.card hshells
    rw [Multiset.card_add, Multiset.card_replicate, Block.card_shells, Block.card_shells] at hcard
    exact hcard
  · rw [hgoneCount, List.count_eq_one_of_mem hnodup hid]

/-- A run that counts nothing changes nothing. -/
theorem eq_of_run_eq_zero {tree : MethodTree} (h : (run tree).2 = 0) : (run tree).1 = tree := by
  obtain ⟨ids, hlength, haccounts⟩ := exists_accounts tree
  have hnone : ids = [] := List.length_eq_zero_iff.1 (hlength.trans h)
  have hbody : (run tree).1.body = tree.body := by
    have hsteps := haccounts.removals
    rw [hnone] at hsteps
    exact hsteps.eq_of_nil
  rw [haccounts.body_only, hbody]

/-- The temporaries of a variable table. -/
def temporaries (table : VariableTable) : List Variable :=
  table.all.filter fun entry => entry.isGenerated && !entry.isParameter

/-- The temporaries that still stand in the body. -/
def live (tree : MethodTree) : Finset VariableId :=
  ((tree.table.entries.filter fun entry => entry.2.isGenerated && !entry.2.isParameter).map
    (·.1)).toFinset.filter fun id => occurrences id (Block.nodes tree.body) ≠ 0

theorem mem_live_iff {tree : MethodTree} :
    id ∈ live tree ↔
      isTemporary tree.table id = true ∧ occurrences id (Block.nodes tree.body) ≠ 0 := by
  obtain ⟨index⟩ := id
  rw [live, Finset.mem_filter, List.mem_toFinset]
  simp only [VariableTable.entries, isTemporary, VariableTable.get?, List.mem_map, List.mem_filter,
    Prod.exists, List.mem_zipIdx_iff_getElem?, Option.any_eq_true]
  refine and_congr_left fun _ => ⟨?_, ?_⟩
  · rintro ⟨id, entry, ⟨⟨found, position, hfound, hpair⟩, htemporary⟩, hid⟩
    cases hpair
    cases hid
    exact ⟨entry, hfound, htemporary⟩
  · rintro ⟨entry, hfound, htemporary⟩
    exact ⟨⟨index⟩, entry, ⟨⟨entry, index, hfound, rfl⟩, htemporary⟩, rfl⟩

theorem card_live_le (tree : MethodTree) : (live tree).card ≤ (temporaries tree.table).length := by
  have hlength : (tree.table.entries.filter fun entry =>
      entry.2.isGenerated && !entry.2.isParameter).length = (temporaries tree.table).length := by
    have hentries : tree.table.entries.map (·.2) = tree.table.all := by
      rw [VariableTable.entries, List.map_map]
      exact List.zipIdx_map_fst 0 _
    rw [temporaries, ← hentries, List.filter_map, List.length_map]
    rfl
  calc (live tree).card
      ≤ _ := Finset.card_filter_le _ _
    _ ≤ _ := List.toFinset_card_le _
    _ = (temporaries tree.table).length := by rw [List.length_map, hlength]

/-- A run that changes something leaves fewer temporaries. -/
theorem card_live_run_lt {tree : MethodTree} (h : (run tree).2 ≠ 0) :
    (live (run tree).1).card < (live tree).card := by
  obtain ⟨ids, hlength, haccounts⟩ := exists_accounts tree
  obtain ⟨id, hid⟩ := List.exists_mem_of_ne_nil ids fun hnil => h (by rw [← hlength, hnil]; rfl)
  have hgone := (haccounts.mem_iff id).1 hid
  refine Finset.card_lt_card ((Finset.ssubset_iff_of_subset fun other hother => ?_).2
    ⟨id, mem_live_iff.2 ⟨haccounts.temporary id hid, hgone.1⟩, fun hlive => ?_⟩)
  · rw [mem_live_iff, table_run] at hother
    refine mem_live_iff.2 ⟨hother.1, ?_⟩
    have hkept := haccounts.kept other fun hmem =>
      hother.2 ((haccounts.mem_iff other).1 hmem).2
    rw [← hkept]
    exact hother.2
  · exact (mem_live_iff.1 hlive).2 hgone.2

/-- With more turns than live temporaries the end is reached. -/
theorem run_runRepeatedly_of_lt {bound : Nat} {tree : MethodTree}
    (h : (live tree).card < bound) :
    run (runRepeatedly bound tree) = (runRepeatedly bound tree, 0) := by
  induction bound generalizing tree with
  | zero => exact absurd h (Nat.not_lt_zero _)
  | succ bound ih =>
    rw [runRepeatedly_succ]
    by_cases hnone : (run tree).2 = 0
    · rw [if_pos hnone, eq_of_run_eq_zero hnone]
      exact Prod.ext (eq_of_run_eq_zero hnone) hnone
    · rw [if_neg hnone]
      have hfewer := card_live_run_lt hnone
      exact ih (by omega)

/-- A run that reports `n` takes away `n` assignments with the `n` temporaries they
define; a run that reports none changes nothing, which is so for every run after
the elimination of a pipeline that allows more runs than there are temporaries. -/
theorem run_accounts (tree : MethodTree) :
    (∃ ids, ids.length = (run tree).2 ∧ Accounts tree ids (run tree).1) ∧
      ((run tree).2 = 0 → (run tree).1 = tree) ∧
      ∀ pipeline : Pipeline, pipeline.eliminatesTemporaries = true →
        (temporaries tree.table).length < max pipeline.maxEliminations 1 →
          run (pipeline.eliminate tree) = (pipeline.eliminate tree, 0) := by
  refine ⟨exists_accounts tree, eq_of_run_eq_zero, fun pipeline heliminates hbound => ?_⟩
  have hlive := card_live_le tree
  rw [Pipeline.eliminate, if_pos heliminates]
  exact run_runRepeatedly_of_lt (by omega)

/-- `t = x; u = t; return u;` -/
def chainTree : MethodTree where
  table := ⟨[{ name := "x", type := .primitive .int32, isParameter := true },
    { name := "", type := .primitive .int32, isGenerated := true },
    { name := "", type := .primitive .int32, isGenerated := true }]⟩
  parameters := [⟨0⟩]
  body := [.expr (.assign none (.raw ⟨1⟩) (.raw ⟨0⟩)), .expr (.assign none (.raw ⟨2⟩) (.raw ⟨1⟩)),
    .ret (some (.raw ⟨2⟩))]

/-- Two temporaries in a chain are both removed, after which there is nothing to do. -/
theorem run_accounts_chainTree :
    (run chainTree).2 = 2 ∧
      ({} : Pipeline).eliminatesTemporaries = true ∧
      (temporaries chainTree.table).length < max ({} : Pipeline).maxEliminations 1 ∧
      run (({} : Pipeline).eliminate chainTree) = (({} : Pipeline).eliminate chainTree, 0) := by
  have hbound : (temporaries chainTree.table).length < max ({} : Pipeline).maxEliminations 1 := by
    decide
  exact ⟨by decide +kernel, rfl, hbound, (run_accounts chainTree).2.2 {} rfl hbound⟩

end Assemblage.Lowering.Temporaries
