import Assemblage.Proofs.Lowering.Context
import Assemblage.Proofs.Lowering.Elimination

/-!
# Elimination of temporaries keeps what a tree does

The moves in the blocks of a tree, put together.  A block changes inside a context
that does not mention what is eliminated in the block, since both occurrences of
the variable lie in there.
-/

namespace Assemblage.Lowering.Temporaries

open Evaluation Similarity

/-- The candidate had both its occurrences in the block, and none is left. -/
structure Vanishes (candidates : List VariableId) (block result : Block) (id : VariableId) :
    Prop where
  candidate : id ∈ candidates
  twice : 2 ≤ occurrences id (Block.nodes block)
  gone : occurrences id (Block.nodes result) = 0

/-- Some of the candidates may be gone; all else is as before. -/
structure Eliminates (I : Interpretation) (candidates : List VariableId) (block result : Block) :
    Prop where
  occurrences_le : ∀ id, occurrences id (Block.nodes result) ≤ occurrences id (Block.nodes block)
  assignments_le : ∀ id, assignments id (Block.nodes result) ≤ assignments id (Block.nodes block)
  declared_iff : ∀ id, id ∈ Block.declared result ↔ id ∈ Block.declared block
  exists_matches : ∃ ids : List VariableId, (∀ id ∈ ids, Vanishes candidates block result id) ∧
    ∀ turns : Nat, (agreeing I ids).Matches (executeAll I turns block) (executeAll I turns result)

namespace Eliminates

variable {I : Interpretation} {candidates : List VariableId} {block middle result : Block}

theorem refl (I : Interpretation) (candidates : List VariableId) (block : Block) :
    Eliminates I candidates block block where
  occurrences_le _ := Nat.le_refl _
  assignments_le _ := Nat.le_refl _
  declared_iff _ := Iff.rfl
  exists_matches := by
    have hnone : ∀ {P : VariableId → Prop}, ∀ id ∈ ([] : List VariableId), P id :=
      fun _ hid => absurd hid List.not_mem_nil
    exact ⟨[], hnone, fun turns => matches_of_absent hnone hnone⟩

theorem trans (h : Eliminates I candidates block middle)
    (hnext : Eliminates I candidates middle result) : Eliminates I candidates block result where
  occurrences_le id := Nat.le_trans (hnext.occurrences_le id) (h.occurrences_le id)
  assignments_le id := Nat.le_trans (hnext.assignments_le id) (h.assignments_le id)
  declared_iff id := (hnext.declared_iff id).trans (h.declared_iff id)
  exists_matches := by
    obtain ⟨ids, hids, hmatches⟩ := h.exists_matches
    obtain ⟨others, hothers, hnextMatches⟩ := hnext.exists_matches
    have hboth : ∀ id ∈ ids ++ others, Vanishes candidates block result id := by
      intro id hid
      cases List.mem_append.1 hid with
      | inl hid =>
        have hgone := hnext.occurrences_le id
        rw [(hids id hid).gone] at hgone
        exact ⟨(hids id hid).candidate, (hids id hid).twice, Nat.le_zero.1 hgone⟩
      | inr hid =>
        have htwice := Nat.le_trans (hothers id hid).twice (h.occurrences_le id)
        exact ⟨(hothers id hid).candidate, htwice, (hothers id hid).gone⟩
    exact ⟨ids ++ others, hboth, fun turns =>
      matches_trans (hmatches turns) (hnextMatches turns)⟩

/-- A candidate that fits still fits after an elimination. -/
theorem fits (h : Eliminates I candidates block result) {id : VariableId} (hfits : Fits id block) :
    Fits id result where
  twice := Nat.le_trans (h.occurrences_le id) hfits.twice
  once := Nat.le_trans (h.assignments_le id) hfits.once
  undeclared hmem := hfits.undeclared ((h.declared_iff id).1 hmem)

/-- All that is eliminated in a block is absent around it. -/
theorem fill (h : Eliminates I candidates block result) (context : Context)
    (hfits : ∀ id ∈ candidates, Fits id (context.fill block)) :
    Eliminates I candidates (context.fill block) (context.fill result) where
  occurrences_le id := by
    rw [context.occurrences_fill, context.occurrences_fill id block]
    exact Nat.add_le_add_right (h.occurrences_le id) _
  assignments_le id := by
    rw [context.assignments_fill, context.assignments_fill id block]
    exact Nat.add_le_add_right (h.assignments_le id) _
  declared_iff id := by
    rw [context.declared_fill, context.declared_fill id block, h.declared_iff]
  exists_matches := by
    obtain ⟨ids, hids, hmatches⟩ := h.exists_matches
    have habsent : ∀ id ∈ ids, occurrences id (Block.nodes (context.fill [])) = 0 := by
      intro id hid
      have htwice := (hids id hid).twice
      have hle := (hfits id (hids id hid).candidate).twice
      rw [context.occurrences_fill] at hle
      omega
    have hundeclared : ∀ id ∈ ids, id ∉ Block.declared (context.fill []) := by
      intro id hid hmem
      apply (hfits id (hids id hid).candidate).undeclared
      exact (context.declared_fill id block).2 (.inr hmem)
    have hvanishes : ∀ id ∈ ids,
        Vanishes candidates (context.fill block) (context.fill result) id := by
      intro id hid
      have htwice := (hids id hid).twice
      have hgone := (hids id hid).gone
      refine ⟨(hids id hid).candidate, ?_, ?_⟩
      · rw [context.occurrences_fill]
        exact Nat.le_add_right_of_le htwice
      · rw [context.occurrences_fill, hgone, habsent id hid]
    exact ⟨ids, hvanishes, fun turns => context.matches_fill (fun _ => permits_of_absent habsent)
      (fun _ => allows_of_undeclared hundeclared) (hmatches turns)⟩

end Eliminates

section Blocks

variable {I : Interpretation} {candidates : List VariableId} {block : Block}

/-- A harmless move eliminates. -/
theorem Move.Made.eliminates {id : VariableId} {target value : Expr} {rest moved : List Stmt}
    (h : Move.Made id target value rest moved) (hid : id ∈ candidates)
    (hharmless : ∀ move ∈ moveInto? (.expr (.assign none target value)) rest,
      move.IsHarmless I) :
    Eliminates I candidates (.expr (.assign none target value) :: rest) moved where
  occurrences_le := h.occurrences_le
  assignments_le := h.assignments_le
  declared_iff other := by rw [h.declared_eq]
  exists_matches := by
    have hvanishes : ∀ other ∈ [id],
        Vanishes candidates (.expr (.assign none target value) :: rest) moved other := by
      intro other hother
      rw [List.mem_singleton.1 hother]
      exact ⟨hid, h.twice, h.occurrences_eq_zero⟩
    exact ⟨[id], hvanishes, h.matches_moved hharmless⟩

theorem eliminates_eliminateFlat (hfits : ∀ id ∈ candidates, Fits id block)
    (hharmless : ∀ move ∈ movesFlat candidates block, move.IsHarmless I) :
    Eliminates I candidates block (eliminateFlat candidates block).1 := by
  fun_induction eliminateFlat candidates block with
  | case1 => exact .refl I candidates []
  | case2 stmt rest moved hmove stmts n heq ih =>
    obtain ⟨id, hid, target, value, rfl, hmade⟩ := exists_made_of_move? hmove hfits
    rw [movesFlat_of_some hmove] at hharmless
    rw [heq] at ih
    have hmoved := hmade.eliminates hid fun move hmem =>
      hharmless move (List.mem_append_left _ (Option.mem_toList.2 hmem))
    have hrest := ih (fun id hid => hmoved.fits (hfits id hid)) fun move hmem =>
      hharmless move (List.mem_append_right _ hmem)
    exact hmoved.trans hrest
  | case3 stmt rest hmove stmts n heq ih =>
    rw [movesFlat_of_none hmove] at hharmless
    rw [heq] at ih
    have hrest := ih (fun id hid => (Context.after stmt).fits_of_fits_fill (hfits id hid)) hharmless
    exact hrest.fill (.after stmt) hfits

theorem eliminates_inside {result : Block} (wrapper : Wrapper) {rest : List Stmt}
    (h : (∀ id ∈ candidates, Fits id block) → Eliminates I candidates block result)
    (hfits : ∀ id ∈ candidates, Fits id (wrapper.wrap block :: rest)) :
    Eliminates I candidates (wrapper.wrap block :: rest) (wrapper.wrap result :: rest) := by
  have hblock := h fun id hid => (Context.inside wrapper rest).fits_of_fits_fill (hfits id hid)
  exact hblock.fill (.inside wrapper rest) hfits

theorem eliminates_mapBlocks {f : Block → Block × Nat} {stmt : Stmt} {rest : List Stmt}
    (h : ∀ inner ∈ stmt.blocks, (∀ id ∈ candidates, Fits id inner) →
      Eliminates I candidates inner (f inner).1)
    (hfits : ∀ id ∈ candidates, Fits id (stmt :: rest)) :
    Eliminates I candidates (stmt :: rest) ((mapBlocks f stmt).1 :: rest) := by
  rw [mapBlocks_fst]
  cases stmt with
  | block body => exact eliminates_inside .block (h body List.mem_cons_self) hfits
  | ifThen condition body =>
    exact eliminates_inside (.ifThen condition) (h body List.mem_cons_self) hfits
  | loop condition body =>
    exact eliminates_inside (.loop condition) (h body List.mem_cons_self) hfits
  | ifElse condition body otherwise =>
    have hmem : otherwise ∈ (Stmt.ifElse condition body otherwise).blocks :=
      List.mem_cons_of_mem _ List.mem_cons_self
    have hbody := eliminates_inside (.whenTrue condition otherwise)
      (h body List.mem_cons_self) hfits
    have hotherwise := eliminates_inside (.whenFalse condition (f body).1) (h otherwise hmem)
      fun id hid => hbody.fits (hfits id hid)
    exact hbody.trans hotherwise
  | declare id value | ret value =>
    rw [Stmt.mapParts, Option.map_id]
    exact .refl I _ _
  | _ => exact .refl I _ _

theorem eliminates_mapBlocksOfAll {f : Block → Block × Nat}
    (h : ∀ stmt ∈ block, ∀ inner ∈ stmt.blocks, (∀ id ∈ candidates, Fits id inner) →
      Eliminates I candidates inner (f inner).1)
    (hfits : ∀ id ∈ candidates, Fits id block) :
    Eliminates I candidates block (mapBlocksOfAll f block).1 := by
  rw [mapBlocksOfAll_fst]
  induction block with
  | nil => exact .refl I candidates []
  | cons stmt rest ih =>
    have hstmt := eliminates_mapBlocks (h stmt List.mem_cons_self) hfits
    have hnext : ∀ id ∈ candidates, Fits id ((mapBlocks f stmt).1 :: rest) :=
      fun id hid => hstmt.fits (hfits id hid)
    have hrest := ih (fun other hother => h other (List.mem_cons_of_mem _ hother))
      fun id hid => (Context.after _).fits_of_fits_fill (hnext id hid)
    exact hstmt.trans (hrest.fill (.after (mapBlocks f stmt).1) hnext)

/-- The moves of all levels eliminate, if all of them are harmless. -/
theorem eliminates_eliminateLevels {levels : Nat} (hfits : ∀ id ∈ candidates, Fits id block)
    (hharmless : ∀ move ∈ movesLevels candidates levels block, move.IsHarmless I) :
    Eliminates I candidates block (eliminateLevels candidates levels block).1 := by
  induction levels generalizing block with
  | zero => exact .refl I candidates block
  | succ levels ih =>
    rw [movesLevels] at hharmless
    have hflat := eliminates_eliminateFlat hfits fun move hmem =>
      hharmless move (List.mem_append_left _ hmem)
    have hflatFits : ∀ id ∈ candidates, Fits id (eliminateFlat candidates block).1 :=
      fun id hid => hflat.fits (hfits id hid)
    have hinner : ∀ stmt ∈ (eliminateFlat candidates block).1, ∀ inner ∈ stmt.blocks,
        (∀ id ∈ candidates, Fits id inner) →
          Eliminates I candidates inner (eliminateLevels candidates levels inner).1 := by
      intro stmt hstmt inner hinner hinnerFits
      refine ih hinnerFits fun move hmem => hharmless move (List.mem_append_right _ ?_)
      exact List.mem_flatMap.2 ⟨stmt, hstmt, List.mem_flatMap.2 ⟨inner, hinner, hmem⟩⟩
    rw [eliminateLevels]
    exact hflat.trans (eliminates_mapBlocksOfAll hinner hflatFits)

end Blocks

/-! ## Trees -/

theorem isDefinition_or_isUpdate_of_written? {id : VariableId} {node : Expr}
    (h : node.written? = some (.slot id)) :
    isDefinition id node = true ∨ isUpdate id node = true := by
  cases node with
  | assign op target value =>
    have hvariable : target.isVariable id = true := Expr.isVariable_iff_access?.2 h
    cases op with
    | none => exact .inl hvariable
    | some op => exact .inr hvariable
  | unary op operand =>
    rw [Expr.written?] at h
    by_cases hop : op.isMutating = true
    · rw [if_pos hop] at h
      have hvariable : operand.isVariable id = true := Expr.isVariable_iff_access?.2 h
      exact .inr (Bool.and_eq_true_iff.2 ⟨hop, hvariable⟩)
    · rw [if_neg hop] at h
      cases h
  | _ => cases h

/-- Every candidate fits. -/
theorem fits_of_mem_candidates {tree : MethodTree} {id : VariableId} (h : id ∈ candidates tree) :
    Fits id tree.body := by
  have hcandidate := List.of_mem_filter h
  simp only [isCandidate, Bool.and_eq_true, beq_iff_eq, Bool.not_eq_true', List.any_eq_false,
    List.contains_eq_mem, decide_eq_false_iff_not] at hcandidate
  obtain ⟨⟨⟨⟨-, hdefined⟩, htwice⟩, hupdate⟩, hundeclared⟩ := hcandidate
  refine ⟨Nat.le_of_eq htwice, ?_, hundeclared⟩
  calc assignments id (Block.nodes tree.body)
      ≤ (Block.nodes tree.body).countP (isDefinition id) := by
        apply List.countP_mono_left
        intro node hnode hwritten
        cases isDefinition_or_isUpdate_of_written? (eq_of_beq hwritten) with
        | inl h => exact h
        | inr h => exact absurd h (hupdate node hnode)
    _ = 1 := hdefined
    _ ≤ 1 := Nat.le_refl 1

/-- The variable was in the tree, and a run took it out. -/
def Eliminated (tree : MethodTree) (id : VariableId) : Prop :=
  occurrences id (Block.nodes tree.body) ≠ 0 ∧
    occurrences id (Block.nodes (run tree).1.body) = 0

/-- The states agree in the heap and in all variables that are still there. -/
def SameButEliminated {I : Interpretation} (tree : MethodTree) (left right : State I) : Prop :=
  left.heap = right.heap ∧
    ∀ id, ¬ Eliminated tree id → left.slots id = right.slots id

/-- A tree ends in the same way after a run as before, unless what is evaluated before
the new place of a moved value comes to something else after the value.  There is one move
for each change that the run reports (`length_moves`). -/
theorem sameOutcome_run (I : Interpretation) (tree : MethodTree) (turns : Nat) (state : State I)
    (hharmless : ∀ move ∈ moves tree, move.IsHarmless I) :
    SameOutcome (SameButEliminated tree) (executeAll I turns tree.body state)
      (executeAll I turns (run tree).1.body state) := by
  have hfits : ∀ id ∈ candidates tree, Fits id tree.body := fun _ => fits_of_mem_candidates
  obtain ⟨ids, hids, hmatches⟩ := (eliminates_eliminateLevels hfits hharmless).exists_matches
  have hkept : ∀ id, ¬Eliminated tree id → id ∉ ids := by
    intro id hnot hid
    have htwice := (hids id hid).twice
    exact hnot ⟨by omega, (hids id hid).gone⟩
  have hsame := hmatches turns state state (agreeing_refl ids state)
  apply hsame.mono
  intro left right hrel
  exact ⟨hrel.1, fun id hnot => hrel.2 id (hkept id hnot)⟩

/-- Values are natural numbers.  Operators on two of them add, the others and calls
count, calls in the heap. -/
def counting : Interpretation where
  Value := Nat
  Heap := Nat
  literal _ := 0
  self := 0
  defaultValue _ := 0
  isTrue value := value != 0
  binary _ left right := left + right
  unary _ value := value + 1
  copy value := value
  cast _ value := value
  read _ heap := heap
  write _ value _ := value
  call _ _ _ heap := (.ok heap, heap + 1)
  create _ _ heap := (.ok 0, heap)
  declared value := value

def countingStart : State counting where
  heap := (0 : Nat)
  slots _ := (3 : Nat)

/-- `t = value; return x + t;` -/
def addingTree (value : Expr) : MethodTree where
  table := ⟨[{ name := "x", type := .primitive .int32 },
    { name := "", type := .primitive .int32, isGenerated := true }]⟩
  body := [.expr (.assign none (.raw ⟨1⟩) value), .ret (some (.binary .add (.raw ⟨0⟩) (.raw ⟨1⟩)))]

def callingTree : MethodTree :=
  addingTree (.staticCall default [])

def incrementingTree : MethodTree :=
  addingTree (.unary .postIncrement (.raw ⟨0⟩))

/-- A call moves past the read of a variable. -/
theorem sameOutcome_run_callingTree :
    (run callingTree).2 = 1 ∧ SameOutcome (SameButEliminated callingTree)
      (executeAll counting 0 callingTree.body countingStart)
      (executeAll counting 0 (run callingTree).1.body countingStart) := by
  have hmoved : (run callingTree).2 = 1 := by
    rw [← length_moves]
    decide +kernel
  have hapart : ∀ move ∈ moves callingTree, move.isApart = true := by decide +kernel
  have hharmless : ∀ move ∈ moves callingTree, move.IsHarmless counting :=
    fun move hmove => Move.isHarmless_of_isApart counting (hapart move hmove)
  exact ⟨hmoved, sameOutcome_run counting callingTree 0 countingStart hharmless⟩

theorem body_run_incrementingTree : (run incrementingTree).1.body =
    [.ret (some (.binary .add (.raw ⟨0⟩) (.unary .postIncrement (.raw ⟨0⟩))))] := by
  cbv

/-- A moved value may write what has been read before its new place: `x + x++` is not
`t = x++; x + t`. -/
theorem not_sameOutcome_run :
    ¬∀ (I : Interpretation) (tree : MethodTree) (turns : Nat) (state : State I),
      SameOutcome (SameButEliminated tree) (executeAll I turns tree.body state)
        (executeAll I turns (run tree).1.body state) := by
  intro h
  have hsame := (h counting incrementingTree 0 countingStart).map_fst
  have hbefore : (executeAll counting 0 incrementingTree.body countingStart).map Prod.fst =
      some (.returned (some (7 : Nat))) := rfl
  have hafter : (executeAll counting 0 (run incrementingTree).1.body countingStart).map Prod.fst =
      some (.returned (some (6 : Nat))) := by
    rw [body_run_incrementingTree]
    rfl
  rw [hbefore, hafter] at hsame
  have hvalues : (7 : Nat) = 6 := Option.some.inj (Completion.returned.inj (Option.some.inj hsame))
  exact absurd hvalues (by decide)

end Assemblage.Lowering.Temporaries
