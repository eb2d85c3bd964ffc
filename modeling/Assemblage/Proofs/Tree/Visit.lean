import Assemblage.Proofs.Tree.Rewriting
import Mathlib.Data.List.Basic

/-!
# Visits follow the structure

A walk with a stack goes where the recursion over statements and blocks goes, in the
same order, and to every place once.  Where blocks are rewritten on the way, the
recursion goes into what has been written; the walk ends just if the recursion does.
-/

namespace Assemblage

variable {σ : Type}

namespace Expr

/-- A visit of an expression goes over the list of its nodes. -/
theorem visit_eq (f : σ → Expr → σ) (expr : Expr) (state : σ) :
    expr.visit f state = expr.nodes.foldl f state := by
  induction expr using induction_children generalizing state with
  | step expr ih =>
    rw [visit, nodes_eq_cons, List.foldl_cons, List.foldl_flatMap,
      List.foldl_attach (f := fun state child => visit f child state)]
    exact List.foldl_ext _ _ _ fun state child hchild => ih child hchild state

/-- A function that takes no account of the state is mapped over the expression. -/
theorem rewrite_pure (h : Expr → Expr) (expr : Expr) :
    expr.rewrite (fun e => pure (h e)) = (pure (expr.map h) : StateM σ Expr) := by
  induction expr using induction_children with
  | step expr ih =>
    have hoperands : (fun child : { child // child ∈ expr.children } =>
        (child.1.rewrite fun e => pure (h e) : StateM σ Expr)) =
        fun child => pure (child.1.map h) :=
      funext fun child => ih child.1 child.2
    rw [rewrite, hoperands, List.mapM_pure, pure_bind, List.attach_map_val, map_eq,
      ← withChildren_map]

end Expr

namespace Block

/-- The walk goes over the statements of all blocks on the stack, whatever their order on it was
before. -/
theorem visitStack_eq (f : σ → Stmt → σ) (stack : List Block) (state : σ) :
    visitStack f stack state = (stack.flatMap statements).foldl f state := by
  fun_induction visitStack f stack state with
  | case1 state => rfl
  | case2 stack state ih => exact ih
  | case3 state stmt rest stack ih =>
    rw [ih, List.foldr_cons_eq_append', List.flatMap_append, List.flatMap_cons, List.flatMap_cons,
      statements_cons]
    simp only [List.cons_append, List.append_assoc, List.foldl_cons]

/-- The walk goes over the list of statements. -/
theorem visitStatements_eq (f : σ → Stmt → σ) (block : Block) (state : σ) :
    visitStatements f block state = (statements block).foldl f state := by
  rw [visitStatements, visitStack_eq, List.flatMap_singleton]

/-- The walk goes over the list of nodes. -/
theorem visitExprs_eq (f : σ → Expr → σ) (block : Block) (state : σ) :
    visitExprs f block state = (nodes block).foldl f state := by
  rw [visitExprs, visitStatements_eq, nodes, List.foldl_flatMap]
  refine List.foldl_ext _ _ _ fun state stmt _ => ?_
  rw [Stmt.nodes, List.foldl_flatMap]
  exact List.foldl_ext _ _ _ fun state expr _ => expr.visit_eq f state

end Block

theorem Expr.count_eq (exprs : List Expr) (count : Nat) :
    exprs.foldl (fun count expr => expr.visit (fun count _ => count + 1) count) count =
      count + (exprs.flatMap nodes).length := by
  have hnodes : ∀ (nodes : List Expr) (count : Nat),
      nodes.foldl (fun count _ => count + 1) count = count + nodes.length := by
    intro nodes
    induction nodes with
    | nil => exact fun count => rfl
    | cons node rest ih =>
      intro count
      rw [List.foldl_cons, ih, List.length_cons, Nat.add_assoc, Nat.add_comm 1]
  induction exprs generalizing count with
  | nil => rfl
  | cons expr rest ih =>
    rw [List.foldl_cons, ih, visit_eq, hnodes, List.flatMap_cons, List.length_append, Nat.add_assoc]

/-- Counting on the way comes to the sum over all statements. -/
theorem MethodTree.instructionCount_eq (tree : MethodTree) :
    tree.instructionCount =
      ((Block.statements tree.body).map fun stmt => stmt.nodes.length + 1).sum := by
  rw [instructionCount, Block.visitStatements_eq, List.sum_eq_foldl, List.foldl_map]
  refine List.foldl_ext _ _ _ fun count stmt _ => ?_
  rw [Expr.count_eq, Stmt.nodes]
  omega

namespace Stmt

variable {stmt : Stmt} {blocks : List Block}

theorem withBlocks_blocks (stmt : Stmt) : stmt.withBlocks stmt.blocks = stmt := by
  cases stmt <;> rfl

theorem blocks_withBlocks (h : blocks.length = stmt.blocks.length) :
    (stmt.withBlocks blocks).blocks = blocks := by
  rcases blocks with _ | ⟨_, _ | ⟨_, _ | _⟩⟩ <;> cases stmt <;>
    first | rfl | simp [Stmt.blocks] at h

theorem length_blocks_withBlocks (stmt : Stmt) (blocks : List Block) :
    (stmt.withBlocks blocks).blocks.length = stmt.blocks.length := by
  rcases blocks with _ | ⟨_, _ | ⟨_, _ | _⟩⟩ <;> cases stmt <;> rfl

theorem withBlocks_withBlocks (h : blocks.length = stmt.blocks.length) (others : List Block) :
    (stmt.withBlocks others).withBlocks blocks = stmt.withBlocks blocks := by
  rcases others with _ | ⟨_, _ | ⟨_, _ | _⟩⟩ <;> cases stmt <;>
    rcases blocks with _ | ⟨_, _ | ⟨_, _ | _⟩⟩ <;> first | rfl | simp [Stmt.blocks] at h

end Stmt

namespace Block

variable {root block new : Block} {place : Place} {blocks : List Block}

theorem nested_cons (stmt : Stmt) (rest : Block) :
    nested (stmt :: rest) = stmt.blocks ++ nested rest :=
  List.flatMap_cons

theorem withNested_nested (block : Block) : withNested block (nested block) = block := by
  induction block with
  | nil => rfl
  | cons stmt rest ih =>
    rw [withNested, nested_cons, List.take_left, List.drop_left, ih, Stmt.withBlocks_blocks]

theorem nested_withNested (h : blocks.length = (nested block).length) :
    nested (withNested block blocks) = blocks := by
  induction block generalizing blocks with
  | nil => exact (List.length_eq_zero_iff.1 h).symm
  | cons stmt rest ih =>
    rw [nested_cons, List.length_append] at h
    rw [withNested, nested_cons, Stmt.blocks_withBlocks, ih, List.take_append_drop]
    · rw [List.length_drop]
      omega
    · rw [List.length_take]
      omega

theorem withNested_withNested (h : blocks.length = (nested block).length) (others : List Block) :
    withNested (withNested block others) blocks = withNested block blocks := by
  induction block generalizing blocks others with
  | nil => rfl
  | cons stmt rest ih =>
    rw [nested_cons, List.length_append] at h
    rw [withNested, withNested, withNested, Stmt.length_blocks_withBlocks,
      Stmt.withBlocks_withBlocks, ih]
    · rw [List.length_drop]
      omega
    · rw [List.length_take]
      omega

theorem inside?_append (root : Block) (place further : Place) :
    inside? root (place ++ further) = (inside? root place).bind (inside? · further) := by
  induction place generalizing root with
  | nil => rfl
  | cons index place ih =>
    rw [List.cons_append, inside?, inside?, Option.bind_assoc]
    exact congrArg _ (funext ih)

/-- A later block takes the place of an earlier one, or one inside it. -/
theorem put_put (root block new : Block) (place further : Place) :
    put new (place ++ further) (put block place root) =
      put (put new further block) place root := by
  induction place generalizing root with
  | nil => rfl
  | cons index place ih =>
    rw [List.cons_append, put, put, put, nested_withNested (List.length_modify _ _ _),
      List.modify_modify_eq, withNested_withNested (List.length_modify _ _ _)]
    exact congrArg (fun f => withNested root ((nested root).modify index f)) (funext ih)

theorem put_again (root block new : Block) (place : Place) :
    put new place (put block place root) = put new place root := by
  have h := put_put root block new place []
  rwa [List.append_nil] at h

theorem inside?_put (h : inside? root place = some block) (new : Block) :
    inside? (put new place root) place = some new := by
  induction place generalizing root with
  | nil => rfl
  | cons index place ih =>
    obtain ⟨inner, hinner, hblock⟩ := Option.bind_eq_some_iff.1 h
    rw [put, inside?, nested_withNested (List.length_modify _ _ _), List.getElem?_modify, hinner]
    simpa using ih hblock

theorem put_inside? (h : inside? root place = some block) : put block place root = root := by
  induction place generalizing root with
  | nil => exact (Option.some.inj h).symm
  | cons index place ih =>
    obtain ⟨inner, hinner, hblock⟩ := Option.bind_eq_some_iff.1 h
    have hsame : (nested root).modify index (put block place) = nested root := by
      refine List.ext_getElem? fun position => ?_
      rw [List.getElem?_modify]
      rcases eq_or_ne index position with rfl | hne
      · simp [hinner, ih hblock]
      · simp [hne]
    rw [put, hsame, withNested_nested]

theorem put_append (h : inside? root place = some block) (new : Block) (further : Place) :
    put new (place ++ further) root = put (put new further block) place root := by
  rw [← put_put root block, put_inside? h]

/-- What becomes of a block when one of those inside it is replaced. -/
theorem put_concat {before after : List Block} {old : Block}
    (h : inside? root place = some block) (hnested : nested block = before ++ old :: after)
    (new : Block) :
    put new (place ++ [before.length]) root =
      put (withNested block (before ++ new :: after)) place root := by
  have hmodify : (before ++ old :: after).modify before.length (put new []) =
      before ++ new :: after := by
    rw [List.modify_eq_take_cons_drop (by simp)]
    simp [put]
  rw [put_append h, put, hnested, hmodify]

/-- One of the blocks inside another is replaced, and the way goes on after it. -/
theorem inside?_put_concat {before after : List Block} {old : Block}
    (h : inside? root place = some block) (hnested : nested block = before ++ old :: after)
    (new : Block) :
    let written := withNested block (before ++ new :: after)
    put new (place ++ [before.length]) root = put written place root ∧
      inside? (put written place root) place = some written ∧
      nested written = (before ++ [new]) ++ after ∧
      ∀ others : List Block, others.length = after.length →
        put (withNested written ((before ++ [new]) ++ others)) place (put written place root) =
          put (withNested block (before ++ new :: others)) place root := by
  have hlength : ∀ others : List Block, others.length = after.length →
      (before ++ new :: others).length = (nested block).length := by
    intro others hothers
    rw [hnested]
    simp [hothers]
  refine ⟨put_concat h hnested new, inside?_put h _, ?_, fun others hothers => ?_⟩
  · rw [nested_withNested (hlength after rfl), List.append_cons]
  · rw [put_again, ← List.append_cons, withNested_withNested (hlength others hothers)]

/-! ## Blocks that are rewritten on the way -/

theorem sizeOf_lt_of_mem_nested {inner block : Block} (h : inner ∈ nested block) :
    sizeOf inner < sizeOf block := by
  obtain ⟨stmt, hstmt, hinner⟩ := List.mem_flatMap.1 h
  refine Nat.lt_trans ?_ (List.sizeOf_lt_of_mem hstmt)
  cases stmt <;> simp only [Stmt.blocks, List.mem_cons, List.not_mem_nil, or_false] at hinner <;>
    grind

/-- Induction over a block from the blocks inside it upwards. -/
theorem induction_nested {P : Block → Prop}
    (step : ∀ block, (∀ inner ∈ nested block, P inner) → P block) (block : Block) : P block := by
  induction hsize : sizeOf block using Nat.strongRecOn generalizing block with
  | ind size ih =>
    refine step block fun inner hinner => ih (sizeOf inner) ?_ inner rfl
    exact hsize ▸ sizeOf_lt_of_mem_nested hinner

/-- A block and all blocks inside it, each before those inside it. -/
def everyBlock (block : Block) : List Block :=
  block :: (nested block).attach.flatMap fun inner => everyBlock inner.1
termination_by sizeOf block
decreasing_by exact sizeOf_lt_of_mem_nested inner.2

/-- A block comes before the blocks inside it, each with all that are inside it in turn. -/
theorem everyBlock_eq (block : Block) :
    everyBlock block = block :: (nested block).flatMap everyBlock := by
  rw [everyBlock, List.flatMap_subtype (g := everyBlock) (by simp), List.unattach_attach]

/-- The recursion at some blocks: each in turn is rewritten, and then the blocks inside
what has been written.  It may not come to an end. -/
inductive Rewrites (f : Block → StateM σ Block) : List Block → σ → List Block → σ → Prop
  | nil (state : σ) : Rewrites f [] state [] state
  | cons {block : Block} {state middle last : σ} {rest inner others : List Block}
      (hinner : Rewrites f (nested (f block state).1) (f block state).2 inner middle)
      (hothers : Rewrites f rest middle others last) :
      Rewrites f (block :: rest) state (withNested (f block state).1 inner :: others) last

namespace Rewrites

variable {f : Block → StateM σ Block} {results others : List Block} {state middle last : σ}

theorem length_eq (h : Rewrites f blocks state results last) :
    results.length = blocks.length := by
  induction h with
  | nil => rfl
  | cons _ _ _ ih => exact congrArg (· + 1) ih

/-- In the result stands what has been rewritten inside what has been written. -/
theorem everyBlock_written {written : Block} {inner : List Block}
    (h : Rewrites f (nested written) state inner last) :
    everyBlock (withNested written inner) =
      withNested written inner :: inner.flatMap everyBlock := by
  rw [everyBlock_eq, nested_withNested h.length_eq]

theorem singleton {inner : List Block}
    (h : Rewrites f (nested (f block state).1) (f block state).2 inner last) :
    Rewrites f [block] state [withNested (f block state).1 inner] last :=
  .cons h (.nil last)

/-- More blocks are rewritten after the others. -/
theorem append (h : Rewrites f blocks state results middle) {more : List Block}
    (hmore : Rewrites f more middle others last) :
    Rewrites f (blocks ++ more) state (results ++ others) last := by
  induction h with
  | nil => exact hmore
  | cons hinner _ _ ih => exact .cons hinner (ih hmore)

/-- What is known of every block alone is known of all. -/
theorem map (g : Block → Block) (next : σ → Block → σ)
    (h : ∀ block ∈ blocks, ∀ state, Rewrites f [block] state [g block] (next state block))
    (state : σ) : Rewrites f blocks state (blocks.map g) (blocks.foldl next state) := by
  induction blocks generalizing state with
  | nil => exact .nil state
  | cons block rest ih =>
    obtain ⟨hblock, hrest⟩ := List.forall_mem_cons.1 h
    exact (hblock state).append (ih hrest _)

/-- Where the recursion ends at every block alone, it ends at all. -/
theorem exists_all
    (h : ∀ block ∈ blocks, ∀ state, ∃ results last, Rewrites f [block] state results last)
    (state : σ) : ∃ results last, Rewrites f blocks state results last := by
  induction blocks generalizing state with
  | nil => exact ⟨[], state, .nil state⟩
  | cons block rest ih =>
    obtain ⟨hblock, hrest⟩ := List.forall_mem_cons.1 h
    obtain ⟨results, middle, hfirst⟩ := hblock state
    obtain ⟨others, last, hothers⟩ := ih hrest middle
    exact ⟨results ++ others, last, hfirst.append hothers⟩

/-- With a rank that goes down on the way in, the recursion ends. -/
theorem exists_of_rank {rank : Block → Nat}
    (h : ∀ block state, ∀ inner ∈ nested (f block state).1, rank inner < rank block)
    (block : Block) (state : σ) :
    ∃ result last, Rewrites f [block] state [result] last := by
  induction hrank : rank block using Nat.strongRecOn generalizing block state with
  | ind size ih =>
    have hnested : ∀ inner ∈ nested (f block state).1, ∀ state,
        ∃ results last, Rewrites f [inner] state results last := by
      intro inner hinner state
      obtain ⟨result, last, hresult⟩ := ih _ (hrank ▸ h block _ inner hinner) inner state rfl
      exact ⟨[result], last, hresult⟩
    obtain ⟨inner, last, hinner⟩ := exists_all hnested (f block state).2
    exact ⟨_, last, singleton hinner⟩

/-- Where nothing is rewritten, every block is visited in turn. -/
theorem visit (visit : σ → Block → σ) (block : Block) (state : σ) :
    Rewrites (fun block state => (block, visit state block)) [block] state [block]
      ((everyBlock block).foldl visit state) := by
  induction block using induction_nested generalizing state with
  | step block ih =>
    have hinner := singleton (f := fun block state => (block, visit state block))
      (map id _ ih (visit state block))
    rw [List.map_id, withNested_nested] at hinner
    rwa [everyBlock_eq, List.foldl_cons, List.foldl_flatMap]

end Rewrites

/-- The same function, with the number of its calls kept along. -/
def counting (f : Block → StateM σ Block) (block : Block) : StateM (σ × Nat) Block :=
  fun (state, count) =>
    let (block, state) := f block state
    (block, (state, count + 1))

/-- Every block of the result has been visited once. -/
theorem Rewrites.count {f : Block → StateM σ Block} {results : List Block} {state last : σ × Nat}
    (h : Rewrites (counting f) blocks state results last) :
    last.2 = state.2 + (results.flatMap everyBlock).length := by
  induction h with
  | nil => rfl
  | @cons block state middle last rest inner others hinner hothers ihinner ihothers =>
    have hstep : (counting f block state).2.2 = state.2 + 1 := rfl
    rw [hstep] at ihinner
    rw [List.flatMap_cons, List.length_append, hinner.everyBlock_written, List.length_cons]
    omega

section

variable {f : Block → StateM σ Block} {state last : σ}

theorem rewriteStack_cons (f : Block → StateM σ Block) (h : inside? root place = some block)
    (turns : Nat) (stack : List Place) (state : σ) :
    rewriteStack f (turns + 1) root (place :: stack) state =
      rewriteStack f turns (put (f block state).1 place root)
        (push place 0 (nested (f block state).1) stack) (f block state).2 := by
  rw [rewriteStack]
  simp only [h]
  rfl

theorem inside?_concat {before after : List Block} {old : Block}
    (h : inside? root place = some block) (hnested : nested block = before ++ old :: after) :
    inside? root (place ++ [before.length]) = some old := by
  rw [inside?_append, h, Option.bind_some, inside?, hnested,
    List.getElem?_append_right (Nat.le_refl _), Nat.sub_self]
  rfl

theorem push_concat (place : Place) (before : List Block) (old new : Block)
    (after : List Block) (stack : List Place) :
    push place before.length (old :: after) stack =
      (place ++ [before.length]) :: push place (before ++ [new]).length after stack := by
  rw [List.length_append]
  rfl

/-- The walk comes past the blocks inside another as the recursion does, with a turn for
each block of the result. -/
theorem Rewrites.rewriteStack_push {blocks results : List Block}
    (h : Rewrites f blocks state results last) {before : List Block}
    (hinside : inside? root place = some block) (hnested : nested block = before ++ blocks)
    (turns : Nat) (stack : List Place) :
    rewriteStack f (turns + (results.flatMap everyBlock).length) root
        (push place before.length blocks stack) state =
      rewriteStack f turns (put (withNested block (before ++ results)) place root) stack last := by
  induction h generalizing root place block before turns stack with
  | nil =>
    rw [← hnested, withNested_nested, put_inside? hinside]
    rfl
  | @cons inner state middle last rest inside others hinner hothers ihinner ihothers =>
    let written := withNested (f inner state).1 inside
    obtain ⟨hput, hwritten, hafter, hlast⟩ := inside?_put_concat hinside hnested written
    have hplace := inside?_concat hinside hnested
    have hturns : turns + ((written :: others).flatMap everyBlock).length =
        turns + (others.flatMap everyBlock).length + (inside.flatMap everyBlock).length + 1 := by
      rw [List.flatMap_cons, List.length_append, hinner.everyBlock_written, List.length_cons]
      omega
    rw [hturns, push_concat place before inner written rest stack, rewriteStack_cons f hplace]
    refine (ihinner (inside?_put hplace _) (List.nil_append _).symm _ _).trans ?_
    rw [List.nil_append, put_again, hput, ihothers hwritten hafter, hlast _ hothers.length_eq]

/-- Where the walk comes past the blocks inside another, so does the recursion. -/
theorem exists_rewrites_of_rewriteStack {turns : Nat} {blocks before : List Block}
    {stack : List Place} {outcome : Block × σ} (hinside : inside? root place = some block)
    (hnested : nested block = before ++ blocks)
    (h : rewriteStack f turns root (push place before.length blocks stack) state = some outcome) :
    ∃ results last left, Rewrites f blocks state results last ∧
      turns = left + (results.flatMap everyBlock).length ∧
      rewriteStack f left (put (withNested block (before ++ results)) place root) stack last =
        some outcome := by
  induction hturns : turns using Nat.strongRecOn
    generalizing turns root place block blocks before stack state with
  | ind size ih =>
  subst hturns
  cases blocks with
  | nil =>
    refine ⟨[], state, turns, .nil state, rfl, ?_⟩
    rwa [← hnested, withNested_nested, put_inside? hinside]
  | cons inner rest =>
    cases turns with
    | zero => cases h
    | succ turns =>
      have hplace := inside?_concat hinside hnested
      rw [push_concat place before inner inner rest stack, rewriteStack_cons f hplace] at h
      obtain ⟨inside, middle, left, hinner, hleft, hrest⟩ := ih turns (Nat.lt_succ_self _)
        (inside?_put hplace _) (List.nil_append _).symm h rfl
      let written := withNested (f inner state).1 inside
      obtain ⟨hput, hwritten, hafter, hlast⟩ := inside?_put_concat hinside hnested written
      have hlength : (before ++ [inner]).length = (before ++ [written]).length := by simp
      rw [List.nil_append, put_again, hput, hlength] at hrest
      obtain ⟨others, last, remaining, hothers, hremaining, hend⟩ :=
        ih left (by omega) hwritten hafter hrest rfl
      rw [hlast _ hothers.length_eq] at hend
      refine ⟨written :: others, last, remaining, .cons hinner hothers, ?_, hend⟩
      rw [List.flatMap_cons, List.length_append, hinner.everyBlock_written, List.length_cons]
      omega

/-- The walk has a result just if the recursion comes to it and there is a turn for each
block of the result. -/
theorem rewriteBlocks_eq_some_iff {turns : Nat} {block result : Block} :
    rewriteBlocks f turns block state = some (result, last) ↔
      Rewrites f [block] state [result] last ∧ (everyBlock result).length ≤ turns := by
  have hplace : inside? block [] = some block := rfl
  constructor
  · intro h
    cases turns with
    | zero => cases h
    | succ turns =>
      rw [rewriteBlocks, rewriteStack_cons f hplace] at h
      obtain ⟨inner, after, left, hinner, hturns, hend⟩ :=
        exists_rewrites_of_rewriteStack (inside?_put hplace _) (List.nil_append _).symm h
      rw [rewriteStack, List.nil_append, put_again] at hend
      cases hend
      refine ⟨.singleton hinner, ?_⟩
      rw [put, hinner.everyBlock_written, List.length_cons]
      omega
  · rintro ⟨h, hturns⟩
    cases h with
    | cons hinner hothers =>
      cases hothers
      rw [hinner.everyBlock_written, List.length_cons] at hturns
      obtain ⟨left, rfl⟩ := Nat.exists_eq_add_of_le' hturns
      rw [rewriteBlocks, ← Nat.add_assoc, rewriteStack_cons f hplace]
      refine (hinner.rewriteStack_push (inside?_put hplace _) (List.nil_append _).symm
        left []).trans ?_
      rw [rewriteStack, List.nil_append, put_again]
      rfl

end

end Block

theorem Stmt.withBlocks_mapParts (f : Expr → Expr) (g : Block → Block) (stmt : Stmt) :
    (stmt.mapParts f id).withBlocks (stmt.blocks.map g) = stmt.mapParts f g := by
  cases stmt <;> rfl

/-- A function that takes no account of the state is mapped over the expressions that a
statement owns. -/
theorem Stmt.rewriteOwn_pure (h : Expr → Expr) (stmt : Stmt) :
    stmt.rewriteOwn (fun expr => pure (h expr)) =
      (pure (stmt.mapParts (Expr.map h) id) : StateM σ Stmt) := by
  have hoption : ∀ value : Option Expr,
      (value.mapM (Expr.rewrite fun expr => pure (h expr)) : StateM σ (Option Expr)) =
        pure (value.map (Expr.map h)) := by
    intro value
    cases value with
    | none => rfl
    | some value =>
      change (fun value => some value) <$> Expr.rewrite _ value = _
      rw [Expr.rewrite_pure, map_pure]
      rfl
  cases stmt <;> simp [rewriteOwn, mapParts, hoption, Expr.rewrite_pure]

namespace Block

theorem withNested_mapParts (f : Expr → Expr) (g : Block → Block) (block : Block) :
    withNested (block.map (Stmt.mapParts f id)) ((nested block).map g) =
      block.map (Stmt.mapParts f g) := by
  induction block with
  | nil => rfl
  | cons stmt rest ih =>
    have hlength : (stmt.mapParts f id).blocks.length = (stmt.blocks.map g).length := by
      rw [Stmt.blocks_mapParts, List.length_map, List.length_map]
    rw [List.map_cons, List.map_cons, withNested, nested_cons, List.map_append, hlength,
      List.take_left, List.drop_left, ih, Stmt.withBlocks_mapParts]

theorem nested_mapParts (f : Expr → Expr) (block : Block) :
    nested (block.map (Stmt.mapParts f id)) = nested block := by
  rw [nested, List.flatMap_map]
  simp [nested]

theorem nested_mapExprs (h : Expr → Expr) (block : Block) :
    nested (block.map (Stmt.mapExprs h)) = (nested block).map (List.map (Stmt.mapExprs h)) := by
  rw [nested, List.flatMap_map, nested, List.map_flatMap]
  refine List.flatMap_congr fun stmt _ => ?_
  rw [Stmt.mapExprs_eq, Stmt.blocks_mapParts]

/-- A map over expressions leaves as many blocks as there were. -/
theorem length_everyBlock_mapExprs (h : Expr → Expr) (block : Block) :
    (everyBlock (block.map (Stmt.mapExprs h))).length = (everyBlock block).length := by
  induction block using induction_nested with
  | step block ih =>
    rw [everyBlock_eq, everyBlock_eq block, nested_mapExprs, List.length_cons, List.length_cons,
      List.flatMap_map, List.length_flatMap, List.length_flatMap]
    exact congrArg (·.sum + 1) (List.map_congr_left ih)

/-- A function that takes no account of the state is mapped over all expressions. -/
theorem rewrites_exprs (h : Expr → Expr) (block : Block) (state : σ) :
    Rewrites (List.mapM (Stmt.rewriteOwn fun expr => pure (h expr))) [block] state
      [block.map (Stmt.mapExprs h)] state := by
  have hown : (List.mapM (Stmt.rewriteOwn fun expr => pure (h expr)) : Block → StateM σ Block) =
      fun block => pure (block.map (Stmt.mapParts (Expr.map h) id)) := by
    funext block
    rw [funext (Stmt.rewriteOwn_pure h), List.mapM_pure]
  rw [hown]
  induction block using induction_nested generalizing state with
  | step block ih =>
    rw [← nested_mapParts (Expr.map h)] at ih
    let written := block.map (Stmt.mapParts (Expr.map h) id)
    have hresult : withNested written ((nested written).map (List.map (Stmt.mapExprs h))) =
        block.map (Stmt.mapExprs h) := by
      rw [nested_mapParts, withNested_mapParts]
      exact List.map_congr_left fun stmt _ => (stmt.mapExprs_eq h).symm
    have hinner := Rewrites.map _ (fun state _ => state) ih state
    rw [List.foldl_fixed] at hinner
    rw [← hresult]
    exact .singleton hinner

/-- The walks go to every statement, every expression node and every block once, as the
recursion over the structure does: a statement comes before the blocks inside it, and a
block before those inside it, be it as it was or as it has been rewritten.  There is a turn
for each block of the result.  What depends on nothing but the node is mapped over all
expressions, and what is counted is the sum over all statements. -/
theorem walks_follow_structure :
    (∀ (σ : Type) (f : σ → Stmt → σ) (block : Block) (state : σ),
      visitStatements f block state = (statements block).foldl f state) ∧
    (∀ (σ : Type) (f : σ → Expr → σ) (block : Block) (state : σ),
      visitExprs f block state = (nodes block).foldl f state) ∧
    (∀ (σ : Type) (f : Block → StateM σ Block) (block : Block) (state : σ),
      (∀ turns result last, rewriteBlocks f turns block state = some (result, last) ↔
        Rewrites f [block] state [result] last ∧ (everyBlock result).length ≤ turns) ∧
      (∀ turns result last,
        rewriteBlocks (counting f) turns block (state, 0) = some (result, last) →
          last.2 = (everyBlock result).length) ∧
      ∀ rank : Block → Nat,
        (∀ block state, ∀ inner ∈ nested (f block state).1, rank inner < rank block) →
        ∃ turns, (rewriteBlocks f turns block state).isSome = true) ∧
    (∀ (σ : Type) (visit : σ → Block → σ) (turns : Nat) (block : Block) (state : σ),
      (everyBlock block).length ≤ turns →
        rewriteBlocks (fun block state => (block, visit state block)) turns block state =
          some (block, (everyBlock block).foldl visit state)) ∧
    (∀ (σ : Type) (h : Expr → Expr) (turns : Nat) (block : Block) (state : σ),
      (everyBlock block).length ≤ turns →
        rewriteExprs (fun expr => pure (h expr)) turns block state =
          some (block.map (Stmt.mapExprs h), state)) ∧
    ∀ tree : MethodTree, tree.instructionCount =
      ((statements tree.body).map fun stmt => stmt.nodes.length + 1).sum := by
  refine ⟨fun _ => visitStatements_eq, fun _ => visitExprs_eq, ?blocks, ?visits, ?exprs,
    MethodTree.instructionCount_eq⟩
  case blocks =>
    intro σ f block state
    refine ⟨fun turns result last => rewriteBlocks_eq_some_iff, fun turns result last h => ?_,
      fun rank hrank => ?_⟩
    · have hcount := (rewriteBlocks_eq_some_iff.1 h).1.count
      rwa [Nat.zero_add, List.flatMap_singleton] at hcount
    obtain ⟨result, last, hresult⟩ := Rewrites.exists_of_rank hrank block state
    refine ⟨(everyBlock result).length, Option.isSome_iff_exists.2 ⟨(result, last), ?_⟩⟩
    exact rewriteBlocks_eq_some_iff.2 ⟨hresult, Nat.le_refl _⟩
  case visits =>
    intro σ visit turns block state hturns
    exact rewriteBlocks_eq_some_iff.2 ⟨.visit visit block state, hturns⟩
  case exprs =>
    intro σ h turns block state hturns
    rw [← length_everyBlock_mapExprs h] at hturns
    exact rewriteBlocks_eq_some_iff.2 ⟨rewrites_exprs h block state, hturns⟩

/-- An assignment, another one inside a conditional statement, and a return. -/
def steppedBody : Block :=
  [.expr (.assign none (.raw ⟨0⟩) (.literal (.int 1))),
    .ifThen (.binary .less (.raw ⟨0⟩) (.literal (.int 5)))
      [.expr (.assign none (.raw ⟨0⟩) (.literal (.int 2)))],
    .ret (some (.raw ⟨0⟩))]

/-- Takes the assignments out of a block, and counts the blocks. -/
def withoutAssignments (block : Block) : StateM Nat Block :=
  fun count => (block.filter (·.assignment?.isNone), count + 1)

/-- A body of two blocks with one callback that takes statements out and one that only counts,
its statements in order, and its fourteen instructions. -/
theorem walks_follow_structure_steppedBody :
    (∀ block count, ∀ inner ∈ nested (withoutAssignments block count).1,
      sizeOf inner < sizeOf block) ∧
    (∃ turns, (rewriteBlocks withoutAssignments turns steppedBody 0).isSome = true) ∧
    (everyBlock steppedBody).length ≤ 2 ∧
    (rewriteBlocks (fun block visited => (block, visited + 1)) 2 steppedBody 0).map (·.2) =
      some 2 ∧
    (visitStatements (fun kinds stmt => kinds ++ [stmt.blocks.length]) steppedBody [] =
      [0, 1, 0, 0]) ∧
    ({ body := steppedBody } : MethodTree).instructionCount = 14 := by
  have hrank : ∀ block count, ∀ inner ∈ nested (withoutAssignments block count).1,
      sizeOf inner < sizeOf block := by
    intro block count inner hinner
    obtain ⟨stmt, hstmt, hblock⟩ := List.mem_flatMap.1 hinner
    have hmem : stmt ∈ block := List.mem_of_mem_filter hstmt
    exact sizeOf_lt_of_mem_nested (List.mem_flatMap.2 ⟨stmt, hmem, hblock⟩)
  have hturns : (everyBlock steppedBody).length ≤ 2 := by
    simp [everyBlock_eq, nested, steppedBody, Stmt.blocks]
  obtain ⟨hstatements, -, hblocks, hvisits, -, hcount⟩ := walks_follow_structure
  refine ⟨hrank, (hblocks _ _ _ _).2.2 sizeOf hrank, hturns, ?_, ?_, ?_⟩
  · rw [hvisits _ (fun visited _ => visited + 1) _ _ _ hturns]
    simp [everyBlock_eq, nested, steppedBody, Stmt.blocks]
  · rw [hstatements]
    decide
  · rw [hcount]
    decide

end Block

end Assemblage
