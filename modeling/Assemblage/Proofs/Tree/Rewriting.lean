import Assemblage.Proofs.Tree.Structure
import Assemblage.Tree.Visit
import Mathlib.Algebra.BigOperators.Group.Multiset.Basic
import Mathlib.Tactic.Abel

/-!
# Rewriting in one place

A pass rewrites a tree place by place.  One step changes one part of the tree
and leaves all around it alone, and what is counted over a whole tree changes
by what it changes in that part.
-/

namespace Assemblage

/-- Steps one after the other, with their labels in a list. -/
inductive Steps {ι α : Type} (step : ι → α → α → Prop) : List ι → α → α → Prop
  | done (start : α) : Steps step [] start start
  | next {label : ι} {labels : List ι} {start middle result : α} (h : step label start middle)
      (hrest : Steps step labels middle result) :
    Steps step (label :: labels) start result

namespace Steps

variable {ι α β : Type} {step : ι → α → α → Prop} {start middle result : α}

theorem trans {labels others : List ι} (h : Steps step labels start middle)
    (hnext : Steps step others middle result) : Steps step (labels ++ others) start result := by
  induction h with
  | done => exact hnext
  | next hstep _ ih => exact .next hstep (ih hnext)

/-- Steps that are made inside something larger. -/
theorem map {larger : ι → β → β → Prop} {f : α → β}
    (hf : ∀ label left right, step label left right → larger label (f left) (f right))
    {labels : List ι} (h : Steps step labels start result) :
    Steps larger labels (f start) (f result) := by
  induction h with
  | done => exact .done _
  | next hstep _ ih => exact .next (hf _ _ _ hstep) ih

theorem mono {larger : ι → α → α → Prop}
    (himp : ∀ label left right, step label left right → larger label left right)
    {labels : List ι} (h : Steps step labels start result) : Steps larger labels start result :=
  h.map himp (f := id)

/-- What is true of the label of every step is true of all labels of a row. -/
theorem forall_mem {P : ι → Prop} (hstep : ∀ {label left right}, step label left right → P label)
    {labels : List ι} (h : Steps step labels start result) : ∀ label ∈ labels, P label := by
  induction h with
  | done => exact List.forall_mem_nil _
  | next hfirst _ ih => exact List.forall_mem_cons.2 ⟨hstep hfirst, ih⟩

/-- A count that every step lowers bounds the number of steps. -/
theorem length_le (measure : α → Nat)
    (hstep : ∀ {label left right}, step label left right → measure right < measure left)
    {labels : List ι} (h : Steps step labels start result) :
    measure result + labels.length ≤ measure start := by
  induction h with
  | done => exact Nat.le_refl _
  | next hfirst _ ih =>
    have hlower := hstep hfirst
    rw [List.length_cons]
    omega

theorem eq_of_nil (h : Steps step [] start result) : result = start := by
  cases h
  rfl

end Steps

/-- The outcome is reached in as many steps as it reports. -/
def StepsTo {ι α : Type} (step : ι → α → α → Prop) (start : α) (outcome : α × Nat) : Prop :=
  ∃ labels, labels.length = outcome.2 ∧ Steps step labels start outcome.1

namespace StepsTo

variable {ι α β : Type} {step : ι → α → α → Prop} {start middle result : α} {n m : Nat}

theorem none (step : ι → α → α → Prop) (start : α) : StepsTo step start (start, 0) :=
  ⟨[], rfl, .done start⟩

theorem one {label : ι} (h : step label start result) : StepsTo step start (result, 1) :=
  ⟨[label], rfl, .next h (.done result)⟩

/-- The numbers of steps add up. -/
theorem trans (h : StepsTo step start (middle, n)) (hnext : StepsTo step middle (result, m)) :
    StepsTo step start (result, n + m) := by
  obtain ⟨labels, hlength, hsteps⟩ := h
  obtain ⟨others, hothers, hsteps'⟩ := hnext
  exact ⟨labels ++ others, by rw [List.length_append, hlength, hothers], hsteps.trans hsteps'⟩

theorem map {larger : ι → β → β → Prop} {f : α → β}
    (hf : ∀ label left right, step label left right → larger label (f left) (f right))
    (h : StepsTo step start (result, n)) : StepsTo larger (f start) (f result, n) := by
  obtain ⟨labels, hlength, hsteps⟩ := h
  exact ⟨labels, hlength, hsteps.map hf⟩

theorem mono {larger : ι → α → α → Prop}
    (himp : ∀ label left right, step label left right → larger label left right)
    (h : StepsTo step start (result, n)) : StepsTo larger start (result, n) :=
  h.map himp (f := id)

end StepsTo

/-- The node without its operands. -/
def Expr.head (expr : Expr) : Expr :=
  expr.mapChildren fun _ => .self

/-- The statement without the statements of its blocks. -/
def Stmt.frame (stmt : Stmt) : Stmt :=
  stmt.mapParts id fun _ => []

/-- The statement without its own expressions and the statements of its blocks. -/
def Stmt.shell (stmt : Stmt) : Stmt :=
  stmt.mapParts (fun _ => .self) fun _ => []

@[simp]
theorem Expr.head_mapChildren (f : Expr → Expr) (expr : Expr) :
    (expr.mapChildren f).head = expr.head := by
  cases expr <;> simp [head, mapChildren, Function.comp_def]

@[simp]
theorem Expr.asVariable?_head (expr : Expr) : expr.head.asVariable? = expr.asVariable? :=
  expr.asVariable?_mapChildren _

theorem Stmt.exprs_frame (stmt : Stmt) : stmt.frame.exprs = stmt.exprs := by
  rw [frame, exprs_mapParts, List.map_id]

theorem Stmt.shell_mapParts (f : Expr → Expr) (g : Block → Block) (stmt : Stmt) :
    (stmt.mapParts f g).shell = stmt.shell := by
  cases stmt with
  | declare id value | ret value => cases value <;> rfl
  | _ => rfl

/-! ## One place in an expression -/

namespace Expr

/-- `Within rule expr result` says that the rule turns one node of `expr` into the node
of `result` at the same place. -/
inductive Within (rule : Expr → Expr → Prop) : Expr → Expr → Prop
  | here {expr result : Expr} (h : rule expr result) : Within rule expr result
  | under {expr changed : Expr} (before after : List Expr) {operand result : Expr}
      (hhead : expr.head = changed.head) (hchildren : expr.children = before ++ operand :: after)
      (hchanged : changed.children = before ++ result :: after) (h : Within rule operand result) :
    Within rule expr changed

/-- An expression is put together again from its own operands. -/
theorem withChildren_children (expr : Expr) : expr.withChildren expr.children = expr := by
  cases expr <;> rfl

theorem withChildren_map (f : Expr → Expr) (expr : Expr) :
    expr.withChildren (expr.children.map f) = expr.mapChildren f := by
  cases expr <;> rfl

theorem children_withChildren {expr : Expr} {operands : List Expr}
    (h : operands.length = expr.children.length) :
    (expr.withChildren operands).children = operands := by
  rcases operands with _ | ⟨_, _ | ⟨_, _ | ⟨_, _ | _⟩⟩⟩ <;> cases expr <;>
    first | rfl | simp [children] at h

theorem head_withChildren {expr : Expr} {operands : List Expr}
    (h : operands.length = expr.children.length) :
    (expr.withChildren operands).head = expr.head := by
  have hself : ∀ {left right : List Expr}, left.length = right.length →
      left.map (fun _ => Expr.self) = right.map fun _ => Expr.self := by
    intro left right heq
    rw [List.map_const', List.map_const', heq]
  cases expr with
  | staticCall method arguments => exact congrArg (Expr.staticCall method) (hself h)
  | create type arguments => exact congrArg (Expr.create type) (hself h)
  | call target method arguments =>
    cases operands with
    | nil => cases h
    | cons operand operands => exact congrArg (Expr.call .self method) (hself (Nat.succ.inj h))
  | _ =>
    rcases operands with _ | ⟨_, _ | ⟨_, _ | ⟨_, _ | _⟩⟩⟩ <;> rfl

/-- A rule that takes nodes away takes them away wherever it is used. -/
theorem Within.length_nodes_lt {rule : Expr → Expr → Prop}
    (hrule : ∀ {expr result}, rule expr result → result.nodes.length < expr.nodes.length)
    {expr result : Expr} (h : Within rule expr result) :
    result.nodes.length < expr.nodes.length := by
  induction h with
  | here h => exact hrule h
  | @under expr changed before after operand result _ hchildren hchanged _ ih =>
    rw [nodes_eq_cons expr, nodes_eq_cons changed, hchildren, hchanged]
    simp only [List.flatMap_append, List.flatMap_cons, List.length_cons, List.length_append]
    omega

/-! A walk goes from place to place. -/

section Walk

variable {ι : Type} {rule : ι → Expr → Expr → Prop} {step : Expr → Expr × Nat}

theorem mapCountingList_snd (step : Expr → Expr × Nat) (exprs : List Expr) :
    (mapCountingList step exprs).2 = (exprs.map fun expr => (expr.mapCounting step).2).sum := by
  induction exprs with
  | nil => rfl
  | cons expr rest ih => simp [mapCountingList, ih]

/-- What a walk reports is what it reports of the operands and then of the node. -/
theorem mapCounting_snd (step : Expr → Expr × Nat) (expr : Expr) :
    (expr.mapCounting step).2 = (expr.children.map fun child => (child.mapCounting step).2).sum +
      (step (expr.mapChildren fun child => (child.mapCounting step).1)).2 := by
  cases expr <;>
    simp [mapCounting, mapChildren, children, mapCountingList_fst, mapCountingList_snd,
      Nat.add_assoc]

/-- Operands are rewritten one after the other, the first of them already. -/
theorem stepsTo_withChildren {expr : Expr} {operands : List Expr}
    (h : ∀ operand ∈ operands, StepsTo (fun label => Within (rule label)) operand
      (operand.mapCounting step))
    (before : List Expr) (hlength : (before ++ operands).length = expr.children.length) :
    StepsTo (fun label => Within (rule label)) (expr.withChildren (before ++ operands))
      (expr.withChildren (before ++ operands.map fun operand => (operand.mapCounting step).1),
        (operands.map fun operand => (operand.mapCounting step).2).sum) := by
  induction operands generalizing before with
  | nil => exact .none _ _
  | cons operand rest ih =>
    have hfirst : StepsTo (fun label => Within (rule label))
        (expr.withChildren (before ++ operand :: rest))
        (expr.withChildren (before ++ (operand.mapCounting step).1 :: rest),
          (operand.mapCounting step).2) := by
      refine (h operand List.mem_cons_self).map (fun label left right hstep => ?_)
        (f := fun operand => expr.withChildren (before ++ operand :: rest))
      have hlengths : ∀ other : Expr, (before ++ other :: rest).length = expr.children.length :=
        fun other => by simpa using hlength
      exact .under before rest
        ((head_withChildren (hlengths left)).trans (head_withChildren (hlengths right)).symm)
        (children_withChildren (hlengths left)) (children_withChildren (hlengths right)) hstep
    have hrest := ih (fun other hother => h other (List.mem_cons_of_mem _ hother))
      (before ++ [(operand.mapCounting step).1]) (by simpa using hlength)
    rw [List.append_assoc, List.append_assoc] at hrest
    rw [List.map_cons, List.map_cons, List.sum_cons]
    exact hfirst.trans hrest

/-- A walk with steps of a rule is made of such steps within the expression. -/
theorem stepsTo_mapCounting
    (hstep : ∀ expr, StepsTo (fun label => Within (rule label)) expr (step expr)) (expr : Expr) :
    StepsTo (fun label => Within (rule label)) expr (expr.mapCounting step) := by
  induction expr using induction_children with
  | step expr ih =>
    have hoperands := stepsTo_withChildren ih [] rfl
    rw [List.nil_append, List.nil_append, withChildren_children, withChildren_map] at hoperands
    have hnode := hstep (expr.mapChildren fun child => (child.mapCounting step).1)
    rw [← Prod.mk.eta (p := expr.mapCounting step), mapCounting_fst, mapCounting_snd]
    exact hoperands.trans hnode

end Walk

end Expr

namespace Block

/-- `Within rule block result` says that the rule turns one part of `block`, from
some statement of a block at any depth on, into the same part of `result`. -/
inductive Within (rule : Block → Block → Prop) : Block → Block → Prop
  | here {block result : Block} (h : rule block result) : Within rule block result
  | later (stmt : Stmt) {rest result : Block} (h : Within rule rest result) :
    Within rule (stmt :: rest) (stmt :: result)
  | inside {stmt changed : Stmt} (before after : List Block) {block result : Block} (rest : Block)
      (hframe : stmt.frame = changed.frame) (hblocks : stmt.blocks = before ++ block :: after)
      (hchanged : changed.blocks = before ++ result :: after) (h : Within rule block result) :
    Within rule (stmt :: rest) (changed :: rest)

theorem Within.imp {rule weaker : Block → Block → Prop}
    (himp : ∀ {block result}, rule block result → weaker block result) {block result : Block}
    (h : Within rule block result) : Within weaker block result := by
  induction h with
  | here h => exact .here (himp h)
  | later stmt _ ih => exact .later stmt ih
  | inside before after rest hframe hblocks hchanged _ ih =>
    exact .inside before after rest hframe hblocks hchanged ih

/-- Where something changes within a block, the rule was used at some place. -/
theorem Within.exists_rule {rule : Block → Block → Prop} {block result : Block}
    (h : Within rule block result) : ∃ block result, rule block result := by
  induction h with
  | here h => exact ⟨_, _, h⟩
  | later _ _ ih => exact ih
  | inside _ _ _ _ _ _ _ ih => exact ih

/-- A measure of blocks that adds up what the statements have without their blocks. -/
structure Additive {M : Type} [AddCommMonoid M] (measure : Block → M) : Prop where
  nil : measure [] = 0
  cons (stmt : Stmt) (rest : Block) :
    measure (stmt :: rest) = measure [stmt.frame] + (stmt.blocks.map measure).sum + measure rest

/-- A rule that adds something to a measure adds as much to it within a block. -/
theorem Within.measure_eq {M : Type} [AddCommMonoid M] {measure : Block → M}
    (hmeasure : Additive measure) {rule : Block → Block → Prop} (extra : M → Prop)
    (hrule : ∀ {block result}, rule block result →
      ∃ part, extra part ∧ measure block = part + measure result)
    {block result : Block} (h : Within rule block result) :
    ∃ part, extra part ∧ measure block = part + measure result := by
  induction h with
  | here h => exact hrule h
  | later stmt _ ih =>
    obtain ⟨part, hpart, heq⟩ := ih
    refine ⟨part, hpart, ?_⟩
    rw [hmeasure.cons, hmeasure.cons stmt, heq]
    abel
  | @inside stmt changed _ _ _ _ rest hframe hblocks hchanged _ ih =>
    obtain ⟨part, hpart, heq⟩ := ih
    refine ⟨part, hpart, ?_⟩
    rw [hmeasure.cons stmt, hmeasure.cons changed, hframe, hblocks, hchanged]
    simp only [List.map_append, List.map_cons, List.sum_append, List.sum_cons, heq]
    abel

/-- The rule turns the expression of the statement a block starts with into another. -/
inductive ChangesExpr (rule : Expr → Expr → Prop) : Block → Block → Prop
  | intro {stmt changed : Stmt} {expr result : Expr} (rest : Block)
      (hparts : stmt.mapParts (fun _ => .self) id = changed.mapParts (fun _ => .self) id)
      (hexprs : stmt.exprs = [expr]) (hchanged : changed.exprs = [result])
      (h : rule expr result) :
    ChangesExpr rule (stmt :: rest) (changed :: rest)

section Walk

variable {ι : Type} {rule : ι → Expr → Expr → Prop} {step : Expr → Expr × Nat}

/-- Steps in an expression are steps in the block that starts with its statement. -/
theorem stepsTo_of_exprs {f : Expr → Stmt} (hexprs : ∀ expr, (f expr).exprs = [expr])
    (hparts : ∀ expr other, (f expr).mapParts (fun _ => .self) id =
      (f other).mapParts (fun _ => .self) id) {expr result : Expr} {n : Nat} (rest : Block)
    (h : StepsTo rule expr (result, n)) :
    StepsTo (fun label => Within (ChangesExpr (rule label))) (f expr :: rest)
      (f result :: rest, n) :=
  h.map (fun _ left right hstep =>
    .here (.intro rest (hparts left right) (hexprs left) (hexprs right) hstep))
    (f := fun expr => f expr :: rest)

/-- Steps in a block are steps in the block that starts with the statement around it. -/
theorem stepsTo_of_blocks {changes : ι → Block → Block → Prop} {f : Block → Stmt}
    (before after : List Block) (hblocks : ∀ block, (f block).blocks = before ++ block :: after)
    (hframe : ∀ block other, (f block).frame = (f other).frame) {block result : Block} {n : Nat}
    (rest : Block) (h : StepsTo (fun label => Within (changes label)) block (result, n)) :
    StepsTo (fun label => Within (changes label)) (f block :: rest) (f result :: rest, n) :=
  h.map (fun _ left right hstep =>
    .inside before after rest (hframe left right) (hblocks left) (hblocks right) hstep)
    (f := fun block => f block :: rest)

theorem stepsTo_mapCountingBlock {changes : ι → Block → Block → Prop} {close : Stmt → Stmt × Nat}
    {block : Block}
    (h : ∀ stmt ∈ block, ∀ rest, StepsTo (fun label => Within (changes label)) (stmt :: rest)
      ((stmt.mapCounting step close).1 :: rest, (stmt.mapCounting step close).2)) :
    StepsTo (fun label => Within (changes label)) block
      (Stmt.mapCountingBlock step close block) := by
  induction block with
  | nil => exact .none _ _
  | cons stmt rest ih =>
    have hrest := ih fun other hother => h other (List.mem_cons_of_mem _ hother)
    have hlater := hrest.map fun _ _ _ hstep => Within.later (stmt.mapCounting step close).1 hstep
    exact (h stmt List.mem_cons_self rest).trans hlater

/-- A walk through a block is made of steps in its expressions. -/
theorem stepsTo_mapCounting (hstep : ∀ expr, StepsTo rule expr (expr.mapCounting step))
    (block : Block) :
    StepsTo (fun label => Within (ChangesExpr (rule label))) block (mapCounting step block) := by
  refine stepsTo_mapCountingBlock fun stmt hstmt => ?_
  clear hstmt
  induction stmt using Stmt.induction_blocks with
  | step stmt ih =>
    intro rest
    have hblock : ∀ inner ∈ stmt.blocks, StepsTo (fun label => Within (ChangesExpr (rule label)))
        inner (Stmt.mapCountingBlock step (fun stmt => (stmt, 0)) inner) := fun inner hinner =>
      stepsTo_mapCountingBlock fun other hother => ih inner hinner other hother
    cases stmt with
    | expr value =>
      exact stepsTo_of_exprs (f := Stmt.expr) (fun _ => rfl) (fun _ _ => rfl) rest (hstep value)
    | raise value =>
      exact stepsTo_of_exprs (f := Stmt.raise) (fun _ => rfl) (fun _ _ => rfl) rest (hstep value)
    | declare id value =>
      cases value with
      | none => exact .none _ _
      | some value =>
        exact stepsTo_of_exprs (f := fun value => .declare id (some value)) (fun _ => rfl)
          (fun _ _ => rfl) rest (hstep value)
    | ret value =>
      cases value with
      | none => exact .none _ _
      | some value =>
        exact stepsTo_of_exprs (f := fun value => .ret (some value)) (fun _ => rfl)
          (fun _ _ => rfl) rest (hstep value)
    | block body =>
      exact stepsTo_of_blocks (f := Stmt.block) [] [] (fun _ => rfl) (fun _ _ => rfl) rest
        (hblock body List.mem_cons_self)
    | ifThen condition body =>
      have hcondition := stepsTo_of_exprs (f := fun condition => .ifThen condition body)
        (fun _ => rfl) (fun _ _ => rfl) rest (hstep condition)
      exact hcondition.trans (stepsTo_of_blocks (f := Stmt.ifThen _) [] [] (fun _ => rfl)
        (fun _ _ => rfl) rest (hblock body List.mem_cons_self))
    | loop condition body =>
      have hcondition := stepsTo_of_exprs (f := fun condition => .loop condition body)
        (fun _ => rfl) (fun _ _ => rfl) rest (hstep condition)
      exact hcondition.trans (stepsTo_of_blocks (f := Stmt.loop _) [] [] (fun _ => rfl)
        (fun _ _ => rfl) rest (hblock body List.mem_cons_self))
    | ifElse condition body otherwise =>
      have hcondition := stepsTo_of_exprs (f := fun condition => .ifElse condition body otherwise)
        (fun _ => rfl) (fun _ _ => rfl) rest (hstep condition)
      have hbody := stepsTo_of_blocks (f := fun body => .ifElse (condition.mapCounting step).1 body
        otherwise) [] [otherwise] (fun _ => rfl) (fun _ _ => rfl) rest
        (hblock body List.mem_cons_self)
      have hotherwise := stepsTo_of_blocks (f := fun otherwise => .ifElse
        (condition.mapCounting step).1 (mapCounting step body).1 otherwise)
        [(mapCounting step body).1] [] (fun _ => rfl) (fun _ _ => rfl) rest
        (hblock otherwise (List.mem_cons_of_mem _ List.mem_cons_self))
      exact (hcondition.trans hbody).trans hotherwise
    | _ => exact .none _ _

end Walk

/-- The nodes of a block, each without its operands. -/
def heads (block : Block) : Multiset Expr :=
  (nodes block).map Expr.head

/-- The statements of a block at any depth, each without what is inside it. -/
def shells (block : Block) : Multiset Stmt :=
  (statements block).map Stmt.shell

theorem nodes_frame (stmt : Stmt) : nodes [stmt.frame] = stmt.nodes := by
  rw [nodes_singleton, Stmt.nodes, Stmt.exprs_frame, Stmt.frame, Stmt.blocks_mapParts,
    List.flatMap_map]
  have hnone : ∀ blocks : List Block, (blocks.flatMap fun _ => nodes []) = [] := fun blocks =>
    List.flatMap_eq_nil_iff.2 fun _ _ => rfl
  rw [hnone, List.append_nil, Stmt.nodes]

theorem coe_flatMap {α β γ : Type} (f : β → γ) (g : α → List β) (items : List α) :
    (↑((items.flatMap g).map f) : Multiset γ) =
      (items.map fun item => (↑((g item).map f) : Multiset γ)).sum := by
  induction items with
  | nil => rfl
  | cons item rest ih =>
    rw [List.flatMap_cons, List.map_append, ← Multiset.coe_add, ih, List.map_cons, List.sum_cons]

theorem additive_heads : Additive heads where
  nil := rfl
  cons stmt rest := by
    rw [heads, nodes_cons, nodes_singleton, heads, nodes_frame, List.map_append, List.map_append,
      ← Multiset.coe_add, ← Multiset.coe_add, coe_flatMap]
    rfl

theorem statements_cons (stmt : Stmt) (rest : Block) :
    statements (stmt :: rest) = stmt :: (stmt.blocks.flatMap statements ++ statements rest) := by
  rw [statements_eq_flatMap, List.flatMap_cons, ← statements_eq_flatMap, List.cons_append]

theorem shells_cons (stmt : Stmt) (rest : Block) :
    shells (stmt :: rest) = {stmt.shell} + (stmt.blocks.map shells).sum + shells rest := by
  rw [shells, statements_cons, List.map_cons, List.map_append, ← Multiset.cons_coe,
    ← Multiset.coe_add, coe_flatMap, ← Multiset.singleton_add, add_assoc]
  rfl

theorem additive_shells : Additive shells where
  nil := rfl
  cons stmt rest := by
    have hempty : ∀ blocks : List Block, (blocks.map fun _ => shells []).sum = 0 := by
      intro blocks
      induction blocks with
      | nil => rfl
      | cons _ blocks ih => rw [List.map_cons, List.sum_cons, ih]; rfl
    have hframe : shells [stmt.frame] = {stmt.shell} := by
      have hnil : shells [] = 0 := rfl
      rw [shells_cons, Stmt.frame, Stmt.shell_mapParts, Stmt.blocks_mapParts, List.map_map, hnil,
        add_zero]
      exact (congrArg (_ + ·) (hempty stmt.blocks)).trans (add_zero _)
    rw [shells_cons, hframe]

theorem additive_length_nodes : Additive fun block => (nodes block).length where
  nil := rfl
  cons stmt rest := by
    rw [nodes_cons, nodes_singleton, nodes_frame, List.length_append, List.length_append,
      List.length_flatMap]

/-- A rule that takes nodes away from an expression takes some away from the block. -/
theorem length_nodes_lt_of_within {rule : Expr → Expr → Prop}
    (hrule : ∀ {expr result}, rule expr result → result.nodes.length < expr.nodes.length)
    {block result : Block} (h : Within (ChangesExpr rule) block result) :
    (nodes result).length < (nodes block).length := by
  have hchange : ∀ {block result}, ChangesExpr rule block result →
      ∃ part, 0 < part ∧ (nodes block).length = part + (nodes result).length := by
    rintro _ _ ⟨rest, hparts, hexprs, hchanged, hstep⟩
    rename_i stmt changed expr result
    have hblocks : stmt.blocks = changed.blocks := by
      simpa using congrArg Stmt.blocks hparts
    have hlength := hrule hstep
    refine ⟨expr.nodes.length - result.nodes.length, Nat.sub_pos_of_lt hlength, ?_⟩
    rw [nodes_cons, nodes_cons changed, nodes_singleton, nodes_singleton, Stmt.nodes, Stmt.nodes,
      hexprs, hchanged, hblocks]
    simp only [List.flatMap_singleton, List.length_append]
    omega
  obtain ⟨part, hpart, hlength⟩ := h.measure_eq additive_length_nodes (0 < ·) hchange
  exact hlength ▸ Nat.lt_add_of_pos_left hpart

/-- There is one shell for each statement. -/
theorem card_shells (block : Block) : (shells block).card = (statements block).length := by
  rw [shells, Multiset.coe_card, List.length_map]

end Block

end Assemblage
