import Assemblage.Proofs.Evaluation.Similarity
import Assemblage.Proofs.Tree.Everywhere

/-!
# What a run evaluates

The expressions whose values a run takes, each with the state in which its
evaluation starts.  Which these are depends on the run: operands of `&&`, `||`
and `?:` may be left out, statements may not be reached, and a loop comes back
to its condition.  A rewriting that keeps what each of these expressions comes
to, from the states they are evaluated in, keeps the run.
-/

namespace Assemblage

/-- The operand that an assignment or an update writes to. -/
def Expr.updated? : Expr → Option Expr
  | .assign _ target _ => some target
  | .unary op operand => if op.isMutating then some operand else none
  | _ => none

namespace Evaluation

variable {I : Interpretation} {α β : Type}

variable (I) in
/-- `Takes I expr s operand s'` says that the evaluation of `expr` from `s` takes the
value of the operand, and does so from `s'`.  The target of a plain assignment is a
place only, so that it is the operands of the target whose values are taken. -/
inductive Takes : Expr → State I → Expr → State I → Prop
  | strict {expr operand : Expr} {before after : List Expr} {values : List I.Value}
      {s s' : State I} (hstrict : isStrict expr = true)
      (hchildren : expr.children = before ++ operand :: after)
      (hbefore : outcome (valuesOf I before) s = (.ok values, s')) :
    Takes expr s operand s'
  | lazyLeft {op : BinaryOp} (left right : Expr) (s : State I) (hlazy : op.isShortCircuit = true) :
    Takes (.binary op left right) s left s
  | lazyRight {op : BinaryOp} {left right : Expr} {value : I.Value} {s s' : State I}
      (hlazy : op.isShortCircuit = true) (hleft : outcome (valueOf I left) s = (.ok value, s'))
      (hneeded : I.isTrue value = (op == .and)) :
    Takes (.binary op left right) s right s'
  | updated {op : UnaryOp} (operand : Expr) (s : State I) (hop : op.isMutating = true) :
    Takes (.unary op operand) s operand s
  | read (op : BinaryOp) (target value : Expr) (s : State I) :
    Takes (.assign (some op) target value) s target s
  | place {target operand : Expr} (value : Expr) {s s' : State I}
      (h : Takes target s operand s') :
    Takes (.assign none target value) s operand s'
  | assigned (op : Option BinaryOp) {target value : Expr} {place : Located I} {s s' : State I}
      (htarget : outcome (locate I target) s = (.ok place, s')) :
    Takes (.assign op target value) s value s'
  | condition (condition whenTrue whenFalse : Expr) (s : State I) :
    Takes (.conditional condition whenTrue whenFalse) s condition s
  | whenTrue {condition whenTrue whenFalse : Expr} {value : I.Value} {s s' : State I}
      (hcondition : outcome (valueOf I condition) s = (.ok value, s'))
      (htrue : I.isTrue value = true) :
    Takes (.conditional condition whenTrue whenFalse) s whenTrue s'
  | whenFalse {condition whenTrue whenFalse : Expr} {value : I.Value} {s s' : State I}
      (hcondition : outcome (valueOf I condition) s = (.ok value, s'))
      (hfalse : ¬I.isTrue value = true) :
    Takes (.conditional condition whenTrue whenFalse) s whenFalse s'

variable (I) in
/-- The evaluation of `expr` from `s` comes to take the value of `other` from `s'`. -/
inductive Evaluates : Expr → State I → Expr → State I → Prop
  | here (expr : Expr) (s : State I) : Evaluates expr s expr s
  | operand {expr operand other : Expr} {s middle s' : State I} (h : Takes I expr s operand middle)
      (hoperand : Evaluates operand middle other s') :
    Evaluates expr s other s'

theorem takes_unary (op : UnaryOp) (operand : Expr) (s : State I) :
    Takes I (.unary op operand) s operand s := by
  by_cases hop : op.isMutating = true
  · exact .updated operand s hop
  · have hstrict : isStrict (.unary op operand) = true := by simpa [isStrict] using hop
    exact @Takes.strict I _ operand [] [] [] s s hstrict rfl rfl

theorem takes_left (op : BinaryOp) (left right : Expr) (s : State I) :
    Takes I (.binary op left right) s left s := by
  by_cases hlazy : op.isShortCircuit = true
  · exact .lazyLeft left right s hlazy
  · have hstrict : isStrict (.binary op left right) = true := by simpa [isStrict] using hlazy
    exact @Takes.strict I _ left [] [right] [] s s hstrict rfl rfl

/-- Whatever the evaluation of a place takes, that of a node that writes there takes as
well, if it does not take the value at the place itself. -/
theorem takes_of_updated? {expr target operand : Expr} {s s' : State I}
    (h : expr.updated? = some target) (htakes : Takes I target s operand s') :
    Takes I expr s operand s' ∨ Takes I expr s target s := by
  cases expr with
  | assign op place value =>
    cases h
    cases op with
    | none => exact .inl (.place value htakes)
    | some op => exact .inr (.read op target value s)
  | unary op place =>
    rw [Expr.updated?] at h
    split at h
    · cases h
      exact .inr (takes_unary op target s)
    · cases h
  | _ => cases h

/-- From the state both actions are the same, and what follows is the same from
the state they leave. -/
theorem outcome_bind_congr {action action' : Action I α} {next next' : α → Action I β}
    {s : State I} (h : outcome action s = outcome action' s)
    (hnext : ∀ value s', outcome action' s = (.ok value, s') →
      outcome (next value) s' = outcome (next' value) s') :
    outcome (action >>= next) s = outcome (action' >>= next') s := by
  rw [outcome_bind, outcome_bind, h]
  rcases hafter : outcome action' s with ⟨value | value, after⟩
  · rfl
  · exact hnext value after hafter

/-- Reading a place changes nothing. -/
theorem snd_outcome_load (place : Located I) (s : State I) : (outcome (load place) s).2 = s := by
  cases place <;> rfl

theorem outcome_valueOf_of_locate {expr expr' : Expr} {s : State I}
    (h : outcome (locate I expr) s = outcome (locate I expr') s) :
    outcome (valueOf I expr) s = outcome (valueOf I expr') s :=
  outcome_bind_congr h fun _ _ _ => rfl

/-- A rewriting that keeps the outcome of each operand where it is evaluated keeps those of all.
-/
theorem outcome_valuesOf_map {f : Expr → Expr} {exprs : List Expr} {s : State I}
    (h : ∀ before operand after values s', exprs = before ++ operand :: after →
      outcome (valuesOf I before) s = (.ok values, s') →
      outcome (valueOf I (f operand)) s' = outcome (valueOf I operand) s') :
    outcome (valuesOf I (exprs.map f)) s = outcome (valuesOf I exprs) s := by
  induction exprs generalizing s with
  | nil => rfl
  | cons expr rest ih =>
    rw [List.map_cons, valuesOf, valuesOf]
    refine outcome_bind_congr (h [] expr rest [] s rfl rfl) fun value s' hvalue =>
      outcome_bind_congr (ih ?_) fun _ _ _ => rfl
    intro before operand after values s'' hrest hbefore
    refine h (expr :: before) operand after (value :: values) s'' ?_ ?_
    · rw [hrest, List.cons_append]
    · rw [valuesOf]
      exact (outcome_bind_ok _ hvalue).trans (outcome_bind_ok _ hbefore)

/-- A node comes to the same place if the operands that are taken come to the same
values, and what is written to stays the same place. -/
theorem outcome_locate_mapChildren {f : Expr → Expr} {expr : Expr} {s : State I}
    (htakes : ∀ operand ∈ expr.children, ∀ s', Takes I expr s operand s' →
      outcome (valueOf I (f operand)) s' = outcome (valueOf I operand) s')
    (hplace : ∀ target, expr.updated? = some target →
      outcome (locate I (f target)) s = outcome (locate I target) s) :
    outcome (locate I (expr.mapChildren f)) s = outcome (locate I expr) s := by
  by_cases hstrict : isStrict expr = true
  · rw [locate_of_isStrict hstrict,
      locate_of_isStrict ((isStrict_mapChildren f expr).trans hstrict),
      assemble_mapChildren, Expr.children_mapChildren]
    refine outcome_bind_congr (outcome_valuesOf_map ?_) fun _ _ _ => rfl
    intro before operand after values s' hchildren hbefore
    have hmem : operand ∈ expr.children := by
      rw [hchildren]
      exact List.mem_append_right _ List.mem_cons_self
    exact htakes operand hmem s' (.strict hstrict hchildren hbefore)
  cases expr with
  | binary op left right =>
    have hlazy : op.isShortCircuit = true := by simpa [isStrict] using hstrict
    have hfirst := htakes left List.mem_cons_self s (.lazyLeft left right s hlazy)
    have hmem : right ∈ (Expr.binary op left right).children :=
      List.mem_cons_of_mem _ List.mem_cons_self
    rw [Expr.mapChildren, locate, locate]
    simp only [hlazy, if_true]
    refine outcome_bind_congr hfirst fun value s' hleft => ?_
    by_cases hneeded : I.isTrue value = (op == .and)
    · rw [if_pos hneeded, if_pos hneeded]
      have hright := htakes right hmem s' (.lazyRight hlazy hleft hneeded)
      exact outcome_bind_congr hright fun _ _ _ => rfl
    · rw [if_neg hneeded, if_neg hneeded]
  | unary op operand =>
    have hop : op.isMutating = true := by simpa [isStrict] using hstrict
    have hoperand := hplace operand (by rw [Expr.updated?, if_pos hop])
    rw [Expr.mapChildren, locate, locate]
    exact outcome_bind_congr hoperand fun _ _ _ => rfl
  | assign op target value =>
    have htarget := hplace target rfl
    have hmem : value ∈ (Expr.assign op target value).children :=
      List.mem_cons_of_mem _ List.mem_cons_self
    cases op with
    | none =>
      rw [Expr.mapChildren, locate, locate]
      refine outcome_bind_congr htarget fun place s' hlocated => ?_
      exact outcome_bind_congr (htakes value hmem s' (.assigned none hlocated)) fun _ _ _ => rfl
    | some op =>
      rw [Expr.mapChildren, locate, locate]
      refine outcome_bind_congr htarget fun place s' hlocated =>
        outcome_bind_congr rfl fun old s'' hold => ?_
      have hsame : s'' = s' := by rw [← snd_outcome_load place s', hold]
      rw [hsame]
      exact outcome_bind_congr (htakes value hmem s' (.assigned (some op) hlocated))
        fun _ _ _ => rfl
  | conditional condition whenTrue whenFalse =>
    have hfirst := htakes condition List.mem_cons_self s (.condition condition whenTrue whenFalse s)
    rw [Expr.mapChildren, locate, locate]
    refine outcome_bind_congr hfirst fun value s' hcondition => ?_
    by_cases htrue : I.isTrue value = true
    · rw [if_pos htrue, if_pos htrue]
      have hbranch := htakes whenTrue (List.mem_cons_of_mem _ List.mem_cons_self) s'
        (.whenTrue hcondition htrue)
      exact outcome_bind_congr hbranch fun _ _ _ => rfl
    · rw [if_neg htrue, if_neg htrue]
      have hbranch := htakes whenFalse
        (List.mem_cons_of_mem _ (List.mem_cons_of_mem _ List.mem_cons_self)) s'
        (.whenFalse hcondition htrue)
      exact outcome_bind_congr hbranch fun _ _ _ => rfl
  | _ => exact absurd rfl hstrict

/-! ## Statements -/

variable (I) in
/-- A loop that is started in `s` has made so many turns and is back at its condition
in `s'`. -/
inductive Turns (turns : Nat) (condition : Expr) (body : Block) : State I → Nat → State I → Prop
  | start (s : State I) : Turns turns condition body s 0 s
  | next {value : I.Value} {completion : Completion I} {s entered left s' : State I} {n : Nat}
      (hcondition : outcome (valueOf I condition) s = (.ok value, entered))
      (htrue : I.isTrue value = true)
      (hbody : executeAll I turns body entered = some (completion, left))
      (hcompletion : completion = .normal ∨ completion = .continued)
      (h : Turns turns condition body left n s') :
    Turns turns condition body s (n + 1) s'

variable (I) in
/-- A statement that is run from `s` enters the block in `s'`. -/
inductive Enters (turns : Nat) : Stmt → State I → Block → State I → Prop
  | block (body : Block) (s : State I) : Enters turns (.block body) s body s
  | ifThen {condition : Expr} (body : Block) {value : I.Value} {s s' : State I}
      (hcondition : outcome (valueOf I condition) s = (.ok value, s'))
      (htrue : I.isTrue value = true) :
    Enters turns (.ifThen condition body) s body s'
  | whenTrue {condition : Expr} (body otherwise : Block) {value : I.Value} {s s' : State I}
      (hcondition : outcome (valueOf I condition) s = (.ok value, s'))
      (htrue : I.isTrue value = true) :
    Enters turns (.ifElse condition body otherwise) s body s'
  | whenFalse {condition : Expr} (body otherwise : Block) {value : I.Value} {s s' : State I}
      (hcondition : outcome (valueOf I condition) s = (.ok value, s'))
      (hfalse : ¬I.isTrue value = true) :
    Enters turns (.ifElse condition body otherwise) s otherwise s'
  | turn {condition : Expr} {body : Block} {value : I.Value} {n : Nat} {s back s' : State I}
      (hturns : Turns I turns condition body s n back) (hn : n < turns)
      (hcondition : outcome (valueOf I condition) back = (.ok value, s'))
      (htrue : I.isTrue value = true) :
    Enters turns (.loop condition body) s body s'

variable (I) in
/-- A run of the block from `s` comes to evaluate an expression that belongs to one of
its statements, at any depth, and starts to do so in `s'`. -/
inductive Starts (turns : Nat) : Block → State I → Expr → State I → Prop
  | own {stmt : Stmt} {expr : Expr} (rest : Block) (s : State I) (h : expr ∈ stmt.exprs) :
    Starts turns (stmt :: rest) s expr s
  | again {condition : Expr} {body : Block} {n : Nat} {s s' : State I} (rest : Block)
      (hturns : Turns I turns condition body s n s') (hn : n < turns) :
    Starts turns (.loop condition body :: rest) s condition s'
  | inside {stmt : Stmt} {block : Block} {expr : Expr} {s entered s' : State I} (rest : Block)
      (henters : Enters I turns stmt s block entered) (h : Starts turns block entered expr s') :
    Starts turns (stmt :: rest) s expr s'
  | later {stmt : Stmt} {rest : Block} {expr : Expr} {s after s' : State I}
      (hstmt : execute I turns stmt s = some (.normal, after))
      (h : Starts turns rest after expr s') :
    Starts turns (stmt :: rest) s expr s'

variable (I) in
/-- A run of the block from `s` comes to take the value of the expression from `s'`. -/
def Evaluated (turns : Nat) (block : Block) (s : State I) (expr : Expr) (s' : State I) : Prop :=
  ∃ own started, Starts I turns block s own started ∧ Evaluates I own started expr s'

theorem Starts.cons {turns : Nat} {stmt : Stmt} {expr : Expr} {s s' : State I} (rest : Block)
    (h : Starts I turns [stmt] s expr s') : Starts I turns (stmt :: rest) s expr s' := by
  cases h with
  | own _ _ hexpr => exact .own rest s hexpr
  | again _ hturns hn => exact .again rest hturns hn
  | inside _ henters h => exact .inside rest henters h
  | later _ h => cases h

/-- Evaluations do the same from a state if what they evaluate does, and what follows it. -/
theorem evaluating_congr {action action' : Action I α} {next next' : α → Run I} {s : State I}
    (h : outcome action s = outcome action' s)
    (hnext : ∀ value s', outcome action' s = (.ok value, s') → next value s' = next' value s') :
    evaluating action next s = evaluating action' next' s := by
  rw [evaluating, evaluating, h]
  rcases hafter : outcome action' s with ⟨value | value, after⟩
  · rfl
  · exact hnext value after hafter

/-- What follows counts only if the first part ends normally. -/
theorem followedBy_congr {first first' second second' : Run I} {s : State I}
    (h : first s = first' s)
    (hnext : ∀ after, first' s = some (.normal, after) → second after = second' after) :
    followedBy first second s = followedBy first' second' s := by
  rw [followedBy, followedBy, h]
  cases hafter : first' s with
  | none => rfl
  | some outcome =>
    obtain ⟨completion, after⟩ := outcome
    cases completion with
    | normal => exact hnext after hafter
    | _ => rfl

/-- A loop does the same if its condition and its body do at each turn that is reached. -/
theorem repeating_congr {turns : Nat} {condition condition' : Expr} {body body' : Block}
    {s : State I} {n : Nat}
    (hcondition : ∀ k s', Turns I turns condition body s k s' → k < n →
      outcome (valueOf I condition') s' = outcome (valueOf I condition) s')
    (hbody : ∀ k back value s', Turns I turns condition body s k back → k < n →
      outcome (valueOf I condition) back = (.ok value, s') → I.isTrue value = true →
      executeAll I turns body' s' = executeAll I turns body s') :
    repeating (valueOf I condition') (executeAll I turns body') n s =
      repeating (valueOf I condition) (executeAll I turns body) n s := by
  induction n generalizing s with
  | zero => rfl
  | succ n ih =>
    rw [repeating, repeating]
    refine evaluating_congr (hcondition 0 s (.start s) (Nat.succ_pos n)) fun value s' hvalue => ?_
    by_cases htrue : I.isTrue value = true
    · rw [if_pos htrue, if_pos htrue, hbody 0 s value s' (.start s) (Nat.succ_pos n) hvalue htrue]
      have hrest : ∀ completion after, executeAll I turns body s' = some (completion, after) →
          (completion = .normal ∨ completion = .continued) →
          repeating (valueOf I condition') (executeAll I turns body') n after =
            repeating (valueOf I condition) (executeAll I turns body) n after := by
        intro completion after hafter hcompletion
        refine ih (fun k back hturns hk => ?_) fun k back value' s'' hturns hk => ?_
        · exact hcondition (k + 1) back (.next hvalue htrue hafter hcompletion hturns)
            (Nat.succ_lt_succ hk)
        · exact hbody (k + 1) back value' s'' (.next hvalue htrue hafter hcompletion hturns)
            (Nat.succ_lt_succ hk)
      cases hafter : executeAll I turns body s' with
      | none => rfl
      | some outcome =>
        obtain ⟨completion, after⟩ := outcome
        cases completion with
        | normal => exact hrest .normal after hafter (.inl rfl)
        | continued => exact hrest .continued after hafter (.inr rfl)
        | _ => rfl
    · rw [if_neg htrue, if_neg htrue]

/-! What is evaluated stands in the tree. -/

theorem mem_nodes_of_takes {expr operand : Expr} {s s' : State I} (h : Takes I expr s operand s') :
    operand ∈ expr.nodes := by
  have hchild : ∀ {expr operand : Expr}, operand ∈ expr.children → operand ∈ expr.nodes :=
    fun hmem => Expr.mem_nodes_of_child hmem (Expr.mem_nodes_self _)
  induction h with
  | strict _ hchildren =>
    refine hchild ?_
    rw [hchildren]
    exact List.mem_append_right _ List.mem_cons_self
  | place value _ ih => exact Expr.mem_nodes_of_child List.mem_cons_self ih
  | lazyRight | assigned | whenTrue => exact hchild (List.mem_cons_of_mem _ List.mem_cons_self)
  | whenFalse => exact hchild (List.mem_cons_of_mem _ (List.mem_cons_of_mem _ List.mem_cons_self))
  | _ => exact hchild List.mem_cons_self

theorem mem_nodes_of_evaluates {expr other : Expr} {s s' : State I}
    (h : Evaluates I expr s other s') : other ∈ expr.nodes := by
  induction h with
  | here expr s => exact expr.mem_nodes_self
  | operand htakes _ ih => exact Expr.nodes_subset_of_mem (mem_nodes_of_takes htakes) ih

theorem mem_blocks_of_enters {turns : Nat} {stmt : Stmt} {block : Block} {s s' : State I}
    (h : Enters I turns stmt s block s') : block ∈ stmt.blocks := by
  cases h with
  | whenFalse => exact List.mem_cons_of_mem _ List.mem_cons_self
  | _ => exact List.mem_cons_self

/-- What a run of the block starts with stands rewritten in the rewritten block. -/
theorem nodes_mapCounting_subset_of_starts {turns : Nat} {block : Block} {expr : Expr}
    {s s' : State I} (step : Expr → Expr × Nat) (h : Starts I turns block s expr s') :
    (expr.mapCounting step).1.nodes ⊆ Block.nodes (Block.mapCounting step block).1 := by
  have hcons : ∀ (stmt : Stmt) (rest : Block),
      Block.nodes (Block.mapCounting step (stmt :: rest)).1 =
        stmt.exprs.flatMap (fun expr => (expr.mapCounting step).1.nodes) ++
          stmt.blocks.flatMap (fun inner => Block.nodes (Block.mapCounting step inner).1) ++
          Block.nodes (Block.mapCounting step rest).1 := by
    intro stmt rest
    rw [Block.mapCounting_fst, List.map_cons, Block.nodes_cons, Stmt.mapCounting_fst,
      Block.nodes_singleton, Stmt.nodes, Stmt.exprs_mapParts, Stmt.blocks_mapParts,
      List.flatMap_map, List.flatMap_map, ← Block.mapCounting_fst]
    rfl
  have hown : ∀ {stmt : Stmt} {expr : Expr} (rest : Block), expr ∈ stmt.exprs →
      (expr.mapCounting step).1.nodes ⊆ Block.nodes (Block.mapCounting step (stmt :: rest)).1 := by
    intro stmt expr rest hexpr node hnode
    rw [hcons]
    exact List.mem_append_left _ (List.mem_append_left _ (List.mem_flatMap.2 ⟨expr, hexpr, hnode⟩))
  induction h with
  | own rest s hexpr => exact hown rest hexpr
  | again rest => exact hown rest List.mem_cons_self
  | inside rest henters _ ih =>
    intro node hnode
    rw [hcons]
    exact List.mem_append_left _ (List.mem_append_right _
      (List.mem_flatMap.2 ⟨_, mem_blocks_of_enters henters, ih hnode⟩))
  | later _ _ ih =>
    intro node hnode
    rw [hcons]
    exact List.mem_append_right _ (ih hnode)

theorem nodes_subset_of_starts {turns : Nat} {block : Block} {expr : Expr} {s s' : State I}
    (h : Starts I turns block s expr s') : expr.nodes ⊆ Block.nodes block := by
  have hsubset := nodes_mapCounting_subset_of_starts (fun node => (node, 0)) h
  rw [Expr.mapCounting_eq_self fun _ _ => rfl, Block.mapCounting_eq_self fun _ _ => rfl] at hsubset
  exact hsubset

/-- What a run evaluates is a node of the block. -/
theorem mem_nodes_of_evaluated {turns : Nat} {block : Block} {expr : Expr} {s s' : State I}
    (h : Evaluated I turns block s expr s') : expr ∈ Block.nodes block := by
  obtain ⟨own, started, hstarts, hevaluates⟩ := h
  exact nodes_subset_of_starts hstarts (mem_nodes_of_evaluates hevaluates)

section Rewriting

variable {turns : Nat} {step : Expr → Expr × Nat}

/-- The rewriting keeps what the expression comes to from the state. -/
def Keeps (I : Interpretation) (step : Expr → Expr × Nat) (expr : Expr) (s : State I) : Prop :=
  outcome (valueOf I (expr.mapCounting step).1) s = outcome (valueOf I expr) s

/-- A rewriting that keeps what is evaluated keeps the run. -/
theorem executeAll_map_of_keeps {f : Stmt → Stmt} {block : Block}
    (hstmts : ∀ stmt ∈ block, ∀ s : State I,
      (∀ expr s', Starts I turns [stmt] s expr s' → Keeps I step expr s') →
        execute I turns (f stmt) s = execute I turns stmt s)
    {s : State I} (h : ∀ expr s', Starts I turns block s expr s' → Keeps I step expr s') :
    executeAll I turns (block.map f) s = executeAll I turns block s := by
  induction block generalizing s with
  | nil => rfl
  | cons stmt rest ih =>
    rw [List.map_cons, executeAll, executeAll]
    refine followedBy_congr (hstmts stmt List.mem_cons_self s fun expr s' hstarts =>
      h expr s' (hstarts.cons rest)) fun after hafter => ?_
    exact ih (fun other hother => hstmts other (List.mem_cons_of_mem _ hother))
      fun expr s' hstarts => h expr s' (.later hafter hstarts)

theorem execute_mapCounting {stmt : Stmt} {s : State I}
    (h : ∀ expr s', Starts I turns [stmt] s expr s' → Keeps I step expr s') :
    execute I turns (stmt.mapCounting step fun stmt => (stmt, 0)).1 s = execute I turns stmt s := by
  induction stmt using Stmt.induction_blocks generalizing s with
  | step stmt ih =>
    have hblock : ∀ block ∈ stmt.blocks, ∀ s',
        (∀ expr s'', Starts I turns block s' expr s'' → Keeps I step expr s'') →
        executeAll I turns (Stmt.mapCountingBlock step (fun stmt => (stmt, 0)) block).1 s' =
          executeAll I turns block s' := by
      intro block hblock s' hkeeps
      rw [Stmt.mapCountingBlock_fst]
      exact executeAll_map_of_keeps (fun inner hinner s'' h => ih block hblock inner hinner h)
        hkeeps
    have hown : ∀ expr ∈ stmt.exprs, Keeps I step expr s :=
      fun expr hexpr => h expr s (.own [] s hexpr)
    have hinside : ∀ block s', Enters I turns stmt s block s' →
        ∀ expr s'', Starts I turns block s' expr s'' → Keeps I step expr s'' :=
      fun block s' henters expr s'' hstarts => h expr s'' (.inside [] henters hstarts)
    rw [Stmt.mapCounting_fst]
    cases stmt with
    | expr value | raise value =>
      exact evaluating_congr (hown value List.mem_cons_self) fun _ _ _ => rfl
    | declare id value | ret value =>
      cases value with
      | none => rfl
      | some value => exact evaluating_congr (hown value List.mem_cons_self) fun _ _ _ => rfl
    | block body => exact hblock body List.mem_cons_self s (hinside body s (.block body s))
    | ifThen condition body =>
      refine evaluating_congr (hown condition List.mem_cons_self) fun value s' hvalue => ?_
      by_cases htrue : I.isTrue value = true
      · rw [if_pos htrue, if_pos htrue]
        exact hblock body List.mem_cons_self s' (hinside body s' (.ifThen body hvalue htrue))
      · rw [if_neg htrue, if_neg htrue]
    | ifElse condition body otherwise =>
      refine evaluating_congr (hown condition List.mem_cons_self) fun value s' hvalue => ?_
      by_cases htrue : I.isTrue value = true
      · rw [if_pos htrue, if_pos htrue]
        exact hblock body List.mem_cons_self s'
          (hinside body s' (.whenTrue body otherwise hvalue htrue))
      · rw [if_neg htrue, if_neg htrue]
        exact hblock otherwise (List.mem_cons_of_mem _ List.mem_cons_self) s'
          (hinside otherwise s' (.whenFalse body otherwise hvalue htrue))
    | loop condition body =>
      refine repeating_congr (fun k s' hturns hk => h condition s' (.again [] hturns hk)) ?_
      intro k back value s' hturns hk hvalue htrue
      exact hblock body List.mem_cons_self s' (hinside body s' (.turn hturns hk hvalue htrue))
    | _ => rfl

/-- A rewriting that keeps each expression from the states it is evaluated in keeps
the run. -/
theorem executeAll_mapCounting {block : Block} {s : State I}
    (h : ∀ expr s', Starts I turns block s expr s' → Keeps I step expr s') :
    executeAll I turns (Block.mapCounting step block).1 s = executeAll I turns block s := by
  rw [Block.mapCounting_fst]
  exact executeAll_map_of_keeps (fun _ _ _ h => execute_mapCounting h) h

end Rewriting

end Evaluation

end Assemblage
