import Assemblage.Proofs.Evaluation.Similarity

/-!
# Similar statements

Statements made of similar expressions and similar blocks end in the same way.
Both runs of a loop take the same turns, so that one has no outcome exactly if
the other has none.
-/

namespace Assemblage

open Evaluation

variable {I : Interpretation}

namespace Evaluation

variable {α β : Type}

/-- Actions in a row are evaluated in a row. -/
theorem evaluating_bind (action : Action I α) (following : α → Action I β) (next : β → Run I) :
    evaluating (action >>= following) next =
      evaluating action fun value => evaluating (following value) next := by
  funext state
  rw [evaluating, evaluating]
  rcases h : outcome action state with ⟨value | value, after⟩
  · rw [outcome_bind_error following h]
  · rw [outcome_bind_ok following h]
    rfl

theorem followedBy_evaluating (action : Action I α) (next : α → Run I) (last : Run I) :
    followedBy (evaluating action next) last =
      evaluating action fun value => followedBy (next value) last := by
  funext state
  rw [followedBy, evaluating, evaluating]
  rcases outcome action state with ⟨value | value, after⟩ <;> rfl

/-- Wherever the first run has an outcome, the second has the same one. -/
def Extends (first second : Run I) : Prop :=
  ∀ state result, first state = some result → second state = some result

theorem extends_refl (run : Run I) : Extends run run :=
  fun _ _ h => h

theorem extends_evaluating {action : Action I α} {next next' : α → Run I}
    (h : ∀ value, Extends (next value) (next' value)) :
    Extends (evaluating action next) (evaluating action next') := by
  intro state result hresult
  rw [evaluating] at hresult ⊢
  generalize outcome action state = found at hresult ⊢
  obtain ⟨value | value, after⟩ := found
  · exact hresult
  · exact h value after result hresult

theorem extends_followedBy {first first' second second' : Run I} (hfirst : Extends first first')
    (hsecond : Extends second second') :
    Extends (followedBy first second) (followedBy first' second') := by
  intro state result hresult
  rw [followedBy] at hresult ⊢
  cases hbefore : first state with
  | none =>
    rw [hbefore] at hresult
    cases hresult
  | some middle =>
    rw [hbefore] at hresult
    rw [hfirst state middle hbefore]
    obtain ⟨completion, after⟩ := middle
    cases completion with
    | normal => exact hsecond after result hresult
    | _ => exact hresult

/-- A loop with more turns gives the answers it gave with fewer. -/
theorem extends_repeating {condition : Action I I.Value} {body body' : Run I}
    (hbody : Extends body body') {turns turns' : Nat} (h : turns ≤ turns') :
    Extends (repeating condition body turns) (repeating condition body' turns') := by
  induction turns generalizing turns' with
  | zero =>
    intro _ _ hresult
    cases hresult
  | succ turns ih =>
    obtain ⟨more, rfl⟩ : ∃ more, turns' = more + 1 := Nat.exists_eq_add_one.2 (by omega)
    have hrest := ih (Nat.le_of_succ_le_succ h)
    rw [repeating, repeating]
    apply extends_evaluating
    intro value
    by_cases htrue : I.isTrue value = true
    · rw [if_pos htrue, if_pos htrue]
      intro state result hresult
      dsimp only at hresult ⊢
      cases hbefore : body state with
      | none =>
        rw [hbefore] at hresult
        cases hresult
      | some middle =>
        rw [hbefore] at hresult
        rw [hbody state middle hbefore]
        obtain ⟨completion, after⟩ := middle
        cases completion with
        | normal | continued => exact hrest after result hresult
        | _ => exact hresult
    · rw [if_neg htrue, if_neg htrue]
      exact extends_refl _

/-- Statements that give more answers do so in a row. -/
theorem extends_executeAll {turns turns' : Nat} {stmts : List Stmt}
    (h : ∀ stmt ∈ stmts, Extends (execute I turns stmt) (execute I turns' stmt)) :
    Extends (executeAll I turns stmts) (executeAll I turns' stmts) := by
  induction stmts with
  | nil => exact extends_refl _
  | cons stmt rest ih =>
    have hrest := ih fun other hother => h other (List.mem_cons_of_mem _ hother)
    exact extends_followedBy (h stmt List.mem_cons_self) hrest

/-- An outcome does not depend on the number of turns that loops are given. -/
theorem extends_execute {turns turns' : Nat} (h : turns ≤ turns') (stmt : Stmt) :
    Extends (execute I turns stmt) (execute I turns' stmt) := by
  induction stmt using Stmt.induction_blocks with
  | step stmt ih =>
    have hblocks : ∀ block ∈ stmt.blocks,
        Extends (executeAll I turns block) (executeAll I turns' block) :=
      fun block hblock => extends_executeAll fun inner hinner => ih block hblock inner hinner
    cases stmt with
    | block body => exact hblocks body List.mem_cons_self
    | ifThen condition body =>
      have hbody := hblocks body List.mem_cons_self
      apply extends_evaluating
      intro value
      split
      · exact hbody
      · exact extends_refl _
    | ifElse condition body otherwise =>
      have hbody := hblocks body List.mem_cons_self
      have hotherwise := hblocks otherwise (List.mem_cons_of_mem _ List.mem_cons_self)
      apply extends_evaluating
      intro value
      split
      · exact hbody
      · exact hotherwise
    | loop condition body => exact extends_repeating (hblocks body List.mem_cons_self) h
    | declare id value => cases value <;> exact extends_refl _
    | ret value => cases value <;> exact extends_refl _
    | _ => exact extends_refl _

end Evaluation

/-! ## Matching runs -/

/-- Two outcomes with the same completion and related states, or none at all. -/
inductive SameOutcome (Rel : State I → State I → Prop) :
    Option (Completion I × State I) → Option (Completion I × State I) → Prop
  | none : SameOutcome Rel none none
  | some {completion : Completion I} {left right : State I} (h : Rel left right) :
    SameOutcome Rel (some (completion, left)) (some (completion, right))

theorem SameOutcome.mono {Rel Weaker : State I → State I → Prop}
    (h : ∀ left right, Rel left right → Weaker left right)
    {left right : Option (Completion I × State I)} (hsame : SameOutcome Rel left right) :
    SameOutcome Weaker left right := by
  cases hsame with
  | none => exact .none
  | some hrel => exact .some (h _ _ hrel)

/-- The same outcome completes in the same way. -/
theorem SameOutcome.map_fst {Rel : State I → State I → Prop}
    {left right : Option (Completion I × State I)} (h : SameOutcome Rel left right) :
    left.map Prod.fst = right.map Prod.fst := by
  cases h with
  | none => rfl
  | some => rfl

namespace Similarity

variable (R : Similarity I)

/-- From related states two runs have the same outcome. -/
def Matches (left right : Run I) : Prop :=
  ∀ s s', R.Rel s s' → SameOutcome R.Rel (left s) (right s')

variable {R} {α : Type}

theorem matches_finish (completion : Completion I) :
    R.Matches (finish completion) (finish completion) :=
  fun _ _ h => .some h

theorem matches_assigning {id : VariableId} (h : R.Writes (.slot id)) (value : I.Value) :
    R.Matches (assigning id value) (assigning id value) :=
  fun _ _ hrel => .some (R.set h value hrel)

theorem matches_evaluating {left right : Action I α} {next next' : α → Run I}
    (h : R.Relates left right) (hnext : ∀ value, R.Matches (next value) (next' value)) :
    R.Matches (evaluating left next) (evaluating right next') := by
  intro s s' hrel
  obtain ⟨hresult, hafter, -⟩ := h s s' hrel
  have hright : outcome right s' = ((outcome left s).1, (outcome right s').2) :=
    Prod.ext hresult.symm rfl
  rw [evaluating, evaluating, hright]
  rcases hleft : outcome left s with ⟨value | value, after⟩
  · rw [hleft] at hafter
    exact .some hafter
  · rw [hleft] at hafter
    exact hnext value _ _ hafter

theorem matches_followedBy {first first' second second' : Run I} (hfirst : R.Matches first first')
    (hsecond : R.Matches second second') :
    R.Matches (followedBy first second) (followedBy first' second') := by
  intro s s' hrel
  have h := hfirst s s' hrel
  rw [followedBy, followedBy]
  generalize first s = left at h ⊢
  generalize first' s' = right at h ⊢
  cases h with
  | none => exact .none
  | @some completion _ _ hafter =>
    cases completion with
    | normal => exact hsecond _ _ hafter
    | _ => exact .some hafter

theorem matches_repeating {condition condition' : Action I I.Value} {body body' : Run I}
    (hcondition : R.Relates condition condition') (hbody : R.Matches body body') (turns : Nat) :
    R.Matches (repeating condition body turns) (repeating condition' body' turns) := by
  induction turns with
  | zero => exact fun _ _ _ => .none
  | succ turns ih =>
    rw [repeating, repeating]
    apply matches_evaluating hcondition
    intro value
    by_cases htrue : I.isTrue value = true
    · rw [if_pos htrue, if_pos htrue]
      intro s s' hrel
      have h := hbody s s' hrel
      dsimp only
      generalize body s = left at h ⊢
      generalize body' s' = right at h ⊢
      cases h with
      | none => exact .none
      | @some completion _ _ hafter =>
        cases completion with
        | normal | continued => exact ih _ _ hafter
        | _ => exact .some hafter
    · rw [if_neg htrue, if_neg htrue]
      exact matches_finish .normal

/-- A statement's own parts decide what it does. -/
theorem matches_mapParts {f : Expr → Expr} {g : Block → Block} {stmt : Stmt} (turns : Nat)
    (hexprs : ∀ expr ∈ stmt.exprs, R.Similar expr (f expr))
    (hblocks : ∀ block ∈ stmt.blocks,
      R.Matches (executeAll I turns block) (executeAll I turns (g block)))
    (hdeclared : ∀ id, stmt.declared? = some id → R.Reads (.slot id) ∧ R.Writes (.slot id)) :
    R.Matches (execute I turns stmt) (execute I turns (stmt.mapParts f g)) := by
  cases stmt with
  | expr value =>
    have hvalue := (hexprs value List.mem_cons_self).valueOf
    exact matches_evaluating hvalue fun _ => matches_finish .normal
  | declare id value =>
    obtain ⟨hreads, hwrites⟩ := hdeclared id rfl
    cases value with
    | none =>
      intro s s' hrel
      have hsame : s.slots id = s'.slots id := R.sameAt hreads hrel
      show SameOutcome R.Rel (assigning id (I.declared (s.slots id)) s)
        (assigning id (I.declared (s'.slots id)) s')
      rw [← hsame]
      exact matches_assigning hwrites _ s s' hrel
    | some value =>
      have hvalue := (hexprs value List.mem_cons_self).valueOf
      exact matches_evaluating hvalue (matches_assigning hwrites)
  | block body => exact hblocks body List.mem_cons_self
  | ifThen condition body =>
    have hcondition := (hexprs condition List.mem_cons_self).valueOf
    have hbody := hblocks body List.mem_cons_self
    apply matches_evaluating hcondition
    intro value
    split
    · exact hbody
    · exact matches_finish .normal
  | ifElse condition body otherwise =>
    have hcondition := (hexprs condition List.mem_cons_self).valueOf
    have hbody := hblocks body List.mem_cons_self
    have hotherwise := hblocks otherwise (List.mem_cons_of_mem _ List.mem_cons_self)
    apply matches_evaluating hcondition
    intro value
    split
    · exact hbody
    · exact hotherwise
  | loop condition body =>
    have hcondition := (hexprs condition List.mem_cons_self).valueOf
    have hbody := hblocks body List.mem_cons_self
    exact matches_repeating hcondition hbody turns
  | ret value =>
    cases value with
    | none => exact matches_finish (.returned none)
    | some value =>
      have hvalue := (hexprs value List.mem_cons_self).valueOf
      exact matches_evaluating hvalue fun result => matches_finish (.returned (some result))
  | breakLoop => exact matches_finish .broke
  | continueLoop => exact matches_finish .continued
  | raise value =>
    have hvalue := (hexprs value List.mem_cons_self).valueOf
    exact matches_evaluating hvalue fun result => matches_finish (.thrown result)

theorem matches_executeAll_nil (turns : Nat) :
    R.Matches (executeAll I turns []) (executeAll I turns []) :=
  matches_finish .normal

theorem matches_executeAll_cons {turns : Nat} {stmt stmt' : Stmt} {rest rest' : List Stmt}
    (hstmt : R.Matches (execute I turns stmt) (execute I turns stmt'))
    (hrest : R.Matches (executeAll I turns rest) (executeAll I turns rest')) :
    R.Matches (executeAll I turns (stmt :: rest)) (executeAll I turns (stmt' :: rest')) :=
  matches_followedBy hstmt hrest

theorem matches_executeAll_map {turns : Nat} {f : Stmt → Stmt} {stmts : List Stmt}
    (h : ∀ stmt ∈ stmts, R.Matches (execute I turns stmt) (execute I turns (f stmt))) :
    R.Matches (executeAll I turns stmts) (executeAll I turns (stmts.map f)) := by
  induction stmts with
  | nil => exact matches_executeAll_nil turns
  | cons stmt rest ih =>
    have hrest := ih fun other hother => h other (List.mem_cons_of_mem _ hother)
    exact matches_executeAll_cons (h stmt List.mem_cons_self) hrest

/-- Statements whose nodes and declarations are all allowed match themselves. -/
theorem matches_self {turns : Nat} {stmt : Stmt}
    (hnodes : ∀ node ∈ Block.nodes [stmt], R.Permits node)
    (hdeclared : ∀ id ∈ Block.declared [stmt], R.Reads (.slot id) ∧ R.Writes (.slot id)) :
    R.Matches (execute I turns stmt) (execute I turns stmt) := by
  induction stmt using Stmt.induction_blocks with
  | step stmt ih =>
    rw [Block.nodes_singleton] at hnodes
    rw [Block.declared_singleton] at hdeclared
    have hself : stmt.mapParts (fun expr => expr) (List.map fun inner => inner) = stmt := by
      cases stmt <;> simp [Stmt.mapParts]
    have hexprs : ∀ expr ∈ stmt.exprs, R.Similar expr expr := by
      intro expr hexpr
      apply similar_self
      intro node hnode
      exact hnodes node (List.mem_append_left _ (List.mem_flatMap.2 ⟨expr, hexpr, hnode⟩))
    have hblocks : ∀ block ∈ stmt.blocks, R.Matches (executeAll I turns block)
        (executeAll I turns (block.map fun inner => inner)) := by
      intro block hblock
      apply matches_executeAll_map
      intro inner hinner
      apply ih block hblock inner hinner
      · intro node hnode
        have hmem := Block.nodes_subset_of_mem hinner hnode
        exact hnodes node (List.mem_append_right _ (List.mem_flatMap.2 ⟨block, hblock, hmem⟩))
      · intro id hid
        have hmem := Block.declared_subset_of_mem hinner hid
        exact hdeclared id (List.mem_append_right _ (List.mem_flatMap.2 ⟨block, hblock, hmem⟩))
    have hown : ∀ id, stmt.declared? = some id → R.Reads (.slot id) ∧ R.Writes (.slot id) := by
      intro id hid
      exact hdeclared id (List.mem_append_left _ (by rw [hid]; exact List.mem_cons_self))
    have hmapped := matches_mapParts turns hexprs hblocks hown
    rwa [hself] at hmapped

theorem matches_executeAll_self {turns : Nat} {stmts : List Stmt}
    (hnodes : ∀ node ∈ Block.nodes stmts, R.Permits node)
    (hdeclared : ∀ id ∈ Block.declared stmts, R.Reads (.slot id) ∧ R.Writes (.slot id)) :
    R.Matches (executeAll I turns stmts) (executeAll I turns stmts) := by
  have hall : R.Matches (executeAll I turns stmts)
      (executeAll I turns (stmts.map fun stmt => stmt)) := by
    apply matches_executeAll_map
    intro stmt hstmt
    apply matches_self
    · exact fun node hnode => hnodes node (Block.nodes_subset_of_mem hstmt hnode)
    · exact fun id hid => hdeclared id (Block.declared_subset_of_mem hstmt hid)
  rwa [List.map_id'] at hall

end Similarity

end Assemblage
