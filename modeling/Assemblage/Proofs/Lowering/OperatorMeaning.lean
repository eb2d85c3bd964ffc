import Assemblage.Proofs.Evaluation.Agreement
import Assemblage.Proofs.Lowering.OperatorRules
import Assemblage.Proofs.Tree.Inside

/-!
# Shorter operators mean the same

A rule keeps the value of an expression and what its evaluation does, as long as
negations are taken of booleans and only integers are counted up or down.  Both
are asked for where they are needed: of the values that the given run takes.
-/

namespace Assemblage

open Evaluation

/-- Which values a type has, which values are integers, and what the operators in the
rules make of them. -/
structure Typing (I : Interpretation) where
  HasType : Signature → I.Value → Prop
  IsInteger : I.Value → Prop
  not_not : ∀ value, HasType (.primitive .boolean) value →
    I.unary .not (I.unary .not value) = value
  equal_boolean : ∀ left right, HasType (.primitive .boolean) (I.binary .equal left right)
  notEqual_eq : ∀ left right,
    I.binary .notEqual left right = I.unary .not (I.binary .equal left right)
  preIncrement_eq : ∀ value, IsInteger value →
    I.unary .preIncrement value = I.binary .add value (I.literal (.int 1))
  preDecrement_eq : ∀ value, IsInteger value →
    I.unary .preDecrement value = I.binary .sub value (I.literal (.int 1))

namespace Lowering.OperatorForms

variable {I : Interpretation}

/-- A value of the expression has the type that the expression reports. -/
def Typed (T : Typing I) (table : VariableTable) (expr : Expr) (s : State I) : Prop :=
  ∀ type value s', expr.type? table = some type →
    outcome (valueOf I expr) s = (.ok value, s') → T.HasType type value

/-- The value is of the type reported, a variable that is counted holds an integer, and
what is written to is a place. -/
structure Sound (T : Typing I) (table : VariableTable) (counted : VariableId → Prop) (expr : Expr)
    (s : State I) : Prop where
  typed : Typed T table expr s
  integer : ∀ id, counted id → expr.asVariable? = some id → T.IsInteger (s.slots id)
  place : ∀ target, expr.updated? = some target → target.isLocation = true

/-- Some node in the block counts the variable up or down. -/
def CountsIn (block : Block) (id : VariableId) : Prop :=
  ∃ op operand, Block.Inside (.unary op operand) block ∧ op.isMutating = true ∧
    operand.asVariable? = some id

theorem valueOf_not (operand : Expr) :
    valueOf I (.unary .not operand) =
      valueOf I operand >>= fun value => pure (I.unary .not value) := by
  rw [valueOf, locate, valueOf]
  simp only [UnaryOp.isMutating, Bool.false_eq_true, if_false, bind_assoc, pure_bind]
  rfl

theorem valueOf_binary {op : BinaryOp} (left right : Expr) (hop : op.isShortCircuit = false) :
    valueOf I (.binary op left right) = valueOf I left >>= fun value =>
      valueOf I right >>= fun other => pure (I.binary op value other) := by
  rw [valueOf, locate, valueOf, valueOf]
  simp only [hop, Bool.false_eq_true, if_false, bind_assoc, pure_bind]
  rfl

theorem isShortCircuit_of_isCompoundable {op : BinaryOp} (h : op.isCompoundable = true) :
    op.isShortCircuit = false := by
  cases op <;> first | rfl | cases h

/-- Operands of negations are of the types they report, down to the first operand that
is no negation. -/
def NotsTyped (T : Typing I) (table : VariableTable) : Expr → State I → Prop
  | .unary .not operand, s => Typed T table operand s ∧ NotsTyped T table operand s
  | _, _ => True

/-- A variable that the node itself counts up or down holds an integer. -/
def CountsInteger (T : Typing I) (expr : Expr) (s : State I) : Prop :=
  ∀ id ∈ counts expr, T.IsInteger (s.slots id)

variable {T : Typing I} {table : VariableTable} {expr next : Expr} {form : Form} {s : State I}

theorem outcome_update {op : UnaryOp} {target : Expr} {id : VariableId}
    (htarget : target.asVariable? = some id) (hop : op.isMutating = true)
    (hfresh : isPostfix op = false) :
    outcome (valueOf I (.unary op target)) s =
      (.ok (I.unary op (s.slots id)), s.set id (I.unary op (s.slots id))) := by
  rw [valueOf, locate, locate_of_isVariable (Expr.isVariable_eq_true_iff.2 htarget)]
  simp only [hop, hfresh, if_true]
  rfl

theorem outcome_compound_literal {op : BinaryOp} {target : Expr} {id : VariableId} (value : Literal)
    (htarget : target.asVariable? = some id) :
    outcome (valueOf I (.assign (some op) target (.literal value))) s =
      (.ok (I.binary op (s.slots id) (I.literal value)),
        s.set id (I.binary op (s.slots id) (I.literal value))) := by
  rw [valueOf, locate, locate_of_isVariable (Expr.isVariable_eq_true_iff.2 htarget)]
  rfl

/-- A rule keeps what an expression comes to. -/
theorem Rule.outcome_eq (h : Rule table form expr next) (hnots : NotsTyped T table expr s)
    (hcounts : CountsInteger T next s) :
    outcome (valueOf I next) s = outcome (valueOf I expr) s ∧ NotsTyped T table next s := by
  cases h with
  | @compound op target left id right htarget hleft hop =>
    refine ⟨?_, trivial⟩
    -- Both forms read the variable before the operand, which may write it.
    have hplace : locate I target = pure (.slot id) :=
      locate_of_isVariable (Expr.isVariable_eq_true_iff.2 htarget)
    have hread : valueOf I left = load (.slot id) := by
      rw [valueOf, locate_of_isVariable (Expr.isVariable_eq_true_iff.2 hleft), pure_bind]
    have hvalue : locate I (.binary op left right) >>= load = valueOf I (.binary op left right) :=
      rfl
    rw [valueOf, locate, valueOf, locate, hvalue,
      valueOf_binary left right (isShortCircuit_of_isCompoundable hop), hread, hplace]
    simp only [valueOf, pure_bind, bind_assoc]
  | @increment target id htarget =>
    refine ⟨?_, trivial⟩
    have hinteger :=
      T.preIncrement_eq _ (hcounts id (by simp [counts, UnaryOp.isMutating, htarget]))
    rw [outcome_update htarget rfl rfl, outcome_compound_literal _ htarget, hinteger]
  | @decrement target id htarget =>
    refine ⟨?_, trivial⟩
    have hinteger :=
      T.preDecrement_eq _ (hcounts id (by simp [counts, UnaryOp.isMutating, htarget]))
    rw [outcome_update htarget rfl rfl, outcome_compound_literal _ htarget, hinteger]
  | doubleNegation htype =>
    obtain ⟨-, htyped, hbelow⟩ := hnots
    refine ⟨?_, hbelow⟩
    rw [valueOf_not, valueOf_not, bind_assoc]
    simp only [pure_bind]
    rcases hvalue : outcome (valueOf I next) s with ⟨value | value, after⟩
    · exact (outcome_bind_error _ hvalue).symm
    · rw [outcome_bind_ok _ hvalue, outcome_pure, T.not_not _ (htyped _ _ _ htype hvalue)]
  | inequality left right =>
    refine ⟨?_, trivial⟩
    rw [valueOf_not, valueOf_binary left right rfl, valueOf_binary left right rfl]
    simp only [bind_assoc, pure_bind, T.notEqual_eq]
  | equality left right =>
    refine ⟨?_, trivial⟩
    rw [valueOf_not, valueOf_binary left right rfl, valueOf_binary left right rfl]
    simp only [bind_assoc, pure_bind, T.notEqual_eq, T.not_not _ (T.equal_boolean _ _)]

theorem notsTyped_mapChildren {f : Expr → Expr} (hnot : ∀ operand, expr = .unary .not operand →
    Typed T table (f operand) s ∧ NotsTyped T table (f operand) s) :
    NotsTyped T table (expr.mapChildren f) s := by
  cases expr with
  | unary op operand =>
    cases op with
    | not => exact hnot operand rfl
    | _ => trivial
  | _ => trivial

/-- No rule applies to a node that counts, so that the count stays. -/
theorem counts_subset_normalize (table : VariableTable) (expr : Expr) :
    counts expr ⊆ counts (normalize table expr).1 := by
  cases expr with
  | unary op operand =>
    by_cases hop : op.isMutating = true
    · rw [normalize_of_isNormal (isNormal_of_isMutating operand hop)]
      exact List.Subset.refl _
    · rw [counts, if_neg hop]
      exact List.nil_subset _
  | _ => exact List.nil_subset _

/-- Normalizing keeps the outcome of a node, and what is known of its negations. -/
theorem outcome_normalize (hnots : NotsTyped T table expr s)
    (hcounts : CountsInteger T (normalize table expr).1 s) :
    outcome (valueOf I (normalize table expr).1) s = outcome (valueOf I expr) s ∧
      NotsTyped T table (normalize table expr).1 s := by
  fun_induction normalize table expr with
  | case1 expr next hstep result n heq ih =>
    rw [heq] at ih
    obtain ⟨form, hrule⟩ := step?_eq_some_iff.1 hstep
    have hnext : CountsInteger T next s := by
      intro id hid
      have hmem := counts_subset_normalize table next hid
      rw [heq] at hmem
      exact hcounts id hmem
    obtain ⟨hsame, hbelow⟩ := hrule.outcome_eq hnots hnext
    obtain ⟨hresult, hnots'⟩ := ih hbelow hcounts
    exact ⟨hresult.trans hsame, hnots'⟩
  | case2 expr hstep => exact ⟨rfl, hnots⟩

/-! ## Whole expressions -/

variable {counted : VariableId → Prop}

/-- What is asked of an evaluation holds of all that the evaluation of the expression
from the state comes to. -/
def SoundFrom (T : Typing I) (table : VariableTable) (counted : VariableId → Prop) (expr : Expr)
    (s : State I) : Prop :=
  ∀ other s', Evaluates I expr s other s' → Sound T table counted other s'

theorem SoundFrom.here (h : SoundFrom T table counted expr s) : Sound T table counted expr s :=
  h expr s (.here expr s)

theorem SoundFrom.operand (h : SoundFrom T table counted expr s) {operand : Expr} {s' : State I}
    (htakes : Takes I expr s operand s') : SoundFrom T table counted operand s' :=
  fun other s'' hother => h other s'' (.operand htakes hother)

/-- The variable that the shortened expression reads first is read by the expression,
before anything else happens. -/
theorem exists_evaluates_of_leads {id : VariableId} (h : SoundFrom T table counted expr s)
    (hleads : Leads id (shortened table expr)) :
    ∃ read, Evaluates I expr s read s ∧ read.asVariable? = some id := by
  induction expr using Expr.induction_children with
  | step expr ih =>
    rw [shortened_eq] at hleads
    have hfirst := leads_of_leads_normalize hleads
    have hoperand : ∀ operand ∈ expr.children, Takes I expr s operand s →
        Leads id (shortened table operand) →
          ∃ read, Evaluates I expr s read s ∧ read.asVariable? = some id := by
      intro operand hmem htakes hleads
      obtain ⟨read, hread, hvariable⟩ := ih operand hmem (h.operand htakes) hleads
      exact ⟨read, .operand htakes hread, hvariable⟩
    cases expr with
    | raw other | bound other => exact ⟨_, .here _ s, congrArg some hfirst⟩
    | unary op operand =>
      exact hoperand operand List.mem_cons_self (takes_unary op operand s) hfirst
    | binary op left right =>
      exact hoperand left List.mem_cons_self (takes_left op left right s) hfirst
    | assign op target value =>
      cases op with
      | some op => exact hoperand target List.mem_cons_self (.read op target value s) hfirst
      | none =>
        obtain ⟨htarget, hvalue⟩ := hfirst
        rw [shortened_of_isLocation (h.here.place target rfl), Expr.asVariable?_mapChildren]
          at htarget
        obtain ⟨written, hwritten⟩ := Option.isSome_iff_exists.1 htarget
        have hplace : outcome (locate I target) s = (.ok (.slot written), s) := by
          rw [locate_of_isVariable (Expr.isVariable_eq_true_iff.2 hwritten)]
          rfl
        exact hoperand value (List.mem_cons_of_mem _ List.mem_cons_self)
          (.assigned none hplace) hvalue
    | _ => exact hfirst.elim

/-- What the shortened expression counts holds an integer. -/
theorem countsInteger_shortened (h : SoundFrom T table counted expr s)
    (hcounted : ∀ id ∈ (shortened table expr).gather counts, counted id) :
    CountsInteger T (shortened table expr) s := by
  intro id hid
  -- What is asked of a variable is known where it is read.  A count reads its variable
  -- first, and so does the expression, before its evaluation changes the state.
  have hleads : Leads id (shortened table expr) := by
    generalize shortened table expr = result at hid ⊢
    cases result with
    | unary op operand =>
      show Leads id operand
      rw [counts] at hid
      split at hid
      · have hvariable : operand.asVariable? = some id := Option.mem_toList.1 hid
        exact leads_of_asVariable? hvariable
      · exact absurd hid List.not_mem_nil
    | _ => exact absurd hid List.not_mem_nil
  obtain ⟨read, hread, hvariable⟩ := exists_evaluates_of_leads h hleads
  refine (h read s hread).integer id (hcounted id ?_) hvariable
  rw [Expr.gather_eq]
  exact List.mem_append_left _ hid

/-- From the state the expression and its shortened form come to the same. -/
structure Agrees (T : Typing I) (table : VariableTable) (expr : Expr) (s : State I) : Prop where
  valueOf : outcome (valueOf I (shortened table expr)) s = outcome (Evaluation.valueOf I expr) s
  nots : NotsTyped T table (shortened table expr) s

theorem Agrees.typed (h : Agrees T table expr s) (htyped : Typed T table expr s) :
    Typed T table (shortened table expr) s := by
  intro type value s' htype hvalue
  rw [type?_shortened] at htype
  exact htyped type value s' htype (h.valueOf.symm.trans hvalue)

theorem mem_children_of_updated? {target : Expr} (h : expr.updated? = some target) :
    target ∈ expr.children := by
  cases expr with
  | assign op place value =>
    cases h
    exact List.mem_cons_self
  | unary op place =>
    rw [Expr.updated?] at h
    split at h
    · cases h
      exact List.mem_cons_self
    · cases h
  | _ => cases h

theorem updated?_of_isLocation (h : expr.isLocation = true) : expr.updated? = none := by
  cases expr <;> first | rfl | cases h

variable (T table counted) in
/-- The expression agrees with its shortened form wherever it is evaluated soundly,
and a place stays the same place. -/
structure Kept (expr : Expr) : Prop where
  agrees : ∀ s, SoundFrom T table counted expr s → Agrees T table expr s
  place : expr.isLocation = true → ∀ s,
    (∀ operand s', Takes I expr s operand s' → SoundFrom T table counted operand s') →
      outcome (locate I (shortened table expr)) s = outcome (locate I expr) s

/-- A location is found where it was, if its parts keep their outcomes. -/
theorem outcome_locate_shortened_children (h : ∀ child ∈ expr.children, Kept T table counted child)
    (hsound : ∀ operand s', Takes I expr s operand s' → SoundFrom T table counted operand s')
    (hplace : ∀ target, expr.updated? = some target → target.isLocation = true) :
    outcome (locate I (expr.mapChildren (shortened table))) s = outcome (locate I expr) s := by
  refine outcome_locate_mapChildren (fun operand hmem s' htakes => ?_) fun target htarget => ?_
  · exact ((h operand hmem).agrees s' (hsound operand s' htakes)).valueOf
  · refine (h target (mem_children_of_updated? htarget)).place (hplace target htarget) s ?_
    intro operand s' htakes
    rcases takes_of_updated? htarget htakes with hoperand | hread
    · exact hsound operand s' hoperand
    · exact (hsound target s hread).operand htakes

/-- A shortened expression has the outcome of the expression. -/
theorem kept_shortened (hcounted : ∀ id ∈ (shortened table expr).gather counts, counted id) :
    Kept T table counted expr := by
  induction expr using Expr.induction_children with
  | step expr ih =>
    have hchildren : ∀ child ∈ expr.children, Kept T table counted child := fun child hchild =>
      ih child hchild fun id hid => hcounted id (gather_counts_shortened_of_child hchild hid)
    refine ⟨fun s h => ?_, fun hlocation s hsound => ?_⟩
    · have hlocate := outcome_locate_shortened_children hchildren
        (fun operand s' htakes => h.operand htakes) h.here.place
      have hnots : NotsTyped T table (expr.mapChildren (shortened table)) s := by
        refine notsTyped_mapChildren fun operand heq => ?_
        subst heq
        have hsound := h.operand (takes_unary .not operand s)
        have hagrees := (hchildren operand List.mem_cons_self).agrees s hsound
        exact ⟨hagrees.typed hsound.here.typed, hagrees.nots⟩
      have hcounts := countsInteger_shortened h hcounted
      rw [shortened_eq] at hcounts
      obtain ⟨hvalue, hbelow⟩ := outcome_normalize hnots hcounts
      rw [← shortened_eq] at hvalue hbelow
      exact ⟨hvalue.trans (outcome_valueOf_of_locate hlocate), hbelow⟩
    -- No rule applies to a place, so that only its operands are shortened.
    · rw [shortened_of_isLocation hlocation]
      refine outcome_locate_shortened_children hchildren hsound fun target htarget => ?_
      rw [updated?_of_isLocation hlocation] at htarget
      cases htarget

theorem mem_gather_counts_iff {block : Block} {id : VariableId} :
    id ∈ Block.gather counts block ↔ CountsIn block id := by
  rw [Block.gather, List.mem_flatMap]
  simp only [Block.mem_nodes_iff]
  constructor
  · rintro ⟨node, hnode, hid⟩
    cases node with
    | unary op operand =>
      rw [counts] at hid
      split at hid
      · exact ⟨op, operand, hnode, ‹_›, Option.mem_toList.1 hid⟩
      · exact absurd hid List.not_mem_nil
    | _ => exact absurd hid List.not_mem_nil
  · rintro ⟨op, operand, hnode, hop, hid⟩
    refine ⟨_, hnode, ?_⟩
    rw [counts, if_pos hop]
    exact Option.mem_toList.2 hid

/-- A run from the state does the same before and after the pass. -/
theorem executeAll_run {tree : MethodTree} {turns : Nat}
    (h : ∀ expr s', Evaluated I turns tree.body s expr s' →
      Sound T tree.table (CountsIn (run tree).1.body) expr s') :
    executeAll I turns (run tree).1.body s = executeAll I turns tree.body s := by
  refine executeAll_mapCounting fun expr s' hstarts => ?_
  have hcounted : ∀ id ∈ (shortened tree.table expr).gather counts,
      CountsIn (run tree).1.body id := by
    intro id hid
    obtain ⟨node, hnode, hid⟩ := List.mem_flatMap.1 hid
    have hmem := nodes_mapCounting_subset_of_starts (normalize tree.table) hstarts hnode
    exact mem_gather_counts_iff.1 (List.mem_flatMap.2 ⟨node, hmem, hid⟩)
  exact ((kept_shortened hcounted).agrees s' fun other s'' hother =>
    h other s'' ⟨expr, s', hstarts, hother⟩).valueOf

end Lowering.OperatorForms

end Assemblage
