import Assemblage.Proofs.Evaluation.Visits
import Assemblage.Proofs.Lowering.NormalForms

/-!
# The rules for operators

What each rule asks for and what it makes of an expression, apart from the order
in which the pass tries them.  No rule changes the type that an expression
reports, and the variable an expression reads first is read first by what it was
made of.
-/

namespace Assemblage.Lowering.OperatorForms

open Evaluation

variable {table : VariableTable} {expr next : Expr} {form : Form} {id : VariableId}

/-- A node is normal if no rule applies. -/
theorem isNormal_iff : IsNormal table expr ↔ ∀ form next, ¬Rule table form expr next := by
  rw [IsNormal, Option.eq_none_iff_forall_not_mem]
  constructor
  · exact fun h form next hrule => h next (step?_eq_some_iff.2 ⟨form, hrule⟩)
  · intro h next hnext
    obtain ⟨form, hrule⟩ := step?_eq_some_iff.1 hnext
    exact h form next hrule

theorem isNormal_of_isLocation (h : expr.isLocation = true) : IsNormal table expr := by
  cases expr <;> first | rfl | cases h

theorem isNormal_of_isMutating {op : UnaryOp} (operand : Expr) (h : op.isMutating = true) :
    IsNormal table (.unary op operand) := by
  cases op <;> first | rfl | cases h

/-- The expression with the rules applied at all of its nodes. -/
def shortened (table : VariableTable) (expr : Expr) : Expr :=
  (expr.mapCounting (normalize table)).1

/-- The parts of an expression are shortened and then the expression is normalized. -/
theorem shortened_eq (table : VariableTable) (expr : Expr) :
    shortened table expr = (normalize table (expr.mapChildren (shortened table))).1 :=
  Expr.mapCounting_fst (normalize table) expr

theorem isLocation_mapChildren (f : Expr → Expr) (expr : Expr) :
    (expr.mapChildren f).isLocation = expr.isLocation := by
  cases expr <;> rfl

theorem shortened_of_isLocation (h : expr.isLocation = true) :
    shortened table expr = expr.mapChildren (shortened table) := by
  rw [shortened_eq]
  exact normalize_of_isNormal (isNormal_of_isLocation ((isLocation_mapChildren _ _).trans h))

theorem type?_mapChildren {f : Expr → Expr}
    (h : ∀ child ∈ expr.children, (f child).type? table = child.type? table) :
    (expr.mapChildren f).type? table = expr.type? table := by
  cases expr with
  | unary op operand =>
    have hoperand := h operand List.mem_cons_self
    cases op <;> first | rfl | exact hoperand
  | binary op left right =>
    have hleft := h left List.mem_cons_self
    rw [Expr.mapChildren, Expr.type?, Expr.type?, hleft]
  | assign op target value => exact h target List.mem_cons_self
  | conditional condition whenTrue whenFalse =>
    exact h whenTrue (List.mem_cons_of_mem _ List.mem_cons_self)
  | copy value => exact h value List.mem_cons_self
  | _ => rfl

/-- No rule changes a type. -/
theorem Rule.type?_eq (h : Rule table form expr next) : next.type? table = expr.type? table := by
  cases h with
  | doubleNegation htype => exact htype
  | _ => rfl

/-- Shortening changes no type. -/
theorem type?_shortened (expr : Expr) : (shortened table expr).type? table = expr.type? table := by
  induction expr using Expr.induction_children with
  | step expr ih =>
    rw [shortened_eq]
    exact normalize_induction (P := fun result => result.type? table = expr.type? table)
      (fun hrule htype => hrule.type?_eq.trans htype) (type?_mapChildren ih)

/-- The variable that the node itself counts up or down. -/
def counts : Expr → List VariableId
  | .unary op operand => if op.isMutating then operand.asVariable?.toList else []
  | _ => []

theorem nodes_of_asVariable? (h : expr.asVariable? = some id) : expr.nodes = [expr] := by
  rw [Expr.nodes_eq_cons, Expr.children_eq_nil_of_isVariable (Expr.isVariable_eq_true_iff.2 h)]
  rfl

theorem gather_counts_of_asVariable? (h : expr.asVariable? = some id) :
    expr.gather counts = [] := by
  rw [Expr.gather, nodes_of_asVariable? h]
  cases expr <;> first | rfl | cases h

/-- No rule takes away a count. -/
theorem Rule.counts_subset (h : Rule table form expr next) :
    expr.gather counts ⊆ next.gather counts := by
  cases h with
  | compound right htarget hleft hop =>
    simp [Expr.gather_eq counts (.assign ..), Expr.gather_eq counts (.binary ..), Expr.children,
      counts, gather_counts_of_asVariable? htarget, gather_counts_of_asVariable? hleft]
  | increment htarget | decrement htarget =>
    simp [Expr.gather_eq counts (.assign ..), Expr.gather_eq counts (.literal ..), Expr.children,
      counts, gather_counts_of_asVariable? htarget]
  | doubleNegation htype =>
    simp [Expr.gather_eq counts (.unary ..), Expr.children, counts, UnaryOp.isMutating]
  | inequality left right | equality left right =>
    simp [Expr.gather_eq counts (.unary ..), Expr.gather_eq counts (.binary ..), Expr.children,
      counts, UnaryOp.isMutating]

/-- Normalizing keeps the variables that are counted up or down. -/
theorem gather_counts_normalize (table : VariableTable) (expr : Expr) :
    expr.gather counts ⊆ (normalize table expr).1.gather counts :=
  normalize_induction (P := fun result => expr.gather counts ⊆ result.gather counts)
    (fun hrule hsubset => List.Subset.trans hsubset hrule.counts_subset) (List.Subset.refl _)

theorem gather_counts_shortened_of_child {child : Expr} (hchild : child ∈ expr.children) :
    (shortened table child).gather counts ⊆ (shortened table expr).gather counts := by
  rw [shortened_eq table expr]
  refine List.Subset.trans (fun id hid => ?_) (gather_counts_normalize table _)
  rw [Expr.gather_eq, Expr.children_mapChildren, List.flatMap_map]
  exact List.mem_append_right _ (List.mem_flatMap.2 ⟨child, hchild, hid⟩)

/-- The evaluation of the expression starts by reading the variable. -/
def Leads (id : VariableId) : Expr → Prop
  | .raw other | .bound other => other = id
  | .unary _ operand => Leads id operand
  | .binary _ left _ => Leads id left
  | .assign (some _) target _ => Leads id target
  | .assign none target value => target.asVariable?.isSome = true ∧ Leads id value
  | _ => False

theorem leads_of_asVariable? (h : expr.asVariable? = some id) : Leads id expr := by
  cases expr with
  | raw other | bound other => exact Option.some.inj h
  | _ => cases h

theorem eq_of_leads {other : VariableId} (h : expr.asVariable? = some other)
    (hleads : Leads id expr) : other = id := by
  cases expr with
  | raw _ | bound _ => exact (Option.some.inj h).symm.trans hleads
  | _ => cases h

theorem Rule.leads (h : Rule table form expr next) (hleads : Leads id next) : Leads id expr := by
  cases h with
  | compound right htarget hleft hop =>
    have hfirst : Leads id _ := eq_of_leads htarget hleads ▸ leads_of_asVariable? hleft
    exact ⟨Option.isSome_iff_exists.2 ⟨_, htarget⟩, hfirst⟩
  | _ => exact hleads

theorem leads_of_leads_normalize (h : Leads id (normalize table expr).1) : Leads id expr :=
  normalize_induction (P := fun result => Leads id result → Leads id expr)
    (fun hrule hbefore hleads => hbefore (hrule.leads hleads)) (fun hleads => hleads) h

end Assemblage.Lowering.OperatorForms
