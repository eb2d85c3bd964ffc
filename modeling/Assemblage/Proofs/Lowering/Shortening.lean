import Assemblage.Proofs.Lowering.OperatorMeaning
import Assemblage.Proofs.Tree.Rewriting

/-!
# What the shortening of operators does

A run applies one rule after the other, each at some node of the body, and ends
where none applies.  It reports how many it has applied; as every rule takes nodes
away, there are never more than the body has nodes, and none for a second run.
What the body does stays the same.
-/

namespace Assemblage.Lowering.OperatorForms

open Evaluation

variable {table : VariableTable} {form : Form} {block result : Block}

/-- A rule of the form is applied at some node of the block. -/
def Applies (table : VariableTable) (form : Form) : Block → Block → Prop :=
  Block.Within (Block.ChangesExpr (Expr.Within (Rule table form)))

/-- Each rule that is applied leaves fewer nodes. -/
theorem Applies.length_nodes_lt (h : Applies table form block result) :
    (Block.nodes result).length < (Block.nodes block).length :=
  Block.length_nodes_lt_of_within
    (Expr.Within.length_nodes_lt fun hrule => length_nodes_step? hrule.step?) h

theorem stepsTo_normalize (table : VariableTable) (expr : Expr) :
    StepsTo (Rule table) expr (normalize table expr) := by
  fun_induction normalize table expr with
  | case1 expr next hstep result n heq ih =>
    rw [heq] at ih
    obtain ⟨form, hrule⟩ := step?_eq_some_iff.1 hstep
    rw [Nat.add_comm]
    exact (StepsTo.one hrule).trans ih
  | case2 expr hstep => exact .none _ _

/-- A run applies as many rules as it counts. -/
theorem stepsTo_run (tree : MethodTree) :
    StepsTo (Applies tree.table) tree.body ((run tree).1.body, (run tree).2) := by
  refine Block.stepsTo_mapCounting (fun expr => ?_) tree.body
  exact Expr.stepsTo_mapCounting
    (fun node => (stepsTo_normalize tree.table node).mono fun _ _ _ hrule => .here hrule) expr

/-- A run applies no more rules than there are nodes to take away. -/
theorem length_nodes_run (tree : MethodTree) :
    (Block.nodes (run tree).1.body).length + (run tree).2 ≤ (Block.nodes tree.body).length := by
  obtain ⟨forms, hlength, hsteps⟩ := stepsTo_run tree
  rw [← hlength]
  exact hsteps.length_le (fun block => (Block.nodes block).length) Applies.length_nodes_lt

theorem run_run (tree : MethodTree) : run (run tree).1 = ((run tree).1, 0) := by
  have hsame : (run (run tree).1).1 = (run tree).1 := run_eq_self (isNormal_run tree)
  have hnodes := length_nodes_run (run tree).1
  rw [hsame] at hnodes
  exact Prod.ext hsame (by omega)

/-- The body does the same after a run of the pass, as long as the values that it takes
are of the types reported and only integers are counted.  No rule applies to what the
pass returns; it reports the number of rules that led there, and each took nodes away. -/
theorem run_shortens (tree : MethodTree) :
    (∀ (I : Interpretation) (T : Typing I) (turns : Nat) (s : State I),
      (∀ expr s', Evaluated I turns tree.body s expr s' →
        Sound T tree.table (CountsIn (run tree).1.body) expr s') →
      executeAll I turns (run tree).1.body s = executeAll I turns tree.body s) ∧
    (∀ node, Block.Inside node (run tree).1.body → ∀ form next, ¬Rule tree.table form node next) ∧
    run (run tree).1 = ((run tree).1, 0) ∧
    (∃ forms, forms.length = (run tree).2 ∧
      Steps (Applies tree.table) forms tree.body (run tree).1.body) ∧
    ∀ form block result, Applies tree.table form block result →
      (Block.nodes result).length < (Block.nodes block).length := by
  refine ⟨fun _ _ _ _ => executeAll_run, fun node hnode => ?_, run_run tree, stepsTo_run tree,
    fun _ _ _ => Applies.length_nodes_lt⟩
  exact isNormal_iff.1 (isNormal_run tree node (Block.mem_nodes_iff.2 hnode))

/-- Values are integers, 0 and 1 the booleans.  Calls and the heap do nothing. -/
def integers : Interpretation where
  Value := Int
  Heap := Unit
  literal
    | .int value => value
    | .boolean value => value.toInt
    | _ => 0
  self := 0
  defaultValue _ := 0
  isTrue value := value != 0
  binary
    | .add, left, right => left + right
    | .sub, left, right => left - right
    | .equal, left, right => (left == right).toInt
    | .notEqual, left, right => (left != right).toInt
    | .less, left, right => (decide (left < right)).toInt
    | _, left, _ => left
  unary
    | .not, value => (value == 0).toInt
    | .preIncrement, value => value + 1
    | .preDecrement, value => value - 1
    | _, value => value
  copy value := value
  cast _ value := value
  read _ _ := 0
  write _ _ heap := heap
  call _ _ _ heap := (.ok 0, heap)
  create _ _ heap := (.ok 0, heap)
  declared value := value

theorem toInt_eq_zero_or_one (value : Bool) : value.toInt = 0 ∨ value.toInt = 1 := by
  cases value <;> decide

theorem not_toInt (value : Bool) : integers.unary .not value.toInt = (!value).toInt := by
  cases value <;> rfl

def integerTyping : Typing integers where
  HasType type value := type = .primitive .boolean → value = (0 : Int) ∨ value = (1 : Int)
  IsInteger _ := True
  not_not value h := by
    obtain rfl | rfl := h rfl <;> rfl
  equal_boolean _ _ _ := toInt_eq_zero_or_one _
  notEqual_eq _ _ := (not_toInt _).symm
  preIncrement_eq _ _ := rfl
  preDecrement_eq _ _ := rfl

/-- `x = x + 1; return !!(x < 3);` -/
def countingTree : MethodTree where
  table := ⟨[{ name := "x", type := .primitive .int32 }]⟩
  body := [.expr (.assign none (.raw ⟨0⟩) (.binary .add (.raw ⟨0⟩) (.literal (.int 1)))),
    .ret (some (.unary .not (.unary .not (.binary .less (.raw ⟨0⟩) (.literal (.int 3))))))]

def integersStart : State integers where
  heap := ()
  slots _ := (1 : Int)

theorem typed_of_type? {expr : Expr} (s : State integers)
    (h : expr.type? table ≠ some (.primitive .boolean)) : Typed integerTyping table expr s := by
  intro type value s' htype _ hboolean
  exact absurd (hboolean ▸ htype) h

theorem typed_of_toInt {expr : Expr} {s : State integers} {given : Bool}
    (h : outcome (valueOf integers expr) s = (.ok given.toInt, s)) :
    Typed integerTyping table expr s := by
  intro type value s' _ hvalue _
  rw [h] at hvalue
  cases hvalue
  exact toInt_eq_zero_or_one given

/-- From any state the negations and the comparison come to 0 or 1, and the other
nodes report that they are integers. -/
theorem sound_countingTree {expr : Expr} (s : State integers)
    (h : expr ∈ Block.nodes countingTree.body) (counted : VariableId → Prop) :
    Sound integerTyping countingTree.table counted expr s := by
  have hnodes : Block.nodes countingTree.body = [
      .assign none (.raw ⟨0⟩) (.binary .add (.raw ⟨0⟩) (.literal (.int 1))), .raw ⟨0⟩,
      .binary .add (.raw ⟨0⟩) (.literal (.int 1)), .raw ⟨0⟩, .literal (.int 1),
      .unary .not (.unary .not (.binary .less (.raw ⟨0⟩) (.literal (.int 3)))),
      .unary .not (.binary .less (.raw ⟨0⟩) (.literal (.int 3))),
      .binary .less (.raw ⟨0⟩) (.literal (.int 3)), .raw ⟨0⟩, .literal (.int 3)] := rfl
  simp only [hnodes, List.mem_cons, List.not_mem_nil, or_false] at h
  refine ⟨?_, fun _ _ _ => trivial, fun target htarget => ?_⟩
  · rcases h with rfl | rfl | rfl | rfl | rfl | rfl | rfl | rfl | rfl | rfl <;>
      first
      | exact typed_of_toInt rfl
      | exact typed_of_type? s (by simp [Expr.type?, countingTree, VariableTable.get?,
          BinaryOp.isComparison])
  · rcases h with rfl | rfl | rfl | rfl | rfl | rfl | rfl | rfl | rfl | rfl <;>
      cases htarget
    rfl

/-- An assignment becomes an update in two steps, a double negation goes in one, and the result
is the same. -/
theorem run_shortens_countingTree :
    (run countingTree).2 = 3 ∧
      executeAll integers 0 (run countingTree).1.body integersStart =
        executeAll integers 0 countingTree.body integersStart ∧
      run (run countingTree).1 = ((run countingTree).1, 0) := by
  obtain ⟨hsame, -, hagain, -⟩ := run_shortens countingTree
  refine ⟨by decide +kernel, hsame integers integerTyping 0 integersStart ?_, hagain⟩
  exact fun expr s' hevaluated => sound_countingTree s' (mem_nodes_of_evaluated hevaluated) _

end Assemblage.Lowering.OperatorForms
