import Assemblage.Lowering.InPlace
import Assemblage.Proofs.Lowering.Accounts
import Assemblage.Proofs.Lowering.Idempotence
import Assemblage.Proofs.Lowering.LocalNames
import Assemblage.Proofs.Lowering.Shortening
import Assemblage.Proofs.Tree.Counting

/-!
# What passes report

A pass that reports no change returns the tree it was given.  All passes but the
elimination of temporaries are through after one run: a second one reports nothing.
For each pass this takes a form of tree in which it has nothing to do, and that every
run of it leaves behind, whatever the tree before was like.

In place, a pass that stops with an error has not changed the tree yet.
-/

namespace Assemblage.Lowering

namespace StructCopies

variable {oracle : Oracle} {table : VariableTable}

theorem reports_copied : Reports (copied oracle table) := by
  intro value
  rw [copied]
  split
  · have hcopy : Expr.copy value ≠ value := by
      intro hsame
      simpa [Expr.nodes] using congrArg (fun expr => expr.nodes.length) hsame
    simpa using hcopy
  · exact reports_unchanged value

theorem reports_copiedAll : Reports (copiedAll oracle table) := by
  intro values
  induction values with
  | nil => exact iff_of_true rfl rfl
  | cons value rest ih =>
    simp only [copiedAll, Nat.add_eq_zero_iff, List.cons.injEq]
    exact and_congr (reports_copied value) ih

theorem reports_copyInExpr : Reports (copyInExpr oracle table) := by
  intro expr
  cases expr with
  | assign op target value =>
    cases op with
    | none => simpa [copyInExpr] using reports_copied value
    | some op => exact reports_unchanged _
  | staticCall method arguments | call target method arguments | create type arguments =>
    simpa [copyInExpr] using reports_copiedAll arguments
  | _ => exact reports_unchanged _

theorem reports_copyInStmt : Reports (copyInStmt oracle table) := by
  intro stmt
  unfold copyInStmt
  split
  · rename_i value
    simpa using reports_copied value
  · rename_i value
    split
    · simpa using reports_copied value
    · exact reports_unchanged _
  · exact reports_unchanged _

/-- Where no copy is counted the tree is as it was. -/
theorem eq_of_run_eq_zero {tree : MethodTree} (h : (run oracle tree).2 = 0) :
    (run oracle tree).1 = tree := by
  have hbody := Block.mapCountingBlock_eq_self_of_snd reports_copyInExpr reports_copyInStmt h
  exact congrArg (fun body => { tree with body }) hbody

theorem run_of_settles {tree : MethodTree} (h : Settles oracle tree.table tree.body) :
    run oracle tree = (tree, 0) :=
  Prod.ext (run_eq_self h)
    (Block.mapCountingBlock_snd_eq_zero reports_copyInExpr reports_copyInStmt
      (h.imp (fun _ => copyInExpr_eq_self) fun _ => copyInStmt_eq_self))

theorem run_run (oracle : Oracle) (tree : MethodTree) :
    run oracle (run oracle tree).1 = ((run oracle tree).1, 0) :=
  run_of_settles (settles_run oracle tree)

end StructCopies

namespace Declarations

/-- Nothing is reported exactly if there is no variable without a declaration. -/
theorem declareAll_snd_eq_zero_iff {oracle : Oracle} {table : VariableTable}
    {declared : List VariableId} {stmts : Block} :
    (declareAll oracle table declared stmts).2 = 0 ↔
      ∀ id ∈ Block.gather Expr.variableIds stmts, id ∈ declared := by
  induction stmts generalizing declared with
  | nil => exact iff_of_true rfl fun _ hid => absurd hid List.not_mem_nil
  | cons stmt rest ih =>
    have hfresh : (occurrences stmt).filter (fun id => !declared.contains id) = [] ↔
        ∀ id ∈ Block.gather Expr.variableIds [stmt], id ∈ declared := by
      simp [List.filter_eq_nil_iff, mem_occurrences_iff]
    rw [Block.gather_cons, List.forall_mem_append, ← hfresh, ← ih]
    simp only [declareAll, Nat.add_eq_zero_iff, List.length_eq_zero_iff]
    apply and_congr_right
    intro hnone
    rw [hnone, List.nil_append]

/-- Nothing is counted exactly if all is declared. -/
theorem run_snd_eq_zero_iff {oracle : Oracle} {tree : MethodTree} :
    (run oracle tree).2 = 0 ↔ DeclaresAll tree := by
  simp only [run, declareAll_snd_eq_zero_iff, DeclaresAll, References.declared, List.mem_append,
    or_comm]

theorem run_of_declaresAll {tree : MethodTree} (h : DeclaresAll tree) (oracle : Oracle) :
    run oracle tree = (tree, 0) :=
  Prod.ext (run_eq_self h oracle) (run_snd_eq_zero_iff.2 h)

theorem run_run (oracle : Oracle) (tree : MethodTree) :
    run oracle (run oracle tree).1 = ((run oracle tree).1, 0) :=
  run_of_declaresAll (fun _ => declared_of_mem_variableIds_run oracle tree) oracle

end Declarations

namespace References

theorem reports_bind : Reports bind := by
  intro expr
  cases expr <;> simp [bind]

theorem eq_of_run_eq_zero {context : MethodContext} {tree result : MethodTree}
    (h : run context tree = .ok (result, 0)) : result = tree := by
  unfold run at h
  split at h
  · cases h
  · obtain ⟨rfl, hcount⟩ := Prod.mk.inj (Except.ok.inj h)
    exact congrArg (fun body => { tree with body })
      (Block.mapCounting_eq_self_of_snd reports_bind hcount)

/-- Without raw variables there is nothing to bind and nothing undeclared. -/
theorem run_of_gather_eq_nil (context : MethodContext) {tree : MethodTree}
    (h : Block.gather rawVariables tree.body = []) : run context tree = .ok (tree, 0) := by
  have hnone : ∀ node ∈ Block.nodes tree.body, rawVariable? node = none := by
    intro node hnode
    exact Option.toList_eq_nil_iff.1 (List.flatMap_eq_nil_iff.1 h node hnode)
  have hundeclared : undeclared? tree = none := by
    rw [undeclared?, List.filterMap_eq_nil_iff.2 hnone, List.find?_nil]
  have hbind : ∀ node ∈ Block.nodes tree.body, (bind node).1 = node := by
    intro node hnode
    cases node with
    | raw id => cases hnone _ hnode
    | _ => rfl
  rw [run, hundeclared]
  simp only [Block.mapCounting_eq_self hbind, Block.mapCounting_snd_eq_zero reports_bind hbind]

theorem run_run {context : MethodContext} {tree result : MethodTree} {n : Nat}
    (h : run context tree = .ok (result, n)) : run context result = .ok (result, 0) := by
  unfold run at h
  split at h
  · cases h
  · obtain ⟨rfl, -⟩ := Prod.mk.inj (Except.ok.inj h)
    exact run_of_gather_eq_nil context
      (Block.gather_mapCounting_eq_nil rawVariables_mapCounting_bind tree.body)

end References

namespace OperatorForms

theorem reports_normalize (table : VariableTable) : Reports (normalize table) := by
  intro expr
  obtain ⟨forms, hlength, hsteps⟩ := stepsTo_normalize table expr
  have hnodes := hsteps.length_le (fun expr => expr.nodes.length)
    fun hrule => length_nodes_step? hrule.step?
  rw [hlength] at hnodes
  constructor
  · intro hzero
    rw [List.length_eq_zero_iff.1 (hlength.trans hzero)] at hsteps
    exact hsteps.eq_of_nil
  · intro hsame
    rw [hsame] at hnodes
    omega

theorem eq_of_run_eq_zero {tree : MethodTree} (h : (run tree).2 = 0) : (run tree).1 = tree :=
  congrArg (fun body => { tree with body })
    (Block.mapCounting_eq_self_of_snd (reports_normalize tree.table) h)

end OperatorForms

/-! ## In place -/

/-- The first item to reject is the error, and the tree stays as it is. -/
theorem rejectFirst_run {α : Type} (isRejected : α → Bool) (error : α → Error) (items : List α)
    (tree : MethodTree) :
    (rejectFirst isRejected error items).run tree =
      match items.find? isRejected with
      | some item => .error (error item) tree
      | none => .ok () tree := by
  induction items with
  | nil => rfl
  | cons item rest ih =>
    rw [rejectFirst, List.find?_cons]
    cases isRejected item with
    | true => rfl
    | false => exact ih

/-- How a computation in place ends that keeps the tree where it fails. -/
def inPlaceEnd (tree : MethodTree) :
    Except Error (MethodTree × Nat) → EStateM.Result Error MethodTree Nat
  | .ok (result, n) => .ok n result
  | .error error => .error error tree

theorem run_bind {α β : Type} (first : InPlace α) (next : α → InPlace β) (tree : MethodTree) :
    (first >>= next).run tree =
      match first.run tree with
      | .ok value tree => (next value).run tree
      | .error error tree => .error error tree := by
  change EStateM.bind first next tree = _
  rw [EStateM.bind, EStateM.run]
  cases first tree <;> rfl

/-- The check in place ends as the check does. -/
theorem IgnoredTypes.checkInPlace_run (context : MethodContext) (tree : MethodTree) :
    (checkInPlace context).run tree =
      inPlaceEnd tree ((check context tree).map fun tree => (tree, 0)) := by
  rw [checkInPlace, run_bind, check, offending?]
  change ((rejectFirst _ _ (types tree) >>= fun _ => pure 0).run tree) = _
  rw [run_bind, rejectFirst_run]
  cases (types tree).find? context.oracle.isIgnored <;> rfl

/-- Binding in place ends as binding does. -/
theorem References.runInPlace_run (context : MethodContext) (tree : MethodTree) :
    (runInPlace context).run tree = inPlaceEnd tree (run context tree) := by
  rw [runInPlace, run_bind, run, undeclared?]
  change ((rejectFirst _ _ ((Block.nodes tree.body).filterMap rawVariable?) >>= fun _ =>
    rewriteInPlace _).run tree) = _
  rw [run_bind, rejectFirst_run]
  cases ((Block.nodes tree.body).filterMap rawVariable?).find?
    fun id => !(declared tree).contains id <;> rfl

namespace Pass

/-- A pass in place ends as it does on a copy, and it has not touched the tree where it fails. -/
theorem runInPlace_run (pass : Pass) (context : MethodContext) (tree : MethodTree) :
    (pass.runInPlace context).run tree = inPlaceEnd tree (pass.run context tree) := by
  cases pass with
  | ignoredTypes => exact IgnoredTypes.checkInPlace_run context tree
  | references => exact References.runInPlace_run context tree
  | _ => rfl

section

variable {context : MethodContext} {tree result : MethodTree} {n : Nat}

/-- A check that succeeds returns the tree it was given. -/
theorem eq_of_run_ignoredTypes (h : ignoredTypes.run context tree = .ok (result, n)) :
    result = tree ∧ n = 0 := by
  cases hcheck : IgnoredTypes.check context tree with
  | error error =>
    rw [run, hcheck] at h
    cases h
  | ok checked =>
    obtain ⟨-, rfl⟩ := IgnoredTypes.check_eq_ok_iff.1 hcheck
    rw [run, hcheck] at h
    cases h
    exact ⟨rfl, rfl⟩

theorem eq_of_ok_zero {rewrite : MethodTree → MethodTree × Nat}
    (hrewrite : (rewrite tree).2 = 0 → (rewrite tree).1 = tree)
    (h : (.ok (rewrite tree) : Except Error (MethodTree × Nat)) = .ok (result, 0)) :
    result = tree := by
  rw [Except.ok.inj h] at hrewrite
  exact hrewrite rfl

theorem ok_zero_of_ok {rewrite : MethodTree → MethodTree × Nat}
    (hrewrite : rewrite (rewrite tree).1 = ((rewrite tree).1, 0))
    (h : (.ok (rewrite tree) : Except Error (MethodTree × Nat)) = .ok (result, n)) :
    (.ok (rewrite result) : Except Error (MethodTree × Nat)) = .ok (result, 0) := by
  rw [Except.ok.inj h] at hrewrite
  rw [hrewrite]

theorem eq_of_run_eq_zero {pass : Pass} (h : pass.run context tree = .ok (result, 0)) :
    result = tree := by
  cases pass with
  | ignoredTypes => exact (eq_of_run_ignoredTypes h).1
  | variableNames => exact eq_of_ok_zero VariableNames.run_snd_eq_zero_iff.1 h
  | temporaries => exact eq_of_ok_zero Temporaries.eq_of_run_eq_zero h
  | structCopies => exact eq_of_ok_zero StructCopies.eq_of_run_eq_zero h
  | declarations =>
    exact eq_of_ok_zero (fun hzero =>
      Declarations.run_eq_self (Declarations.run_snd_eq_zero_iff.1 hzero) context.oracle) h
  | references => exact References.eq_of_run_eq_zero h
  | operatorForms => exact eq_of_ok_zero OperatorForms.eq_of_run_eq_zero h

theorem run_run {pass : Pass} (hpass : pass ≠ .temporaries)
    (h : pass.run context tree = .ok (result, n)) : pass.run context result = .ok (result, 0) := by
  cases pass with
  | ignoredTypes =>
    obtain ⟨rfl, rfl⟩ := eq_of_run_ignoredTypes h
    exact h
  | variableNames => exact ok_zero_of_ok (VariableNames.run_run tree) h
  | temporaries => exact absurd rfl hpass
  | structCopies => exact ok_zero_of_ok (StructCopies.run_run context.oracle tree) h
  | declarations => exact ok_zero_of_ok (Declarations.run_run context.oracle tree) h
  | references => exact References.run_run h
  | operatorForms => exact ok_zero_of_ok (OperatorForms.run_run tree) h

end

/-- What every pass reports.  A count of zero means that the tree is as it was; every pass
but the elimination of temporaries finds nothing to do in a tree that it returned; and in
place a pass ends in the same way, and with the tree as it was if it fails. -/
theorem run_reports (pass : Pass) (context : MethodContext) (tree : MethodTree) :
    (∀ result, pass.run context tree = .ok (result, 0) → result = tree) ∧
      (pass ≠ .temporaries → ∀ result n, pass.run context tree = .ok (result, n) →
        pass.run context result = .ok (result, 0)) ∧
      (∀ result n, (pass.runInPlace context).run tree = .ok n result ↔
        pass.run context tree = .ok (result, n)) ∧
      ∀ error left, (pass.runInPlace context).run tree = .error error left ↔
        pass.run context tree = .error error ∧ left = tree := by
  refine ⟨fun _ => eq_of_run_eq_zero, fun hpass _ _ => run_run hpass, ?_, ?_⟩
  · intro result n
    rw [runInPlace_run]
    cases pass.run context tree <;> simp [inPlaceEnd, Prod.ext_iff, and_comm]
  · intro error left
    rw [runInPlace_run]
    cases pass.run context tree <;> simp [inPlaceEnd, eq_comm]

/-- The one struct that is assigned is copied once, and a temporary that has no
declaration yet stops the binding of references before anything is bound. -/
theorem run_reports_steppingTree :
    ∃ copied,
      structCopies.run ⟨"step", Graph.oracle {}⟩ Pipeline.steppingTree = .ok (copied, 1) ∧
      structCopies.run ⟨"step", Graph.oracle {}⟩ copied = .ok (copied, 0) ∧
      (∃ result, structCopies.run ⟨"step", Graph.oracle {}⟩ copied = .ok (result, 0) ∧
        result = copied) ∧
      (references.runInPlace ⟨"step", Graph.oracle {}⟩).run Pipeline.steppingTree =
        .error (.transform "introduce-references" "step"
          "variable 'v1' is used without a declaration") Pipeline.steppingTree := by
  have hfirst : structCopies.run ⟨"step", Graph.oracle {}⟩ Pipeline.steppingTree =
      .ok ((StructCopies.run (Graph.oracle {}) Pipeline.steppingTree).1, 1) := rfl
  have hsecond := (run_reports structCopies _ _).2.1 (by decide) _ _ hfirst
  have hundeclared : references.run ⟨"step", Graph.oracle {}⟩ Pipeline.steppingTree =
      .error (.transform "introduce-references" "step"
        "variable 'v1' is used without a declaration") := by
    with_unfolding_all rfl
  exact ⟨_, hfirst, hsecond, ⟨_, hsecond, (run_reports structCopies _ _).1 _ hsecond⟩,
    ((run_reports references _ _).2.2.2 _ _).2 ⟨hundeclared, rfl⟩⟩

end Pass

end Assemblage.Lowering
