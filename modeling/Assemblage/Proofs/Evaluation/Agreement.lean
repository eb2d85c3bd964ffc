import Assemblage.Proofs.Evaluation.Runs
import Assemblage.Proofs.Tree.Substitution

/-!
# States that agree

Four similarities.  States that agree but for some variables stay so under trees
without these variables.  What an expression does not write is as it was before.
An expression that writes nothing has the same value wherever the places it
is made of hold the same.  A variable that holds a known constant can be replaced
by it.
-/

namespace Assemblage

open Evaluation Similarity
open Lowering.Temporaries (substitute)

variable {I : Interpretation}

namespace State

@[simp]
theorem set_slots_self (state : State I) (id : VariableId) (value : I.Value) :
    (state.set id value).slots id = value :=
  if_pos rfl

theorem set_slots_of_ne (state : State I) {id other : VariableId} (value : I.Value)
    (h : other ≠ id) : (state.set id value).slots other = state.slots other :=
  if_neg h

theorem set_slots_congr {left right : State I} {other : VariableId} (id : VariableId)
    (value : I.Value) (h : left.slots other = right.slots other) :
    (left.set id value).slots other = (right.set id value).slots other := by
  by_cases heq : other = id
  · rw [heq, set_slots_self, set_slots_self]
  · rw [set_slots_of_ne left value heq, set_slots_of_ne right value heq, h]

/-- A state is the same after a variable is set, but at that variable. -/
theorem sameAt_set (state : State I) {id : VariableId} (value : I.Value) {access : Access}
    (h : access ≠ .slot id) : state.SameAt (state.set id value) access := by
  cases access with
  | slot other =>
    have hne : other ≠ id := fun heq => h (congrArg Access.slot heq)
    exact (set_slots_of_ne state value hne).symm
  | heap => rfl

theorem sameAt_withHeap (state : State I) (heap : I.Heap) {access : Access}
    (h : access ≠ .heap) : state.SameAt (state.withHeap heap) access := by
  cases access with
  | slot other => rfl
  | heap => exact absurd rfl h

theorem SameAt.trans {first second third : State I} {access : Access}
    (h : first.SameAt second access) (hnext : second.SameAt third access) :
    first.SameAt third access := by
  cases access with
  | slot id => exact Eq.trans h hnext
  | heap => exact Eq.trans h hnext

end State

namespace Similarity

/-- The states agree but for the given variables, which must not be read. -/
def agreeing (I : Interpretation) (ids : List VariableId) : Similarity I where
  Rel left right := left.heap = right.heap ∧
    ∀ id, id ∉ ids → left.slots id = right.slots id
  Reads access := ∀ id ∈ ids, access ≠ .slot id
  Writes _ := True
  sameAt := by
    intro access hreads left right hrel
    cases access with
    | slot id => exact hrel.2 id fun hid => hreads id hid rfl
    | heap => exact hrel.1
  set := by
    intro id _ left right value hrel
    exact ⟨hrel.1, fun other hother => State.set_slots_congr id value (hrel.2 other hother)⟩
  withHeap := by
    intro _ left right heap hrel
    exact ⟨rfl, hrel.2⟩
  reads_heap _ _ _ := Access.noConfusion

theorem agreeing_refl (ids : List VariableId) (state : State I) :
    (agreeing I ids).Rel state state :=
  ⟨rfl, fun _ _ => rfl⟩

theorem permits_agreeing {ids : List VariableId} {expr : Expr} (h : expr.Avoids ids) :
    (agreeing I ids).Permits expr where
  access access heq id hid := by
    rintro rfl
    have hnot := h.not_isVariable hid
    rw [Expr.isVariable_iff_access?.2 heq] at hnot
    exact Bool.noConfusion hnot
  written access heq := by
    refine ⟨fun id hid => ?_, trivial⟩
    rintro rfl
    obtain ⟨child, hchild, hvariable⟩ := Expr.exists_child_of_written? heq
    have hnot := (h.child hchild).not_isVariable hid
    rw [hvariable] at hnot
    exact Bool.noConfusion hnot

/-- An expression that avoids some variables does the same whatever these hold. -/
theorem similar_of_avoids {ids : List VariableId} {expr : Expr} (h : expr.Avoids ids) :
    (agreeing I ids).Similar expr expr := by
  induction expr using Expr.induction_children with
  | step expr ih =>
    have hself := similar_mapChildren (f := fun child => child) (permits_agreeing (I := I) h)
      fun child hchild => ih child hchild (h.child hchild)
    rwa [Expr.mapChildren_eq_self fun _ _ => rfl] at hself

end Similarity

theorem SameOutcome.trans {First Second Both : State I → State I → Prop}
    (h : ∀ left middle right, First left middle → Second middle right → Both left right)
    {first second third : Option (Completion I × State I)} (hfirst : SameOutcome First first second)
    (hsecond : SameOutcome Second second third) : SameOutcome Both first third := by
  cases hfirst with
  | none =>
    cases hsecond with
    | none => exact .none
  | some hleft =>
    cases hsecond with
    | some hright => exact .some (h _ _ _ hleft hright)

namespace Similarity

theorem agreeing_trans {ids others : List VariableId} {left middle right : State I}
    (h : (agreeing I ids).Rel left middle) (hnext : (agreeing I others).Rel middle right) :
    (agreeing I (ids ++ others)).Rel left right := by
  refine ⟨h.1.trans hnext.1, fun id hid => ?_⟩
  rw [List.mem_append, not_or] at hid
  rw [h.2 id hid.1, hnext.2 id hid.2]

/-- Between two states that agree but for two lists of variables there is one that
differs from each in one list only. -/
theorem exists_middle {ids others : List VariableId} {left right : State I}
    (h : (agreeing I (ids ++ others)).Rel left right) :
    ∃ middle, (agreeing I ids).Rel left middle ∧ (agreeing I others).Rel middle right := by
  refine ⟨⟨left.heap, fun id => if id ∈ ids then right.slots id else left.slots id⟩,
    ⟨rfl, fun id hid => (if_neg hid).symm⟩, ⟨h.1, fun id hid => ?_⟩⟩
  by_cases hmem : id ∈ ids
  · exact if_pos hmem
  · have hboth : id ∉ ids ++ others := by
      rw [List.mem_append, not_or]
      exact ⟨hmem, hid⟩
    exact (if_neg hmem).trans (h.2 id hboth)

theorem matches_trans {ids others : List VariableId} {first second third : Run I}
    (h : (agreeing I ids).Matches first second)
    (hnext : (agreeing I others).Matches second third) :
    (agreeing I (ids ++ others)).Matches first third := by
  have hboth : ∀ left middle right, (agreeing I ids).Rel left middle →
      (agreeing I others).Rel middle right → (agreeing I (ids ++ others)).Rel left right :=
    fun _ _ _ => agreeing_trans
  intro s s' hrel
  obtain ⟨middle, hleft, hright⟩ := exists_middle hrel
  exact SameOutcome.trans hboth (h s middle hleft) (hnext middle s' hright)

end Similarity

namespace Similarity

/-- One run, in which one place holds the same as in a given state. -/
def keeping (origin : State I) (kept : Access) : Similarity I where
  Rel left right := left = right ∧ origin.SameAt left kept
  Reads _ := True
  Writes access := access ≠ kept
  sameAt := by
    rintro access - left right ⟨rfl, -⟩
    cases access <;> rfl
  set := by
    rintro id hwrites left right value ⟨rfl, hkept⟩
    exact ⟨rfl, hkept.trans (State.sameAt_set left value hwrites.symm)⟩
  withHeap := by
    rintro hwrites left right heap ⟨rfl, hkept⟩
    exact ⟨rfl, hkept.trans (State.sameAt_withHeap left heap hwrites.symm)⟩
  reads_heap _ := trivial

end Similarity

theorem State.sameAt_self (state : State I) (access : Access) : state.SameAt state access := by
  cases access <;> rfl

/-- An expression leaves what it does not write as it is. -/
theorem Evaluation.sameAt_of_not_mem_writes {expr : Expr} {access : Access}
    (h : access ∉ expr.writes) (state : State I) :
    state.SameAt (outcome (valueOf I expr) state).2 access := by
  have hself : (keeping state access).Similar expr expr := by
    refine similar_self fun node hnode => ⟨fun _ _ => trivial, fun written heq => ?_⟩
    refine ⟨trivial, ?_⟩
    rintro rfl
    exact h (List.mem_filterMap.2 ⟨node, hnode, heq⟩)
  exact (hself.valueOf state state ⟨rfl, state.sameAt_self access⟩).2.1.2

namespace Similarity

/-- Two given states, which nothing may change. -/
def frozen (first second : State I) : Similarity I where
  Rel left right := left = first ∧ right = second
  Reads access := first.SameAt second access
  Writes _ := False
  sameAt := by
    rintro access hreads left right ⟨rfl, rfl⟩
    exact hreads
  set := fun h => h.elim
  withHeap := fun h => h.elim
  reads_heap := fun h => h.elim

/-- In two states that nothing may change an action has one result. -/
theorem Relates.exists_value {α : Type} {first second : State I} {action : Action I α}
    (h : (frozen first second).Relates action action) :
    ∃ value, outcome action first = (.ok value, first) ∧
      outcome action second = (.ok value, second) := by
  obtain ⟨hresult, ⟨hfirst, hsecond⟩, hthrown⟩ := h first second ⟨rfl, rfl⟩
  rcases hvalue : (outcome action first).1 with value | value
  · exact (hthrown value hvalue).elim
  · refine ⟨value, Prod.ext hvalue hfirst, Prod.ext ?_ hsecond⟩
    rw [← hresult, hvalue]

/-- An expression that writes nothing depends on what it reads only. -/
theorem similar_of_writes_eq_nil {first second : State I} {expr : Expr} (hwrites : expr.writes = [])
    (h : ∀ access ∈ expr.reads, first.SameAt second access) :
    (frozen first second).Similar expr expr := by
  refine similar_self fun node hnode => ⟨fun access heq => ?_, fun access heq => ?_⟩
  · exact h access (List.mem_filterMap.2 ⟨node, hnode, heq⟩)
  · have hmem : access ∈ expr.writes := List.mem_filterMap.2 ⟨node, hnode, heq⟩
    rw [hwrites] at hmem
    exact absurd hmem List.not_mem_nil

end Similarity

namespace Similarity

/-- The states agree but for one variable, which holds a known value in the first. -/
def pinned (I : Interpretation) (id : VariableId) (value : I.Value) : Similarity I where
  Rel left right := (agreeing I [id]).Rel left right ∧ left.slots id = value
  Reads access := access ≠ .slot id
  Writes access := access ≠ .slot id
  sameAt := by
    intro access hreads left right hrel
    refine (agreeing I [id]).sameAt (fun other hother => ?_) hrel.1
    rwa [List.mem_singleton.1 hother]
  set := by
    intro other hwrites left right new hrel
    refine ⟨(agreeing I [id]).set trivial new hrel.1, ?_⟩
    have hne : id ≠ other := fun heq => hwrites (congrArg Access.slot heq.symm)
    rw [State.set_slots_of_ne left new hne, hrel.2]
  withHeap := by
    intro _ left right heap hrel
    exact ⟨(agreeing I [id]).withHeap trivial heap hrel.1, hrel.2⟩
  reads_heap _ := Access.noConfusion

end Similarity

theorem Evaluation.locate_of_isVariable {expr : Expr} {id : VariableId}
    (h : expr.isVariable id = true) : locate I expr = pure (.slot id) := by
  cases expr with
  | raw other | bound other =>
    have heq : other = id := by simpa [Expr.isVariable, Expr.asVariable?] using h
    rw [locate, heq]
  | _ => exact absurd h (by simp [Expr.isVariable, Expr.asVariable?])

/-- A constant evaluates to one value in every state. -/
theorem Evaluation.exists_value_of_isConstant {expr : Expr} (h : expr.isConstant = true) :
    ∃ value, locate I expr = pure (.value value) := by
  cases expr with
  | literal | defaultValue | self => exact ⟨_, by rw [locate]⟩
  | _ => exact absurd h Bool.false_ne_true

namespace Similarity

/-- A constant may stand for the variable that holds it, where the variable is not written. -/
theorem similar_substitute_constant {id : VariableId} {constant : Expr} {value : I.Value}
    (hconstant : locate I constant = pure (.value value)) {expr : Expr}
    (h : Access.slot id ∉ expr.writes) :
    (pinned I id value).Similar expr (expr.substitute id constant) := by
  induction expr using Expr.induction_children with
  | step expr ih =>
    by_cases hvariable : expr.isVariable id = true
    · have haccess := Expr.isVariable_iff_access?.1 hvariable
      rw [Expr.substitute_of_isVariable hvariable]
      refine ⟨?_, fun hwrites => absurd rfl (hwrites _ haccess)⟩
      intro s s' hrel
      have hleft : valueOf I expr = load (.slot id) := by
        rw [valueOf, locate_of_isVariable hvariable]
        rfl
      have hright : valueOf I constant = pure value := by
        rw [valueOf, hconstant]
        rfl
      rw [hleft, hright]
      exact ⟨congrArg Except.ok hrel.2, hrel, fun _ hthrown => nomatch hthrown⟩
    · rw [Expr.writes_eq, List.mem_append, not_or] at h
      rw [Expr.substitute_of_not_isVariable (by simpa using hvariable)]
      refine similar_mapChildren ⟨fun access heq => ?_, fun access heq => ?_⟩ fun child hchild => ?_
      · rintro rfl
        exact hvariable (Expr.isVariable_iff_access?.2 heq)
      · have hne : access ≠ .slot id := by
          rintro rfl
          exact h.1 (by rw [heq]; exact List.mem_cons_self)
        exact ⟨hne, hne⟩
      · exact ih child hchild fun hmem => h.2 (List.mem_flatMap.2 ⟨child, hchild, hmem⟩)

end Similarity

end Assemblage
