import Assemblage.Proofs.Evaluation.Agreement

/-!
# Moving a value to its read

Evaluating a value into a variable and reading the variable later is the same as
evaluating the value where it is read, provided that what is evaluated in between
writes nothing and comes to the same after the value as before it.
-/

namespace Assemblage

open Evaluation Similarity

variable {I : Interpretation} {α β : Type}

/-- The expression comes to the same after the value has been evaluated as before. -/
def Expr.Unaffected (I : Interpretation) (value expr : Expr) : Prop :=
  ∀ state result after, outcome (valueOf I value) state = (.ok result, after) →
    (outcome (valueOf I expr) state).1 = (outcome (valueOf I expr) after).1

/-- Evaluating the value into the variable before the expression changes nothing
for the expression. -/
structure Expr.Undisturbed (I : Interpretation) (expr : Expr) (id : VariableId) (value : Expr) :
    Prop where
  quiet : expr.writes = []
  avoids : expr.Avoids [id]
  unaffected : Expr.Unaffected I value expr

/-- The variable is read at a place of the expression that is always reached, what
comes before that place is stable, and what comes after it does not mention the
variable. -/
inductive Expr.Receives (id : VariableId) (stable : Expr → Prop) : Expr → Prop
  | read {expr : Expr} (h : expr.isVariable id = true) : Receives id stable expr
  | operand {expr operand : Expr} {before after : List Expr} (strict : isStrict expr = true)
      (children : expr.children = before ++ operand :: after)
      (earlier : ∀ other ∈ before, stable other) (h : Receives id stable operand)
      (later : ∀ other ∈ after, other.Avoids [id]) : Receives id stable expr
  | left {op : BinaryOp} {left right : Expr} (lazy : op.isShortCircuit = true)
      (h : Receives id stable left) (later : right.Avoids [id]) :
    Receives id stable (.binary op left right)
  | condition {condition whenTrue whenFalse : Expr} (h : Receives id stable condition)
      (laterTrue : whenTrue.Avoids [id]) (laterFalse : whenFalse.Avoids [id]) :
    Receives id stable (.conditional condition whenTrue whenFalse)
  | target {op : Option BinaryOp} {target value : Expr} (other : target.isVariable id = false)
      (h : Receives id stable target) (later : value.Avoids [id]) :
    Receives id stable (.assign op target value)
  | assigned {target value : Expr} (quiet : target.writes = []) (avoids : target.Avoids [id])
      (earlier : ∀ child ∈ target.children, stable child) (h : Receives id stable value) :
    Receives id stable (.assign none target value)
  | combined {op : BinaryOp} {target value : Expr}
      (earlier : ∀ child ∈ target.children, stable child) (held : stable target)
      (h : Receives id stable value) :
    Receives id stable (.assign (some op) target value)
  | updated {op : UnaryOp} {operand : Expr} (mutating : op.isMutating = true)
      (other : operand.isVariable id = false) (h : Receives id stable operand) :
    Receives id stable (.unary op operand)

namespace Evaluation

/-- An expression that writes nothing is unaffected by what it does not read. -/
theorem unaffected_of_writes {value expr : Expr} (hquiet : expr.writes = [])
    (h : ∀ access ∈ expr.reads, access ∉ value.writes) : Expr.Unaffected I value expr := by
  intro state result after hvalue
  have hsame : ∀ access ∈ expr.reads, state.SameAt after access := by
    intro access hread
    have hframe := sameAt_of_not_mem_writes (h access hread) state
    rwa [hvalue] at hframe
  exact ((similar_of_writes_eq_nil hquiet hsame).valueOf state after ⟨rfl, rfl⟩).1

/-- Evaluates an expression into a variable. -/
def spill (I : Interpretation) (id : VariableId) (value : Expr) : Action I Unit :=
  valueOf I value >>= store (.slot id)

/-- The action changes nothing and has the same result before and after the first one. -/
def Steady (first : Action I Unit) (action : Action I α) : Prop :=
  ∀ state, ∃ value, outcome action state = (.ok value, state) ∧
    ∀ after, outcome first state = (.ok (), after) → outcome action after = (.ok value, after)

/-- A steady action may come before or after what leaves it alone. -/
theorem Steady.commute {first : Action I Unit} {action : Action I α} (h : Steady first action)
    (next : α → Action I β) :
    (first >>= fun _ => action >>= next) =
      action >>= fun value => first >>= fun _ => next value := by
  apply action_ext
  intro state
  obtain ⟨value, hvalue, hafter⟩ := h state
  rw [outcome_bind_ok _ hvalue]
  rcases hfirst : outcome first state with ⟨thrown | _, after⟩
  · rw [outcome_bind_error _ hfirst, outcome_bind_error _ hfirst]
  · rw [outcome_bind_ok _ hfirst, outcome_bind_ok _ hfirst, outcome_bind_ok _ (hafter after hfirst)]

/-- An action is steady if a similarity can be put between the states before and
after the first action. -/
theorem steady_of_relates {first : Action I Unit} {action : Action I α}
    (hself : ∀ state, (frozen state state).Relates action action)
    (h : ∀ state after, outcome first state = (.ok (), after) →
      (frozen state after).Relates action action) : Steady first action := by
  intro state
  obtain ⟨value, hvalue, -⟩ := (hself state).exists_value
  refine ⟨value, hvalue, fun after hafter => ?_⟩
  obtain ⟨other, hother, hresult⟩ := (h state after hafter).exists_value
  rw [hvalue, Prod.mk.injEq, Except.ok.injEq] at hother
  rw [hresult, hother.1]

variable {id : VariableId} {value : Expr}

theorem similar_frozen_self {expr : Expr} (hquiet : expr.writes = []) (state : State I) :
    (frozen state state).Similar expr expr :=
  similar_of_writes_eq_nil hquiet fun access _ => state.sameAt_self access

/-- An expression that writes nothing leaves the state and throws nothing. -/
theorem exists_outcome_of_writes_eq_nil {expr : Expr} (hquiet : expr.writes = [])
    (state : State I) : ∃ result, outcome (valueOf I expr) state = (.ok result, state) := by
  obtain ⟨result, hresult, -⟩ := (similar_frozen_self hquiet state).valueOf.exists_value
  exact ⟨result, hresult⟩

/-- An expression that is no place evaluates to what its value is. -/
theorem outcome_locate_of_access?_eq_none {expr : Expr} (hquiet : expr.writes = [])
    (hnone : expr.access? = none) {state : State I} {result : I.Value}
    (hresult : outcome (valueOf I expr) state = (.ok result, state)) :
    outcome (locate I expr) state = (.ok (.value result), state) := by
  have hlocate := (similar_frozen_self hquiet state).locate fun access heq => by
    rw [hnone] at heq
    cases heq
  obtain ⟨place, hplace, -⟩ := hlocate.exists_value
  have haccess := yields_locate expr state place state hplace
  rw [valueOf, outcome_bind_ok _ hplace] at hresult
  cases place with
  | slot other =>
    rw [hnone] at haccess
    cases haccess
  | heap place =>
    rw [hnone] at haccess
    cases haccess
  | value found =>
    have hfound : found = result := Except.ok.inj (congrArg Prod.fst hresult)
    rw [hplace, hfound]

/-- Two states in which an expression without writes comes to the same are as good as
one for it. -/
theorem similar_frozen_of_same {expr : Expr} (hquiet : expr.writes = []) {first second : State I}
    (h : (outcome (valueOf I expr) first).1 = (outcome (valueOf I expr) second).1) :
    (frozen first second).Similar expr expr := by
  obtain ⟨result, hfirst⟩ := exists_outcome_of_writes_eq_nil hquiet first
  obtain ⟨other, hsecond⟩ := exists_outcome_of_writes_eq_nil hquiet second
  have hsame : other = result := by
    rw [hfirst, hsecond, Except.ok.injEq] at h
    exact h.symm
  subst hsame
  refine ⟨?_, fun hwrites => ?_⟩
  · rintro left right ⟨rfl, rfl⟩
    rw [hfirst, hsecond]
    exact ⟨rfl, ⟨rfl, rfl⟩, fun _ hthrown => by cases hthrown⟩
  · cases hnone : expr.access? with
    | some access => exact (hwrites access hnone).elim
    | none =>
      rintro left right ⟨rfl, rfl⟩
      rw [outcome_locate_of_access?_eq_none hquiet hnone hfirst,
        outcome_locate_of_access?_eq_none hquiet hnone hsecond]
      exact ⟨rfl, ⟨rfl, rfl⟩, fun _ hthrown => by cases hthrown⟩

/-- An undisturbed expression comes to the same after the spill. -/
theorem same_of_spill {expr : Expr} (h : expr.Undisturbed I id value) {state after : State I}
    (hafter : outcome (spill I id value) state = (.ok (), after)) :
    (outcome (valueOf I expr) state).1 = (outcome (valueOf I expr) after).1 := by
  rcases hvalue : outcome (valueOf I value) state with ⟨thrown | result, middle⟩
  · rw [spill, outcome_bind_error _ hvalue] at hafter
    cases hafter
  · rw [spill, outcome_bind_ok _ hvalue] at hafter
    have hset : middle.set id result = after := congrArg Prod.snd hafter
    have hrel : (agreeing I [id]).Rel middle after := by
      rw [← hset]
      refine ⟨rfl, fun other hother => ?_⟩
      have hne : other ≠ id := fun heq => hother (List.mem_singleton.2 heq)
      exact (State.set_slots_of_ne middle result hne).symm
    calc (outcome (valueOf I expr) state).1
        = (outcome (valueOf I expr) middle).1 := h.unaffected state result middle hvalue
      _ = (outcome (valueOf I expr) after).1 :=
        ((similar_of_avoids h.avoids).valueOf middle after hrel).1

theorem similar_frozen_spill {expr : Expr} (h : expr.Undisturbed I id value)
    {state after : State I} (hafter : outcome (spill I id value) state = (.ok (), after)) :
    (frozen state after).Similar expr expr :=
  similar_frozen_of_same h.quiet (same_of_spill h hafter)

/-- The value of an undisturbed expression is the same before and after the spill. -/
theorem steady_valueOf {expr : Expr} (h : expr.Undisturbed I id value) :
    Steady (spill I id value) (valueOf I expr) :=
  steady_of_relates (fun state => (similar_frozen_self h.quiet state).valueOf)
    fun _ _ hafter => (similar_frozen_spill h hafter).valueOf

/-- The place of an expression that writes nothing takes its operands alone. -/
theorem relates_locate_frozen {first second : State I} {expr : Expr} (hquiet : expr.writes = [])
    (h : ∀ child ∈ expr.children, (frozen first second).Similar child child) :
    (frozen first second).Relates (locate I expr) (locate I expr) := by
  rw [Expr.writes_eq, List.append_eq_nil_iff] at hquiet
  have hnone : expr.written? = none := by
    cases hwritten : expr.written? with
    | none => rfl
    | some access =>
      rw [hwritten] at hquiet
      exact absurd hquiet.1 (List.cons_ne_nil _ _)
  have hmapped := relates_locate_mapChildren (R := frozen first second) (f := fun child => child)
    (fun access heq => by rw [hnone] at heq; cases heq) h
  rwa [Expr.mapChildren_eq_self fun _ _ => rfl] at hmapped

theorem writes_of_child {expr child : Expr} (hquiet : expr.writes = [])
    (hchild : child ∈ expr.children) : child.writes = [] := by
  rw [Expr.writes_eq, List.append_eq_nil_iff, List.flatMap_eq_nil_iff] at hquiet
  exact hquiet.2 child hchild

/-- The place of an expression with undisturbed operands is the same before and after the spill.
-/
theorem steady_locate {expr : Expr} (hquiet : expr.writes = [])
    (h : ∀ child ∈ expr.children, child.Undisturbed I id value) :
    Steady (spill I id value) (locate I expr) :=
  steady_of_relates
    (fun state => relates_locate_frozen hquiet fun _ hchild =>
      similar_frozen_self (writes_of_child hquiet hchild) state)
    fun _ _ hafter => relates_locate_frozen hquiet fun child hchild =>
      similar_frozen_spill (h child hchild) hafter

/-- A place together with what is read there. -/
def locateAndLoad (I : Interpretation) (expr : Expr) : Action I (Located I × I.Value) := do
  let place ← locate I expr
  let old ← load place
  return (place, old)

theorem relates_locateAndLoad {R : Similarity I} {expr : Expr}
    (hlocate : R.Relates (locate I expr) (locate I expr))
    (hreads : ∀ access, expr.access? = some access → R.Reads access) :
    R.Relates (locateAndLoad I expr) (locateAndLoad I expr) :=
  hlocate.bind_of_outcome fun _ _ _ hplace =>
    (relates_load_of_locate hreads hplace).bind fun _ => relates_pure _

theorem outcome_locateAndLoad {expr : Expr} {state : State I} {place : Located I}
    {old : I.Value} (hplace : outcome (locate I expr) state = (.ok place, state))
    (hold : outcome (valueOf I expr) state = (.ok old, state)) :
    outcome (locateAndLoad I expr) state = (.ok (place, old), state) := by
  rw [valueOf, outcome_bind_ok _ hplace] at hold
  rw [locateAndLoad, outcome_bind_ok _ hplace, outcome_bind_ok _ hold]
  rfl

theorem steady_locateAndLoad {expr : Expr} (h : expr.Undisturbed I id value)
    (hchildren : ∀ child ∈ expr.children, child.Undisturbed I id value) :
    Steady (spill I id value) (locateAndLoad I expr) := by
  intro state
  obtain ⟨place, hplace, hplaceAfter⟩ := steady_locate h.quiet hchildren state
  obtain ⟨old, hold, holdAfter⟩ := steady_valueOf h state
  refine ⟨(place, old), outcome_locateAndLoad hplace hold, fun after hafter => ?_⟩
  exact outcome_locateAndLoad (hplaceAfter after hafter) (holdAfter after hafter)

end Evaluation

/-! ## The move -/

namespace Expr

/-- Nothing is substituted in an expression that avoids the variable. -/
theorem substitute_of_avoids {id : VariableId} {expr : Expr} (value : Expr)
    (h : expr.Avoids [id]) : expr.substitute id value = expr := by
  induction expr using induction_children with
  | step expr ih =>
    rw [substitute_of_not_isVariable (h.not_isVariable List.mem_cons_self)]
    exact mapChildren_eq_self fun child hchild => ih child hchild (h.child hchild)

theorem map_substitute_of_avoids {id : VariableId} {exprs : List Expr} (value : Expr)
    (h : ∀ expr ∈ exprs, expr.Avoids [id]) : exprs.map (·.substitute id value) = exprs := by
  have hsame : exprs.map (·.substitute id value) = exprs.map fun expr => expr :=
    List.map_congr_left fun expr hexpr => substitute_of_avoids value (h expr hexpr)
  rw [hsame, List.map_id']

end Expr

namespace Evaluation

variable {id : VariableId} {value : Expr}

/-- The expression after a spill and the expression with the value in it come to
the same, for its value and, unless it is the variable, for its place. -/
structure Moved (I : Interpretation) (id : VariableId) (value expr : Expr) : Prop where
  valueOf : (agreeing I [id]).Relates (spill I id value >>= fun _ => valueOf I expr)
    (valueOf I (expr.substitute id value))
  locate : expr.isVariable id = false →
    (agreeing I [id]).Relates (spill I id value >>= fun _ => locate I expr)
      (locate I (expr.substitute id value))

theorem reads_agreeing_of_not_isVariable {expr : Expr} (h : expr.isVariable id = false) :
    ∀ access, expr.access? = some access → (agreeing I [id]).Reads access := by
  intro access heq other hother
  rintro rfl
  rw [List.mem_singleton.1 hother] at heq
  rw [Expr.isVariable_iff_access?.2 heq] at h
  exact Bool.noConfusion h

/-- The place of an expression other than the variable can be read after the spill. -/
theorem relates_load_of_spill {expr : Expr} (h : expr.isVariable id = false) {state after : State I}
    {place : Located I} (hplace : outcome (spill I id value >>= fun _ => Evaluation.locate I expr)
      state = (.ok place, after)) :
    (agreeing I [id]).Relates (load place) (load place) := by
  have hyields : Yields (fun place => place.access? = expr.access?)
      (spill I id value >>= fun _ => Evaluation.locate I expr) :=
    yields_bind fun _ => yields_locate expr
  have haccess := hyields state place after hplace
  apply relates_load
  intro access heq
  exact reads_agreeing_of_not_isVariable h access (haccess ▸ heq)

/-- For an expression other than the variable it is enough to compare the places. -/
theorem moved_of_locate {expr : Expr} (hvariable : expr.isVariable id = false)
    (h : (agreeing I [id]).Relates (spill I id value >>= fun _ => Evaluation.locate I expr)
      (Evaluation.locate I (expr.substitute id value))) : Moved I id value expr where
  locate _ := h
  valueOf := by
    rw [Evaluation.valueOf, Evaluation.valueOf, ← bind_assoc]
    apply h.bind_of_outcome
    intro state place after hplace
    exact relates_load_of_spill hvariable hplace

/-- Reading the variable after the spill gives the value. -/
theorem moved_read {expr : Expr} (havoids : value.Avoids [id]) (h : expr.isVariable id = true) :
    Moved I id value expr := by
  refine ⟨?_, fun hnot => ?_⟩
  · have hread : valueOf I expr = load (.slot id) := by
      rw [Evaluation.valueOf, locate_of_isVariable h]
      rfl
    rw [Expr.substitute_of_isVariable h, spill, bind_assoc, hread,
      ← bind_pure (Evaluation.valueOf I value), bind_assoc]
    apply (similar_of_avoids havoids).valueOf.bind
    intro result s s' hrel
    have hresult : (s.set id result).slots id = result := State.set_slots_self s id result
    have hafter : (agreeing I [id]).Rel (s.set id result) s' := by
      refine ⟨hrel.1, fun other hother => ?_⟩
      have hne : other ≠ id := fun heq => hother (List.mem_singleton.2 heq)
      exact (State.set_slots_of_ne s result hne).trans (hrel.2 other hother)
    exact ⟨congrArg Except.ok hresult, hafter, fun _ hthrown => by cases hthrown⟩
  · rw [h] at hnot
    exact Bool.noConfusion hnot

/-- Among operands, the value moves past those before the one that receives it. -/
theorem relates_valuesOf_moved {before after : List Expr} {operand : Expr}
    (hearlier : ∀ expr ∈ before, expr.Undisturbed I id value) (h : Moved I id value operand)
    (hlater : ∀ expr ∈ after, expr.Avoids [id]) :
    (agreeing I [id]).Relates
      (spill I id value >>= fun _ => valuesOf I (before ++ operand :: after))
      (valuesOf I ((before ++ operand :: after).map (·.substitute id value))) := by
  induction before with
  | nil =>
    rw [List.nil_append, List.map_cons, Expr.map_substitute_of_avoids value hlater, valuesOf,
      valuesOf, ← bind_assoc]
    have hrest : (agreeing I [id]).Relates (valuesOf I after) (valuesOf I after) := by
      have hsame := relates_valuesOf (f := fun expr => expr) fun expr hexpr =>
        similar_of_avoids (I := I) (hlater expr hexpr)
      rwa [List.map_id'] at hsame
    exact h.valueOf.bind fun first => hrest.bind fun rest => relates_pure (first :: rest)
  | cons expr before ih =>
    have hfirst := hearlier expr List.mem_cons_self
    have hrest := ih fun other hother => hearlier other (List.mem_cons_of_mem _ hother)
    have hcommute := (steady_valueOf (I := I) hfirst).commute fun first =>
      valuesOf I (before ++ operand :: after) >>= fun rest => pure (first :: rest)
    rw [Evaluation.valueOf] at hcommute
    rw [List.cons_append, List.map_cons, Expr.substitute_of_avoids value hfirst.avoids, valuesOf,
      valuesOf, hcommute]
    apply (similar_of_avoids hfirst.avoids).valueOf.bind
    intro first
    rw [← bind_assoc]
    exact hrest.bind fun rest => relates_pure (first :: rest)

/-- A strict node by itself writes nothing but the heap. -/
theorem written_of_isStrict {expr : Expr} (h : isStrict expr = true) {access : Access}
    (hwritten : expr.written? = some access) : access = .heap := by
  cases expr with
  | staticCall | call | create => exact (Option.some.inj hwritten).symm
  | assign => exact Bool.noConfusion h
  | unary op operand =>
    have hop : op.isMutating = false := by simpa [isStrict] using h
    rw [Expr.written?, hop] at hwritten
    cases hwritten
  | _ => cases hwritten

theorem isVariable_eq_false_of_children {expr : Expr} (h : expr.children ≠ []) :
    expr.isVariable id = false := by
  rw [Bool.eq_false_iff]
  intro hvariable
  exact h (Expr.children_eq_nil_of_isVariable hvariable)

theorem relates_store_agreeing (place : Located I) (new : I.Value) :
    (agreeing I [id]).Relates (store place new) (store place new) :=
  relates_store new fun _ _ => trivial

theorem moved_operand {expr operand : Expr} {before after : List Expr}
    (hstrict : isStrict expr = true) (hchildren : expr.children = before ++ operand :: after)
    (hearlier : ∀ other ∈ before, other.Undisturbed I id value) (h : Moved I id value operand)
    (hlater : ∀ other ∈ after, other.Avoids [id]) : Moved I id value expr := by
  have hnot : expr.isVariable id = false := by
    apply isVariable_eq_false_of_children
    rw [hchildren]
    exact List.append_ne_nil_of_right_ne_nil before (List.cons_ne_nil operand after)
  have hmapped : isStrict (expr.mapChildren (·.substitute id value)) = true := by
    rw [isStrict_mapChildren, hstrict]
  apply moved_of_locate hnot
  rw [Expr.substitute_of_not_isVariable hnot, locate_of_isStrict hstrict,
    locate_of_isStrict hmapped, assemble_mapChildren, Expr.children_mapChildren, hchildren,
    ← bind_assoc]
  apply (relates_valuesOf_moved hearlier h hlater).bind
  intro values
  apply relates_assemble
  intro access heq
  rw [written_of_isStrict hstrict heq]
  exact ⟨fun _ _ => Access.noConfusion, trivial⟩

theorem moved_left {op : BinaryOp} {left right : Expr} (hlazy : op.isShortCircuit = true)
    (h : Moved I id value left) (hlater : right.Avoids [id]) :
    Moved I id value (.binary op left right) := by
  have hright := (similar_of_avoids (I := I) hlater).valueOf
  apply moved_of_locate rfl
  rw [Expr.substitute_of_not_isVariable rfl, Expr.mapChildren,
    Expr.substitute_of_avoids value hlater, locate, locate, ← bind_assoc]
  simp only [hlazy, if_true]
  apply h.valueOf.bind
  intro first
  by_cases hneeded : I.isTrue first = (op == .and)
  · rw [if_pos hneeded]
    exact hright.bind fun second => relates_pure _
  · rw [if_neg hneeded]
    exact relates_pure _

theorem moved_condition {condition whenTrue whenFalse : Expr} (h : Moved I id value condition)
    (hlaterTrue : whenTrue.Avoids [id]) (hlaterFalse : whenFalse.Avoids [id]) :
    Moved I id value (.conditional condition whenTrue whenFalse) := by
  have htrue := (similar_of_avoids (I := I) hlaterTrue).valueOf
  have hfalse := (similar_of_avoids (I := I) hlaterFalse).valueOf
  apply moved_of_locate rfl
  rw [Expr.substitute_of_not_isVariable rfl, Expr.mapChildren,
    Expr.substitute_of_avoids value hlaterTrue, Expr.substitute_of_avoids value hlaterFalse,
    locate, locate, ← bind_assoc]
  apply h.valueOf.bind
  intro first
  by_cases hneeded : I.isTrue first = true
  · rw [if_pos hneeded]
    exact htrue.bind fun second => relates_pure _
  · rw [if_neg hneeded]
    exact hfalse.bind fun second => relates_pure _

theorem moved_target {op : Option BinaryOp} {target assigned : Expr}
    (hother : target.isVariable id = false) (h : Moved I id value target)
    (hlater : assigned.Avoids [id]) : Moved I id value (.assign op target assigned) := by
  have hassigned := (similar_of_avoids (I := I) hlater).valueOf
  apply moved_of_locate rfl
  rw [Expr.substitute_of_not_isVariable rfl, Expr.mapChildren,
    Expr.substitute_of_avoids value hlater]
  cases op with
  | none =>
    rw [locate, locate, ← bind_assoc]
    apply (h.locate hother).bind
    intro place
    apply hassigned.bind
    intro new
    exact (relates_store_agreeing place new).bind fun _ => relates_pure _
  | some op =>
    rw [locate, locate, ← bind_assoc]
    apply (h.locate hother).bind_of_outcome
    intro state place after hplace
    apply (relates_load_of_spill hother hplace).bind
    intro old
    apply hassigned.bind
    intro new
    exact (relates_store_agreeing place _).bind fun _ => relates_pure _

/-- The value moves past the place that is assigned to. -/
theorem moved_assigned {target assigned : Expr} (hquiet : target.writes = [])
    (htarget : target.Avoids [id])
    (hearlier : ∀ child ∈ target.children, child.Undisturbed I id value)
    (h : Moved I id value assigned) : Moved I id value (.assign none target assigned) := by
  have hplace := (similar_of_avoids (I := I) htarget).locate fun _ _ => trivial
  apply moved_of_locate rfl
  rw [Expr.substitute_of_not_isVariable rfl, Expr.mapChildren,
    Expr.substitute_of_avoids value htarget, locate, locate,
    (steady_locate (I := I) hquiet hearlier).commute]
  apply hplace.bind
  intro place
  rw [← bind_assoc]
  apply h.valueOf.bind
  intro new
  exact (relates_store_agreeing place new).bind fun _ => relates_pure _

/-- The value moves past the place that is assigned to and past what it holds. -/
theorem moved_combined {op : BinaryOp} {target assigned : Expr}
    (hchildren : ∀ child ∈ target.children, child.Undisturbed I id value)
    (hearlier : target.Undisturbed I id value) (h : Moved I id value assigned) :
    Moved I id value (.assign (some op) target assigned) := by
  have hplace : (agreeing I [id]).Relates (locateAndLoad I target) (locateAndLoad I target) :=
    relates_locateAndLoad ((similar_of_avoids hearlier.avoids).locate fun _ _ => trivial)
      (reads_agreeing_of_not_isVariable (hearlier.avoids.not_isVariable List.mem_cons_self))
  have hsplit : ∀ expr, Evaluation.locate I (.assign (some op) target expr) =
      locateAndLoad I target >>= fun found => Evaluation.valueOf I expr >>= fun new =>
        store found.1 (I.binary op found.2 new) >>= fun _ =>
          pure (.value (I.binary op found.2 new)) := by
    intro expr
    rw [locate, locateAndLoad, Evaluation.valueOf]
    simp only [bind_assoc, pure_bind]
  apply moved_of_locate rfl
  rw [Expr.substitute_of_not_isVariable rfl, Expr.mapChildren,
    Expr.substitute_of_avoids value hearlier.avoids, hsplit, hsplit,
    (steady_locateAndLoad hearlier hchildren).commute]
  apply hplace.bind
  intro found
  rw [← bind_assoc]
  apply h.valueOf.bind
  intro new
  exact (relates_store_agreeing found.1 _).bind fun _ => relates_pure _

theorem moved_updated {op : UnaryOp} {operand : Expr} (hmutating : op.isMutating = true)
    (hother : operand.isVariable id = false) (h : Moved I id value operand) :
    Moved I id value (.unary op operand) := by
  apply moved_of_locate rfl
  rw [Expr.substitute_of_not_isVariable rfl, Expr.mapChildren, locate, locate, ← bind_assoc]
  simp only [hmutating, if_true]
  apply (h.locate hother).bind_of_outcome
  intro state place after hplace
  apply (relates_load_of_spill hother hplace).bind
  intro old
  exact (relates_store_agreeing place _).bind fun _ => relates_pure _

/-- A value can move to where the variable is read. -/
theorem moved_of_receives (havoids : value.Avoids [id]) {expr : Expr}
    (h : expr.Receives id fun other => other.Undisturbed I id value) : Moved I id value expr := by
  induction h with
  | read hread => exact moved_read havoids hread
  | operand strict children earlier _ later ih =>
    exact moved_operand strict children earlier ih later
  | left lazy _ later ih => exact moved_left lazy ih later
  | condition _ laterTrue laterFalse ih => exact moved_condition ih laterTrue laterFalse
  | target other _ later ih => exact moved_target other ih later
  | assigned quiet avoids earlier _ ih => exact moved_assigned quiet avoids earlier ih
  | combined earlier held _ ih => exact moved_combined earlier held ih
  | updated mutating other _ ih => exact moved_updated mutating other ih

end Evaluation

end Assemblage
