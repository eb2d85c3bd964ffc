import Assemblage.Proofs.Evaluation.Access

/-!
# Similar runs

Two runs of similar trees are compared state by state.  A similarity relates
their states and says what may be read, because related states agree on it, and
what may be written, because the states stay related.  Trees that keep to this
come to the same outcome.
-/

namespace Assemblage

open Evaluation

/-- A relation between the states of two runs. -/
structure Similarity (I : Interpretation) where
  Rel : State I → State I → Prop
  Reads : Access → Prop
  Writes : Access → Prop
  sameAt : ∀ {access : Access}, Reads access → ∀ {left right : State I}, Rel left right →
    left.SameAt right access
  set : ∀ {id : VariableId}, Writes (.slot id) → ∀ {left right : State I}
    (value : I.Value), Rel left right → Rel (left.set id value) (right.set id value)
  withHeap : Writes .heap → ∀ {left right : State I} (heap : I.Heap), Rel left right →
    Rel (left.withHeap heap) (right.withHeap heap)
  /-- What is written to the heap depends on the heap. -/
  reads_heap : Writes .heap → Reads .heap

variable {I : Interpretation} {α β : Type}

namespace Evaluation

@[simp]
theorem outcome_pure (value : α) (state : State I) :
    outcome (pure value : Action I α) state = (.ok value, state) :=
  rfl

/-- The outcome of actions in a row is that of the second from where the first one ended, unless
the first one raised. -/
theorem outcome_bind (action : Action I α) (next : α → Action I β) (state : State I) :
    outcome (action >>= next) state =
      match outcome action state with
      | (.ok value, state) => outcome (next value) state
      | (.error value, state) => (.error value, state) := by
  rw [outcome, ExceptT.run_bind, StateT.run_bind]
  rcases h : outcome action state with ⟨_ | value, after⟩ <;> rw [outcome] at h <;> rw [h] <;> rfl

theorem outcome_bind_ok {action : Action I α} (next : α → Action I β) {state after : State I}
    {value : α} (h : outcome action state = (.ok value, after)) :
    outcome (action >>= next) state = outcome (next value) after := by
  rw [outcome_bind, h]

theorem outcome_bind_error {action : Action I α} (next : α → Action I β) {state after : State I}
    {value : I.Value} (h : outcome action state = (.error value, after)) :
    outcome (action >>= next) state = (.error value, after) := by
  rw [outcome_bind, h]

/-- Actions with the same outcomes are the same. -/
theorem action_ext {left right : Action I α}
    (h : ∀ state, outcome left state = outcome right state) :
    left = right :=
  funext h

end Evaluation

namespace Similarity

variable (R : Similarity I)

/-- From related states two actions come to the same result and leave related
states.  They throw only where the heap may be written. -/
def Relates (left right : Action I α) : Prop :=
  ∀ s s', R.Rel s s' → (outcome left s).1 = (outcome right s').1 ∧
    R.Rel (outcome left s).2 (outcome right s').2 ∧
    ∀ value, (outcome left s).1 = .error value → R.Writes .heap

variable {R}

theorem relates_pure (value : α) : R.Relates (pure value) (pure value : Action I α) :=
  fun _ _ h => ⟨rfl, h, fun _ hthrown => nomatch hthrown⟩

/-- The second parts are compared for the results that the first parts have. -/
theorem Relates.bind_of_outcome {left right : Action I α} {next next' : α → Action I β}
    (h : R.Relates left right)
    (hnext : ∀ s value after, outcome left s = (.ok value, after) →
      R.Relates (next value) (next' value)) :
    R.Relates (left >>= next) (right >>= next') := by
  intro s s' hrel
  obtain ⟨hresult, hafter, hthrown⟩ := h s s' hrel
  rcases hleft : outcome left s with ⟨value | value, after⟩
  · have hright : outcome right s' = (.error value, (outcome right s').2) :=
      Prod.ext (by rw [← hresult, hleft]) rfl
    rw [hleft] at hafter hthrown
    rw [outcome_bind_error next hleft, outcome_bind_error next' hright]
    exact ⟨rfl, hafter, fun _ _ => hthrown value rfl⟩
  · have hright : outcome right s' = (.ok value, (outcome right s').2) :=
      Prod.ext (by rw [← hresult, hleft]) rfl
    rw [hleft] at hafter
    rw [outcome_bind_ok next hleft, outcome_bind_ok next' hright]
    exact hnext s value after hleft _ _ hafter

theorem Relates.bind {left right : Action I α} {next next' : α → Action I β}
    (h : R.Relates left right) (hnext : ∀ value, R.Relates (next value) (next' value)) :
    R.Relates (left >>= next) (right >>= next') :=
  h.bind_of_outcome fun _ value _ _ => hnext value

theorem relates_load {place : Located I}
    (h : ∀ access, place.access? = some access → R.Reads access) :
    R.Relates (load place) (load place) := by
  intro s s' hrel
  cases place with
  | slot id =>
    have hsame : s.slots id = s'.slots id := R.sameAt (h _ rfl) hrel
    exact ⟨congrArg Except.ok hsame, hrel, fun _ hthrown => nomatch hthrown⟩
  | heap place =>
    have hsame : s.heap = s'.heap := R.sameAt (h _ rfl) hrel
    exact ⟨congrArg (fun heap => Except.ok (I.read place heap)) hsame, hrel,
      fun _ hthrown => nomatch hthrown⟩
  | value value => exact ⟨rfl, hrel, fun _ hthrown => nomatch hthrown⟩

theorem relates_store {place : Located I} (value : I.Value)
    (h : ∀ access, place.access? = some access → R.Writes access) :
    R.Relates (store place value) (store place value) := by
  intro s s' hrel
  cases place with
  | slot id => exact ⟨rfl, R.set (h _ rfl) value hrel, fun _ hthrown => nomatch hthrown⟩
  | heap place =>
    have hsame : s.heap = s'.heap := R.sameAt (R.reads_heap (h _ rfl)) hrel
    have hafter := R.withHeap (h _ rfl) (I.write place value s.heap) hrel
    refine ⟨rfl, ?_, fun _ hthrown => nomatch hthrown⟩
    show R.Rel (s.withHeap (I.write place value s.heap))
      (s'.withHeap (I.write place value s'.heap))
    rw [← hsame]
    exact hafter
  | value _ => exact ⟨rfl, hrel, fun _ hthrown => nomatch hthrown⟩

theorem relates_invoke (method : I.Heap → Except I.Value I.Value × I.Heap)
    (hwrites : R.Writes .heap) : R.Relates (invoke method) (invoke method) := by
  intro s s' hrel
  have hsame : s.heap = s'.heap := R.sameAt (R.reads_heap hwrites) hrel
  have hafter := R.withHeap hwrites (method s.heap).2 hrel
  refine ⟨congrArg (fun heap => (method heap).1) hsame, ?_, fun _ _ => hwrites⟩
  show R.Rel (s.withHeap (method s.heap).2) (s'.withHeap (method s'.heap).2)
  rw [← hsame]
  exact hafter

end Similarity

namespace Evaluation

/-- Every operand is evaluated for its value, and nothing else happens before the
last one is. -/
def isStrict : Expr → Bool
  | .assign .. | .conditional .. => false
  | .binary op _ _ => !op.isShortCircuit
  | .unary op _ => !op.isMutating
  | _ => true

/-- What a strict node makes of the values of its operands. -/
def assemble (I : Interpretation) : Expr → List I.Value → Action I (Located I)
  | .literal value, _ => return .value (I.literal value)
  | .raw id, _ | .bound id, _ => return .slot id
  | .staticField owner name type, _ => return .heap (.static owner name type)
  | .defaultValue type, _ => return .value (I.defaultValue type)
  | .field _ owner name type, [target] => return .heap (.field target owner name type)
  | .element _ _ type, [array, index] => return .heap (.element array index type)
  | .staticCall method _, arguments => return .value (← invoke (I.call none method arguments))
  | .call _ method _, target :: arguments =>
    return .value (← invoke (I.call (some target) method arguments))
  | .create type _, arguments => return .value (← invoke (I.create type arguments))
  | .binary op _ _, [left, right] => return .value (I.binary op left right)
  | .unary op _, [value] => return .value (I.unary op value)
  | .copy _, [value] => return .value (I.copy value)
  | .cast type _, [value] => return .value (I.cast type value)
  | _, _ => return .value I.self

/-- A strict expression takes the values of all operands first. -/
theorem locate_of_isStrict {expr : Expr} (h : isStrict expr = true) :
    locate I expr = valuesOf I expr.children >>= assemble I expr := by
  cases expr with
  | assign | conditional => exact absurd h Bool.false_ne_true
  | binary op left right =>
    have hop : op.isShortCircuit = false := by simpa [isStrict] using h
    simp [locate, valuesOf, Expr.children, assemble, hop]
  | unary op operand =>
    have hop : op.isMutating = false := by simpa [isStrict] using h
    simp [locate, valuesOf, Expr.children, assemble, hop]
  | staticCall | create => rfl
  | _ => simp [locate, valuesOf, Expr.children, assemble]

theorem isStrict_mapChildren (f : Expr → Expr) (expr : Expr) :
    isStrict (expr.mapChildren f) = isStrict expr := by
  cases expr <;> rfl

theorem assemble_mapChildren (f : Expr → Expr) (expr : Expr) :
    assemble I (expr.mapChildren f) = assemble I expr := by
  funext values
  rcases values with _ | ⟨_, _ | ⟨_, _ | _⟩⟩ <;> cases expr <;> rfl

/-- Every result of the action has the property. -/
def Yields (property : α → Prop) (action : Action I α) : Prop :=
  ∀ state value after, outcome action state = (.ok value, after) → property value

theorem yields_pure {property : α → Prop} {value : α} (h : property value) :
    Yields property (pure value : Action I α) := by
  intro state result after heq
  rw [outcome_pure, Prod.mk.injEq, Except.ok.injEq] at heq
  rw [← heq.1]
  exact h

theorem yields_bind {property : β → Prop} {action : Action I α} {next : α → Action I β}
    (h : ∀ value, Yields property (next value)) : Yields property (action >>= next) := by
  intro state result after heq
  rcases haction : outcome action state with ⟨value | value, middle⟩
  · rw [outcome_bind_error next haction] at heq
    cases heq
  · rw [outcome_bind_ok next haction] at heq
    exact h value middle result after heq

/-- The place of an expression is the one its form tells. -/
theorem yields_locate (expr : Expr) :
    Yields (fun place => place.access? = expr.access?) (locate I expr) := by
  cases expr with
  | literal | raw | bound | self | staticField | defaultValue => exact yields_pure rfl
  | field | element | staticCall | call | create | copy | cast =>
    rw [locate]
    repeat refine yields_bind fun _ => ?_
    exact yields_pure rfl
  | binary op left right =>
    rw [locate]
    apply yields_bind
    intro value
    by_cases hop : op.isShortCircuit = true
    · rw [if_pos hop]
      split
      · exact yields_bind fun _ => yields_pure rfl
      · exact yields_pure rfl
    · rw [if_neg hop]
      exact yields_bind fun _ => yields_pure rfl
  | unary op operand =>
    rw [locate]
    refine yields_bind fun place => yields_bind fun old => ?_
    split
    · exact yields_bind fun _ => yields_pure rfl
    · exact yields_pure rfl
  | assign op target value =>
    cases op with
    | none =>
      rw [locate]
      exact yields_bind fun _ => yields_bind fun _ => yields_bind fun _ => yields_pure rfl
    | some op =>
      rw [locate]
      exact yields_bind fun _ => yields_bind fun _ => yields_bind fun _ => yields_bind fun _ =>
        yields_pure rfl
  | conditional condition whenTrue whenFalse =>
    rw [locate]
    apply yields_bind
    intro value
    split
    · exact yields_bind fun _ => yields_pure rfl
    · exact yields_bind fun _ => yields_pure rfl

end Evaluation

/-! ## Similar expressions -/

namespace Similarity

variable (R : Similarity I)

/-- The node is at a place that may be read, and what its evaluation writes may
be read and written. -/
structure Permits (node : Expr) : Prop where
  access : ∀ access, node.access? = some access → R.Reads access
  written : ∀ access, node.written? = some access → R.Reads access ∧ R.Writes access

/-- Two expressions come to the same values from related states, and to the same
places where they may be written to. -/
structure Similar (left right : Expr) : Prop where
  valueOf : R.Relates (valueOf I left) (valueOf I right)
  locate : (∀ access, left.access? = some access → R.Writes access) →
    R.Relates (locate I left) (locate I right)

variable {R}

theorem relates_valuesOf {f : Expr → Expr} {exprs : List Expr}
    (h : ∀ expr ∈ exprs, R.Similar expr (f expr)) :
    R.Relates (valuesOf I exprs) (valuesOf I (exprs.map f)) := by
  induction exprs with
  | nil => exact relates_pure []
  | cons expr rest ih =>
    rw [List.map_cons, valuesOf, valuesOf]
    have hfirst := (h expr List.mem_cons_self).valueOf
    have hrest := ih fun other hother => h other (List.mem_cons_of_mem _ hother)
    exact hfirst.bind fun value => hrest.bind fun values => relates_pure (value :: values)

theorem relates_assemble {expr : Expr}
    (h : ∀ access, expr.written? = some access → R.Reads access ∧ R.Writes access)
    (values : List I.Value) :
    R.Relates (assemble I expr values) (assemble I expr values) := by
  have hinvoke : expr.written? = some .heap → ∀ method : I.Heap → Except I.Value I.Value × I.Heap,
      R.Relates (do return Located.value (← invoke method))
        (do return Located.value (← invoke method)) := fun hwritten method =>
    (relates_invoke method (h _ hwritten).2).bind fun value => relates_pure _
  cases expr with
  | staticCall | create => exact hinvoke rfl _
  | call =>
    cases values with
    | nil => exact relates_pure _
    | cons => exact hinvoke rfl _
  | _ => rcases values with _ | ⟨_, _ | ⟨_, _ | _⟩⟩ <;> exact relates_pure _

/-- The place of an expression is read as its form tells. -/
theorem relates_load_of_locate {expr : Expr}
    (h : ∀ access, expr.access? = some access → R.Reads access) {state after : State I}
    {place : Located I} (hplace : outcome (Evaluation.locate I expr) state = (.ok place, after)) :
    R.Relates (load place) (load place) := by
  have haccess := yields_locate expr state place after hplace
  exact relates_load fun access heq => h access (haccess ▸ heq)

theorem relates_store_of_locate {expr : Expr} (value : I.Value)
    (h : ∀ access, expr.access? = some access → R.Writes access) {state after : State I}
    {place : Located I} (hplace : outcome (Evaluation.locate I expr) state = (.ok place, after)) :
    R.Relates (store place value) (store place value) := by
  have haccess := yields_locate expr state place after hplace
  exact relates_store value fun access heq => h access (haccess ▸ heq)

theorem relates_locate_lazy {op : BinaryOp} {left left' right right' : Expr}
    (hlazy : op.isShortCircuit = true)
    (hleft : R.Relates (Evaluation.valueOf I left) (Evaluation.valueOf I left'))
    (hright : R.Relates (Evaluation.valueOf I right) (Evaluation.valueOf I right')) :
    R.Relates (Evaluation.locate I (.binary op left right))
      (Evaluation.locate I (.binary op left' right')) := by
  rw [locate, locate]
  simp only [hlazy, if_true]
  apply hleft.bind
  intro value
  by_cases hneeded : I.isTrue value = (op == .and)
  · rw [if_pos hneeded, if_pos hneeded]
    exact hright.bind fun value => relates_pure _
  · rw [if_neg hneeded, if_neg hneeded]
    exact relates_pure _

theorem relates_locate_conditional {condition condition' whenTrue whenTrue' whenFalse whenFalse' :
      Expr} (hcondition : R.Relates (Evaluation.valueOf I condition)
      (Evaluation.valueOf I condition'))
    (htrue : R.Relates (Evaluation.valueOf I whenTrue) (Evaluation.valueOf I whenTrue'))
    (hfalse : R.Relates (Evaluation.valueOf I whenFalse) (Evaluation.valueOf I whenFalse')) :
    R.Relates (Evaluation.locate I (.conditional condition whenTrue whenFalse))
      (Evaluation.locate I (.conditional condition' whenTrue' whenFalse')) := by
  rw [locate, locate]
  apply hcondition.bind
  intro value
  by_cases hneeded : I.isTrue value = true
  · rw [if_pos hneeded, if_pos hneeded]
    exact htrue.bind fun value => relates_pure _
  · rw [if_neg hneeded, if_neg hneeded]
    exact hfalse.bind fun value => relates_pure _

theorem relates_locate_updated {op : UnaryOp} {operand operand' : Expr}
    (hmutating : op.isMutating = true)
    (hoperand : R.Relates (Evaluation.locate I operand) (Evaluation.locate I operand'))
    (hallowed : ∀ access, operand.access? = some access → R.Reads access ∧ R.Writes access) :
    R.Relates (Evaluation.locate I (.unary op operand))
      (Evaluation.locate I (.unary op operand')) := by
  have hreads := fun access heq => (hallowed access heq).1
  have hwrites := fun access heq => (hallowed access heq).2
  rw [locate, locate]
  simp only [hmutating, if_true]
  apply hoperand.bind_of_outcome
  intro state place after hplace
  apply (relates_load_of_locate hreads hplace).bind
  intro old
  exact (relates_store_of_locate _ hwrites hplace).bind fun _ => relates_pure _

theorem relates_locate_assign {op : Option BinaryOp} {target target' value value' : Expr}
    (htarget : R.Relates (Evaluation.locate I target) (Evaluation.locate I target'))
    (hvalue : R.Relates (Evaluation.valueOf I value) (Evaluation.valueOf I value'))
    (hallowed : ∀ access, target.access? = some access → R.Reads access ∧ R.Writes access) :
    R.Relates (Evaluation.locate I (.assign op target value))
      (Evaluation.locate I (.assign op target' value')) := by
  have hreads := fun access heq => (hallowed access heq).1
  have hwrites := fun access heq => (hallowed access heq).2
  cases op with
  | none =>
    rw [locate, locate]
    apply htarget.bind_of_outcome
    intro state place after hplace
    apply hvalue.bind
    intro new
    exact (relates_store_of_locate _ hwrites hplace).bind fun _ => relates_pure _
  | some op =>
    rw [locate, locate]
    apply htarget.bind_of_outcome
    intro state place after hplace
    apply (relates_load_of_locate hreads hplace).bind
    intro old
    apply hvalue.bind
    intro new
    exact (relates_store_of_locate _ hwrites hplace).bind fun _ => relates_pure _

/-- Similar operands make similar nodes. -/
theorem relates_locate_mapChildren {f : Expr → Expr} {expr : Expr}
    (hwritten : ∀ access, expr.written? = some access → R.Reads access ∧ R.Writes access)
    (h : ∀ child ∈ expr.children, R.Similar child (f child)) :
    R.Relates (Evaluation.locate I expr) (Evaluation.locate I (expr.mapChildren f)) := by
  by_cases hstrict : isStrict expr = true
  · have hmapped : isStrict (expr.mapChildren f) = true := by
      rw [isStrict_mapChildren, hstrict]
    rw [locate_of_isStrict hstrict, locate_of_isStrict hmapped, assemble_mapChildren,
      Expr.children_mapChildren]
    exact (relates_valuesOf h).bind (relates_assemble hwritten)
  · cases expr with
    | binary op left right =>
      have hlazy : op.isShortCircuit = true := by simpa [isStrict] using hstrict
      have hright := h right (List.mem_cons_of_mem _ List.mem_cons_self)
      exact relates_locate_lazy hlazy (h left List.mem_cons_self).valueOf hright.valueOf
    | unary op operand =>
      have hmutating : op.isMutating = true := by simpa [isStrict] using hstrict
      have hallowed : ∀ access, operand.access? = some access → R.Reads access ∧ R.Writes access :=
        fun access heq => hwritten access (by simpa [Expr.written?, hmutating] using heq)
      have hoperand := (h operand List.mem_cons_self).locate fun access heq =>
        (hallowed access heq).2
      exact relates_locate_updated hmutating hoperand hallowed
    | assign op target value =>
      have htarget := (h target List.mem_cons_self).locate fun access heq =>
        (hwritten access heq).2
      have hvalue := h value (List.mem_cons_of_mem _ List.mem_cons_self)
      exact relates_locate_assign htarget hvalue.valueOf hwritten
    | conditional condition whenTrue whenFalse =>
      have htrue := h whenTrue (List.mem_cons_of_mem _ List.mem_cons_self)
      have hfalse := h whenFalse
        (List.mem_cons_of_mem _ (List.mem_cons_of_mem _ List.mem_cons_self))
      exact relates_locate_conditional (h condition List.mem_cons_self).valueOf htrue.valueOf
        hfalse.valueOf
    | _ => exact absurd rfl hstrict

/-- An expression is similar to itself with similar operands put in. -/
theorem similar_mapChildren {f : Expr → Expr} {expr : Expr} (hpermits : R.Permits expr)
    (h : ∀ child ∈ expr.children, R.Similar child (f child)) :
    R.Similar expr (expr.mapChildren f) where
  valueOf := (relates_locate_mapChildren hpermits.written h).bind_of_outcome
    fun _ _ _ hplace => relates_load_of_locate hpermits.access hplace
  locate _ := relates_locate_mapChildren hpermits.written h

/-- An expression whose nodes are all allowed is similar to itself. -/
theorem similar_self {expr : Expr} (h : ∀ node ∈ expr.nodes, R.Permits node) :
    R.Similar expr expr := by
  induction expr using Expr.induction_children with
  | step expr ih =>
    have hself := similar_mapChildren (f := fun child => child) (h expr expr.mem_nodes_self)
      fun child hchild => ih child hchild fun node hnode =>
        h node (Expr.mem_nodes_of_child hchild hnode)
    rwa [Expr.mapChildren_eq_self fun _ _ => rfl] at hself

end Similarity

end Assemblage
