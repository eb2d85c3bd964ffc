import Assemblage.Proofs.Lowering.Aliasing
import Assemblage.Proofs.Tree.Everywhere

/-!
# Trees that a pass leaves alone

The pass that copies structs leaves a tree alone if no value that is handed over
needs a copy, and the pass that shortens operators if no rule applies anywhere.
Each pass brings a tree into a form that it leaves alone.  Later passes keep the
first form: a rule that takes operators away may uncover a location, but only
one that holds a boolean.
-/

namespace Assemblage.Lowering

namespace StructCopies

/-- The values that a statement copies itself where they need it. -/
def kept : Stmt → List Expr
  | .declare _ (some value) => [value]
  | .ret (some value) => if isShared value then [value] else []
  | _ => []

variable (oracle : Oracle) (table : VariableTable)

/-- No value that the node hands over needs a copy. -/
def IsSettled (node : Expr) : Prop :=
  ∀ value ∈ node.handed, needsCopy oracle table value = false

/-- No value that the statement keeps needs a copy. -/
def KeepsSettled (stmt : Stmt) : Prop :=
  ∀ value ∈ kept stmt, needsCopy oracle table value = false

/-- No value in the block needs a copy where it stands. -/
def Settles (block : Block) : Prop :=
  Block.Everywhere (IsSettled oracle table) (KeepsSettled oracle table) block

variable {oracle table}

theorem isSettled_of_handed_eq_nil {node : Expr} (h : node.handed = []) :
    IsSettled oracle table node := by
  intro value hvalue
  rw [h] at hvalue
  exact absurd hvalue List.not_mem_nil

theorem needsCopy_of_isLocation_eq_false {expr : Expr} (h : expr.isLocation = false) :
    needsCopy oracle table expr = false := by
  rw [needsCopy, h, Bool.false_and]

theorem copied_eq_self {value : Expr} (h : needsCopy oracle table value = false) :
    (copied oracle table value).1 = value := by
  rw [copied_eq, h]
  rfl

theorem needsCopy_copied (value : Expr) :
    needsCopy oracle table (copied oracle table value).1 = false := by
  rw [copied_eq]
  cases hneeds : needsCopy oracle table value with
  | true => exact needsCopy_of_isLocation_eq_false rfl
  | false => exact hneeds

theorem copyInExpr_eq_self {node : Expr} (h : IsSettled oracle table node) :
    (copyInExpr oracle table node).1 = node := by
  have harguments : ∀ arguments : List Expr,
      (∀ value ∈ arguments, needsCopy oracle table value = false) →
        (copiedAll oracle table arguments).1 = arguments := by
    intro arguments hsettled
    rw [copiedAll_fst, List.map_congr_left fun value hvalue =>
      copied_eq_self (hsettled value hvalue),
      List.map_id']
  cases node with
  | assign op target value =>
    cases op with
    | none => exact congrArg (Expr.assign none target) (copied_eq_self (h value List.mem_cons_self))
    | some op => rfl
  | staticCall method arguments => exact congrArg (Expr.staticCall method) (harguments arguments h)
  | call target method arguments =>
    exact congrArg (Expr.call target method) (harguments arguments h)
  | create type arguments => exact congrArg (Expr.create type) (harguments arguments h)
  | _ => rfl

theorem copyInStmt_eq_self {stmt : Stmt} (h : KeepsSettled oracle table stmt) :
    (copyInStmt oracle table stmt).1 = stmt := by
  unfold copyInStmt
  split
  · rename_i id value
    exact congrArg (fun value => Stmt.declare id (some value))
      (copied_eq_self (h value List.mem_cons_self))
  · rename_i value
    split
    · rename_i hshared
      have hvalue : value ∈ kept (.ret (some value)) := by
        rw [kept, if_pos hshared]
        exact List.mem_cons_self
      exact congrArg (fun value => Stmt.ret (some value)) (copied_eq_self (h value hvalue))
    · rfl
  · rfl

/-- The pass leaves a settled body as it is. -/
theorem run_eq_self {tree : MethodTree} (h : Settles oracle tree.table tree.body) :
    (run oracle tree).1 = tree := by
  have hbody : (Stmt.mapCountingBlock (copyInExpr oracle tree.table)
      (copyInStmt oracle tree.table) tree.body).1 = tree.body :=
    Block.mapCountingBlock_eq_self
      (h.imp (fun _ => copyInExpr_eq_self) fun _ => copyInStmt_eq_self)
  exact congrArg (fun body => { tree with body }) hbody

/-! What the pass returns is settled. -/

theorem everywhere_copied {value : Expr} (h : value.Everywhere (IsSettled oracle table)) :
    (copied oracle table value).1.Everywhere (IsSettled oracle table) := by
  rw [copied_eq]
  split
  · refine Expr.everywhere_iff.2 ⟨isSettled_of_handed_eq_nil rfl, ?_⟩
    simpa [Expr.children] using h
  · exact h

theorem mem_children_copyInExpr {expr child : Expr}
    (h : child ∈ (copyInExpr oracle table expr).1.children) :
    child ∈ expr.children ∨ ∃ value ∈ expr.children, child = (copied oracle table value).1 := by
  cases expr with
  | assign op target value =>
    cases op with
    | none =>
      simp only [copyInExpr, Expr.children, List.mem_cons, List.not_mem_nil, or_false] at h ⊢
      cases h with
      | inl h => exact .inl (.inl h)
      | inr h => exact .inr ⟨value, .inr rfl, h⟩
    | some op => exact .inl h
  | staticCall method arguments | create type arguments =>
    simp only [copyInExpr, Expr.children, copiedAll_fst, List.mem_map] at h
    obtain ⟨value, hvalue, rfl⟩ := h
    exact .inr ⟨value, hvalue, rfl⟩
  | call target method arguments =>
    simp only [copyInExpr, Expr.children, copiedAll_fst, List.mem_cons, List.mem_map] at h ⊢
    obtain rfl | ⟨value, hvalue, rfl⟩ := h
    · exact .inl (.inl rfl)
    · exact .inr ⟨value, .inr hvalue, rfl⟩
  | _ => exact .inl h

/-- A node is settled once its parts are and it was rewritten. -/
theorem everywhere_copyInExpr {expr : Expr}
    (h : ∀ child ∈ expr.children, child.Everywhere (IsSettled oracle table)) :
    (copyInExpr oracle table expr).1.Everywhere (IsSettled oracle table) := by
  refine Expr.everywhere_iff.2 ⟨?_, fun child hchild => ?_⟩
  · intro value hvalue
    rw [handed_copyInExpr] at hvalue
    obtain ⟨given, -, rfl⟩ := List.mem_map.1 hvalue
    exact needsCopy_copied given
  · obtain hchild | ⟨value, hvalue, rfl⟩ := mem_children_copyInExpr hchild
    · exact h child hchild
    · exact everywhere_copied (h value hvalue)

theorem mem_kept_ret {given value : Expr} (h : value ∈ kept (.ret (some given))) :
    value = given ∧ isShared given = true := by
  rw [kept] at h
  split at h
  · exact ⟨List.mem_singleton.1 h, ‹_›⟩
  · exact absurd h List.not_mem_nil

theorem keepsSettled_copyInStmt (stmt : Stmt) :
    KeepsSettled oracle table (copyInStmt oracle table stmt).1 := by
  intro value hvalue
  unfold copyInStmt at hvalue
  split at hvalue
  · cases List.mem_singleton.1 hvalue
    exact needsCopy_copied _
  · split at hvalue
    · obtain ⟨rfl, -⟩ := mem_kept_ret hvalue
      exact needsCopy_copied _
    · rename_i hshared
      exact absurd (mem_kept_ret hvalue).2 hshared
  · rename_i hdeclare hret
    cases stmt with
    | declare id initial =>
      cases initial with
      | none => exact absurd hvalue List.not_mem_nil
      | some initial => exact absurd rfl (hdeclare id initial)
    | ret result =>
      cases result with
      | none => exact absurd hvalue List.not_mem_nil
      | some result => exact absurd rfl (hret result)
    | _ => exact absurd hvalue List.not_mem_nil

/-- A statement is settled once its parts are and it was rewritten. -/
theorem everywhere_copyInStmt {stmt : Stmt}
    (hexprs : ∀ expr ∈ stmt.exprs, expr.Everywhere (IsSettled oracle table))
    (hblocks : ∀ inner ∈ stmt.blocks, Settles oracle table inner) :
    Settles oracle table [(copyInStmt oracle table stmt).1] := by
  have hcopied : ∀ value : Expr, value ∈ stmt.exprs →
      ∀ expr ∈ [(copied oracle table value).1], expr.Everywhere (IsSettled oracle table) := by
    intro value hvalue
    exact List.forall_mem_singleton.2 (everywhere_copied (hexprs value hvalue))
  refine Block.everywhere_singleton.2 ⟨keepsSettled_copyInStmt stmt, ?_, ?_⟩
  · unfold copyInStmt
    split
    · exact hcopied _ (List.mem_singleton_self _)
    · split
      · exact hcopied _ (List.mem_singleton_self _)
      · exact hexprs
    · exact hexprs
  · rw [blocks_copyInStmt]
    exact hblocks

/-- The pass leaves no value that needs a copy. -/
theorem settles_run (oracle : Oracle) (tree : MethodTree) :
    Settles oracle tree.table (run oracle tree).1.body := by
  refine Block.everywhere_mapCountingBlock (P := fun _ => True) (Q := fun _ => True)
    (fun expr _ hchildren => ?_) (fun stmt parts _ _ hexprs hblocks => ?_)
    ⟨fun _ _ => trivial, fun _ _ => trivial⟩
  · apply everywhere_copyInExpr
    rw [Expr.children_mapChildren, List.forall_mem_map]
    exact hchildren
  · exact everywhere_copyInStmt hexprs hblocks

variable (oracle table) in
/-- The rewriting turns no value into one that needs a copy: either the result
needs none, or it is as good a location as the value was. -/
def Spares (f : Expr → Expr) : Prop :=
  ∀ value, needsCopy oracle table (f value) = false ∨
    needsCopy oracle table (f value) = needsCopy oracle table value ∧
      isShared (f value) = isShared value

/-- A map that spares structs keeps nodes settled. -/
theorem Spares.isSettled {f : Expr → Expr} (hspares : Spares oracle table f) {node : Expr}
    (h : IsSettled oracle table node) : IsSettled oracle table (node.mapChildren f) := by
  intro value hvalue
  rw [Expr.handed_mapChildren] at hvalue
  obtain ⟨given, hgiven, rfl⟩ := List.mem_map.1 hvalue
  obtain hnone | ⟨hsame, -⟩ := hspares given
  · exact hnone
  · rw [hsame]
    exact h given hgiven

theorem Spares.keepsSettled {f : Expr → Expr} (hspares : Spares oracle table f) {stmt : Stmt}
    (h : KeepsSettled oracle table stmt) (g : Block → Block) :
    KeepsSettled oracle table (stmt.mapParts f g) := by
  have hvalue : ∀ value, value ∈ kept stmt → needsCopy oracle table (f value) = false := by
    intro value hvalue
    obtain hnone | ⟨hsame, -⟩ := hspares value
    · exact hnone
    · rw [hsame]
      exact h value hvalue
  intro value hkept
  cases stmt with
  | declare id initial =>
    cases initial with
    | none => exact absurd hkept List.not_mem_nil
    | some initial =>
      cases List.mem_singleton.1 hkept
      exact hvalue initial List.mem_cons_self
  | ret result =>
    cases result with
    | none => exact absurd hkept List.not_mem_nil
    | some result =>
      obtain ⟨rfl, hshared⟩ := mem_kept_ret hkept
      obtain hnone | ⟨-, hsame⟩ := hspares result
      · exact hnone
      · apply hvalue result
        rw [kept, if_pos (hsame ▸ hshared)]
        exact List.mem_cons_self
  | _ => exact absurd hkept List.not_mem_nil

/-- Replacing the operands of a location leaves it the same sort of location. -/
theorem needsCopy_mapChildren (f : Expr → Expr) (expr : Expr) :
    needsCopy oracle table (expr.mapChildren f) = needsCopy oracle table expr := by
  cases expr <;> rfl

theorem isShared_mapChildren (f : Expr → Expr) (expr : Expr) :
    isShared (expr.mapChildren f) = isShared expr := by
  cases expr <;> rfl

theorem bind_eq (expr : Expr) :
    (References.bind expr).1 = expr ∨
      ∃ id, expr = .raw id ∧ (References.bind expr).1 = .bound id := by
  cases expr with
  | raw id => exact .inr ⟨id, rfl, rfl⟩
  | _ => exact .inl rfl

theorem spares_bind :
    Spares oracle table fun expr => (expr.mapCounting References.bind).1 := by
  intro value
  have hbind : ∀ expr : Expr,
      needsCopy oracle table (References.bind expr).1 = needsCopy oracle table expr ∧
        isShared (References.bind expr).1 = isShared expr := by
    intro expr
    cases expr <;> exact ⟨rfl, rfl⟩
  have hvalue := hbind (value.mapChildren fun child => (child.mapCounting References.bind).1)
  rw [needsCopy_mapChildren, isShared_mapChildren, ← Expr.mapCounting_fst] at hvalue
  exact .inr hvalue

/-- Binding keeps a tree settled. -/
theorem Settles.bind {block : Block} (h : Settles oracle table block) :
    Settles oracle table (Block.mapCounting References.bind block).1 := by
  refine Block.everywhere_mapCounting (fun expr hexpr hchildren => ?_)
    (fun stmt g hstmt => spares_bind.keepsSettled hstmt g) h
  have hnode := spares_bind.isSettled hexpr
  obtain hsame | ⟨id, -, hbound⟩ :=
    bind_eq (expr.mapChildren fun child => (child.mapCounting References.bind).1)
  · rw [hsame]
    refine Expr.everywhere_iff.2 ⟨hnode, ?_⟩
    rw [Expr.children_mapChildren, List.forall_mem_map]
    exact hchildren
  · rw [hbound]
    exact Expr.everywhere_iff.2
      ⟨isSettled_of_handed_eq_nil rfl, fun child hchild => absurd hchild List.not_mem_nil⟩

end StructCopies

/-! ## Operator forms -/

namespace OperatorForms

variable {table : VariableTable}

/-- The rules by what they make of an expression. -/
inductive Form where
  | compound | increment | decrement | doubleNegation | inequality | equality
deriving DecidableEq

/-- `Rule table form expr next` says that the rule turns `expr` into `next`. -/
inductive Rule (table : VariableTable) : Form → Expr → Expr → Prop
  | compound {op : BinaryOp} {target left : Expr} {id : VariableId} (right : Expr)
      (htarget : target.asVariable? = some id) (hleft : left.asVariable? = some id)
      (hop : op.isCompoundable = true) :
    Rule table .compound (.assign none target (.binary op left right))
      (.assign (some op) target right)
  | increment {target : Expr} {id : VariableId} (htarget : target.asVariable? = some id) :
    Rule table .increment (.assign (some .add) target (.literal (.int 1)))
      (.unary .preIncrement target)
  | decrement {target : Expr} {id : VariableId} (htarget : target.asVariable? = some id) :
    Rule table .decrement (.assign (some .sub) target (.literal (.int 1)))
      (.unary .preDecrement target)
  | doubleNegation {operand : Expr} (htype : operand.type? table = some (.primitive .boolean)) :
    Rule table .doubleNegation (.unary .not (.unary .not operand)) operand
  | inequality (left right : Expr) :
    Rule table .inequality (.unary .not (.binary .equal left right)) (.binary .notEqual left right)
  | equality (left right : Expr) :
    Rule table .equality (.unary .not (.binary .notEqual left right)) (.binary .equal left right)

section Rules

variable {form : Form} {expr next : Expr}

/-- A step is taken exactly if there is a rule for it. -/
theorem step?_eq_some_iff : step? table expr = some next ↔ ∃ form, Rule table form expr next := by
  constructor
  · intro h
    unfold step? at h
    split at h
    · split at h
      · rename_i hconditions
        cases h
        rw [Bool.and_eq_true, Bool.and_eq_true, Option.isSome_iff_exists, beq_iff_eq]
          at hconditions
        obtain ⟨⟨⟨id, htarget⟩, hleft⟩, hop⟩ := hconditions
        exact ⟨_, .compound _ htarget (hleft.trans htarget) hop⟩
      · cases h
    · split at h
      · rename_i htarget
        cases h
        obtain ⟨id, htarget⟩ := Option.isSome_iff_exists.1 htarget
        exact ⟨_, .increment htarget⟩
      · cases h
    · split at h
      · rename_i htarget
        cases h
        obtain ⟨id, htarget⟩ := Option.isSome_iff_exists.1 htarget
        exact ⟨_, .decrement htarget⟩
      · cases h
    · split at h
      · rename_i htype
        cases h
        exact ⟨_, .doubleNegation htype⟩
      · cases h
    · cases h
      exact ⟨_, .inequality _ _⟩
    · cases h
      exact ⟨_, .equality _ _⟩
    · cases h
  · rintro ⟨form, h⟩
    cases h with
    | compound right htarget hleft hop => simp [step?, htarget, hleft, hop]
    | increment htarget | decrement htarget => simp [step?, htarget]
    | doubleNegation htype => simp [step?, htype]
    | inequality | equality => rfl

theorem Rule.step? (h : Rule table form expr next) : step? table expr = some next :=
  step?_eq_some_iff.2 ⟨form, h⟩

/-- What holds of an expression and is kept by every rule holds of its normal form. -/
theorem normalize_induction {P : Expr → Prop}
    (hrule : ∀ {form expr next}, Rule table form expr next → P expr → P next) (h : P expr) :
    P (normalize table expr).1 := by
  fun_induction normalize table expr with
  | case1 expr next hstep result n heq ih =>
    rw [heq] at ih
    obtain ⟨form, hnext⟩ := step?_eq_some_iff.1 hstep
    exact ih (hrule hnext h)
  | case2 expr hstep => exact h

end Rules

/-- What a rule makes of a node, without the conditions that do not matter here. -/
inductive Shortens (table : VariableTable) : Expr → Expr → Prop
  | compound (op : BinaryOp) (target left right : Expr) :
    Shortens table (.assign none target (.binary op left right)) (.assign (some op) target right)
  | counted (op : BinaryOp) (update : UnaryOp) (target : Expr) :
    Shortens table (.assign (some op) target (.literal (.int 1))) (.unary update target)
  | doubled {operand : Expr} (h : operand.type? table = some (.primitive .boolean)) :
    Shortens table (.unary .not (.unary .not operand)) operand
  | negated (op opposite : BinaryOp) (left right : Expr) :
    Shortens table (.unary .not (.binary op left right)) (.binary opposite left right)

/-- Every rule shortens what it is applied to. -/
theorem Rule.shortens {form : Form} {expr next : Expr} (h : Rule table form expr next) :
    Shortens table expr next := by
  cases h with
  | compound => exact .compound _ _ _ _
  | increment | decrement => exact .counted _ _ _
  | doubleNegation htype => exact .doubled htype
  | inequality | equality => exact .negated _ _ _ _

theorem shortens_of_step? {expr next : Expr} (h : step? table expr = some next) :
    Shortens table expr next := by
  obtain ⟨form, hrule⟩ := step?_eq_some_iff.1 h
  exact hrule.shortens

theorem Shortens.everywhere_children {P : Expr → Prop} {expr next : Expr}
    (h : Shortens table expr next) (hchildren : ∀ child ∈ expr.children, child.Everywhere P) :
    ∀ child ∈ next.children, child.Everywhere P := by
  cases h with
  | compound op target left right =>
    have hvalue := hchildren (.binary op left right) (by simp [Expr.children])
    refine List.forall_mem_cons.2 ⟨hchildren target List.mem_cons_self, ?_⟩
    exact List.forall_mem_singleton.2 (hvalue.child (by simp [Expr.children]))
  | counted op update target =>
    exact List.forall_mem_singleton.2 (hchildren target List.mem_cons_self)
  | doubled htype =>
    intro child hchild
    have hinner := (hchildren _ List.mem_cons_self).child List.mem_cons_self
    exact hinner.child hchild
  | negated op opposite left right =>
    intro child hchild
    exact (hchildren _ List.mem_cons_self).child hchild

/-- A shorter form hands nothing over, unless it stood in the longer one. -/
theorem Shortens.everywhere {P : Expr → Prop} (hsilent : ∀ node : Expr, node.handed = [] → P node)
    {expr next : Expr} (h : Shortens table expr next)
    (hchildren : ∀ child ∈ expr.children, child.Everywhere P) : next.Everywhere P := by
  have hbelow := h.everywhere_children hchildren
  cases h with
  | doubled htype => exact (hchildren _ List.mem_cons_self).child List.mem_cons_self
  | _ => exact Expr.everywhere_iff.2 ⟨hsilent _ rfl, hbelow⟩

/-! What is shortened is in normal form. -/

/-- No rule applies at the node. -/
def IsNormal (table : VariableTable) (node : Expr) : Prop :=
  step? table node = none

/-- A normal node is left alone. -/
theorem normalize_of_isNormal {expr : Expr} (h : IsNormal table expr) :
    (normalize table expr).1 = expr := by
  unfold normalize
  split
  · rename_i next hnext
    rw [IsNormal, hnext] at h
    cases h
  · rfl

/-- A node with normal parts is normal everywhere after normalizing. -/
theorem everywhere_isNormal_normalize {expr : Expr}
    (hchildren : ∀ child ∈ expr.children, child.Everywhere (IsNormal table)) :
    (normalize table expr).1.Everywhere (IsNormal table) := by
  fun_induction normalize table expr with
  | case1 expr next hstep result n heq ih =>
    rw [heq] at ih
    exact ih ((shortens_of_step? hstep).everywhere_children hchildren)
  | case2 expr hstep => exact Expr.everywhere_iff.2 ⟨hstep, hchildren⟩

/-- The pass leaves no node that a rule applies to. -/
theorem isNormal_run (tree : MethodTree) :
    ∀ node ∈ Block.nodes (run tree).1.body, IsNormal tree.table node := by
  have heverywhere : Block.Everywhere (IsNormal tree.table) (fun _ => True) (run tree).1.body := by
    refine Block.everywhere_mapCounting (P := fun _ => True) (Q := fun _ => True)
      (fun expr _ hchildren => ?_) (fun _ _ _ => trivial) ⟨fun _ _ => trivial, fun _ _ => trivial⟩
    apply everywhere_isNormal_normalize
    rw [Expr.children_mapChildren, List.forall_mem_map]
    exact hchildren
  exact heverywhere.1

theorem run_eq_self {tree : MethodTree}
    (h : ∀ node ∈ Block.nodes tree.body, IsNormal tree.table node) : (run tree).1 = tree := by
  have hbody : (Block.mapCounting (normalize tree.table) tree.body).1 = tree.body :=
    Block.mapCounting_eq_self fun node hnode => normalize_of_isNormal (h node hnode)
  exact congrArg (fun body => { tree with body }) hbody

/-! Shortening keeps a tree settled. -/

variable {oracle : Oracle}

theorem everywhere_isSettled_normalize {expr : Expr}
    (h : expr.Everywhere (StructCopies.IsSettled oracle table)) :
    (normalize table expr).1.Everywhere (StructCopies.IsSettled oracle table) := by
  refine normalize_induction (fun hrule hsettled => ?_) h
  exact hrule.shortens.everywhere (fun _ hnone => StructCopies.isSettled_of_handed_eq_nil hnone)
    fun _ hchild => hsettled.child hchild

/-- A location that shortening uncovers holds a boolean. -/
theorem normalize_eq_self_or (hboolean : oracle.isStruct (.primitive .boolean) = false)
    (expr : Expr) :
    (normalize table expr).1 = expr ∨
      StructCopies.needsCopy oracle table (normalize table expr).1 = false := by
  fun_induction normalize table expr with
  | case1 expr next hstep result n heq ih =>
    rw [heq] at ih
    refine .inr ?_
    obtain rfl | hnone := ih
    · cases shortens_of_step? hstep with
      | doubled htype =>
        rw [StructCopies.needsCopy, htype, Option.any_some, hboolean, Bool.and_false]
      | _ => exact StructCopies.needsCopy_of_isLocation_eq_false rfl
    · exact hnone
  | case2 expr hstep => exact .inl rfl

/-- Normalizing spares structs if booleans are no structs. -/
theorem spares_normalize (hboolean : oracle.isStruct (.primitive .boolean) = false) :
    StructCopies.Spares oracle table fun expr => (expr.mapCounting (normalize table)).1 := by
  intro value
  simp only [Expr.mapCounting_fst (normalize table) value]
  obtain hsame | hnone := @normalize_eq_self_or table oracle hboolean
    (value.mapChildren fun child => (child.mapCounting (normalize table)).1)
  · rw [hsame]
    exact .inr ⟨StructCopies.needsCopy_mapChildren _ value,
      StructCopies.isShared_mapChildren _ value⟩
  · exact .inl hnone

/-- Shortening keeps a body settled if booleans are no structs. -/
theorem settles_run (hboolean : oracle.isStruct (.primitive .boolean) = false) {tree : MethodTree}
    (h : StructCopies.Settles oracle tree.table tree.body) :
    StructCopies.Settles oracle tree.table (run tree).1.body := by
  have hspares := @spares_normalize tree.table oracle hboolean
  refine Block.everywhere_mapCounting (fun expr hexpr hchildren => ?_)
    (fun stmt g hstmt => hspares.keepsSettled hstmt g) h
  apply everywhere_isSettled_normalize
  refine Expr.everywhere_iff.2 ⟨hspares.isSettled hexpr, ?_⟩
  rw [Expr.children_mapChildren, List.forall_mem_map]
  exact hchildren

end OperatorForms

end Assemblage.Lowering
