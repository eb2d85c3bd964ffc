import Assemblage.Tree.Stmt

/-!
# Temporaries

Intermediate values are spilled into generated variables, most of which are
assigned once and read once.  Where it is safe, the assigned value moves to the
place of the read and the assignment goes away.

A constant can move into any later statement of its block, blocks inside it
included.  Any other value moves only into the very next statement, and there
only past reads: no write may come before the place of the read in the order of
evaluation, and that place must be reached whenever the statement is.
-/

namespace Assemblage.Lowering.Temporaries

def isDefinition (id : VariableId) : Expr → Bool
  | .assign none target _ => target.isVariable id
  | _ => false

/-- A write to a variable that also depends on its old value. -/
def isUpdate (id : VariableId) : Expr → Bool
  | .assign (some _) target _ => target.isVariable id
  | .unary op operand => op.isMutating && operand.isVariable id
  | _ => false

def isTemporary (table : VariableTable) (id : VariableId) : Bool :=
  (table.get? id).any fun entry => entry.isGenerated && !entry.isParameter

/-- A temporary with one definition, one other occurrence, no update and no
declaration. -/
def isCandidate (tree : MethodTree) (nodes : List Expr) (declared : List VariableId)
    (id : VariableId) : Bool :=
  isTemporary tree.table id && nodes.countP (isDefinition id) == 1 &&
    nodes.countP (·.isVariable id) == 2 && !nodes.any (isUpdate id) && !declared.contains id

def candidates (tree : MethodTree) : List VariableId :=
  (tree.table.entries.map (·.1)).filter
    (isCandidate tree (Block.nodes tree.body) (Block.declared tree.body))

/-- The outcome of looking for a variable in the order of evaluation: not
found, with whether anything was written on the way, or found. -/
inductive Reach where
  | absent (written : Bool)
  | found (safe : Bool)
deriving DecidableEq

def Reach.andThen (reach : Reach) (next : Bool → Reach) : Reach :=
  match reach with
  | .absent written => next written
  | .found safe => .found safe

mutual

/-- Looks for a variable in an expression.  `guarded` says that the expression
is evaluated only in some cases, `written` that something has been written
before it. -/
def reach (id : VariableId) (guarded written : Bool) : Expr → Reach
  | .raw other | .bound other =>
    if other = id then .found (!guarded && !written) else .absent written
  | .literal _ | .self | .staticField .. | .defaultValue _ => .absent written
  | .field target .. => reach id guarded written target
  | .element array index _ =>
    (reach id guarded written array).andThen fun written => reach id guarded written index
  | .staticCall _ arguments | .create _ arguments =>
    (reachList id guarded written arguments).andThen fun _ => .absent true
  | .call target _ arguments =>
    ((reach id guarded written target).andThen fun written =>
      reachList id guarded written arguments).andThen fun _ => .absent true
  | .binary op left right =>
    (reach id guarded written left).andThen fun written =>
      reach id (guarded || op.isShortCircuit) written right
  | .unary op operand =>
    (reach id guarded written operand).andThen fun written => .absent (written || op.isMutating)
  | .assign _ target value =>
    ((reach id guarded written target).andThen fun written =>
      reach id guarded written value).andThen fun _ => .absent true
  | .conditional condition whenTrue whenFalse =>
    ((reach id guarded written condition).andThen fun written =>
      reach id true written whenTrue).andThen fun written => reach id true written whenFalse
  | .copy value | .cast _ value => reach id guarded written value

def reachList (id : VariableId) (guarded written : Bool) : List Expr → Reach
  | [] => .absent written
  | expr :: rest =>
    (reach id guarded written expr).andThen fun written => reachList id guarded written rest

end

/-- Whether a value may move from the statement before to the read of the
variable in this one. -/
def receives (id : VariableId) : Stmt → Bool
  | .expr value | .raise value | .declare _ (some value) | .ret (some value)
  | .ifThen value _ | .ifElse value _ _ => reach id false false value == .found true
  | _ => false

/-! ## Moving -/

def substitute (id : VariableId) (value : Expr) (stmt : Stmt) : Stmt :=
  stmt.mapExprs fun expr => if expr.isVariable id then value else expr

/-- Puts a value into the first statement that mentions the variable. -/
def placeAnywhere? (id : VariableId) (value : Expr) : List Stmt → Option (List Stmt)
  | [] => none
  | stmt :: rest =>
    if stmt.mentions id then some (substitute id value stmt :: rest)
    else (placeAnywhere? id value rest).map (stmt :: ·)

def placeNext? (id : VariableId) (value : Expr) : List Stmt → Option (List Stmt)
  | [] => none
  | stmt :: rest => if receives id stmt then some (substitute id value stmt :: rest) else none

/-- The statements after an assignment with its value moved into them. -/
def move? (candidates : List VariableId) (stmt : Stmt) (rest : List Stmt) :
    Option (List Stmt) :=
  match stmt.assignment? with
  | some (id, value) =>
    if candidates.contains id then
      if value.isConstant then placeAnywhere? id value rest else placeNext? id value rest
    else none
  | none => none

theorem length_placeAnywhere? {id : VariableId} {value : Expr} {stmts moved : List Stmt}
    (h : placeAnywhere? id value stmts = some moved) : moved.length = stmts.length := by
  induction stmts generalizing moved with
  | nil => simp [placeAnywhere?] at h
  | cons stmt rest ih =>
    simp only [placeAnywhere?] at h
    split at h
    · cases h; simp
    · obtain ⟨others, hothers, rfl⟩ := Option.map_eq_some_iff.1 h
      simp [ih hothers]

theorem length_placeNext? {id : VariableId} {value : Expr} {stmts moved : List Stmt}
    (h : placeNext? id value stmts = some moved) : moved.length = stmts.length := by
  cases stmts with
  | nil => simp [placeNext?] at h
  | cons stmt rest =>
    simp only [placeNext?] at h
    split at h
    · cases h; simp
    · simp at h

/-- A move changes the statements after the assignment and drops none of them. -/
theorem length_move? {candidates : List VariableId} {stmt : Stmt} {rest moved : List Stmt}
    (h : move? candidates stmt rest = some moved) : moved.length = rest.length := by
  unfold move? at h
  split at h
  · split at h
    · split at h
      · exact length_placeAnywhere? h
      · exact length_placeNext? h
    · simp at h
  · simp at h

/-- Moves what can be moved between the statements of one block, first to last. -/
def eliminateFlat (candidates : List VariableId) : List Stmt → List Stmt × Nat
  | [] => ([], 0)
  | stmt :: rest =>
    match _h : move? candidates stmt rest with
    | some moved =>
      let (stmts, n) := eliminateFlat candidates moved
      (stmts, n + 1)
    | none =>
      let (stmts, n) := eliminateFlat candidates rest
      (stmt :: stmts, n)
termination_by stmts => stmts.length
decreasing_by
  · simp [length_move? _h]
  · simp

/-- Applies a function to each block directly inside a statement. -/
def mapBlocks (f : Block → Block × Nat) : Stmt → Stmt × Nat
  | .block body =>
    let (body, n) := f body
    (.block body, n)
  | .ifThen condition body =>
    let (body, n) := f body
    (.ifThen condition body, n)
  | .ifElse condition body otherwise =>
    let (body, n) := f body
    let (otherwise, m) := f otherwise
    (.ifElse condition body otherwise, n + m)
  | .loop condition body =>
    let (body, n) := f body
    (.loop condition body, n)
  | stmt => (stmt, 0)

def mapBlocksOfAll (f : Block → Block × Nat) : List Stmt → List Stmt × Nat
  | [] => ([], 0)
  | stmt :: rest =>
    let (stmt, n) := mapBlocks f stmt
    let (rest, m) := mapBlocksOfAll f rest
    (stmt :: rest, n + m)

/-- Eliminates in a block and in the blocks inside it, down to the given number
of levels.  A constant may move into an inner block before that block's turn. -/
def eliminateLevels (candidates : List VariableId) : Nat → Block → Block × Nat
  | 0, block => (block, 0)
  | levels + 1, block =>
    let (block, n) := eliminateFlat candidates block
    let (block, m) := mapBlocksOfAll (eliminateLevels candidates levels) block
    (block, n + m)

/-- One run over a whole tree; counts the variables that went away. -/
def run (tree : MethodTree) : MethodTree × Nat :=
  let (body, n) :=
    eliminateLevels (candidates tree) (Stmt.depthOfBlock tree.body + 1) tree.body
  ({ tree with body }, n)

/-- Repeats runs until one changes nothing, at most the given number of times. -/
def runRepeatedly : Nat → MethodTree → MethodTree
  | 0, tree => tree
  | bound + 1, tree =>
    let (tree, n) := run tree
    if n = 0 then tree else runRepeatedly bound tree

end Assemblage.Lowering.Temporaries
