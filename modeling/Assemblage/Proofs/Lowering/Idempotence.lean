import Assemblage.Model.Store
import Assemblage.Proofs.Lowering.Closed
import Assemblage.Proofs.Lowering.FreeNames
import Assemblage.Proofs.Lowering.NormalForms

/-!
# The pipeline applied twice

No pass finds anything to do in the tree that the pipeline returns.  Its
variables have the names they would be given, all of them are parameters or
declared, so none can be eliminated and none is declared again, all are bound,
every struct that needs a copy has one, and no operator has a shorter form.  The
last two could interfere, as a rule that drops operators brings what was below
them up; but what it brings up is a boolean, and no boolean needs a copy.
-/

namespace Assemblage.Lowering

/-- Every variable of the tree is a parameter or declared. -/
def DeclaresAll (tree : MethodTree) : Prop :=
  ∀ id ∈ Block.gather Expr.variableIds tree.body, id ∈ References.declared tree

namespace Temporaries

/-- Where all variables are declared, none is a candidate. -/
theorem candidates_eq_nil {tree : MethodTree} (h : DeclaresAll tree) : candidates tree = [] := by
  rw [candidates, List.filter_eq_nil_iff]
  intro id _ hcandidate
  simp only [isCandidate, Bool.and_eq_true, beq_iff_eq, Bool.not_eq_true',
    List.contains_eq_mem, decide_eq_false_iff_not] at hcandidate
  obtain ⟨⟨⟨⟨htemporary, -⟩, htwice⟩, -⟩, hundeclared⟩ := hcandidate
  obtain ⟨node, hnode, hvariable⟩ := List.countP_pos_iff.1 (htwice ▸ Nat.two_pos)
  have hmentioned : id ∈ Block.gather Expr.variableIds tree.body :=
    List.mem_flatMap.2
      ⟨node, hnode, Option.mem_toList.2 (Expr.isVariable_eq_true_iff.1 hvariable)⟩
  obtain hparameter | hdeclared := List.mem_append.1 (h id hmentioned)
  · obtain ⟨entry, hentry, hgenerated⟩ := (Option.any_eq_true _ _).1 htemporary
    obtain ⟨other, hother, hisParameter⟩ :=
      (Option.any_eq_true _ _).1 (VariableTable.mem_parameters_iff.1 hparameter)
    simp_all
  · exact hundeclared hdeclared

theorem eliminateFlat_nil (block : Block) : eliminateFlat [] block = (block, 0) := by
  induction block with
  | nil => rw [eliminateFlat]
  | cons stmt rest ih =>
    have hmove : move? [] stmt rest = none := by
      unfold move?
      split <;> rfl
    rw [eliminateFlat]
    split
    · rename_i moved hmoved
      rw [hmove] at hmoved
      cases hmoved
    · rw [ih]

theorem mapBlocksOfAll_eq_self {f : Block → Block × Nat} (hf : ∀ block, f block = (block, 0))
    (block : Block) : mapBlocksOfAll f block = (block, 0) := by
  induction block with
  | nil => rfl
  | cons stmt rest ih =>
    have hstmt : mapBlocks f stmt = (stmt, 0) := by
      cases stmt <;> simp [mapBlocks, hf]
    simp [mapBlocksOfAll, hstmt, ih]

theorem eliminateLevels_nil (levels : Nat) (block : Block) :
    eliminateLevels [] levels block = (block, 0) := by
  induction levels generalizing block with
  | zero => rfl
  | succ levels ih =>
    rw [eliminateLevels, eliminateFlat_nil]
    simp only [mapBlocksOfAll_eq_self ih]

/-- A declared variable is no candidate, so nothing is eliminated. -/
theorem runRepeatedly_eq_self {tree : MethodTree} (h : DeclaresAll tree) (bound : Nat) :
    runRepeatedly bound tree = tree := by
  cases bound with
  | zero => rfl
  | succ bound =>
    have hrun : run tree = (tree, 0) := by
      rw [run, candidates_eq_nil h, eliminateLevels_nil]
    rw [runRepeatedly_succ, hrun]
    rfl

end Temporaries

namespace Declarations

theorem declareAll_eq_self {oracle : Oracle} {table : VariableTable} {declared : List VariableId}
    {stmts : Block} (h : ∀ id ∈ Block.gather Expr.variableIds stmts, id ∈ declared) :
    (declareAll oracle table declared stmts).1 = stmts := by
  induction stmts with
  | nil => rfl
  | cons stmt rest ih =>
    rw [Block.gather_cons, List.forall_mem_append] at h
    have hfresh : (occurrences stmt).filter (fun id => !declared.contains id) = [] := by
      rw [List.filter_eq_nil_iff]
      intro id hid
      simpa using h.1 id (mem_occurrences_iff.1 hid)
    have hintroduce : introduce oracle table [] stmt = [stmt] := by
      have hnone : initialized? [] stmt = none := by
        simp [initialized?]
      rw [introduce, hnone]
      rfl
    rw [declareAll, hfresh]
    simp only [hintroduce, List.nil_append, ih h.2, List.singleton_append]

theorem run_eq_self {tree : MethodTree} (h : DeclaresAll tree) (oracle : Oracle) :
    (run oracle tree).1 = tree := by
  have hbody : (declareAll oracle tree.table (Block.declared tree.body ++ tree.table.parameters)
      tree.body).1 = tree.body := by
    apply declareAll_eq_self
    intro id hid
    exact List.mem_append.2 (List.mem_append.1 (h id hid)).symm
  exact congrArg (fun body => { tree with body }) hbody

/-! A declaration keeps a tree settled: the value it starts with is the value that
was assigned, or a default, which is no location. -/

variable {oracle : Oracle} {table : VariableTable}

theorem settles_declare (id : VariableId) :
    StructCopies.Settles oracle table [declare oracle table id] := by
  have hinitial : ∀ value ∈ initialValue oracle table id, ∃ type, value = .defaultValue type := by
    intro value hvalue
    unfold initialValue at hvalue
    split at hvalue
    · split at hvalue
      · exact ⟨_, (Option.mem_some_iff.1 hvalue).symm⟩
      · cases hvalue
    · cases hvalue
  rw [declare]
  cases hvalue : initialValue oracle table id with
  | none => simp [StructCopies.Settles, Block.everywhere_singleton, Stmt.exprs, Stmt.blocks,
      StructCopies.KeepsSettled, StructCopies.kept]
  | some value =>
    obtain ⟨type, rfl⟩ := hinitial value hvalue
    refine Block.everywhere_singleton.2 ⟨?_, ?_, by simp [Stmt.blocks]⟩
    · exact List.forall_mem_singleton.2 rfl
    · refine List.forall_mem_singleton.2 (Expr.everywhere_iff.2 ⟨?_, by simp [Expr.children]⟩)
      exact StructCopies.isSettled_of_handed_eq_nil rfl

theorem settles_introduce (fresh : List VariableId) {stmt : Stmt}
    (h : StructCopies.Settles oracle table [stmt]) :
    StructCopies.Settles oracle table (introduce oracle table fresh stmt) := by
  have hdeclare : ∀ ids : List VariableId,
      StructCopies.Settles oracle table (ids.map (declare oracle table)) := by
    intro ids
    apply Block.everywhere_iff_singletons.2
    exact List.forall_mem_map.2 fun id _ => settles_declare id
  unfold introduce
  split
  · rename_i id value hinitialized
    obtain ⟨hassignment, -⟩ := Option.filter_eq_some_iff.1 hinitialized
    obtain ⟨target, rfl, -⟩ := Stmt.eq_of_assignment? hassignment
    obtain ⟨-, hexprs, -⟩ := Block.everywhere_singleton.1 h
    have hassign := hexprs _ List.mem_cons_self
    refine Block.everywhere_append.2 ⟨hdeclare _, Block.everywhere_singleton.2 ⟨?_, ?_, ?_⟩⟩
    · exact List.forall_mem_singleton.2 (hassign.here value List.mem_cons_self)
    · exact List.forall_mem_singleton.2
        (hassign.child (List.mem_cons_of_mem _ List.mem_cons_self))
    · simp [Stmt.blocks]
  · exact Block.everywhere_append.2 ⟨hdeclare fresh, h⟩

theorem settles_declareAll (declared : List VariableId) {stmts : Block}
    (h : StructCopies.Settles oracle table stmts) :
    StructCopies.Settles oracle table (declareAll oracle table declared stmts).1 := by
  induction stmts generalizing declared with
  | nil => exact Block.everywhere_nil
  | cons stmt rest ih =>
    obtain ⟨hstmt, hrest⟩ := Block.everywhere_cons.1 h
    rw [declareAll]
    exact Block.everywhere_append.2 ⟨settles_introduce _ hstmt, ih _ hrest⟩

theorem settles_run {tree : MethodTree} (h : StructCopies.Settles oracle tree.table tree.body) :
    StructCopies.Settles oracle tree.table (run oracle tree).1.body :=
  settles_declareAll _ h

end Declarations

/-! ## The whole pipeline -/

namespace Pipeline

variable (pipeline : Pipeline) (context : MethodContext) (tree : MethodTree)

theorem parameters_runRepeatedly (bound : Nat) :
    (Temporaries.runRepeatedly bound tree).parameters = tree.parameters := by
  induction bound generalizing tree with
  | zero => rfl
  | succ bound ih =>
    rw [Temporaries.runRepeatedly_succ]
    split
    · rfl
    · exact ih _

theorem parameters_lowered :
    (pipeline.shorten (pipeline.boundTree context tree)).parameters = tree.parameters := by
  have hbound : (pipeline.boundTree context tree).parameters = tree.parameters := by
    change (pipeline.eliminate (VariableNames.run tree).1).parameters = _
    rw [eliminate]
    split
    · exact parameters_runRepeatedly _ _
    · rfl
  rw [shorten]
  split
  · exact hbound
  · exact hbound

/-- A lowered body declares all its variables. -/
theorem declaresAll_lowered : DeclaresAll (pipeline.shorten (pipeline.boundTree context tree)) :=
  fun _ hid => declared_of_mem_variableIds_lowered pipeline context tree hid

theorem settles_boundTree :
    StructCopies.Settles context.oracle (pipeline.boundTree context tree).table
      (pipeline.boundTree context tree).body :=
  (Declarations.settles_run (StructCopies.settles_run context.oracle _)).bind

/-- A lowered body is settled if booleans are no structs. -/
theorem settles_lowered (hboolean : context.oracle.isStruct (.primitive .boolean) = false) :
    StructCopies.Settles context.oracle (pipeline.shorten (pipeline.boundTree context tree)).table
      (pipeline.shorten (pipeline.boundTree context tree)).body := by
  have hbound := settles_boundTree pipeline context tree
  rw [shorten]
  split
  · exact OperatorForms.settles_run hboolean hbound
  · exact hbound

/-- Naming leaves a lowered body as it is. -/
theorem named_lowered :
    (VariableNames.run (pipeline.shorten (pipeline.boundTree context tree))).1 =
      pipeline.shorten (pipeline.boundTree context tree) := by
  apply @VariableNames.run_eq_self tree
  rw [table_shorten, boundTree, table_declaredTree]

theorem eliminate_eq_self {tree : MethodTree} (h : DeclaresAll tree) :
    pipeline.eliminate tree = tree := by
  rw [eliminate]
  split
  · exact Temporaries.runRepeatedly_eq_self h _
  · rfl

/-- No raw variable is left to bind. -/
theorem bind_lowered :
    (Block.mapCounting References.bind
      (pipeline.shorten (pipeline.boundTree context tree)).body).1 =
        (pipeline.shorten (pipeline.boundTree context tree)).body := by
  apply Block.mapCounting_eq_self
  intro node hnode
  obtain hsame | ⟨id, rfl, -⟩ := StructCopies.bind_eq node
  · exact hsame
  · exact absurd (Block.mem_nodes_iff.1 hnode) (not_inside_raw_lowered pipeline context tree id)

/-- The front passes leave a lowered body as it is. -/
theorem boundTree_lowered (hboolean : context.oracle.isStruct (.primitive .boolean) = false) :
    pipeline.boundTree context (pipeline.shorten (pipeline.boundTree context tree)) =
      pipeline.shorten (pipeline.boundTree context tree) := by
  have hdeclared : pipeline.declaredTree context
      (pipeline.shorten (pipeline.boundTree context tree)) =
        pipeline.shorten (pipeline.boundTree context tree) := by
    rw [declaredTree, named_lowered,
      eliminate_eq_self pipeline (declaresAll_lowered pipeline context tree),
      StructCopies.run_eq_self (settles_lowered pipeline context tree hboolean),
      Declarations.run_eq_self (declaresAll_lowered pipeline context tree)]
  rw [boundTree, hdeclared, bind_lowered]

/-- Shortening twice is shortening once. -/
theorem shorten_shorten : pipeline.shorten (pipeline.shorten tree) = pipeline.shorten tree := by
  rw [shorten]
  split
  · rename_i hshortens
    rw [shorten, if_pos hshortens]
    exact OperatorForms.run_eq_self (OperatorForms.isNormal_run tree)
  · rfl

/-- What the pipeline returns is what it returns for its own result, whatever the
settings and wherever the first elimination stopped, as long as the oracle calls
no primitive a struct. -/
theorem run_idempotent {pipeline : Pipeline} {name : String} {context : MethodContext}
    {tree : MethodTree} {function : Function}
    (hprimitive : ∀ primitive, context.oracle.isStruct (.primitive primitive) = false)
    (hrun : pipeline.run name context tree = .ok function) :
    pipeline.run name context
      { table := function.table, parameters := tree.parameters, body := function.body } =
        .ok function := by
  rw [run, lower_eq] at hrun
  cases hcheck : IgnoredTypes.check context tree with
  | error error =>
    rw [hcheck] at hrun
    cases hrun
  | ok checked =>
    rw [hcheck] at hrun
    cases hrun
    have hagain : IgnoredTypes.check context (pipeline.shorten (pipeline.boundTree context tree)) =
        .ok (pipeline.shorten (pipeline.boundTree context tree)) := by
      refine IgnoredTypes.check_eq_ok_iff.2 ⟨fun type htype => ?_, rfl⟩
      apply (IgnoredTypes.check_eq_ok_iff.1 hcheck).1
      rw [IgnoredTypes.mem_types_iff] at htype ⊢
      exact namesType_of_lowered pipeline context tree htype
    have hlower : pipeline.lower context (pipeline.shorten (pipeline.boundTree context tree)) =
        .ok (pipeline.shorten (pipeline.boundTree context tree)) := by
      rw [lower_eq, hagain, boundTree_lowered pipeline context tree (hprimitive .boolean),
        shorten_shorten]
      rfl
    have hparameters := parameters_lowered pipeline context tree
    calc
      pipeline.run name context _ =
          (pipeline.lower context
            { pipeline.shorten (pipeline.boundTree context tree) with
              parameters := tree.parameters }).map (toFunction name) := rfl
      _ = (pipeline.lower context (pipeline.shorten (pipeline.boundTree context tree))).map
            (toFunction name) := by rw [← hparameters]
      _ = _ := by rw [hlower]; rfl

theorem isStruct_primitive (graph : Graph) (primitive : Primitive) :
    graph.isStruct (.primitive primitive) = false :=
  rfl

/-- The body `t = 1; x = x + t; p = q; on = !!this.on;`, where `t` is a temporary and
`p` and `q` are structs. -/
def steppingTree : MethodTree where
  table := ⟨[{ name := "x", type := .primitive .int32 },
    { name := "", type := .primitive .int32, isGenerated := true },
    { name := "p", type := .value { space := "Geo", path := "Point" } },
    { name := "q", type := .value { space := "Geo", path := "Point" }, isParameter := true },
    { name := "on", type := .primitive .boolean }]⟩
  parameters := [⟨3⟩]
  body := [.expr (.assign none (.raw ⟨1⟩) (.literal (.int 1))),
    .expr (.assign none (.raw ⟨0⟩) (.binary .add (.raw ⟨0⟩) (.raw ⟨1⟩))),
    .expr (.assign none (.raw ⟨2⟩) (.raw ⟨3⟩)),
    .expr (.assign none (.raw ⟨4⟩) (.unary .not (.unary .not
      (.field .self (.reference { space := "", path := "Game" }) "on" (.primitive .boolean)))))]

/-- The body `var x; ++x; var p = copy q; var on = this.on;`. -/
def steppedFunction : Function where
  name := "step"
  parameters := ["q"]
  table := (VariableNames.run steppingTree).1.table
  body := [.declare ⟨0⟩ none, .expr (.unary .preIncrement (.bound ⟨0⟩)),
    .declare ⟨2⟩ (some (.copy (.bound ⟨3⟩))),
    .declare ⟨4⟩
      (some (.field .self (.reference { space := "", path := "Game" }) "on" (.primitive .boolean)))]

theorem run_steppingTree :
    ({} : Pipeline).run "step" ⟨"step", Graph.oracle {}⟩ steppingTree = .ok steppedFunction := by
  with_unfolding_all rfl

/-- Each pass has something to do in the first run, and none has in the second. -/
theorem run_steppedFunction :
    (∀ primitive, (Graph.oracle {}).isStruct (.primitive primitive) = false) ∧
      ({} : Pipeline).run "step" ⟨"step", Graph.oracle {}⟩ steppingTree = .ok steppedFunction ∧
      ({} : Pipeline).run "step" ⟨"step", Graph.oracle {}⟩
        { table := steppedFunction.table, parameters := [⟨3⟩], body := steppedFunction.body } =
          .ok steppedFunction :=
  ⟨isStruct_primitive {}, run_steppingTree,
    run_idempotent (isStruct_primitive {}) run_steppingTree⟩

end Pipeline

end Assemblage.Lowering
