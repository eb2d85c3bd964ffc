import Assemblage.Lowering.Pipeline
import Assemblage.Proofs.Tree.Substitution

/-!
# What each pass leaves in a tree

For every pass, what becomes of the types that the nodes name, of the variables
they mention and of the declarations.  Nothing here depends on the order of the
passes.
-/

namespace Assemblage

theorem Stmt.eq_of_assignment? {stmt : Stmt} {id : VariableId} {value : Expr}
    (h : stmt.assignment? = some (id, value)) :
    ∃ target, stmt = .expr (.assign none target value) ∧ target.asVariable? = some id := by
  unfold assignment? at h
  split at h
  · rename_i target assigned
    obtain ⟨other, hother, hpair⟩ := Option.map_eq_some_iff.1 h
    cases hpair
    exact ⟨target, rfl, hother⟩
  · simp at h

theorem VariableTable.mem_parameters_iff {table : VariableTable} {id : VariableId} :
    id ∈ table.parameters ↔ table.isParameter id = true := by
  obtain ⟨index⟩ := id
  simp only [parameters, entries, isParameter, get?, List.mem_map, List.mem_filter,
    Prod.exists, List.mem_zipIdx_iff_getElem?, Option.any_eq_true]
  constructor
  · rintro ⟨id, entry, ⟨⟨found, position, hfound, hpair⟩, hparameter⟩, hid⟩
    cases hpair
    cases hid
    exact ⟨entry, hfound, hparameter⟩
  · rintro ⟨entry, hentry, hparameter⟩
    exact ⟨⟨index⟩, entry, ⟨⟨entry, index, hentry, rfl⟩, hparameter⟩, rfl⟩

namespace Lowering

variable {α : Type} {label : Expr → List α}

namespace VariableNames

/-- Naming changes nothing but names. -/
theorem map_assign {β : Type} {g : Variable → β}
    (hname : ∀ (entry : Variable) (name : String), g { entry with name } = g entry)
    (taken : List String) (entries : List Variable) :
    (assign taken entries).1.map g = entries.map g := by
  induction entries generalizing taken with
  | nil => rfl
  | cons entry rest ih =>
    rw [assign]
    split
    · rw [List.map_cons, List.map_cons, ih]
    · rw [List.map_cons, List.map_cons, ih, hname]

theorem map_all_run {β : Type} {g : Variable → β}
    (hname : ∀ (entry : Variable) (name : String), g { entry with name } = g entry)
    (tree : MethodTree) : (run tree).1.table.all.map g = tree.table.all.map g :=
  map_assign hname _ _

end VariableNames

namespace Temporaries

theorem gather_placeAnywhere?_subset (hlabel : IsLabel label) {id : VariableId} {value : Expr}
    {stmts moved : Block} (h : placeAnywhere? id value stmts = some moved) :
    Block.gather label moved ⊆ value.gather label ++ Block.gather label stmts := by
  induction stmts generalizing moved with
  | nil => simp [placeAnywhere?] at h
  | cons stmt rest ih =>
    rw [placeAnywhere?] at h
    rw [Block.gather_cons label stmt]
    split at h
    · cases h
      rw [Block.gather_cons]
      have hstmt := Block.gather_substitute_subset hlabel id value stmt
      grind
    · obtain ⟨others, hothers, rfl⟩ := Option.map_eq_some_iff.1 h
      rw [Block.gather_cons]
      have hothers := ih hothers
      grind

theorem gather_placeNext?_subset (hlabel : IsLabel label) {id : VariableId} {value : Expr}
    {stmts moved : Block} (h : placeNext? id value stmts = some moved) :
    Block.gather label moved ⊆ value.gather label ++ Block.gather label stmts := by
  cases stmts with
  | nil => simp [placeNext?] at h
  | cons stmt rest =>
    rw [placeNext?] at h
    split at h
    · cases h
      rw [Block.gather_cons, Block.gather_cons label stmt]
      have hstmt := Block.gather_substitute_subset hlabel id value stmt
      grind
    · simp at h

theorem gather_move?_subset (hlabel : IsLabel label) {candidates : List VariableId} {stmt : Stmt}
    {rest moved : Block} (h : move? candidates stmt rest = some moved) :
    Block.gather label moved ⊆ Block.gather label (stmt :: rest) := by
  unfold move? at h
  split at h
  · rename_i id value hassignment
    obtain ⟨target, rfl, -⟩ := Stmt.eq_of_assignment? hassignment
    have hvalue : value.gather label ⊆ Block.gather label [.expr (.assign none target value)] := by
      rw [Block.gather_exprStmt, Expr.gather_eq label (.assign ..), Expr.children,
        List.flatMap_cons, List.flatMap_singleton]
      grind
    rw [Block.gather_cons label (.expr _)]
    split at h
    · split at h
      · have := gather_placeAnywhere?_subset hlabel h
        grind
      · have := gather_placeNext?_subset hlabel h
        grind
    · simp at h
  · simp at h

theorem gather_eliminateFlat_subset (hlabel : IsLabel label) (candidates : List VariableId)
    (block : Block) :
    Block.gather label (eliminateFlat candidates block).1 ⊆ Block.gather label block := by
  fun_induction eliminateFlat candidates block with
  | case1 => exact List.Subset.refl _
  | case2 stmt rest moved hmove stmts n heq ih =>
    rw [heq] at ih
    exact List.Subset.trans ih (gather_move?_subset hlabel hmove)
  | case3 stmt rest hmove stmts n heq ih =>
    rw [heq] at ih
    rw [Block.gather_cons, Block.gather_cons label stmt rest]
    grind

theorem mapBlocks_fst (f : Block → Block × Nat) (stmt : Stmt) :
    (mapBlocks f stmt).1 = stmt.mapParts id fun block => (f block).1 := by
  cases stmt <;> simp [mapBlocks, Stmt.mapParts]

theorem mapBlocksOfAll_fst (f : Block → Block × Nat) (block : Block) :
    (mapBlocksOfAll f block).1 = block.map fun stmt => (mapBlocks f stmt).1 := by
  induction block with
  | nil => rfl
  | cons stmt rest ih => simp [mapBlocksOfAll, ih]

theorem gather_eliminateLevels_subset (hlabel : IsLabel label) (candidates : List VariableId)
    (levels : Nat) (block : Block) :
    Block.gather label (eliminateLevels candidates levels block).1 ⊆ Block.gather label block := by
  induction levels generalizing block with
  | zero => exact List.Subset.refl _
  | succ levels ih =>
    have hflat := gather_eliminateFlat_subset hlabel candidates block
    refine List.Subset.trans ?_ hflat
    rw [eliminateLevels, mapBlocksOfAll_fst]
    apply Block.gather_map_subset
    intro stmt _
    rw [mapBlocks_fst]
    exact Block.gather_mapParts_subset (fun _ _ => List.Subset.refl _) fun inner _ => ih inner

theorem gather_run_subset (hlabel : IsLabel label) (tree : MethodTree) :
    Block.gather label (run tree).1.body ⊆ Block.gather label tree.body :=
  gather_eliminateLevels_subset hlabel (candidates tree) (Stmt.depthOfBlock tree.body + 1) tree.body

theorem table_run (tree : MethodTree) : (run tree).1.table = tree.table :=
  rfl

/-- A run is repeated as long as it counts something and turns are left. -/
theorem runRepeatedly_succ (bound : Nat) (tree : MethodTree) :
    runRepeatedly (bound + 1) tree =
      if (run tree).2 = 0 then (run tree).1 else runRepeatedly bound (run tree).1 :=
  rfl

theorem table_runRepeatedly (bound : Nat) (tree : MethodTree) :
    (runRepeatedly bound tree).table = tree.table := by
  induction bound generalizing tree with
  | zero => rfl
  | succ bound ih =>
    rw [runRepeatedly_succ]
    split
    · exact table_run tree
    · rw [ih, table_run]

theorem gather_runRepeatedly_subset (hlabel : IsLabel label) (bound : Nat) (tree : MethodTree) :
    Block.gather label (runRepeatedly bound tree).body ⊆ Block.gather label tree.body := by
  induction bound generalizing tree with
  | zero => exact List.Subset.refl _
  | succ bound ih =>
    rw [runRepeatedly_succ]
    split
    · exact gather_run_subset hlabel tree
    · exact List.Subset.trans (ih _) (gather_run_subset hlabel tree)

end Temporaries

namespace StructCopies

theorem gather_copied (hlabel : IsLabel label) (oracle : Oracle) (table : VariableTable)
    (expr : Expr) : (copied oracle table expr).1.gather label = expr.gather label := by
  rw [copied]
  split
  · rw [Expr.gather_eq, hlabel.copy, Expr.children, List.flatMap_singleton, List.nil_append]
  · rfl

theorem copiedAll_fst (oracle : Oracle) (table : VariableTable) (exprs : List Expr) :
    (copiedAll oracle table exprs).1 = exprs.map fun expr => (copied oracle table expr).1 := by
  induction exprs with
  | nil => rfl
  | cons expr rest ih => simp [copiedAll, ih]

theorem gather_copyInExpr (hlabel : IsLabel label) (oracle : Oracle) (table : VariableTable)
    (expr : Expr) : (copyInExpr oracle table expr).1.gather label = expr.gather label := by
  have hcopied : ∀ exprs : List Expr,
      (exprs.map fun expr => (copied oracle table expr).1).flatMap (Expr.gather label) =
        exprs.flatMap (Expr.gather label) := by
    intro exprs
    rw [List.flatMap_map]
    exact List.flatMap_congr fun expr _ => gather_copied hlabel oracle table expr
  unfold copyInExpr
  split
  · exact Expr.gather_eq_of_mapChildren_eq hlabel rfl (by
      simp [Expr.children, gather_copied hlabel])
  · exact Expr.gather_eq_of_mapChildren_eq hlabel (by
      simp [copiedAll_fst, Expr.mapChildren, Function.comp_def]) (by
      simp only [copiedAll_fst, Expr.children, hcopied])
  · exact Expr.gather_eq_of_mapChildren_eq hlabel (by
      simp [copiedAll_fst, Expr.mapChildren, Function.comp_def]) (by
      simp only [copiedAll_fst, Expr.children, List.flatMap_cons, hcopied])
  · exact Expr.gather_eq_of_mapChildren_eq hlabel (by
      simp [copiedAll_fst, Expr.mapChildren, Function.comp_def]) (by
      simp only [copiedAll_fst, Expr.children, hcopied])
  · rfl

theorem gather_copyInStmt (hlabel : IsLabel label) (oracle : Oracle) (table : VariableTable)
    (stmt : Stmt) :
    Block.gather label [(copyInStmt oracle table stmt).1] = Block.gather label [stmt] := by
  unfold copyInStmt
  split
  · simp [Block.gather_singleton, Stmt.exprs, Stmt.blocks, gather_copied hlabel]
  · split
    · simp [Block.gather_singleton, Stmt.exprs, Stmt.blocks, gather_copied hlabel]
    · rfl
  · rfl

theorem gather_run_subset (hlabel : IsLabel label) (oracle : Oracle) (tree : MethodTree) :
    Block.gather label (run oracle tree).1.body ⊆ Block.gather label tree.body := by
  refine Block.gather_mapCountingBlock_subset hlabel (fun expr => ?_) (fun stmt => ?_) tree.body
  · rw [gather_copyInExpr hlabel]
    exact List.Subset.refl _
  · rw [gather_copyInStmt hlabel]
    exact List.Subset.refl _

theorem table_run (oracle : Oracle) (tree : MethodTree) :
    (run oracle tree).1.table = tree.table :=
  rfl

end StructCopies

/-! ## Declarations -/

namespace Declarations

theorem mem_occurrences_iff {id : VariableId} {stmt : Stmt} :
    id ∈ occurrences stmt ↔ id ∈ Block.gather Expr.variableIds [stmt] := by
  have hall : stmt.all = Block.statements [stmt] := by
    rw [Block.statements, Stmt.allOfBlock_eq_flatMap, List.flatMap_singleton]
  rw [occurrences, List.mem_eraseDups, hall, List.mem_filterMap, Block.gather, List.mem_flatMap,
    Block.nodes]
  simp only [Expr.variableIds, Option.mem_toList]

theorem gather_declare (label : Expr → List α) (oracle : Oracle) (table : VariableTable)
    (id : VariableId) :
    Block.gather label [declare oracle table id] =
      (initialValue oracle table id).toList.flatMap (Expr.gather label) := by
  simp [Block.gather_singleton, declare, Stmt.exprs, Stmt.blocks]

/-- Declarations in front of a statement add the labels of initial values at most. -/
theorem gather_introduce_subset (oracle : Oracle) (table : VariableTable)
    (fresh : List VariableId) (stmt : Stmt) :
    Block.gather label (introduce oracle table fresh stmt) ⊆
      (fresh.flatMap fun id => (initialValue oracle table id).toList.flatMap (Expr.gather label)) ++
        Block.gather label [stmt] := by
  have hdeclare : ∀ ids ⊆ fresh, Block.gather label (ids.map (declare oracle table)) ⊆
      fresh.flatMap fun id =>
        (initialValue oracle table id).toList.flatMap (Expr.gather label) := by
    intro ids hids
    induction ids with
    | nil => exact List.nil_subset _
    | cons id rest ih =>
      rw [List.map_cons, Block.gather_cons, gather_declare]
      have hrest := ih (List.subset_of_cons_subset hids)
      refine List.append_subset.2 ⟨?_, hrest⟩
      intro entry hentry
      exact List.mem_flatMap.2 ⟨id, hids List.mem_cons_self, hentry⟩
  unfold introduce
  split
  · rename_i id value hinitialized
    obtain ⟨hassignment, -⟩ := Option.filter_eq_some_iff.1 hinitialized
    obtain ⟨target, rfl, -⟩ := Stmt.eq_of_assignment? hassignment
    rw [Block.gather_append]
    refine List.append_subset.2 ⟨List.Subset.trans (hdeclare _ (List.filter_subset_self _))
      (List.subset_append_left _ _), ?_⟩
    refine List.Subset.trans ?_ (List.subset_append_right _ _)
    rw [Block.gather_exprStmt, Expr.gather_eq label (.assign ..), Block.gather_singleton]
    simp only [Stmt.exprs, Stmt.blocks, Expr.children, Option.toList_some, List.flatMap_cons,
      List.flatMap_nil, List.append_nil]
    grind
  · rw [Block.gather_append]
    have hall := hdeclare _ (List.Subset.refl _)
    exact List.append_subset.2 ⟨List.Subset.trans hall (List.subset_append_left _ _),
      List.subset_append_right _ _⟩

theorem types_initialValue_subset (oracle : Oracle) (table : VariableTable) (id : VariableId) :
    (initialValue oracle table id).toList.flatMap (Expr.gather Expr.types) ⊆
      table.all.map Variable.type := by
  unfold initialValue
  split
  · rename_i entry hentry
    split
    · intro type htype
      simp [Expr.gather, Expr.nodes, Expr.types] at htype
      subst htype
      exact List.mem_map.2 ⟨entry, List.mem_of_getElem? hentry, rfl⟩
    · simp
  · simp

theorem variableIds_initialValue (oracle : Oracle) (table : VariableTable) (id : VariableId) :
    (initialValue oracle table id).toList.flatMap (Expr.gather Expr.variableIds) = [] := by
  unfold initialValue
  split
  · split
    · rfl
    · rfl
  · rfl

theorem declared_map_declare (oracle : Oracle) (table : VariableTable) (ids : List VariableId) :
    Block.declared (ids.map (declare oracle table)) = ids := by
  induction ids with
  | nil => rfl
  | cons id rest ih =>
    rw [List.map_cons, Block.declared_cons, ih, Block.declared_singleton]
    rfl

theorem declared_introduce (oracle : Oracle) (table : VariableTable) (fresh : List VariableId)
    (stmt : Stmt) :
    fresh ++ Block.declared [stmt] ⊆ Block.declared (introduce oracle table fresh stmt) := by
  unfold introduce
  split
  · rename_i id value hinitialized
    obtain ⟨hassignment, -⟩ := Option.filter_eq_some_iff.1 hinitialized
    obtain ⟨target, rfl, -⟩ := Stmt.eq_of_assignment? hassignment
    rw [Block.declared_append, declared_map_declare, Block.declared_singleton,
      Block.declared_singleton]
    intro other hother
    by_cases heq : other = id
    · simp [heq, Stmt.declared?]
    · simp_all [Stmt.declared?, Stmt.blocks]
  · rw [Block.declared_append, declared_map_declare]
    exact List.Subset.refl _

/-- The first values of locals name types of the variables only. -/
theorem types_introduce_subset (oracle : Oracle) (table : VariableTable)
    (fresh : List VariableId) (stmt : Stmt) :
    Block.gather Expr.types (introduce oracle table fresh stmt) ⊆
      table.all.map Variable.type ++ Block.gather Expr.types [stmt] := by
  apply List.Subset.trans (gather_introduce_subset oracle table fresh stmt)
  refine List.append_subset.2 ⟨?_, List.subset_append_right _ _⟩
  intro type htype
  obtain ⟨id, -, hmem⟩ := List.mem_flatMap.1 htype
  exact List.mem_append_left _ (types_initialValue_subset oracle table id hmem)

theorem variableIds_introduce_subset (oracle : Oracle) (table : VariableTable)
    (fresh : List VariableId) (stmt : Stmt) :
    Block.gather Expr.variableIds (introduce oracle table fresh stmt) ⊆
      Block.gather Expr.variableIds [stmt] := by
  intro id hid
  cases List.mem_append.1 (gather_introduce_subset oracle table fresh stmt hid) with
  | inl h =>
    obtain ⟨other, -, hmem⟩ := List.mem_flatMap.1 h
    rw [variableIds_initialValue] at hmem
    exact absurd hmem List.not_mem_nil
  | inr h => exact h

theorem types_declareAll_subset (oracle : Oracle) (table : VariableTable)
    (declared : List VariableId) (stmts : Block) :
    Block.gather Expr.types (declareAll oracle table declared stmts).1 ⊆
      table.all.map Variable.type ++ Block.gather Expr.types stmts := by
  induction stmts generalizing declared with
  | nil => exact List.nil_subset _
  | cons stmt rest ih =>
    rw [declareAll, Block.gather_append, Block.gather_cons _ stmt]
    refine List.append_subset.2
      ⟨List.Subset.trans (types_introduce_subset oracle table _ stmt) ?_,
        List.Subset.trans (ih _) ?_⟩
    · grind
    · grind

/-- What was declared stays declared. -/
theorem declared_declareAll (oracle : Oracle) (table : VariableTable)
    (declared : List VariableId) (stmts : Block) :
    Block.declared stmts ⊆ Block.declared (declareAll oracle table declared stmts).1 := by
  induction stmts generalizing declared with
  | nil => exact List.nil_subset _
  | cons stmt rest ih =>
    rw [declareAll, Block.declared_append, Block.declared_cons]
    have hstmt := declared_introduce oracle table
      ((occurrences stmt).filter fun id => !declared.contains id) stmt
    have hrest := ih ((occurrences stmt).filter (fun id => !declared.contains id) ++ declared)
    grind

/-- Every variable that is mentioned was declared before or is declared now. -/
theorem declared_of_mem_variableIds_declareAll (oracle : Oracle) (table : VariableTable)
    (declared : List VariableId) (stmts : Block) {id : VariableId}
    (h : id ∈ Block.gather Expr.variableIds (declareAll oracle table declared stmts).1) :
    id ∈ declared ∨ id ∈ Block.declared (declareAll oracle table declared stmts).1 := by
  induction stmts generalizing declared with
  | nil => exact absurd h List.not_mem_nil
  | cons stmt rest ih =>
    rw [declareAll, Block.gather_append, List.mem_append] at h
    rw [declareAll, Block.declared_append, List.mem_append]
    have hintroduce := declared_introduce oracle table
      ((occurrences stmt).filter fun id => !declared.contains id) stmt
    cases h with
    | inl h =>
      have hoccurs := mem_occurrences_iff.2 (variableIds_introduce_subset oracle table _ stmt h)
      by_cases hdeclared : id ∈ declared
      · exact .inl hdeclared
      · refine .inr (.inl (hintroduce (List.mem_append_left _ ?_)))
        exact List.mem_filter.2 ⟨hoccurs, by simpa using hdeclared⟩
    | inr h =>
      cases ih _ h with
      | inl hmem =>
        cases List.mem_append.1 hmem with
        | inl hfresh => exact .inr (.inl (hintroduce (List.mem_append_left _ hfresh)))
        | inr hdeclared => exact .inl hdeclared
      | inr hrest => exact .inr (.inr hrest)

theorem table_run (oracle : Oracle) (tree : MethodTree) :
    (run oracle tree).1.table = tree.table :=
  rfl

/-- Declaring locals names types of the variables only. -/
theorem types_run_subset (oracle : Oracle) (tree : MethodTree) :
    Block.gather Expr.types (run oracle tree).1.body ⊆
      tree.table.all.map Variable.type ++ Block.gather Expr.types tree.body :=
  types_declareAll_subset oracle tree.table _ tree.body

/-- After the pass every variable of the body is a parameter or declared in it. -/
theorem declared_of_mem_variableIds_run (oracle : Oracle) (tree : MethodTree) {id : VariableId}
    (h : id ∈ Block.gather Expr.variableIds (run oracle tree).1.body) :
    id ∈ References.declared (run oracle tree).1 := by
  rw [References.declared, table_run, List.mem_append]
  cases declared_of_mem_variableIds_declareAll oracle tree.table _ tree.body h with
  | inl h =>
    cases List.mem_append.1 h with
    | inl hdeclared => exact .inr (declared_declareAll oracle tree.table _ tree.body hdeclared)
    | inr hparameter => exact .inl hparameter
  | inr h => exact .inr h

end Declarations

namespace References

theorem gather_bind (hraw : ∀ id, label (.raw id) = label (.bound id)) (expr : Expr) :
    (bind expr).1.gather label = expr.gather label := by
  cases expr with
  | raw id => simp [bind, Expr.gather, Expr.nodes, hraw]
  | _ => rfl

/-- Binding fails for a variable that is neither a parameter nor declared, and
for no other reason. -/
theorem run_eq_ok (context : MethodContext) {tree : MethodTree}
    (h : ∀ id ∈ Block.gather Expr.variableIds tree.body, id ∈ declared tree) :
    run context tree =
      .ok ({ tree with body := (Block.mapCounting bind tree.body).1 },
        (Block.mapCounting bind tree.body).2) := by
  have hnone : undeclared? tree = none := by
    rw [undeclared?, List.find?_eq_none]
    intro id hid
    obtain ⟨node, hnode, hraw⟩ := List.mem_filterMap.1 hid
    have hvariable : id ∈ node.variableIds := by
      cases node <;> simp_all [rawVariable?, Expr.variableIds, Expr.asVariable?]
    simpa using h id (List.mem_flatMap.2 ⟨node, hnode, hvariable⟩)
  rw [run, hnone]

/-- The raw variable a node consists of, as a list. -/
def rawVariables (expr : Expr) : List VariableId :=
  (rawVariable? expr).toList

theorem isLabel_rawVariables : IsLabel rawVariables where
  mapChildren f expr := by cases expr <;> rfl
  assign _ _ _ := rfl
  unary _ _ := rfl
  binary _ _ _ := rfl
  copy _ := rfl

/-- Nothing is left raw after binding. -/
theorem rawVariables_mapCounting_bind (expr : Expr) :
    (expr.mapCounting bind).1.gather rawVariables = [] := by
  induction expr using Expr.induction_children with
  | step expr ih =>
    rw [Expr.mapCounting_fst, Expr.gather_eq]
    cases expr with
    | raw id => rfl
    | bound id => rfl
    | _ => simp_all [bind, Expr.mapChildren, Expr.children, rawVariables, rawVariable?]

end References

namespace OperatorForms

/-- A shorter form has the operands of the longer one, or some of them. -/
theorem gather_step?_subset (hlabel : IsLabel label) {table : VariableTable} {expr result : Expr}
    (h : step? table expr = some result) : result.gather label ⊆ expr.gather label := by
  unfold step? at h
  split at h
  · split at h
    · cases h
      simp only [Expr.gather_eq label (.assign ..), Expr.gather_eq label (.binary ..),
        Expr.children, hlabel.assign, hlabel.binary, List.flatMap_cons, List.flatMap_nil]
      grind
    · simp at h
  · split at h
    · cases h
      simp [Expr.gather_eq label (.assign ..), Expr.gather_eq label (.unary ..), Expr.children,
        hlabel.assign, hlabel.unary]
    · simp at h
  · split at h
    · cases h
      simp [Expr.gather_eq label (.assign ..), Expr.gather_eq label (.unary ..), Expr.children,
        hlabel.assign, hlabel.unary]
    · simp at h
  · split at h
    · cases h
      simp [Expr.gather_eq label (.unary ..), Expr.children, hlabel.unary]
    · simp at h
  · cases h
    simp [Expr.gather_eq label (.unary ..), Expr.gather_eq label (.binary ..), Expr.children,
      hlabel.unary, hlabel.binary]
  · cases h
    simp [Expr.gather_eq label (.unary ..), Expr.gather_eq label (.binary ..), Expr.children,
      hlabel.unary, hlabel.binary]
  · simp at h

theorem gather_normalize_subset (hlabel : IsLabel label) (table : VariableTable) (expr : Expr) :
    (normalize table expr).1.gather label ⊆ expr.gather label := by
  fun_induction normalize table expr with
  | case1 expr next hstep result n heq ih =>
    rw [heq] at ih
    exact List.Subset.trans ih (gather_step?_subset hlabel hstep)
  | case2 expr hstep => exact List.Subset.refl _

theorem gather_run_subset (hlabel : IsLabel label) (tree : MethodTree) :
    Block.gather label (run tree).1.body ⊆ Block.gather label tree.body :=
  Block.gather_mapCounting_subset hlabel (gather_normalize_subset hlabel tree.table) tree.body

theorem declared_run (tree : MethodTree) :
    Block.declared (run tree).1.body = Block.declared tree.body :=
  Block.declared_mapCounting _ tree.body

theorem table_run (tree : MethodTree) : (run tree).1.table = tree.table :=
  rfl

end OperatorForms

end Lowering

end Assemblage
