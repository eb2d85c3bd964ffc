import Assemblage.Proofs.Lowering.Passes
import Assemblage.Proofs.Tree.Inside

/-!
# What is lowered, and into what

The pipeline accepts a method exactly if it names no ignored type, whichever
optional passes take place: binding never meets a variable that the declarations
have missed.  The function it returns is closed, as all of its variables are
bound and are parameters or declared, and it names no type that the method did
not name.
-/

namespace Assemblage

/-- A body with its variables names a type: as the type of a variable, or in some
expression at any depth. -/
def NamesType (table : VariableTable) (body : Block) (type : Signature) : Prop :=
  (∃ entry ∈ table.all, entry.type = type) ∨
    ∃ node, Block.Inside node body ∧ Expr.Stores node type

/-- The types a method names are those of its variables and those in its body. -/
theorem namesType_iff {table : VariableTable} {body : Block} {type : Signature} :
    NamesType table body type ↔
      type ∈ table.all.map Variable.type ++ Block.gather Expr.types body := by
  simp only [NamesType, Block.gather, List.mem_append, List.mem_map, List.mem_flatMap,
    Block.mem_nodes_iff, Expr.mem_types_iff]

namespace Lowering

theorem IgnoredTypes.mem_types_iff {tree : MethodTree} {type : Signature} :
    type ∈ types tree ↔ NamesType tree.table tree.body type := by
  rw [namesType_iff]
  rfl

/-- The check fails with an ignored type that the tree names. -/
theorem IgnoredTypes.check_eq_error {context : MethodContext} {tree : MethodTree} {error : Error}
    (h : check context tree = .error error) :
    ∃ type ∈ types tree, context.oracle.isIgnored type = true ∧
      error = .ignoredTypeUsage context.method type.fullName := by
  unfold check at h
  split at h
  · rename_i type hoffending
    cases h
    exact ⟨type, List.mem_of_find?_eq_some hoffending, List.find?_some hoffending, rfl⟩
  · simp at h

namespace Pipeline

/-- The tree that binding is applied to. -/
def declaredTree (pipeline : Pipeline) (context : MethodContext) (tree : MethodTree) :
    MethodTree :=
  let eliminated := pipeline.eliminate (VariableNames.run tree).1
  (Declarations.run context.oracle (StructCopies.run context.oracle eliminated).1).1

/-- The tree after binding. -/
def boundTree (pipeline : Pipeline) (context : MethodContext) (tree : MethodTree) : MethodTree :=
  let declared := pipeline.declaredTree context tree
  { declared with body := (Block.mapCounting References.bind declared.body).1 }

variable (pipeline : Pipeline) (context : MethodContext) (tree : MethodTree)

theorem table_eliminate : (pipeline.eliminate tree).table = tree.table := by
  rw [eliminate]
  split
  · exact Temporaries.table_runRepeatedly _ tree
  · rfl

theorem gather_eliminate_subset {α : Type} {label : Expr → List α} (hlabel : IsLabel label) :
    Block.gather label (pipeline.eliminate tree).body ⊆ Block.gather label tree.body := by
  rw [eliminate]
  split
  · exact Temporaries.gather_runRepeatedly_subset hlabel _ tree
  · exact List.Subset.refl _

theorem table_declaredTree :
    (pipeline.declaredTree context tree).table = (VariableNames.run tree).1.table := by
  rw [declaredTree, Declarations.table_run, StructCopies.table_run, table_eliminate]

/-- No pass before binding introduces a type. -/
theorem types_declaredTree_subset :
    Block.gather Expr.types (pipeline.declaredTree context tree).body ⊆
      tree.table.all.map Variable.type ++ Block.gather Expr.types tree.body := by
  have heliminated : Block.gather Expr.types
      (pipeline.eliminate (VariableNames.run tree).1).body ⊆ Block.gather Expr.types tree.body :=
    gather_eliminate_subset pipeline _ Expr.isLabel_types
  have hcopied := StructCopies.gather_run_subset Expr.isLabel_types context.oracle
    (pipeline.eliminate (VariableNames.run tree).1)
  have hnames : (VariableNames.run tree).1.table.all.map Variable.type =
      tree.table.all.map Variable.type :=
    VariableNames.map_all_run (fun _ _ => rfl) tree
  rw [declaredTree]
  apply List.Subset.trans (Declarations.types_run_subset context.oracle _)
  refine List.append_subset.2 ⟨?_, ?_⟩
  · rw [StructCopies.table_run, table_eliminate, hnames]
    exact List.subset_append_left _ _
  · exact List.Subset.trans (List.Subset.trans hcopied heliminated)
      (List.subset_append_right _ _)

/-- Past the check for ignored types the pipeline cannot fail. -/
theorem lower_eq : pipeline.lower context tree =
    (IgnoredTypes.check context tree).map fun _ =>
      pipeline.shorten (pipeline.boundTree context tree) := by
  have hdeclared : ∀ id ∈ Block.gather Expr.variableIds (pipeline.declaredTree context tree).body,
      id ∈ References.declared (pipeline.declaredTree context tree) := fun id hid =>
    Declarations.declared_of_mem_variableIds_run context.oracle _ hid
  have hbind := References.run_eq_ok context hdeclared
  unfold lower
  cases hcheck : IgnoredTypes.check context tree with
  | error error => rfl
  | ok checked =>
    obtain ⟨-, rfl⟩ := IgnoredTypes.check_eq_ok_iff.1 hcheck
    rw [declaredTree] at hbind
    simp only [hbind]
    rfl

theorem table_shorten : (pipeline.shorten tree).table = tree.table := by
  rw [shorten]
  split
  · exact OperatorForms.table_run tree
  · rfl

/-- Shortening declares the same variables. -/
theorem declared_shorten :
    Block.declared (pipeline.shorten tree).body = Block.declared tree.body := by
  rw [shorten]
  split
  · exact OperatorForms.declared_run tree
  · rfl

theorem gather_shorten_subset {α : Type} {label : Expr → List α} (hlabel : IsLabel label) :
    Block.gather label (pipeline.shorten tree).body ⊆ Block.gather label tree.body := by
  rw [shorten]
  split
  · exact OperatorForms.gather_run_subset hlabel tree
  · exact List.Subset.refl _

/-- Every type of the lowered tree is one that the method names. -/
theorem namesType_of_lowered {type : Signature}
    (h : NamesType (pipeline.shorten (pipeline.boundTree context tree)).table
      (pipeline.shorten (pipeline.boundTree context tree)).body type) :
    NamesType tree.table tree.body type := by
  have hnames : (pipeline.boundTree context tree).table.all.map Variable.type =
      tree.table.all.map Variable.type := by
    rw [boundTree, table_declaredTree]
    exact VariableNames.map_all_run (fun _ _ => rfl) tree
  have hbound : Block.gather Expr.types (pipeline.boundTree context tree).body ⊆
      Block.gather Expr.types (pipeline.declaredTree context tree).body :=
    Block.gather_mapCounting_subset Expr.isLabel_types
      (fun expr => by
        rw [References.gather_bind (fun _ => rfl)]
        exact List.Subset.refl _) _
  rw [namesType_iff] at h ⊢
  rw [table_shorten, hnames] at h
  cases List.mem_append.1 h with
  | inl htable => exact List.mem_append_left _ htable
  | inr hbody =>
    exact types_declaredTree_subset pipeline context tree
      (hbound (gather_shorten_subset pipeline _ Expr.isLabel_types hbody))

/-- No raw variable is left. -/
theorem not_inside_raw_lowered (id : VariableId) :
    ¬ Block.Inside (.raw id) (pipeline.shorten (pipeline.boundTree context tree)).body := by
  have hnil : Block.gather References.rawVariables
      (pipeline.shorten (pipeline.boundTree context tree)).body = [] := by
    have hbound : Block.gather References.rawVariables
        (pipeline.boundTree context tree).body = [] :=
      Block.gather_mapCounting_eq_nil References.rawVariables_mapCounting_bind _
    have hshort := gather_shorten_subset pipeline (pipeline.boundTree context tree)
      References.isLabel_rawVariables
    rw [hbound] at hshort
    exact List.eq_nil_of_subset_nil hshort
  intro hraw
  have hmem : id ∈ Block.gather References.rawVariables
      (pipeline.shorten (pipeline.boundTree context tree)).body :=
    List.mem_flatMap.2 ⟨.raw id, Block.mem_nodes_iff.2 hraw, List.mem_singleton.2 rfl⟩
  rw [hnil] at hmem
  exact absurd hmem List.not_mem_nil

/-- Every variable of the lowered tree is a parameter or declared somewhere in it. -/
theorem declared_of_mem_variableIds_lowered {id : VariableId}
    (h : id ∈ Block.gather Expr.variableIds
      (pipeline.shorten (pipeline.boundTree context tree)).body) :
    id ∈ References.declared (pipeline.shorten (pipeline.boundTree context tree)) := by
  have hbound : Block.gather Expr.variableIds (pipeline.boundTree context tree).body ⊆
      Block.gather Expr.variableIds (pipeline.declaredTree context tree).body :=
    Block.gather_mapCounting_subset Expr.isLabel_variableIds
      (fun expr => by
        rw [References.gather_bind (fun _ => rfl)]
        exact List.Subset.refl _) _
  have hdeclared : id ∈ References.declared (pipeline.declaredTree context tree) :=
    Declarations.declared_of_mem_variableIds_run context.oracle _
      (hbound (gather_shorten_subset pipeline _ Expr.isLabel_variableIds h))
  rw [References.declared, declared_shorten, table_shorten, boundTree, Block.declared_mapCounting]
  exact hdeclared

/-- A bound variable is a parameter or declared somewhere in the body. -/
theorem declared_of_inside_bound_lowered {id : VariableId}
    (h : Block.Inside (.bound id) (pipeline.shorten (pipeline.boundTree context tree)).body) :
    (pipeline.shorten (pipeline.boundTree context tree)).table.isParameter id = true ∨
      Block.Declares id (pipeline.shorten (pipeline.boundTree context tree)).body := by
  have hmem : id ∈ Block.gather Expr.variableIds
      (pipeline.shorten (pipeline.boundTree context tree)).body :=
    List.mem_flatMap.2 ⟨.bound id, Block.mem_nodes_iff.2 h, List.mem_singleton.2 rfl⟩
  rw [← Block.mem_declared_iff, ← VariableTable.mem_parameters_iff]
  exact List.mem_append.1 (declared_of_mem_variableIds_lowered pipeline context tree hmem)

/-- The pipeline returns a function exactly if the method names no ignored type,
and fails with one of those it names otherwise.  The function has no raw
variable, all of its bound variables are parameters or declared, and it names
only types that the method names. -/
theorem run_closed (pipeline : Pipeline) (name : String) (context : MethodContext)
    (tree : MethodTree) :
    ((∃ function, pipeline.run name context tree = .ok function) ↔
      ∀ type, NamesType tree.table tree.body type → context.oracle.isIgnored type = false) ∧
    (∀ error, pipeline.run name context tree = .error error →
      ∃ type, NamesType tree.table tree.body type ∧ context.oracle.isIgnored type = true ∧
        error = .ignoredTypeUsage context.method type.fullName) ∧
    ∀ function, pipeline.run name context tree = .ok function →
      (∀ id, ¬ Block.Inside (.raw id) function.body) ∧
      (∀ id, Block.Inside (.bound id) function.body →
        function.table.isParameter id = true ∨ Block.Declares id function.body) ∧
      ∀ type, NamesType function.table function.body type →
        NamesType tree.table tree.body type ∧ context.oracle.isIgnored type = false := by
  rw [run, lower_eq]
  cases hcheck : IgnoredTypes.check context tree with
  | error error =>
    obtain ⟨type, htype, hignored, rfl⟩ := IgnoredTypes.check_eq_error hcheck
    rw [IgnoredTypes.mem_types_iff] at htype
    refine ⟨⟨?_, ?_⟩, ?_, ?_⟩
    · rintro ⟨function, hfunction⟩
      cases hfunction
    · intro hnone
      rw [hnone type htype] at hignored
      cases hignored
    · intro error herror
      cases herror
      exact ⟨type, htype, hignored, rfl⟩
    · intro function hfunction
      cases hfunction
  | ok checked =>
    obtain ⟨hnone, -⟩ := IgnoredTypes.check_eq_ok_iff.1 hcheck
    simp only [IgnoredTypes.mem_types_iff] at hnone
    refine ⟨⟨fun _ => hnone, fun _ => ⟨_, rfl⟩⟩, ?_, ?_⟩
    · intro error herror
      cases herror
    · intro function hfunction
      cases hfunction
      refine ⟨not_inside_raw_lowered pipeline context tree, fun id hid =>
        declared_of_inside_bound_lowered pipeline context tree hid, fun type htype => ?_⟩
      have hnamed := namesType_of_lowered pipeline context tree htype
      exact ⟨hnamed, hnone type hnamed⟩

end Pipeline

end Lowering

end Assemblage
