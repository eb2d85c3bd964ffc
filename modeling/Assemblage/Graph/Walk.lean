import Assemblage.Graph.Basic

/-!
# Walks over the graph

The bases of a type, its ancestors by name, and whether it can be assigned to
another type.  Bases and interfaces may form cycles; each walk keeps what it has
seen, and as every step takes a further definition of the graph, it ends.
-/

namespace Assemblage

theorem Signature.typeId_eq_ofName {signature : Signature} {name : TypeName}
    (h : signature.definitionName? = some name) : signature.typeId = TypeId.ofName name := by
  fun_induction Signature.definitionName? signature with
  | case1 | case2 | case4 =>
    cases h
    rfl
  | case3 definition _ ih => exact ih h
  | case5 => simp at h

namespace Graph

/-- The number of indexed types whose key has not been seen. -/
def unseen {κ : Type} [BEq κ] (key : TypeDef → κ) (graph : Graph) (seen : List κ) : Nat :=
  graph.index.countP fun entry => !seen.contains (key entry.definition)

theorem countP_contains_cons_le {α κ : Type} [BEq κ] [LawfulBEq κ] (key : α → κ)
    (items : List α) (seen : List κ) (k : κ) :
    items.countP (fun item => !(k :: seen).contains (key item)) ≤
      items.countP fun item => !seen.contains (key item) := by
  apply List.countP_mono_left
  intro item _ h
  simp only [List.contains_cons, Bool.not_or, Bool.and_eq_true] at h
  exact h.2

theorem countP_contains_cons_lt {α κ : Type} [BEq κ] [LawfulBEq κ] (key : α → κ)
    {items : List α} {seen : List κ} {item : α} (hmem : item ∈ items)
    (h : seen.contains (key item) = false) :
    items.countP (fun other => !(key item :: seen).contains (key other)) <
      items.countP fun other => !seen.contains (key other) := by
  induction items with
  | nil => simp at hmem
  | cons head rest ih =>
    have hle := countP_contains_cons_le key rest seen (key item)
    rw [List.countP_cons, List.countP_cons]
    rcases List.mem_cons.1 hmem with rfl | hrest
    · rw [if_neg (by simp), if_pos (by rw [h]; rfl)]
      omega
    · have hlt := ih hrest
      have himp : (if (!(key item :: seen).contains (key head)) = true then 1 else 0) ≤
          if (!seen.contains (key head)) = true then 1 else 0 := by
        by_cases hhead : seen.contains (key head) = true
        · exact Nat.le_of_eq (by rw [if_neg (by simp_all), if_neg (by simp_all)])
        · rw [if_pos (show (!seen.contains (key head)) = true by simp_all)]
          split <;> omega
      omega

theorem unseen_cons_le {κ : Type} [BEq κ] [LawfulBEq κ] (key : TypeDef → κ) (graph : Graph)
    (seen : List κ) (k : κ) : unseen key graph (k :: seen) ≤ unseen key graph seen :=
  countP_contains_cons_le (fun entry : Entry => key entry.definition) graph.index seen k

theorem unseen_cons_lt {κ : Type} [BEq κ] [LawfulBEq κ] (key : TypeDef → κ) {graph : Graph}
    {seen : List κ} {entry : Entry} (hmem : entry ∈ graph.index)
    (h : seen.contains (key entry.definition) = false) :
    unseen key graph (key entry.definition :: seen) < unseen key graph seen :=
  countP_contains_cons_lt (fun entry : Entry => key entry.definition) hmem h

def ancestorNamesFrom (graph : Graph) (seen : List String) (base : Option Signature) :
    List String :=
  match base with
  | none => []
  | some base =>
    match _hname : base.definitionName? with
    | none => []
    | some name =>
      if _hseen : seen.contains name.fullName then []
      else
        name.fullName ::
          match _hresolve : graph.resolve? base with
          | some parent => ancestorNamesFrom graph (name.fullName :: seen) parent.base
          | none => []
termination_by unseen TypeDef.fullName graph seen
decreasing_by
  obtain ⟨name', entry, hname', hmem, rfl, hfull⟩ := exists_entry_of_resolve? _hresolve
  obtain rfl := Option.some.inj (_hname.symm.trans hname')
  rw [← hfull]
  exact unseen_cons_lt TypeDef.fullName hmem (by rw [hfull]; simpa using _hseen)

/-- The full names of the ancestors, nearest first, up to one that repeats; the
last of them need not be in the graph. -/
def ancestorNames (graph : Graph) (definition : TypeDef) : List String :=
  ancestorNamesFrom graph [definition.fullName] definition.base

def baseTypesFrom (graph : Graph) (seen : List TypeId) (definition : TypeDef) : List TypeDef :=
  match _hbase : graph.baseType? definition with
  | none => []
  | some base =>
    if _hseen : seen.contains base.typeId then []
    else base :: baseTypesFrom graph (base.typeId :: seen) base
termination_by unseen TypeDef.typeId graph seen
decreasing_by
  obtain ⟨reference, -, hresolve⟩ := Option.bind_eq_some_iff.1 _hbase
  obtain ⟨-, entry, -, hmem, rfl, -⟩ := exists_entry_of_resolve? hresolve
  exact unseen_cons_lt TypeDef.typeId hmem (by simpa using _hseen)

/-- The ancestors that are in the graph, nearest first, up to one that repeats. -/
def baseTypes (graph : Graph) (definition : TypeDef) : List TypeDef :=
  baseTypesFrom graph [definition.typeId] definition

/-- Whether a pending reference, or one that can be reached from it through
bases and interfaces, is one to the target. -/
def reaches (graph : Graph) (target : TypeId) (seen : List TypeId) : List Signature → Bool
  | [] => false
  | reference :: rest =>
    if reference.typeId = target then true
    else if _hseen : seen.contains reference.typeId then graph.reaches target seen rest
    else
      match _hresolve : graph.resolve? reference with
      | some parent =>
        graph.reaches target (reference.typeId :: seen) (parent.parents.reverse ++ rest)
      | none => graph.reaches target (reference.typeId :: seen) rest
termination_by pending => (unseen TypeDef.typeId graph seen, pending.length)
decreasing_by
  · exact Prod.Lex.right _ (by simp)
  · obtain ⟨name, entry, hname, hmem, rfl, hfull⟩ := exists_entry_of_resolve? _hresolve
    have hid : entry.definition.typeId = reference.typeId := by
      rw [Signature.typeId_eq_ofName hname, TypeDef.typeId, hfull, TypeId.ofName_eq]
    refine Prod.Lex.left _ _ ?_
    rw [← hid]
    exact unseen_cons_lt TypeDef.typeId hmem (by rw [hid]; simpa using _hseen)
  · rcases Nat.lt_or_eq_of_le (unseen_cons_le TypeDef.typeId graph seen reference.typeId) with
      h | h
    · exact Prod.Lex.left _ _ h
    · rw [h]
      exact Prod.Lex.right _ (by simp)

/-- Whether a type is the target, derives from it or implements it. -/
def isAssignableTo (graph : Graph) (definition : TypeDef) (target : TypeId) : Bool :=
  decide (definition.typeId = target) ||
    graph.reaches target [definition.typeId] definition.parents.reverse

end Graph

end Assemblage
