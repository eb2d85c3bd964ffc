import Assemblage.Proofs.Script.Walk

/-!
# What is on record and what has been declared

A type is on record from the moment its turn comes, but what brings it into being
may have to wait.  The types on record are at every moment those that have been
declared and those that wait, each once.  Where each declaration finds what it
needs among those before it, this goes on as declarations are added.
-/

namespace Assemblage.Script

/-- Every declaration finds what it needs among those before it. -/
def Grounded (finds : Declaration → List Declaration → Prop) (output : List Declaration) : Prop :=
  ∀ before declaration after, output = before ++ declaration :: after → finds declaration before

theorem grounded_nil (finds : Declaration → List Declaration → Prop) : Grounded finds [] := by
  intro before declaration after h
  simp at h

theorem Grounded.concat {finds : Declaration → List Declaration → Prop}
    {output : List Declaration} {last : Declaration} (h : Grounded finds output)
    (hlast : finds last output) : Grounded finds (output ++ [last]) := by
  intro before declaration after heq
  rcases List.eq_nil_or_concat after with rfl | ⟨rest, final, rfl⟩
  · obtain ⟨rfl, hdeclaration⟩ := List.append_inj' heq rfl
    rw [← List.singleton_inj.1 hdeclaration]
    exact hlast
  · rw [List.concat_eq_append, ← List.cons_append, ← List.append_assoc] at heq
    exact h before declaration rest (List.append_inj' heq rfl).1

theorem Grounded.space {finds : Declaration → List Declaration → Prop} {view : View}
    {definition : TypeDef} (h : Grounded finds view.output)
    (hspace : ∀ path before, finds (.namespaceObject path) before) :
    Grounded finds (view.space definition).output := by
  rcases view.space_cases definition with ⟨-, heq⟩ | ⟨-, heq⟩
  · rwa [heq]
  · rw [heq]
    exact h.concat (hspace _ _)

/-- The path of the namespace that is declared. -/
def Declaration.namespace? : Declaration → Option String
  | .namespaceObject path => some path
  | _ => none

theorem declaredType?_typeDeclaration (model : TypeModel) :
    (typeDeclaration model).declaredType? = some model.fullName := by
  rw [typeDeclaration]
  cases model.kind <;> rfl

namespace View

/-- The types that declarations have brought into being. -/
def made (view : View) : List TypeId :=
  (view.output.filterMap Declaration.declaredType?).map TypeId.ofFullName

variable {view : View} {definition : TypeDef}

theorem mem_made_iff {id : TypeId} : id ∈ view.made ↔
    ∃ declaration ∈ view.output, ∃ fullName, declaration.declaredType? = some fullName ∧
      TypeId.ofFullName fullName = id := by
  simp only [made, List.mem_map, List.mem_filterMap]
  constructor
  · rintro ⟨fullName, ⟨declaration, hmem, hdeclared⟩, rfl⟩
    exact ⟨declaration, hmem, fullName, hdeclared, rfl⟩
  · rintro ⟨declaration, hmem, fullName, hdeclared, rfl⟩
    exact ⟨fullName, ⟨declaration, hmem, hdeclared⟩, rfl⟩

/-- A type that has been made was declared under its full name. -/
theorem exists_of_mem_made (h : definition.typeId ∈ view.made) :
    ∃ declaration ∈ view.output, declaration.declaredType? = some definition.fullName := by
  obtain ⟨declaration, hmem, fullName, hdeclared, hid⟩ := mem_made_iff.1 h
  obtain rfl : fullName = definition.fullName := congrArg TypeId.fullName hid
  exact ⟨declaration, hmem, hdeclared⟩

theorem made_emit_type (view : View) (model : TypeModel) :
    (view.emit (typeDeclaration model)).made = view.made ++ [model.definition.typeId] := by
  simp only [made, emit, List.filterMap_append, List.filterMap_cons,
    declaredType?_typeDeclaration, List.filterMap_nil, List.map_append, List.map_cons, List.map_nil]
  rfl

theorem made_emit_of_none {declaration : Declaration} (h : declaration.declaredType? = none) :
    (view.emit declaration).made = view.made := by
  simp only [made, emit, List.filterMap_append, List.filterMap_cons, h, List.filterMap_nil,
    List.append_nil]

theorem made_space : (view.space definition).made = view.made := by
  rcases view.space_cases definition with ⟨-, heq⟩ | ⟨-, heq⟩
  · rw [heq]
  · rw [heq, made_emit_of_none rfl]
    rfl

end View

/-- The types on record are those that have been made and those that wait. -/
structure Ledger (waiting : List TypeId) (view : View) : Prop where
  balanced : view.declared.Perm (view.made ++ waiting)
  nodup : view.declared.Nodup

namespace Ledger

variable {waiting : List TypeId} {view : View} {definition : TypeDef}

theorem empty (hdeclared : view.declared = []) (houtput : view.output = []) : Ledger [] view where
  balanced := by simp [View.made, hdeclared, houtput]
  nodup := by simp [hdeclared]

theorem opens (h : Ledger waiting view) (hnew : definition.typeId ∉ view.declared) :
    Ledger (definition.typeId :: waiting) ((view.mark definition.typeId).space definition) := by
  have hrecord := (View.space_records (view.mark definition.typeId) definition).1
  constructor
  · rw [hrecord, View.made_space]
    exact (h.balanced.cons definition.typeId).trans List.perm_middle.symm
  · rw [hrecord]
    exact List.nodup_cons.2 ⟨hnew, h.nodup⟩

theorem closes {model : TypeModel} (h : Ledger (definition.typeId :: waiting) view)
    (hid : model.definition.typeId = definition.typeId) :
    Ledger waiting (view.emit (typeDeclaration model)) where
  balanced := by
    rw [View.made_emit_type, hid, List.append_assoc]
    exact h.balanced
  nodup := h.nodup

theorem emit (h : Ledger waiting view) {declaration : Declaration}
    (hother : declaration.declaredType? = none) : Ledger waiting (view.emit declaration) where
  balanced := by
    rw [View.made_emit_of_none hother]
    exact h.balanced
  nodup := h.nodup

/-- A type is noted as declared exactly if it is made or waits. -/
theorem mem_declared_iff (h : Ledger waiting view) {id : TypeId} :
    id ∈ view.declared ↔ id ∈ view.made ∨ id ∈ waiting := by
  rw [h.balanced.mem_iff, List.mem_append]

end Ledger

end Assemblage.Script
