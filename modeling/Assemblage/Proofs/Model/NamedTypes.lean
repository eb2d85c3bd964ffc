import Assemblage.Model.Construction

/-!
# The named types of a signature

A signature is made of named types, under arrays, references and pointers and
inside generic instances.  The walk that looks for related types finds exactly
these, primitives left out, and whether a signature is ignored hangs on what the
cache holds for these alone.
-/

namespace Assemblage

namespace Signature

/-- `Names signature named` says that `named` is a named type of which the
signature is made. -/
inductive Names : Signature → Signature → Prop
  | reference (name : TypeName) : Names (.reference name) (.reference name)
  | value (name : TypeName) : Names (.value name) (.value name)
  | vector {element named : Signature} (h : Names element named) : Names (.vector element) named
  | array {element named : Signature} (rank : Nat) (h : Names element named) :
    Names (.array element rank) named
  | byRef {target named : Signature} (h : Names target named) : Names (.byRef target) named
  | pointer {target named : Signature} (h : Names target named) : Names (.pointer target) named
  | definition {definition named : Signature} (arguments : List Signature)
      (h : Names definition named) :
    Names (.generic definition arguments) named
  | argument {argument named : Signature} {arguments : List Signature} (definition : Signature)
      (hmem : argument ∈ arguments) (h : Names argument named) :
    Names (.generic definition arguments) named

/-- A named type is a reference by name. -/
theorem Names.exists_name {signature named : Signature} (h : Names signature named) :
    ∃ name, named.definitionName? = some name ∧ named.typeId = TypeId.ofName name := by
  induction h with
  | reference name => exact ⟨name, rfl, rfl⟩
  | value name => exact ⟨name, rfl, rfl⟩
  | _ => assumption

mutual

/-- The listed types are named in the signature and are no primitives. -/
theorem names_of_mem_namedTypes {named : Signature} : ∀ {signature : Signature},
    named ∈ signature.namedTypes → Names signature named ∧ named.primitive? = none
  | .byRef inner, h => by
    rw [namedTypes] at h
    obtain ⟨hnames, hprimitive⟩ := names_of_mem_namedTypes h
    exact ⟨.byRef hnames, hprimitive⟩
  | .pointer inner, h => by
    rw [namedTypes] at h
    obtain ⟨hnames, hprimitive⟩ := names_of_mem_namedTypes h
    exact ⟨.pointer hnames, hprimitive⟩
  | .vector inner, h => by
    rw [namedTypes] at h
    obtain ⟨hnames, hprimitive⟩ := names_of_mem_namedTypes h
    exact ⟨.vector hnames, hprimitive⟩
  | .array inner rank, h => by
    rw [namedTypes] at h
    obtain ⟨hnames, hprimitive⟩ := names_of_mem_namedTypes h
    exact ⟨.array rank hnames, hprimitive⟩
  | .generic definition arguments, h => by
    rw [namedTypes, List.mem_append] at h
    cases h with
    | inl h =>
      obtain ⟨argument, hargument, hnames, hprimitive⟩ := exists_of_mem_namedTypesOfList h
      exact ⟨.argument definition hargument hnames, hprimitive⟩
    | inr h =>
      obtain ⟨hnames, hprimitive⟩ := names_of_mem_namedTypes h
      exact ⟨.definition arguments hnames, hprimitive⟩
  | .reference name, h => by
    rw [namedTypes] at h
    split at h
    · rename_i hprimitive
      rw [List.mem_singleton] at h
      subst h
      exact ⟨.reference name, Option.isNone_iff_eq_none.1 hprimitive⟩
    · exact absurd h List.not_mem_nil
  | .value name, h => by
    rw [namedTypes] at h
    split at h
    · rename_i hprimitive
      rw [List.mem_singleton] at h
      subst h
      exact ⟨.value name, Option.isNone_iff_eq_none.1 hprimitive⟩
    · exact absurd h List.not_mem_nil
  | .primitive _, h | .typeParameter _, h | .methodParameter _, h => absurd h List.not_mem_nil

theorem exists_of_mem_namedTypesOfList {named : Signature} : ∀ {signatures : List Signature},
    named ∈ namedTypesOfList signatures →
      ∃ signature ∈ signatures, Names signature named ∧ named.primitive? = none
  | [], h => absurd h List.not_mem_nil
  | signature :: rest, h => by
    rw [namedTypesOfList, List.mem_append] at h
    cases h with
    | inl h =>
      obtain ⟨other, hother, hnames⟩ := exists_of_mem_namedTypesOfList h
      exact ⟨other, List.mem_cons_of_mem _ hother, hnames⟩
    | inr h => exact ⟨signature, List.mem_cons_self, names_of_mem_namedTypes h⟩

end

theorem mem_namedTypesOfList {named signature : Signature} {signatures : List Signature}
    (hmem : signature ∈ signatures) (h : named ∈ signature.namedTypes) :
    named ∈ namedTypesOfList signatures := by
  induction signatures with
  | nil => exact absurd hmem List.not_mem_nil
  | cons head rest ih =>
    rw [namedTypesOfList, List.mem_append]
    cases List.mem_cons.1 hmem with
    | inl heq =>
      subst heq
      exact .inr h
    | inr hrest => exact .inl (ih hrest)

theorem Names.mem_namedTypes {signature named : Signature} (h : Names signature named)
    (hprimitive : named.primitive? = none) : named ∈ signature.namedTypes := by
  induction h with
  | reference name =>
    have hspelled : Primitive.ofFullName? name.fullName = none := hprimitive
    rw [namedTypes, if_pos (Option.isNone_iff_eq_none.2 hspelled)]
    exact List.mem_singleton.2 rfl
  | value name =>
    have hspelled : Primitive.ofFullName? name.fullName = none := hprimitive
    rw [namedTypes, if_pos (Option.isNone_iff_eq_none.2 hspelled)]
    exact List.mem_singleton.2 rfl
  | vector _ ih | array _ _ ih | byRef _ ih | pointer _ ih =>
    rw [namedTypes]
    exact ih hprimitive
  | definition _ _ ih =>
    rw [namedTypes]
    exact List.mem_append_right _ (ih hprimitive)
  | argument _ hmem _ ih =>
    rw [namedTypes]
    exact List.mem_append_left _ (mem_namedTypesOfList hmem (ih hprimitive))

end Signature

/-- The related types of a model are the named types, primitives left out, in the
signatures of its members. -/
theorem TypeModel.mem_relatedTypes_iff {model : TypeModel} {named : Signature} :
    named ∈ model.relatedTypes ↔
      (∃ member ∈ model.members, ∃ type ∈ member.types, Signature.Names type named) ∧
        named.primitive? = none := by
  constructor
  · intro h
    obtain ⟨type, htype, hnames, hprimitive⟩ := Signature.exists_of_mem_namedTypesOfList h
    obtain ⟨member, hmember, htype⟩ := List.mem_flatMap.1 htype
    exact ⟨⟨member, hmember, type, htype, hnames⟩, hprimitive⟩
  · rintro ⟨⟨member, hmember, type, htype, hnames⟩, hprimitive⟩
    exact Signature.mem_namedTypesOfList (List.mem_flatMap.2 ⟨member, hmember, htype⟩)
      (hnames.mem_namedTypes hprimitive)

namespace Graph

/-- What a named reference resolves to has the identifier of the reference. -/
theorem typeId_of_resolve? {graph : Graph} {signature : Signature} {definition : TypeDef}
    (h : graph.resolve? signature = some definition) :
    definition.typeId = signature.typeId := by
  obtain ⟨name, entry, hname, -, rfl, hfull⟩ := exists_entry_of_resolve? h
  rw [Signature.typeId_eq_ofName hname, TypeDef.typeId, hfull, TypeId.ofName_eq]

theorem exists_index_of_resolve? {graph : Graph} {signature : Signature} {definition : TypeDef}
    (h : graph.resolve? signature = some definition) :
    ∃ entry ∈ graph.index, entry.definition = definition := by
  obtain ⟨-, entry, -, hmem, hdefinition, -⟩ := exists_entry_of_resolve? h
  exact ⟨entry, hmem, hdefinition⟩

/-- Nothing resolves a name exactly if the graph has no type of that name. -/
theorem resolve?_eq_none_iff {graph : Graph} {signature : Signature} {name : TypeName}
    (hname : signature.definitionName? = some name) :
    graph.resolve? signature = none ↔
      ∀ entry ∈ graph.index, entry.definition.fullName ≠ name.fullName := by
  rw [resolve?, hname, Option.bind_some, resolveName?, Option.map_eq_none_iff]
  constructor
  · intro hselect entry hentry heq
    have hmem := mem_candidates_iff.2 ⟨hentry, heq⟩
    rw [select?, Option.or_eq_none_iff] at hselect
    rw [List.head?_eq_none_iff.1 hselect.2] at hmem
    exact absurd hmem List.not_mem_nil
  · intro hnone
    rw [Option.eq_none_iff_forall_not_mem]
    intro entry hentry
    obtain ⟨hmem, heq⟩ := mem_candidates_iff.1 (mem_of_select? hentry)
    exact hnone entry hmem heq

end Graph

namespace Program

variable {program : Program} {left right : Cache}

/-- The cache counts for a named type only through the model of that type. -/
theorem ignoresNamed_congr {signature : Signature}
    (h : (left.model? signature.typeId).map TypeModel.ignored =
      (right.model? signature.typeId).map TypeModel.ignored) :
    program.ignoresNamed left signature = program.ignoresNamed right signature := by
  rw [ignoresNamed, ignoresNamed]
  congr 2
  cases hresolve : program.graph.resolve? signature with
  | none => rfl
  | some definition =>
    have hid := Graph.typeId_of_resolve? hresolve
    simp only [hid]
    cases hleft : left.model? signature.typeId <;>
      cases hright : right.model? signature.typeId <;> simp_all

/-- Whether a primitive is ignored does not depend on what is cached. -/
theorem ignoresNamed_of_primitive {signature : Signature} {p : Primitive}
    (h : signature.primitive? = some p) :
    program.ignoresNamed left signature = program.ignoresNamed right signature := by
  rw [ignoresNamed, ignoresNamed, h]
  rfl

mutual

/-- Two caches that agree on the named types of a signature agree on whether it
is ignored. -/
theorem ignores_congr : ∀ {signature : Signature},
    (∀ named, Signature.Names signature named → named.primitive? = none →
      program.ignoresNamed left named = program.ignoresNamed right named) →
    program.ignores left signature = program.ignores right signature
  | .pointer _, _ => by rw [ignores, ignores]
  | .byRef inner, h => by
    rw [ignores, ignores]
    exact ignores_congr fun named hnames => h named (.byRef hnames)
  | .vector inner, h => by
    rw [ignores, ignores]
    exact ignores_congr fun named hnames => h named (.vector hnames)
  | .array inner rank, h => by
    rw [ignores, ignores]
    exact ignores_congr fun named hnames => h named (.array rank hnames)
  | .generic definition arguments, h => by
    rw [ignores, ignores,
      ignores_congr fun named hnames => h named (.definition arguments hnames),
      ignoresAny_congr fun argument hmem named hnames =>
        h named (.argument definition hmem hnames)]
  | .typeParameter _, _ | .methodParameter _, _ => by rw [ignores, ignores]
  | .primitive p, _ => by
    rw [ignores, ignores]
    exact ignoresNamed_of_primitive rfl
  | .reference name, h => by
    rw [ignores, ignores]
    cases hprimitive : (Signature.reference name).primitive? with
    | none => exact h _ (.reference name) hprimitive
    | some p => exact ignoresNamed_of_primitive hprimitive
  | .value name, h => by
    rw [ignores, ignores]
    cases hprimitive : (Signature.value name).primitive? with
    | none => exact h _ (.value name) hprimitive
    | some p => exact ignoresNamed_of_primitive hprimitive

/-- Caches that agree on the named types agree on the signatures. -/
theorem ignoresAny_congr : ∀ {signatures : List Signature},
    (∀ signature ∈ signatures, ∀ named, Signature.Names signature named →
      named.primitive? = none →
      program.ignoresNamed left named = program.ignoresNamed right named) →
    program.ignoresAny left signatures = program.ignoresAny right signatures
  | [], _ => by rw [ignoresAny, ignoresAny]
  | signature :: rest, h => by
    rw [ignoresAny, ignoresAny, ignores_congr (h signature List.mem_cons_self),
      ignoresAny_congr fun other hother => h other (List.mem_cons_of_mem _ hother)]

end

end Program

end Assemblage
