import Assemblage.Proofs.Graph.Ancestry

/-!
# Assignability

A type is assignable to itself and to whatever is on a path of references to bases
and interfaces.  The search that decides it goes on from a type once only, and from
no reference that the graph cannot resolve.  Where every type name is defined once
that loses no path, so the answers of two searches can be put together, on cyclic
hierarchies as well.
-/

namespace Assemblage

namespace Graph

variable {graph : Graph} {definition middle : TypeDef} {target : TypeId}

/-- References that lead on from a type: the first is to its base or to one of its
interfaces, and each further one is to the base or an interface of the type that the
reference before it resolves to.  Only the last need not resolve. -/
inductive Path (graph : Graph) : TypeDef → List Signature → Prop
  | nil (definition : TypeDef) : Path graph definition []
  | last {definition : TypeDef} {reference : Signature}
      (hparent : reference ∈ definition.parents) : Path graph definition [reference]
  | next {definition found : TypeDef} {reference : Signature} {path : List Signature}
      (hparent : reference ∈ definition.parents)
      (hresolve : graph.resolve? reference = some found) (h : Path graph found path) :
      Path graph definition (reference :: path)

/-- A type descends from what is on its paths. -/
theorem Path.descends {path : List Signature} (h : graph.Path definition path)
    {reference : Signature} (hmem : reference ∈ path) :
    graph.Descends reference.typeId definition := by
  induction h with
  | nil => cases hmem
  | last hparent =>
    rw [List.mem_singleton.1 hmem]
    exact .parent hparent rfl
  | next hparent hresolve _ ih =>
    rcases List.mem_cons.1 hmem with rfl | hmem
    · exact .parent hparent rfl
    · exact .step hparent hresolve (ih hmem)

/-- All references of a path are parents of types of the graph. -/
theorem Path.exists_parents {path : List Signature} (h : graph.Path definition path)
    (hindexed : graph.Indexes definition) {reference : Signature} (hmem : reference ∈ path) :
    ∃ holder, graph.Indexes holder ∧ reference ∈ holder.parents := by
  induction h with
  | nil => cases hmem
  | last hparent =>
    rw [List.mem_singleton.1 hmem]
    exact ⟨_, hindexed, hparent⟩
  | next hparent hresolve _ ih =>
    rcases List.mem_cons.1 hmem with rfl | hmem
    · exact ⟨_, hindexed, hparent⟩
    · exact ih (exists_index_of_resolve? hresolve) hmem

/-- A type descends from a target exactly if the target is the type or lies on a path from it.
-/
theorem descends_iff_exists_path :
    graph.Descends target definition ↔
      definition.typeId = target ∨
        ∃ path, graph.Path definition path ∧ ∃ reference ∈ path, reference.typeId = target := by
  constructor
  · intro h
    induction h with
    | self h => exact .inl h
    | @parent definition reference hparent h =>
      exact .inr ⟨[reference], .last hparent, reference, List.mem_singleton_self _, h⟩
    | @step definition found reference hparent hresolve _ ih =>
      right
      rcases ih with hself | ⟨path, hpath, other, hother, htarget⟩
      · have hid : reference.typeId = target := (typeId_of_resolve? hresolve).symm.trans hself
        exact ⟨[reference], .last hparent, reference, List.mem_singleton_self _, hid⟩
      · exact ⟨reference :: path, .next hparent hresolve hpath, other,
          List.mem_cons_of_mem _ hother, htarget⟩
  · rintro (hself | ⟨path, hpath, reference, hmem, rfl⟩)
    · exact .self hself
    · exact hpath.descends hmem

/-- What a type descends from hands on what it descends from itself. -/
theorem Descends.trans (honce : graph.DefinesOnce) (hnamed : graph.ParentsNamed)
    (hindexed : graph.Indexes definition) (hmiddle : graph.Indexes middle)
    (h : graph.Descends middle.typeId definition) (hnext : graph.Descends target middle) :
    graph.Descends target definition := by
  induction h with
  | self hid =>
    rw [honce.eq_of_typeId_eq hindexed hmiddle hid]
    exact hnext
  | parent hparent hid =>
    have hresolve := honce.resolve?_eq hmiddle (hnamed _ hindexed _ hparent) hid
    exact .step hparent hresolve hnext
  | step hparent hresolve _ ih =>
    exact .step hparent hresolve (ih (exists_index_of_resolve? hresolve))

/-- Assignability is transitive. -/
theorem isAssignableTo_trans (honce : graph.DefinesOnce) (hnamed : graph.ParentsNamed)
    (hindexed : graph.Indexes definition) (hmiddle : graph.Indexes middle)
    (h : graph.isAssignableTo definition middle.typeId = true)
    (hnext : graph.isAssignableTo middle target = true) :
    graph.isAssignableTo definition target = true := by
  rw [isAssignableTo_iff honce hnamed hindexed] at h ⊢
  rw [isAssignableTo_iff honce hnamed hmiddle] at hnext
  exact h.trans honce hnamed hindexed hmiddle hnext

theorem isAssignableTo_self (graph : Graph) (definition : TypeDef) :
    graph.isAssignableTo definition definition.typeId = true := by
  rw [isAssignableTo, decide_eq_true rfl, Bool.true_or]

/-- A type is assignable to itself and to what is on a path of references from it, and to
nothing else.  So assignability is reflexive and transitive. -/
theorem isAssignableTo_iff_exists_path (honce : graph.DefinesOnce) (hnamed : graph.ParentsNamed) :
    (∀ definition, graph.Indexes definition → ∀ target,
      (graph.isAssignableTo definition target = true ↔
        target = definition.typeId ∨
          ∃ path, graph.Path definition path ∧
            ∃ reference ∈ path, reference.typeId = target)) ∧
    (∀ definition, graph.isAssignableTo definition definition.typeId = true) ∧
    ∀ definition middle, graph.Indexes definition → graph.Indexes middle →
      graph.isAssignableTo definition middle.typeId = true →
      ∀ target, graph.isAssignableTo middle target = true →
        graph.isAssignableTo definition target = true := by
  refine ⟨?paths, graph.isAssignableTo_self, ?trans⟩
  case paths =>
    intro definition hindexed target
    rw [isAssignableTo_iff honce hnamed hindexed, descends_iff_exists_path]
    exact or_congr_left eq_comm
  case trans =>
    intro definition middle hindexed hmiddle h target hnext
    exact isAssignableTo_trans honce hnamed hindexed hmiddle h hnext

/-- An interface that no assembly of the ring holds. -/
def shapeReference : Signature :=
  .reference { scope := some "Drawing", space := "Drawing", path := "IShape" }

def nodeClass : TypeBlueprint :=
  { space := "App", name := "Node\x601", generics := ["T"], interfaces := [shapeReference]
    base := some (.reference { space := "App", path := "Ring" }) }

/-- The base is an instance of the generic class that has this one as its base. -/
def ringClass : TypeBlueprint :=
  { space := "App", name := "Ring"
    base := some (.generic (.reference { space := "App", path := "Node\x601" })
      [.primitive .int32]) }

def ringAssembly : AssemblyBlueprint :=
  { identity := { name := "App" }, mainTypes := [ringClass, nodeClass] }

/-- Each class is assignable to the other one and to the interface, though only one of
them names it, and none is assignable to the argument of the instance. -/
theorem isAssignableTo_iff_exists_path_ringAssembly :
    let graph := ofAssemblies [ringAssembly.build]
    let scope : Scope := { assembly := "App", module := "App.dll" }
    let ring := ringClass.build scope none
    let node := nodeClass.build scope none
    graph.DefinesOnce ∧ graph.ParentsNamed ∧ graph.Indexes ring ∧ graph.Indexes node ∧
      graph.resolve? shapeReference = none ∧
      graph.isAssignableTo node ring.typeId = true ∧
      graph.isAssignableTo node shapeReference.typeId = true ∧
      graph.isAssignableTo ring node.typeId = true ∧
      graph.isAssignableTo ring shapeReference.typeId = true ∧
      graph.isAssignableTo ring ring.typeId = true ∧
      graph.isAssignableTo ring (Signature.primitive .int32).typeId = false := by
  intro graph scope ring node
  have honce : graph.DefinesOnce := by
    rw [DefinesOnce]
    decide +kernel
  have hnamed : graph.ParentsNamed := by
    rintro definition ⟨entry, hentry, rfl⟩
    revert entry
    change ∀ entry ∈ graph.index, ∀ parent ∈ entry.definition.parents, _
    decide +kernel
  have hindex : graph.index = [⟨"App", ring⟩, ⟨"App", node⟩] := rfl
  have hring : graph.Indexes ring := ⟨_, hindex ▸ List.mem_cons_self, rfl⟩
  have hnode : graph.Indexes node := ⟨_, hindex ▸ List.mem_cons_of_mem _ List.mem_cons_self, rfl⟩
  have hforth : graph.resolve? (.generic (.reference { space := "App", path := "Node\x601" })
      [.primitive .int32]) = some node := rfl
  have hback : graph.resolve? (.reference { space := "App", path := "Ring" }) = some ring := rfl
  obtain ⟨hpaths, hself, htrans⟩ := isAssignableTo_iff_exists_path honce hnamed
  have hparent : ∀ definition, graph.Indexes definition → ∀ reference ∈ definition.parents,
      graph.isAssignableTo definition reference.typeId = true := by
    intro definition hdefinition reference hreference
    rw [hpaths definition hdefinition]
    exact .inr ⟨[reference], .last hreference, reference, List.mem_singleton_self _, rfl⟩
  have hshape : graph.isAssignableTo node shapeReference.typeId = true :=
    hparent node hnode _ (List.mem_cons_of_mem _ List.mem_cons_self)
  have hnext : graph.isAssignableTo ring node.typeId = true := by
    rw [typeId_of_resolve? hforth]
    exact hparent ring hring _ List.mem_cons_self
  have hround : graph.isAssignableTo node ring.typeId = true := by
    rw [typeId_of_resolve? hback]
    exact hparent node hnode _ List.mem_cons_self
  refine ⟨honce, hnamed, hring, hnode, rfl, hround, hshape, hnext,
    htrans ring node hring hnode hnext _ hshape, hself ring, ?_⟩
  rw [← Bool.not_eq_true, hpaths ring hring]
  rintro (hsame | ⟨path, hpath, reference, hmem, hid⟩)
  · exact absurd hsame (by decide +kernel)
  · obtain ⟨holder, ⟨entry, hentry, rfl⟩, hreference⟩ := hpath.exists_parents hring hmem
    have hother : ∀ entry ∈ graph.index, ∀ reference ∈ entry.definition.parents,
        reference.typeId ≠ (Signature.primitive .int32).typeId := by decide +kernel
    exact hother entry hentry reference hreference hid

end Graph

end Assemblage
