import Assemblage.Model.Ignoring
import Assemblage.Proofs.Graph.Loaded
import Mathlib.Logic.Relation

/-!
# What is ignored

The walks agree with the recursion over a reference and over the types around a type.  What
that recursion says is read off the graph: a type is ignored if it lies in one that is
listed, marked or in an ignored module, and a reference is ignored if a part of it is a
pointer, is listed, leads nowhere or leads to an ignored type.
-/

namespace Assemblage

namespace TypeDef

variable {definition inside : TypeDef}

/-- What is inside a type but not the type itself is nested in something inside. -/
theorem eq_or_exists_nested (h : inside ∈ definition.withNested) :
    inside = definition ∨ ∃ outer ∈ definition.withNested, inside ∈ outer.nested :=
  forall_withNested (P := fun inside => inside = definition ∨
      ∃ outer ∈ definition.withNested, inside ∈ outer.nested)
    (fun outer houter _ _ hinner => .inr ⟨outer, houter, hinner⟩) (.inl rfl) inside h

end TypeDef

namespace Graph

variable {graph : Graph} {definition outer around : TypeDef}

/-- The second type is the first one, or is found around it on the way outwards. -/
def LiesIn (graph : Graph) : TypeDef → TypeDef → Prop :=
  Relation.ReflTransGen fun inner outer => graph.declaringType? inner = some outer

theorem indexes_of_declaringType? (h : graph.declaringType? definition = some outer) :
    graph.Indexes outer := by
  obtain ⟨entry, hentry, houter, -⟩ := exists_entry_of_declaringType? h
  exact ⟨entry, hentry, houter⟩

/-- What is found around a type of the graph is what it is nested in. -/
theorem WellFormed.declaringType?_eq_some_iff (hgraph : graph.WellFormed)
    (honce : graph.DefinesOnce) (hindexed : graph.Indexes definition) :
    graph.declaringType? definition = some outer ↔
      graph.Indexes outer ∧ definition ∈ outer.nested := by
  constructor
  · intro h
    have houter := indexes_of_declaringType? h
    obtain ⟨assembly, hassembly, hdefinition⟩ := hgraph.indexes_iff.1 hindexed
    obtain ⟨part, hpart, top, htop, hinside⟩ := AssemblyDef.mem_allTypes_iff.1 hdefinition
    rcases TypeDef.eq_or_exists_nested hinside with rfl | ⟨parent, hparent, hnested⟩
    · have hnone := ((hgraph.assemblies assembly hassembly).top part hpart _ htop).1
      rw [declaringType?, hnone] at h
      cases h
    · have hparentIndexed : graph.Indexes parent := hgraph.indexes_iff.2 ⟨assembly, hassembly,
        AssemblyDef.mem_allTypes_iff.2 ⟨part, hpart, top, htop, hparent⟩⟩
      have hname := (hgraph.encloses hparentIndexed definition hnested).1
      rw [honce.declaringType?_eq hparentIndexed hname, Option.some.injEq] at h
      exact ⟨houter, h ▸ hnested⟩
  · rintro ⟨houter, hnested⟩
    exact honce.declaringType?_eq houter (hgraph.encloses houter definition hnested).1

/-- The way outwards from a type of the graph leads through the types that contain it. -/
theorem WellFormed.liesIn_iff (hgraph : graph.WellFormed) (honce : graph.DefinesOnce)
    (hindexed : graph.Indexes definition) :
    graph.LiesIn definition around ↔
      graph.Indexes around ∧ definition ∈ around.withNested := by
  constructor
  · intro h
    induction h with
    | refl => exact ⟨hindexed, definition.mem_withNested_self⟩
    | tail _ hstep ih =>
      obtain ⟨hmiddle, hinside⟩ := ih
      obtain ⟨houter, hnested⟩ := (hgraph.declaringType?_eq_some_iff honce hmiddle).1 hstep
      exact ⟨houter, TypeDef.mem_withNested_iff.2 (.inr ⟨_, hnested, hinside⟩)⟩
  · rintro ⟨haround, hinside⟩
    refine TypeDef.forall_withNested (P := fun inside => graph.LiesIn inside around) ?_ .refl
      definition hinside
    intro outer houter hlies inner hinner
    have houterIndexed := hgraph.indexesNested.withNested haround outer houter
    have hinnerIndexed := hgraph.indexesNested outer houterIndexed inner hinner
    exact hlies.head ((hgraph.declaringType?_eq_some_iff honce hinnerIndexed).2
      ⟨houterIndexed, hinner⟩)

/-- A type of the graph is found in the module that contains it. -/
theorem WellFormed.moduleOf?_eq_some_iff (hgraph : graph.WellFormed) (hnames : graph.NamesDiffer)
    (hindexed : graph.Indexes definition) {part : ModuleDef} :
    graph.moduleOf? definition = some part ↔
      ∃ assembly ∈ graph.assemblies, part ∈ assembly.modules ∧ definition ∈ part.allTypes := by
  have hfound : ∀ assembly ∈ graph.assemblies, ∀ part ∈ assembly.modules,
      definition ∈ part.allTypes → graph.moduleOf? definition = some part := by
    intro assembly hassembly part hpart hinside
    obtain ⟨top, htop, hmem⟩ := TypeDef.mem_withNestedAll_iff.1 hinside
    exact hnames.moduleOf?_eq hgraph.toLoaded hassembly hpart
      ((hgraph.assemblies assembly hassembly).scope_eq hpart htop definition hmem)
  constructor
  · intro h
    obtain ⟨assembly, hassembly, hdefinition⟩ := hgraph.indexes_iff.1 hindexed
    obtain ⟨own, hown, hinside⟩ := List.mem_flatMap.1 hdefinition
    obtain rfl : own = part :=
      Option.some.inj ((hfound assembly hassembly own hown hinside).symm.trans h)
    exact ⟨assembly, hassembly, hown, hinside⟩
  · rintro ⟨assembly, hassembly, hpart, hinside⟩
    exact hfound assembly hassembly part hpart hinside

end Graph

/-- Whether a reference is one to a type by its name. -/
def Signature.isNamed : Signature → Bool
  | .primitive _ | .reference _ | .value _ => true
  | _ => false

namespace Program

variable {program : Program} {cache : Cache} {definition : TypeDef}

/-- The names on the way outwards become shorter, so that none comes up again. -/
theorem walkOutwards_eq {seen : List String}
    (hseen : ∀ name ∈ seen, definition.fullName.length < name.length) :
    program.walkOutwards seen definition = program.ignoresDefinition definition := by
  fun_induction walkOutwards program seen definition with
  | case1 seen definition hmem =>
    exact absurd (hseen _ (List.contains_iff_mem.1 hmem)) (Nat.lt_irrefl _)
  | case2 seen definition _ hitself =>
    rw [ignoresDefinition_eq, hitself, Bool.true_or]
  | case3 seen definition _ hitself outer houter ih =>
    have hshorter := length_fullName_declaringType? houter
    rw [ignoresDefinition_eq, Bool.eq_false_iff.2 hitself, Bool.false_or, houter, Option.any_some]
    apply ih
    intro name hname
    rcases List.mem_cons.1 hname with rfl | hname
    · exact hshorter
    · exact Nat.lt_trans hshorter (hseen name hname)
  | case4 seen definition _ hitself hnone =>
    rw [ignoresDefinition_eq, Bool.eq_false_iff.2 hitself, Bool.false_or, hnone, Option.any_none]

/-- A type is ignored if one on the way outwards is ignored itself. -/
theorem ignoresDefinition_iff :
    program.ignoresDefinition definition = true ↔
      ∃ around, program.graph.LiesIn definition around ∧ program.ignoresItself around = true := by
  constructor
  · induction definition using ignoresDefinition.induct program with
    | case1 definition ih =>
      intro h
      rw [ignoresDefinition_eq, Bool.or_eq_true] at h
      rcases h with hitself | houter
      · exact ⟨definition, .refl, hitself⟩
      · obtain ⟨outer, hstep, hignored⟩ := (Option.any_eq_true _ _).1 houter
        obtain ⟨around, hlies, hitself⟩ := ih outer hstep hignored
        exact ⟨around, hlies.head hstep, hitself⟩
  · rintro ⟨around, hlies, hitself⟩
    induction hlies using Relation.ReflTransGen.head_induction_on with
    | refl => rw [ignoresDefinition_eq, hitself, Bool.true_or]
    | head hstep _ ih => rw [ignoresDefinition_eq, hstep, Option.any_some, ih, Bool.or_true]

/-- Why a type counts as ignored whatever is around it. -/
inductive IgnoredAlone (program : Program) (definition : TypeDef) : Prop
  | listed (hlisted : definition.fullName ∈ program.ignoredTypes)
  | marked (hmarked : Attribute.has definition.attributes Attribute.ignore = true)
  | patched (proxy : Proxy) (hproxy : proxy ∈ program.proxies)
      (happlies : proxy.applies program.graph definition = true)
      (hmarked : Attribute.has proxy.definition.attributes Attribute.ignore = true)
  | inModule (assembly : AssemblyDef) (hassembly : assembly ∈ program.graph.assemblies)
      (part : ModuleDef) (hpart : part ∈ assembly.modules)
      (hinside : definition ∈ part.allTypes) (hignored : part.isIgnored = true)

theorem ignored_foldl_merge (proxies : List Proxy) (marks : Marks) :
    (proxies.foldl (fun marks proxy => marks.merge proxy.marks) marks).ignored =
      (marks.ignored || proxies.any (·.marks.ignored)) := by
  induction proxies generalizing marks with
  | nil => rw [List.foldl_nil, List.any_nil, Bool.or_false]
  | cons proxy rest ih =>
    rw [List.foldl_cons, ih, List.any_cons, ← Bool.or_assoc]
    rfl

/-- A definition is marked as ignored by itself or by a proxy that applies to it. -/
theorem ignored_marksOf_iff :
    (program.marksOf definition).ignored = true ↔
      definition.marks.ignored = true ∨ ∃ proxy ∈ program.proxies,
        proxy.applies program.graph definition = true ∧ proxy.marks.ignored = true := by
  rw [marksOf, ignored_foldl_merge, Bool.or_eq_true, List.any_eq_true]
  simp only [proxiesFor, Proxy.applying, List.mem_filter, and_assoc]

/-- The test of a definition alone is exact. -/
theorem ignoresItself_iff (hgraph : program.graph.WellFormed) (hnames : program.graph.NamesDiffer)
    (hindexed : program.graph.Indexes definition) :
    program.ignoresItself definition = true ↔ program.IgnoredAlone definition := by
  rw [ignoresItself, Bool.or_eq_true, Bool.or_eq_true, List.contains_iff_mem, ignored_marksOf_iff,
    moduleOf?, Option.any_map, Option.any_eq_true]
  constructor
  · rintro ((hlisted | hmarked | ⟨proxy, hproxy, happlies, hmarked⟩) | ⟨part, hpart, hignored⟩)
    · exact .listed hlisted
    · exact .marked hmarked
    · exact .patched proxy hproxy happlies hmarked
    · obtain ⟨assembly, hassembly, hmem, hinside⟩ :=
        (hgraph.moduleOf?_eq_some_iff hnames hindexed).1 hpart
      exact .inModule assembly hassembly part hmem hinside hignored
  · intro h
    cases h with
    | listed hlisted => exact .inl (.inl hlisted)
    | marked hmarked => exact .inl (.inr (.inl hmarked))
    | patched proxy hproxy happlies hmarked =>
      exact .inl (.inr (.inr ⟨proxy, hproxy, happlies, hmarked⟩))
    | inModule assembly hassembly part hpart hinside hignored =>
      have hfound := (hgraph.moduleOf?_eq_some_iff hnames hindexed).2
        ⟨assembly, hassembly, hpart, hinside⟩
      exact .inr ⟨part, hfound, hignored⟩

/-- The type is inside one of the graph that is ignored on its own account, or is one. -/
def LiesInIgnored (program : Program) (definition : TypeDef) : Prop :=
  ∃ around, program.graph.Indexes around ∧ definition ∈ around.withNested ∧
    program.IgnoredAlone around

/-- What is inside a type that lies in an ignored one does so as well. -/
theorem LiesInIgnored.nested {inside : TypeDef} (h : program.LiesInIgnored definition)
    (hinside : inside ∈ definition.withNested) : program.LiesInIgnored inside := by
  obtain ⟨around, hindexed, hmem, halone⟩ := h
  exact ⟨around, hindexed, TypeDef.withNested_subset hmem hinside, halone⟩

/-- The walk outwards from a definition finds an ignored one exactly if there is one around it.
-/
theorem ignoresDefinition_iff_liesInIgnored (hgraph : program.graph.WellFormed)
    (honce : program.graph.DefinesOnce) (hnames : program.graph.NamesDiffer)
    (hindexed : program.graph.Indexes definition) :
    program.ignoresDefinition definition = true ↔ program.LiesInIgnored definition := by
  rw [ignoresDefinition_iff, LiesInIgnored]
  refine exists_congr fun around => ?_
  rw [hgraph.liesIn_iff honce hindexed, and_assoc]
  refine and_congr_right fun haround => and_congr_right fun _ => ?_
  exact ignoresItself_iff hgraph hnames haround

/-! ## The walk over a reference -/

/-- The walk that notes where it has been decides on a named type as the test does. -/
theorem decideNamed_eq (program : Program) (cache : Cache) (signature : Signature) :
    program.decideNamed cache signature = program.ignoresNamed cache signature := by
  have hwalk : ∀ definition, program.walkOutwards [] definition =
      program.ignoresDefinition definition :=
    fun definition => walkOutwards_eq fun _ hname => absurd hname List.not_mem_nil
  rw [decideNamed, ignoresNamed]
  simp only [hwalk]
  cases program.ignoredTypes.contains signature.fullName <;>
    cases signature.primitive? <;> rfl

/-- Of several signatures one is ignored if any is. -/
theorem ignoresAny_eq_any (program : Program) (cache : Cache) (signatures : List Signature) :
    program.ignoresAny cache signatures = signatures.any (program.ignores cache) := by
  induction signatures with
  | nil => rw [ignoresAny, List.any_nil]
  | cons signature rest ih => rw [ignoresAny, ih, List.any_cons]

/-- The walk finds whether any reference on the stack is ignored. -/
theorem walkStack_eq (program : Program) (cache : Cache) (stack : List Signature) :
    program.walkStack cache stack = stack.any (program.ignores cache) := by
  fun_induction walkStack program cache stack with
  | case1 => rfl
  | case2 => rw [List.any_cons, ignores, Bool.true_or]
  | case3 inner rest ih | case4 inner rest ih | case5 inner _ rest ih =>
    rw [ih, List.any_cons, List.any_cons, ignores]
  | case6 definition arguments rest ih =>
    -- The order in which the parts come off the stack does not count for `any`.
    rw [List.unattach_reverse, List.unattach_attach] at ih
    rw [ih, List.any_append, List.any_reverse, List.any_cons, List.any_cons, ignores,
      ignoresAny_eq_any, Bool.or_left_comm, Bool.or_assoc]
  | case7 _ rest ih | case8 _ rest ih => rw [ih, List.any_cons, ignores, Bool.false_or]
  | case9 _ rest hnamed | case11 _ rest hnamed | case13 _ rest hnamed =>
    rw [decideNamed_eq] at hnamed
    rw [List.any_cons, ignores, hnamed, Bool.true_or]
  | case10 _ rest hnamed ih | case12 _ rest hnamed ih | case14 _ rest hnamed ih =>
    rw [decideNamed_eq, Bool.not_eq_true] at hnamed
    rw [ih, List.any_cons, ignores, hnamed, Bool.false_or]

/-- Why a reference counts as ignored, once it is known which types do. -/
inductive Ignores (program : Program) (counts : TypeDef → Prop) : Signature → Prop
  | pointer (target : Signature) : Ignores program counts (.pointer target)
  | byRef {target : Signature} (h : Ignores program counts target) :
    Ignores program counts (.byRef target)
  | vector {element : Signature} (h : Ignores program counts element) :
    Ignores program counts (.vector element)
  | array {element : Signature} (rank : Nat) (h : Ignores program counts element) :
    Ignores program counts (.array element rank)
  | definition {definition : Signature} (arguments : List Signature)
      (h : Ignores program counts definition) :
    Ignores program counts (.generic definition arguments)
  | argument {argument : Signature} {arguments : List Signature} (definition : Signature)
      (hmem : argument ∈ arguments) (h : Ignores program counts argument) :
    Ignores program counts (.generic definition arguments)
  | listed {signature : Signature} (hnamed : signature.isNamed = true)
      (hlisted : signature.fullName ∈ program.ignoredTypes) : Ignores program counts signature
  | lost {signature : Signature} (hnamed : signature.isNamed = true)
      (hprimitive : signature.primitive? = none)
      (hlost : program.graph.resolve? signature = none) : Ignores program counts signature
  | found {signature : Signature} {definition : TypeDef} (hnamed : signature.isNamed = true)
      (hprimitive : signature.primitive? = none)
      (hfound : program.graph.resolve? signature = some definition)
      (hcounts : counts definition) : Ignores program counts signature

section

variable {counts others : TypeDef → Prop} {signature : Signature}

theorem ofFullName?_of_resolve? (hnamed : signature.isNamed = true)
    (hprimitive : signature.primitive? = none)
    (hfound : program.graph.resolve? signature = some definition) :
    Primitive.ofFullName? definition.fullName = none := by
  obtain ⟨name, -, hname, -, -, hfull⟩ := Graph.exists_entry_of_resolve? hfound
  rw [hfull]
  cases signature with
  | reference other | value other =>
    obtain rfl : other = name := Option.some.inj hname
    exact hprimitive
  | primitive p => cases hprimitive
  | _ => cases hnamed

/-- Only types of the graph whose names are not those of primitives are asked about. -/
theorem Ignores.mono (h : program.Ignores counts signature)
    (hcounts : ∀ definition, program.graph.Indexes definition →
      Primitive.ofFullName? definition.fullName = none → counts definition → others definition) :
    program.Ignores others signature := by
  induction h with
  | pointer target => exact .pointer target
  | byRef _ ih => exact .byRef ih
  | vector _ ih => exact .vector ih
  | array rank _ ih => exact .array rank ih
  | definition arguments _ ih => exact .definition arguments ih
  | argument definition hmem _ ih => exact .argument definition hmem ih
  | listed hnamed hlisted => exact .listed hnamed hlisted
  | lost hnamed hprimitive hlost => exact .lost hnamed hprimitive hlost
  | found hnamed hprimitive hfound hdefinition =>
    exact .found hnamed hprimitive hfound (hcounts _ (Graph.exists_index_of_resolve? hfound)
      (ofFullName?_of_resolve? hnamed hprimitive hfound) hdefinition)

/-- An instantiation is ignored with its definition or with one of its arguments. -/
theorem ignores_generic_iff {definition : Signature} {arguments : List Signature} :
    program.Ignores counts (.generic definition arguments) ↔
      program.Ignores counts definition ∨
        ∃ argument ∈ arguments, program.Ignores counts argument := by
  constructor
  · intro h
    cases h with
    | definition _ h => exact .inl h
    | argument _ hmem h => exact .inr ⟨_, hmem, h⟩
    | listed hnamed | lost hnamed | found hnamed => cases hnamed
  · rintro (h | ⟨argument, hmem, h⟩)
    · exact .definition arguments h
    · exact .argument definition hmem h

/-- A named type is ignored by its name, or as a definition that counts as ignored. -/
theorem ignores_named_iff (hnamed : signature.isNamed = true) :
    program.Ignores counts signature ↔ signature.fullName ∈ program.ignoredTypes ∨
      signature.primitive? = none ∧ ∀ definition,
        program.graph.resolve? signature = some definition → counts definition := by
  constructor
  · intro h
    cases h with
    | listed _ hlisted => exact .inl hlisted
    | lost _ hprimitive hlost =>
      rw [hlost]
      exact .inr ⟨hprimitive, fun definition h => absurd h.symm (Option.some_ne_none definition)⟩
    | found _ hprimitive hfound hcounts =>
      exact .inr ⟨hprimitive, fun _ hother =>
        Option.some.inj (hfound.symm.trans hother) ▸ hcounts⟩
    | _ => cases hnamed
  · rintro (hlisted | ⟨hprimitive, hcounts⟩)
    · exact .listed hnamed hlisted
    · cases hfound : program.graph.resolve? signature with
      | none => exact .lost hnamed hprimitive hfound
      | some definition => exact .found hnamed hprimitive hfound (hcounts definition hfound)

end

/-- A type with a model counts as the model says, and any other one by what it lies in. -/
def CountsAsIgnored (program : Program) (cache : Cache) (definition : TypeDef) : Prop :=
  match cache.model? definition.typeId with
  | some model => model.ignored = true
  | none => program.LiesInIgnored definition

section

variable (hgraph : program.graph.WellFormed) (honce : program.graph.DefinesOnce)
  (hnames : program.graph.NamesDiffer)

include hgraph honce hnames

/-- The test of a named type is exact. -/
theorem ignoresNamed_iff (cache : Cache) {signature : Signature}
    (hnamed : signature.isNamed = true) :
    program.ignoresNamed cache signature = true ↔
      program.Ignores (program.CountsAsIgnored cache) signature := by
  rw [ignores_named_iff hnamed, ignoresNamed, Bool.or_eq_true, Bool.and_eq_true,
    List.contains_iff_mem, Option.isNone_iff_eq_none]
  refine or_congr_right (and_congr_right fun _ => ?_)
  cases hfound : program.graph.resolve? signature with
  | none => exact iff_of_true rfl fun definition h => absurd h.symm (Option.some_ne_none definition)
  | some definition =>
    have hdefinition := ignoresDefinition_iff_liesInIgnored hgraph honce hnames
      (Graph.exists_index_of_resolve? hfound)
    simp only [Option.some.injEq, forall_eq', CountsAsIgnored]
    cases cache.model? definition.typeId with
    | none => exact hdefinition
    | some model => exact .rfl

/-- The recursion over a reference decides whether it is ignored. -/
theorem ignores_iff (cache : Cache) : ∀ signature : Signature,
    program.ignores cache signature = true ↔
      program.Ignores (program.CountsAsIgnored cache) signature
  | .pointer target => by
    rw [ignores]
    exact iff_of_true rfl (.pointer target)
  | .byRef target => by
    rw [ignores, ignores_iff cache target]
    refine ⟨.byRef, fun h => ?_⟩
    cases h with
    | byRef h => exact h
    | listed hnamed | lost hnamed | found hnamed => cases hnamed
  | .vector element => by
    rw [ignores, ignores_iff cache element]
    refine ⟨.vector, fun h => ?_⟩
    cases h with
    | vector h => exact h
    | listed hnamed | lost hnamed | found hnamed => cases hnamed
  | .array element rank => by
    rw [ignores, ignores_iff cache element]
    refine ⟨.array rank, fun h => ?_⟩
    cases h with
    | array _ h => exact h
    | listed hnamed | lost hnamed | found hnamed => cases hnamed
  | .generic definition arguments => by
    rw [ignores, Bool.or_eq_true, ignores_iff cache definition, ignoresAny_eq_any,
      List.any_eq_true, ignores_generic_iff]
    exact or_congr_right (exists_congr fun argument => and_congr_right fun _ =>
      ignores_iff cache argument)
  | .typeParameter _ | .methodParameter _ => by
    rw [ignores]
    refine iff_of_false Bool.false_ne_true fun h => ?_
    cases h with
    | listed hnamed | lost hnamed | found hnamed => cases hnamed
  | .primitive _ | .reference _ | .value _ => by
    rw [ignores]
    exact ignoresNamed_iff hgraph honce hnames cache rfl

end

end Program

end Assemblage
