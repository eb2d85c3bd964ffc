import Assemblage.Proofs.Definition.Nesting
import Assemblage.Proofs.Model.OrderIndependence
import Mathlib.Data.List.Forall2
import Mathlib.Data.List.Pairwise

/-!
# Loaded graphs

A graph that assemblies were added to one by one lists exactly their types and
modules.  If the assemblies can be told apart by their simple names and their
modules by theirs, a type is found in its own module; if the types can be told
apart, a nested type is found in the type around it and is ignored with it.
-/

namespace Assemblage

theorem exists_of_mem_forall₂ {α β : Type} {related : α → β → Prop} {items : List α}
    {others : List β} (h : List.Forall₂ related items others) {other : β} (hmem : other ∈ others) :
    ∃ item ∈ items, related item other := by
  induction h with
  | nil => cases hmem
  | cons hhead _ ih =>
    rcases List.mem_cons.1 hmem with rfl | hmem
    · exact ⟨_, List.mem_cons_self, hhead⟩
    · obtain ⟨item, hitem, hrelated⟩ := ih hmem
      exact ⟨item, List.mem_cons_of_mem _ hitem, hrelated⟩

/-- Lists whose items correspond give corresponding items if they are searched alike. -/
theorem map_find?_of_forall₂ {α β γ : Type} {R : α → β → Prop} {p : α → Bool} {q : β → Bool}
    {f : α → γ} {g : β → γ} {left : List α} {right : List β} (h : List.Forall₂ R left right)
    (htest : ∀ a b, R a b → p a = q b) (hvalue : ∀ a b, R a b → f a = g b) :
    (left.find? p).map f = (right.find? q).map g := by
  induction h with
  | nil => rfl
  | cons hitem _ ih =>
    rw [List.find?_cons, List.find?_cons, htest _ _ hitem]
    split
    · exact congrArg some (hvalue _ _ hitem)
    · exact ih

/-- The last item of a list counts if nothing before it is like it. -/
theorem eraseDupsBy_concat {α : Type} (alike : α → α → Bool) (items : List α) (item : α) :
    (items ++ [item]).eraseDupsBy alike =
      if (items.eraseDupsBy alike).any (alike item) then items.eraseDupsBy alike
      else items.eraseDupsBy alike ++ [item] := by
  have hloop : ∀ items seen : List α, List.eraseDupsBy.loop alike (items ++ [item]) seen =
      if (List.eraseDupsBy.loop alike items seen).any (alike item) then
        List.eraseDupsBy.loop alike items seen
      else List.eraseDupsBy.loop alike items seen ++ [item] := by
    intro items
    induction items with
    | nil =>
      intro seen
      simp only [List.nil_append, List.eraseDupsBy.loop, List.any_reverse]
      cases seen.any (alike item) <;> simp
    | cons first rest ih =>
      intro seen
      simp only [List.cons_append, List.eraseDupsBy.loop]
      rcases Bool.eq_false_or_eq_true (seen.any (alike first)) with hseen | hseen
      · simpa only [hseen] using ih seen
      · simpa only [hseen] using ih (first :: seen)
  exact hloop items []

theorem eraseDupsBy_subset {α : Type} (alike : α → α → Bool) (items : List α) :
    items.eraseDupsBy alike ⊆ items := by
  induction items using List.reverseRecOn with
  | nil => exact List.nil_subset _
  | append_singleton items item ih =>
    have hitems : items ⊆ items ++ [item] := List.subset_append_left _ _
    rw [eraseDupsBy_concat]
    split
    · exact List.Subset.trans ih hitems
    · exact List.append_subset.2 ⟨List.Subset.trans ih hitems, List.subset_append_right _ _⟩

/-- Items with one key count once, and any of them counts. -/
theorem any_eraseDupsBy {α β : Type} [BEq β] [LawfulBEq β] (key : α → β) (items : List α)
    (item : α) :
    (items.eraseDupsBy fun left right => key left == key right).any (key item == key ·) =
      items.any (key item == key ·) := by
  induction items using List.reverseRecOn with
  | nil => rfl
  | append_singleton before last ih =>
    rw [eraseDupsBy_concat]
    by_cases hknown : ((before.eraseDupsBy fun left right => key left == key right).any
        (key last == key ·)) = true
    · rw [if_pos hknown, ih, List.any_append]
      by_cases hsame : (key item == key last) = true
      · rw [← ih, eq_of_beq hsame, hknown, Bool.true_or]
      · simp [hsame]
    · rw [if_neg hknown, List.any_append, List.any_append, ih]

/-- Dropping what has a known key drops no key. -/
theorem mem_map_eraseDupsBy {α β : Type} [BEq β] [LawfulBEq β] {key : α → β} {items : List α}
    {found : β} :
    found ∈ (items.eraseDupsBy fun left right => key left == key right).map key ↔
      found ∈ items.map key := by
  constructor
  · exact fun hmem => List.map_subset key (eraseDupsBy_subset _ items) hmem
  · intro hmem
    obtain ⟨item, hitem, rfl⟩ := List.mem_map.1 hmem
    have hlisted : items.any (key item == key ·) = true :=
      List.any_eq_true.2 ⟨item, hitem, beq_self_eq_true _⟩
    rw [← any_eraseDupsBy, List.any_eq_true] at hlisted
    obtain ⟨other, hother, hkey⟩ := hlisted
    exact List.mem_map.2 ⟨other, hother, (eq_of_beq hkey).symm⟩

/-- No key is left twice. -/
theorem nodup_map_eraseDupsBy {α β : Type} [BEq β] [LawfulBEq β] (key : α → β) (items : List α) :
    ((items.eraseDupsBy fun left right => key left == key right).map key).Nodup := by
  induction items using List.reverseRecOn with
  | nil => exact List.nodup_nil
  | append_singleton before last ih =>
    rw [eraseDupsBy_concat]
    split
    · exact ih
    · rename_i hnew
      rw [List.map_append, List.map_singleton, ← List.concat_eq_append, List.nodup_concat]
      refine ⟨fun hmem => hnew (List.any_eq_true.2 ?_), ih⟩
      obtain ⟨other, hother, hkey⟩ := List.mem_map.1 hmem
      exact ⟨other, hother, beq_iff_eq.2 hkey.symm⟩

namespace Graph

/-- The modules of an assembly with the keys they are looked up by. -/
def modulesOf (assembly : AssemblyDef) : List ((String × String) × ModuleDef) :=
  assembly.modules.map fun part => ((assembly.name, part.name), part)

/-- The index and the modules are those of the assemblies, and of nothing else, and
no two assemblies have one display name. -/
structure Loaded (graph : Graph) : Prop where
  index_eq : graph.index = graph.assemblies.flatMap entriesOf
  modules_eq : graph.modules = (graph.assemblies.flatMap modulesOf).reverse
  nodup : (graph.assemblies.map (·.fullName)).Nodup

theorem Loaded.add {graph : Graph} (h : graph.Loaded) (assembly : AssemblyDef) :
    (graph.add assembly).Loaded := by
  rw [Graph.add]
  split
  · exact h
  · rename_i hnew
    constructor
    · simp only [h.index_eq, List.flatMap_append, List.flatMap_singleton]
    · simp only [h.modules_eq, List.flatMap_append, List.flatMap_singleton,
        List.reverse_append, modulesOf]
    · rw [List.map_append, List.map_singleton, ← List.concat_eq_append, List.nodup_concat]
      refine ⟨?_, h.nodup⟩
      simpa [Graph.contains] using hnew

theorem loaded_ofAssemblies (assemblies : List AssemblyDef) : (ofAssemblies assemblies).Loaded :=
  List.foldlRecOn assemblies _ ⟨rfl, rfl, List.nodup_nil⟩ fun _ h assembly _ => h.add assembly

variable {graph : Graph} {definition inner : TypeDef}

/-- A loaded graph has the definitions of its assemblies. -/
theorem Loaded.indexes_iff (h : graph.Loaded) :
    graph.Indexes definition ↔
      ∃ assembly ∈ graph.assemblies, definition ∈ assembly.allTypes := by
  simp only [Indexes, h.index_eq, entriesOf, List.mem_flatMap, List.mem_map]
  constructor
  · rintro ⟨entry, ⟨assembly, hassembly, found, hfound, rfl⟩, rfl⟩
    exact ⟨assembly, hassembly, hfound⟩
  · rintro ⟨assembly, hassembly, hdefinition⟩
    exact ⟨_, ⟨assembly, hassembly, definition, hdefinition, rfl⟩, rfl⟩

/-- The types nested in indexed types are indexed. -/
def IndexesNested (graph : Graph) : Prop :=
  ∀ definition, graph.Indexes definition → ∀ inner ∈ definition.nested, graph.Indexes inner

/-- A loaded graph has the types inside its types. -/
theorem Loaded.indexesNested (h : graph.Loaded) : graph.IndexesNested := by
  intro definition hdefinition inner hinner
  obtain ⟨assembly, hassembly, hdefinition⟩ := h.indexes_iff.1 hdefinition
  exact h.indexes_iff.2
    ⟨assembly, hassembly, AssemblyDef.mem_allTypes_of_nested hdefinition hinner⟩

theorem IndexesNested.withNested (h : graph.IndexesNested)
    (hdefinition : graph.Indexes definition) :
    ∀ inside ∈ definition.withNested, graph.Indexes inside :=
  TypeDef.forall_withNested (fun outer _ houter => h outer houter) hdefinition

theorem indexes_of_baseType? {base : TypeDef} (h : graph.baseType? definition = some base) :
    graph.Indexes base := by
  obtain ⟨reference, -, hresolve⟩ := Option.bind_eq_some_iff.1 h
  exact exists_index_of_resolve? hresolve

/-- Well-formed assemblies were added one by one. -/
structure WellFormed (graph : Graph) : Prop extends graph.Loaded where
  assemblies : ∀ assembly ∈ graph.assemblies, assembly.WellFormed

theorem WellFormed.encloses (h : graph.WellFormed) (hindexed : graph.Indexes definition) :
    definition.Encloses := by
  obtain ⟨assembly, hassembly, hdefinition⟩ := h.indexes_iff.1 hindexed
  exact (h.assemblies assembly hassembly).encloses definition hdefinition

theorem mem_of_mem_add {assembly other : AssemblyDef}
    (h : other ∈ (graph.add assembly).assemblies) :
    other ∈ graph.assemblies ∨ other = assembly := by
  rw [Graph.add] at h
  split at h
  · exact .inl h
  · simpa only [List.mem_append, List.mem_singleton] using h

theorem ofAssemblies_subset (assemblies : List AssemblyDef) :
    (ofAssemblies assemblies).assemblies ⊆ assemblies := by
  refine List.foldlRecOn (motive := fun graph : Graph => graph.assemblies ⊆ assemblies) _ _
    (List.nil_subset _) ?_
  intro graph hgraph assembly hassembly other hother
  rcases mem_of_mem_add hother with hold | rfl
  · exact hgraph hold
  · exact hassembly

/-- A graph of assemblies that were built. -/
theorem wellFormed_ofAssemblies (blueprints : List AssemblyBlueprint) :
    (ofAssemblies (blueprints.map AssemblyBlueprint.build)).WellFormed := by
  refine ⟨loaded_ofAssemblies _, ?_⟩
  refine List.foldlRecOn (motive := fun graph : Graph =>
    ∀ assembly ∈ graph.assemblies, assembly.WellFormed) _ _ (by simp) ?_
  intro graph hgraph built hbuilt assembly hassembly
  obtain ⟨blueprint, -, rfl⟩ := List.mem_map.1 hbuilt
  rcases mem_of_mem_add hassembly with hold | rfl
  · exact hgraph assembly hold
  · exact blueprint.wellFormed_build

/-! ## Types that count as those of an assembly -/

/-- The type belongs to an assembly that has the simple name of one of the given
ones, in any case. -/
def Belongs (graph : Graph) (listed : List AssemblyDef) (definition : TypeDef) : Prop :=
  graph.Indexes definition ∧
    ∃ assembly ∈ listed, Text.equalIgnoringCase definition.scope.assembly assembly.name = true

variable {listed : List AssemblyDef}

/-- A definition belongs to the listed assemblies with any other of its assembly. -/
theorem Belongs.of_sameAssembly {other : TypeDef} (h : graph.Belongs listed definition)
    (hindexed : graph.Indexes other) (hsame : other.sameAssembly definition = true) :
    graph.Belongs listed other := by
  obtain ⟨-, assembly, hassembly, hname⟩ := h
  exact ⟨hindexed, assembly, hassembly, Text.equalIgnoringCase_trans hsame hname⟩

theorem Belongs.nested (h : graph.Belongs listed definition) (hgraph : graph.WellFormed)
    (hinner : inner ∈ definition.nested) : graph.Belongs listed inner := by
  refine h.of_sameAssembly (hgraph.indexesNested definition h.1 inner hinner) ?_
  rw [TypeDef.sameAssembly, (hgraph.encloses h.1 inner hinner).2.2]
  exact Text.equalIgnoringCase_refl _

theorem belongs_of_mem_allTypes (hgraph : graph.WellFormed) {assembly : AssemblyDef}
    (hlisted : assembly ∈ listed) (hassembly : assembly ∈ graph.assemblies)
    (hdefinition : definition ∈ assembly.allTypes) : graph.Belongs listed definition := by
  refine ⟨hgraph.indexes_iff.2 ⟨assembly, hassembly, hdefinition⟩, assembly, hlisted, ?_⟩
  rw [(hgraph.assemblies assembly hassembly).scope_assembly hdefinition]
  exact Text.equalIgnoringCase_refl _

/-- No two types of an assembly have one name. -/
theorem DefinesOnce.nodup_allTypes (h : graph.DefinesOnce) (hloaded : graph.Loaded)
    {assembly : AssemblyDef} (hassembly : assembly ∈ graph.assemblies) :
    (assembly.allTypes.map (·.fullName)).Nodup := by
  obtain ⟨before, after, heq⟩ := List.append_of_mem hassembly
  rw [DefinesOnce, hloaded.index_eq, heq, List.flatMap_append, List.flatMap_cons, List.map_append,
    List.map_append, entriesOf, List.map_map] at h
  exact h.of_append_right.of_append_left

/-- A nested type is found in the type around it. -/
theorem DefinesOnce.declaringType?_eq (h : graph.DefinesOnce) (hindexed : graph.Indexes definition)
    (houter : inner.outer = some definition.fullName) :
    graph.declaringType? inner = some definition := by
  obtain ⟨entry, hentry, rfl⟩ := hindexed
  have hcandidate : entry ∈ graph.candidates entry.definition.fullName :=
    mem_candidates_iff.2 ⟨hentry, rfl⟩
  have hsame : ∀ other ∈ graph.candidates entry.definition.fullName,
      other.definition = entry.definition := by
    intro other hother
    obtain ⟨hmem, hname⟩ := mem_candidates_iff.1 hother
    refine h.eq_of_typeId_eq ⟨other, hmem, rfl⟩ ⟨entry, hentry, rfl⟩ ?_
    rw [TypeDef.typeId, TypeDef.typeId, hname]
  rw [declaringType?, houter, Option.bind_some, Option.map_eq_some_iff]
  have hfound : ((graph.candidates entry.definition.fullName).find?
      (·.definition.scope == inner.scope)).or
        (graph.candidates entry.definition.fullName).head? ≠ none := by
    rw [Ne, Option.or_eq_none_iff, List.head?_eq_none_iff]
    rintro ⟨-, hnil⟩
    rw [hnil] at hcandidate
    exact absurd hcandidate List.not_mem_nil
  obtain ⟨other, hother⟩ := Option.ne_none_iff_exists'.1 hfound
  refine ⟨other, hother, hsame other ?_⟩
  rcases Option.or_eq_some_iff.1 hother with hfind | ⟨-, hhead⟩
  · exact List.mem_of_find?_eq_some hfind
  · exact List.mem_of_head? hhead

/-- The simple names of the assemblies differ, and not just in case. -/
def AssembliesApart (graph : Graph) : Prop :=
  graph.assemblies.Pairwise fun left right => Text.equalIgnoringCase left.name right.name = false

/-- Where the names of assemblies are apart, a name determines the assembly. -/
theorem AssembliesApart.assembly_eq (h : graph.AssembliesApart) {left right : AssemblyDef}
    (hleft : left ∈ graph.assemblies) (hright : right ∈ graph.assemblies)
    (hname : Text.equalIgnoringCase left.name right.name = true) : left = right := by
  by_contra hne
  have hsymm : Std.Symm fun left right : AssemblyDef =>
      Text.equalIgnoringCase left.name right.name = false := by
    constructor
    intro left right hapart
    rw [← Bool.not_eq_true] at hapart ⊢
    exact fun hback => hapart (Text.equalIgnoringCase_symm hback)
  rw [List.Pairwise.forall h hleft hright hne] at hname
  exact absurd hname Bool.false_ne_true

/-- A type that counts as one of an assembly is one. -/
theorem AssembliesApart.mem_allTypes_of_sameAssembly (h : graph.AssembliesApart)
    (hgraph : graph.WellFormed) {assembly : AssemblyDef} (hassembly : assembly ∈ graph.assemblies)
    (hdefinition : definition ∈ assembly.allTypes) {other : TypeDef} (hother : graph.Indexes other)
    (hsame : other.sameAssembly definition = true) : other ∈ assembly.allTypes := by
  obtain ⟨holder, hholder, hmem⟩ := hgraph.indexes_iff.1 hother
  rw [TypeDef.sameAssembly, (hgraph.assemblies holder hholder).scope_assembly hmem,
    (hgraph.assemblies assembly hassembly).scope_assembly hdefinition] at hsame
  rwa [← h.assembly_eq hholder hassembly hsame]

/-- No type is defined in two assemblies. -/
theorem AssembliesApart.assembly_eq_of_typeId_eq (h : graph.AssembliesApart)
    (hgraph : graph.WellFormed) (honce : graph.DefinesOnce) {left right : AssemblyDef}
    (hleft : left ∈ graph.assemblies) (hright : right ∈ graph.assemblies)
    (hdefinition : definition ∈ left.allTypes) {other : TypeDef} (hother : other ∈ right.allTypes)
    (hid : definition.typeId = other.typeId) : left = right := by
  have hsame : definition = other := honce.eq_of_typeId_eq
    (hgraph.indexes_iff.2 ⟨left, hleft, hdefinition⟩)
    (hgraph.indexes_iff.2 ⟨right, hright, hother⟩) hid
  subst hsame
  refine h.assembly_eq hleft hright ?_
  rw [← (hgraph.assemblies left hleft).scope_assembly hdefinition,
    (hgraph.assemblies right hright).scope_assembly hother]
  exact Text.equalIgnoringCase_refl _

/-- The simple names of the assemblies differ, and so do the names of the modules within
each. -/
structure NamesDiffer (graph : Graph) : Prop where
  assemblies : (graph.assemblies.map (·.name)).Nodup
  modules : ∀ assembly ∈ graph.assemblies, (assembly.modules.map (·.name)).Nodup

/-- A type is found in the module it belongs to. -/
theorem NamesDiffer.moduleOf?_eq (h : graph.NamesDiffer) (hloaded : graph.Loaded)
    {assembly : AssemblyDef} (hassembly : assembly ∈ graph.assemblies) {part : ModuleDef}
    (hpart : part ∈ assembly.modules)
    (hscope : definition.scope = { assembly := assembly.name, module := part.name }) :
    graph.moduleOf? definition = some part := by
  have hmem : ((assembly.name, part.name), part) ∈ graph.modules := by
    rw [hloaded.modules_eq, List.mem_reverse, List.mem_flatMap]
    exact ⟨assembly, hassembly, List.mem_map.2 ⟨part, hpart, rfl⟩⟩
  have honly : ∀ other, ((assembly.name, part.name), other) ∈ graph.modules → other = part := by
    intro other hother
    rw [hloaded.modules_eq, List.mem_reverse, List.mem_flatMap] at hother
    obtain ⟨holder, hholder, hother⟩ := hother
    obtain ⟨found, hfound, heq⟩ := List.mem_map.1 hother
    simp only [Prod.mk.injEq] at heq
    obtain ⟨⟨hname, hmodule⟩, rfl⟩ := heq
    obtain rfl : holder = assembly :=
      List.inj_on_of_nodup_map h.assemblies hholder hassembly hname
    exact List.inj_on_of_nodup_map (h.modules holder hassembly) hfound hpart hmodule
  rw [moduleOf?, hscope]
  cases hlookup : graph.modules.lookup (assembly.name, part.name) with
  | none =>
    have hkey := List.lookup_eq_none_iff.1 hlookup _ hmem
    simp at hkey
  | some other =>
    obtain ⟨before, after, heq, -⟩ := List.lookup_eq_some_iff.1 hlookup
    rw [honly other (heq ▸ List.mem_append_right _ List.mem_cons_self)]

/-- The simple names of the assemblies differ, and not just in case, and so do the
names of the modules within each. -/
structure NamesApart (graph : Graph) : Prop where
  assemblies : graph.assemblies.Pairwise fun left right =>
    Text.equalIgnoringCase left.name right.name = false
  modules : ∀ assembly ∈ graph.assemblies, (assembly.modules.map (·.name)).Nodup

theorem NamesApart.assembliesApart (h : graph.NamesApart) : graph.AssembliesApart :=
  h.assemblies

/-- Names that are apart differ. -/
theorem NamesApart.namesDiffer (h : graph.NamesApart) : graph.NamesDiffer where
  assemblies := by
    rw [List.Nodup, List.pairwise_map]
    refine h.assemblies.imp fun {left right} hapart heq => ?_
    rw [heq, Text.equalIgnoringCase_refl] at hapart
    exact Bool.noConfusion hapart
  modules := h.modules

end Graph

namespace Program

variable {program : Program} {definition inner : TypeDef}

/-- What is nested in an ignored type is ignored. -/
theorem ignoresDefinition_nested (honce : program.graph.DefinesOnce)
    (hindexed : program.graph.Indexes definition) (hencloses : definition.Encloses)
    (h : program.ignoresDefinition definition = true) (hinner : inner ∈ definition.nested) :
    program.ignoresDefinition inner = true := by
  have houter := honce.declaringType?_eq hindexed (hencloses inner hinner).1
  rw [ignoresDefinition_eq, houter, Option.any_some, h, Bool.or_true]

/-- Every type of an ignored module is ignored. -/
theorem ignoresDefinition_of_module {part : ModuleDef}
    (h : program.graph.moduleOf? definition = some part) (hignored : part.isIgnored = true) :
    program.ignoresDefinition definition = true := by
  rw [ignoresDefinition_eq, Bool.or_eq_true, ignoresItself, moduleOf?, h]
  left
  simp only [Option.map_some, Option.any_some, ModuleModel.of, hignored, Bool.or_true]

end Program

end Assemblage
