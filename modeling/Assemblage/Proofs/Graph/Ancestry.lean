import Assemblage.Proofs.Graph.Loaded

/-!
# Ancestors and parents

The walks over bases and interfaces keep what they have seen, so that they end on
cycles.  Where every type name is defined once this loses nothing: what a walk has
seen when it ends is closed under parents, so a type is assignable to whatever it
descends from, and its ancestors are all the bases that can be reached.
-/

namespace Assemblage

namespace Graph

variable {graph : Graph} {definition base : TypeDef} {target : TypeId}

/-- Where types are defined once, a full name determines the definition. -/
theorem DefinesOnce.eq_of_fullName_eq (h : graph.DefinesOnce) {left right : TypeDef}
    (hleft : graph.Indexes left) (hright : graph.Indexes right)
    (hname : left.fullName = right.fullName) : left = right :=
  h.eq_of_typeId_eq hleft hright (congrArg TypeId.ofFullName hname)

/-- What holds of a base and passes from each base to the type it is the base of
holds of the type at the start. -/
theorem baseTypesFrom_induction {motive : TypeDef → Prop} {seen : List TypeId}
    (hmem : base ∈ graph.baseTypesFrom seen definition) (hbase : motive base)
    (hstep : ∀ derived parent, graph.baseType? derived = some parent → motive parent →
      motive derived) : motive definition := by
  fun_induction baseTypesFrom graph seen definition with
  | case1 | case2 => cases hmem
  | case3 seen definition parent hparent hnew ih =>
    apply hstep definition parent hparent
    rcases List.mem_cons.1 hmem with rfl | hmem
    · exact hbase
    · exact ih hmem

theorem indexes_of_mem_baseTypesFrom {seen : List TypeId}
    (hmem : base ∈ graph.baseTypesFrom seen definition) : graph.Indexes base := by
  fun_induction baseTypesFrom graph seen definition with
  | case1 | case2 => cases hmem
  | case3 seen definition parent hparent hnew ih =>
    rcases List.mem_cons.1 hmem with rfl | hmem
    · exact indexes_of_baseType? hparent
    · exact ih hmem

theorem mem_baseTypes_of_baseType? (h : graph.baseType? definition = some base)
    (hother : base.typeId ≠ definition.typeId) : base ∈ graph.baseTypes definition := by
  rw [baseTypes]
  fun_cases baseTypesFrom graph [definition.typeId] definition with
  | case1 hnone => cases hnone.symm.trans h
  | case2 parent hparent hseen =>
    obtain rfl := Option.some.inj (hparent.symm.trans h)
    exact absurd (List.mem_singleton.1 (List.contains_iff_mem.1 hseen)) hother
  | case3 parent hparent hnew =>
    obtain rfl := Option.some.inj (hparent.symm.trans h)
    exact List.mem_cons_self

/-- Bases and interfaces are named types or instances of such. -/
def ParentsNamed (graph : Graph) : Prop :=
  ∀ definition, graph.Indexes definition → ∀ parent ∈ definition.parents,
    parent.definitionName?.isSome = true

/-- The type is the target or leads to it by way of bases and interfaces. -/
inductive Descends (graph : Graph) (target : TypeId) : TypeDef → Prop
  | self {definition : TypeDef} (h : definition.typeId = target) : Descends graph target definition
  | parent {definition : TypeDef} {reference : Signature} (hparent : reference ∈ definition.parents)
      (h : reference.typeId = target) : Descends graph target definition
  | step {definition next : TypeDef} {reference : Signature}
      (hparent : reference ∈ definition.parents) (hresolve : graph.resolve? reference = some next)
      (h : Descends graph target next) : Descends graph target definition

theorem Descends.of_base (h : graph.Descends target base)
    (hbase : graph.baseType? definition = some base) : graph.Descends target definition := by
  obtain ⟨reference, hreference, hresolve⟩ := Option.bind_eq_some_iff.1 hbase
  have hparent : reference ∈ definition.parents :=
    List.mem_append_left _ (Option.mem_toList.2 hreference)
  exact .step hparent hresolve h

/-- Whatever the set holds, it holds the parents of, unless it had been seen. -/
def ClosedBeyond (graph : Graph) (seen : List TypeId) (known : TypeId → Prop) : Prop :=
  ∀ definition, graph.Indexes definition → known definition.typeId →
    definition.typeId ∈ seen ∨ ∀ parent ∈ definition.parents, known parent.typeId

/-- A walk that does not come to the target leaves a closed set without it. -/
theorem exists_closed_of_reaches_eq_false (honce : graph.DefinesOnce) (hnamed : graph.ParentsNamed)
    {seen : List TypeId} {pending : List Signature}
    (hpending : ∀ reference ∈ pending, reference.definitionName?.isSome = true)
    (h : graph.reaches target seen pending = false) :
    ∃ known : TypeId → Prop, (∀ id ∈ seen, known id) ∧
      (∀ reference ∈ pending, known reference.typeId) ∧ graph.ClosedBeyond seen known ∧
      ∀ id, known id → id ∈ seen ∨ id ≠ target := by
  fun_induction reaches graph target seen pending with
  | case1 seen =>
    exact ⟨(· ∈ seen), fun _ hid => hid, fun _ hnone => absurd hnone List.not_mem_nil,
      fun _ _ hid => .inl hid, fun _ hid => .inl hid⟩
  | case2 => cases h
  | case3 seen reference rest hother hseen ih =>
    obtain ⟨-, hrest⟩ := List.forall_mem_cons.1 hpending
    obtain ⟨known, hold, hnew, hclosed, havoids⟩ := ih hrest h
    have hreference : known reference.typeId := hold _ (List.contains_iff_mem.1 hseen)
    exact ⟨known, hold, List.forall_mem_cons.2 ⟨hreference, hnew⟩, hclosed, havoids⟩
  | case4 seen reference rest hother hseen parent hresolve ih =>
    obtain ⟨-, hrest⟩ := List.forall_mem_cons.1 hpending
    have hindexed := exists_index_of_resolve? hresolve
    have hid := typeId_of_resolve? hresolve
    have hparents : ∀ next ∈ parent.parents.reverse ++ rest,
        next.definitionName?.isSome = true := by
      rw [List.forall_mem_append]
      exact ⟨fun next hnext => hnamed parent hindexed next (List.mem_reverse.1 hnext), hrest⟩
    obtain ⟨known, hold, hnew, hclosed, havoids⟩ := ih hparents h
    rw [List.forall_mem_cons] at hold
    rw [List.forall_mem_append] at hnew
    refine ⟨known, hold.2, List.forall_mem_cons.2 ⟨hold.1, hnew.2⟩, ?_, ?_⟩
    · intro definition hdefinition hknown
      rcases hclosed definition hdefinition hknown with hmem | hparents
      · rcases List.mem_cons.1 hmem with hsame | hmem
        · obtain rfl := honce.eq_of_typeId_eq hdefinition hindexed (hsame.trans hid.symm)
          exact .inr fun next hnext => hnew.1 next (List.mem_reverse.2 hnext)
        · exact .inl hmem
      · exact .inr hparents
    · intro id hknown
      rcases havoids id hknown with hmem | hne
      · rcases List.mem_cons.1 hmem with rfl | hmem
        · exact .inr hother
        · exact .inl hmem
      · exact .inr hne
  | case5 seen reference rest hother hseen hresolve ih =>
    obtain ⟨hreference, hrest⟩ := List.forall_mem_cons.1 hpending
    obtain ⟨name, hname⟩ := Option.isSome_iff_exists.1 hreference
    have hlacks := lacks_of_resolve?_eq_none hname hresolve
    obtain ⟨known, hold, hnew, hclosed, havoids⟩ := ih hrest h
    rw [List.forall_mem_cons] at hold
    refine ⟨known, hold.2, List.forall_mem_cons.2 ⟨hold.1, hnew⟩, ?_, ?_⟩
    · intro definition hdefinition hknown
      refine (hclosed definition hdefinition hknown).imp_left fun hmem => ?_
      exact (List.mem_cons.1 hmem).resolve_left (hlacks definition hdefinition)
    · intro id hknown
      rcases havoids id hknown with hmem | hne
      · rcases List.mem_cons.1 hmem with rfl | hmem
        · exact .inr hother
        · exact .inl hmem
      · exact .inr hne

/-- What the walk reaches is a reference on it, or something that one of these descends from. -/
theorem descends_of_reaches {seen : List TypeId} {pending : List Signature}
    (h : graph.reaches target seen pending = true) :
    ∃ reference ∈ pending, reference.typeId = target ∨
      ∃ next, graph.resolve? reference = some next ∧ graph.Descends target next := by
  fun_induction reaches graph target seen pending with
  | case1 => cases h
  | case2 seen reference rest htarget => exact ⟨reference, List.mem_cons_self, .inl htarget⟩
  | case3 seen reference rest hother hseen ih =>
    obtain ⟨found, hfound, hleads⟩ := ih h
    exact ⟨found, List.mem_cons_of_mem _ hfound, hleads⟩
  | case4 seen reference rest hother hseen parent hresolve ih =>
    obtain ⟨found, hfound, hleads⟩ := ih h
    rcases List.mem_append.1 hfound with hparent | hrest
    · rw [List.mem_reverse] at hparent
      refine ⟨reference, List.mem_cons_self, .inr ⟨parent, hresolve, ?_⟩⟩
      rcases hleads with htarget | ⟨next, hnext, hdescends⟩
      · exact .parent hparent htarget
      · exact .step hparent hnext hdescends
    · exact ⟨found, List.mem_cons_of_mem _ hrest, hleads⟩
  | case5 seen reference rest hother hseen hresolve ih =>
    obtain ⟨found, hfound, hleads⟩ := ih h
    exact ⟨found, List.mem_cons_of_mem _ hfound, hleads⟩

/-- A type is assignable to what it descends from and to nothing else. -/
theorem isAssignableTo_iff (honce : graph.DefinesOnce) (hnamed : graph.ParentsNamed)
    (hindexed : graph.Indexes definition) :
    graph.isAssignableTo definition target = true ↔ graph.Descends target definition := by
  constructor
  · intro h
    rw [isAssignableTo, Bool.or_eq_true, decide_eq_true_eq] at h
    rcases h with hself | hreaches
    · exact .self hself
    · obtain ⟨reference, hparent, hleads⟩ := descends_of_reaches hreaches
      rw [List.mem_reverse] at hparent
      rcases hleads with htarget | ⟨next, hnext, hdescends⟩
      · exact .parent hparent htarget
      · exact .step hparent hnext hdescends
  · intro hdescends
    by_contra hno
    rw [isAssignableTo, Bool.or_eq_true, not_or, decide_eq_true_eq, Bool.not_eq_true] at hno
    have hnames : ∀ parent ∈ definition.parents.reverse, parent.definitionName?.isSome = true :=
      fun parent hparent => hnamed definition hindexed parent (List.mem_reverse.1 hparent)
    obtain ⟨known, hseen, hpending, hclosed, havoids⟩ :=
      exists_closed_of_reaches_eq_false honce hnamed hnames hno.2
    have hparents : ∀ other, graph.Indexes other → known other.typeId →
        ∀ parent ∈ other.parents, known parent.typeId := by
      intro other hother hknown
      rcases hclosed other hother hknown with hself | hparents
      · obtain rfl := honce.eq_of_typeId_eq hother hindexed (List.mem_singleton.1 hself)
        exact fun parent hparent => hpending parent (List.mem_reverse.2 hparent)
      · exact hparents
    have htarget : ∀ other, graph.Descends target other → graph.Indexes other →
        known other.typeId → known target := by
      intro other hother
      induction hother with
      | self h => exact fun _ hknown => h ▸ hknown
      | parent hparent h => exact fun hother hknown => h ▸ hparents _ hother hknown _ hparent
      | step hparent hresolve _ ih =>
        intro hother hknown
        refine ih (exists_index_of_resolve? hresolve) ?_
        rw [typeId_of_resolve? hresolve]
        exact hparents _ hother hknown _ hparent
    have hknown := htarget definition hdescends hindexed (hseen _ (List.mem_singleton_self _))
    rcases havoids target hknown with hmem | hne
    · exact hno.1 (List.mem_singleton.1 hmem).symm
    · exact hne rfl

/-- A type is assignable to all that its bases are assignable to. -/
theorem isAssignableTo_of_mem_baseTypes (honce : graph.DefinesOnce) (hnamed : graph.ParentsNamed)
    (hindexed : graph.Indexes definition) (hbase : base ∈ graph.baseTypes definition)
    (h : graph.isAssignableTo base target = true) :
    graph.isAssignableTo definition target = true := by
  rw [isAssignableTo_iff honce hnamed (indexes_of_mem_baseTypesFrom hbase)] at h
  rw [isAssignableTo_iff honce hnamed hindexed]
  exact baseTypesFrom_induction hbase h fun derived parent hparent hdescends =>
    hdescends.of_base hparent

/-! ## Ancestors by name -/

/-- The name is that of the base of the type, or of an ancestor of its base. -/
inductive HasAncestor (graph : Graph) (name : String) : TypeDef → Prop
  | base {definition : TypeDef} {baseName : TypeName}
      (hbase : definition.base.bind Signature.definitionName? = some baseName)
      (h : baseName.fullName = name) : HasAncestor graph name definition
  | step {definition next : TypeDef} (hbase : graph.baseType? definition = some next)
      (h : HasAncestor graph name next) : HasAncestor graph name definition

variable {name : String}

/-- The names that are walked are those of ancestors. -/
theorem hasAncestor_of_mem_ancestorNamesFrom {seen : List String} {reference : Option Signature}
    (h : name ∈ graph.ancestorNamesFrom seen reference) (hbase : definition.base = reference) :
    graph.HasAncestor name definition := by
  fun_induction ancestorNamesFrom graph seen reference generalizing definition with
  | case1 | case2 | case3 => cases h
  | case4 seen reference baseName hname hnew ih =>
    rcases List.mem_cons.1 h with rfl | h
    · exact .base (by rw [hbase, Option.bind_some, hname]) rfl
    split at h
    · rename_i parent hresolve
      refine .step ?_ (ih parent hresolve h rfl)
      rw [baseType?, hbase]
      exact hresolve
    · cases h

/-- The names of a walk are closed under bases: that of the reference at the start is
known, and with each type that of its base. -/
theorem ancestorNamesFrom_closed (honce : graph.DefinesOnce) (seen : List String)
    (reference : Option Signature) :
    (∀ first, reference.bind Signature.definitionName? = some first →
      first.fullName ∈ seen ∨ first.fullName ∈ graph.ancestorNamesFrom seen reference) ∧
    ∀ definition, graph.Indexes definition →
      definition.fullName ∈ graph.ancestorNamesFrom seen reference →
      ∀ next, definition.base.bind Signature.definitionName? = some next →
        next.fullName ∈ seen ∨ next.fullName ∈ graph.ancestorNamesFrom seen reference := by
  fun_induction ancestorNamesFrom graph seen reference with
  | case1 => exact ⟨fun _ h => (by cases h), fun _ _ h => (by cases h)⟩
  | case2 seen reference hname =>
    refine ⟨fun first h => ?_, fun _ _ h => (by cases h)⟩
    rw [Option.bind_some, hname] at h
    cases h
  | case3 seen reference baseName hname hseen =>
    refine ⟨fun first h => ?_, fun _ _ h => (by cases h)⟩
    rw [Option.bind_some, hname, Option.some.injEq] at h
    exact .inl (h ▸ List.contains_iff_mem.1 hseen)
  | case4 seen reference baseName hname hnew ih =>
    constructor
    · intro first h
      rw [Option.bind_some, hname, Option.some.injEq] at h
      exact .inr (h ▸ List.mem_cons_self)
    intro definition hdefinition hmem next hnext
    split at hmem
    · rename_i parent hresolve
      obtain ⟨name, entry, hname', hentry, rfl, hfull⟩ := exists_entry_of_resolve? hresolve
      obtain rfl := Option.some.inj (hname.symm.trans hname')
      obtain ⟨hfirst, hrest⟩ := ih _ hresolve
      have hknown : next.fullName ∈ baseName.fullName :: seen ∨
          next.fullName ∈ graph.ancestorNamesFrom (baseName.fullName :: seen)
            entry.definition.base := by
        rcases List.mem_cons.1 hmem with hself | hmem
        · obtain rfl := honce.eq_of_fullName_eq hdefinition ⟨entry, hentry, rfl⟩
            (hself.trans hfull.symm)
          exact hfirst next hnext
        · exact hrest definition hdefinition hmem next hnext
      rcases hknown with hseen | hlater
      · rcases List.mem_cons.1 hseen with hself | hseen
        · exact .inr (hself ▸ List.mem_cons_self)
        · exact .inl hseen
      · exact .inr (List.mem_cons_of_mem _ hlater)
    · rename_i hresolve
      obtain ⟨entry, hentry, rfl⟩ := hdefinition
      exact absurd (List.mem_singleton.1 hmem)
        ((resolve?_eq_none_iff hname).1 hresolve entry hentry)

/-- The type's own name and those of its ancestors are all that can be reached by bases. -/
theorem mem_ancestorNames_of_hasAncestor (honce : graph.DefinesOnce)
    (hindexed : graph.Indexes definition) (h : graph.HasAncestor name definition) :
    name = definition.fullName ∨ name ∈ graph.ancestorNames definition := by
  have hclosed : ∀ other, graph.Indexes other →
      other.fullName = definition.fullName ∨ other.fullName ∈ graph.ancestorNames definition →
      ∀ next, other.base.bind Signature.definitionName? = some next →
        next.fullName = definition.fullName ∨
          next.fullName ∈ graph.ancestorNames definition := by
    intro other hother hknown next hnext
    obtain ⟨hfirst, hrest⟩ := ancestorNamesFrom_closed honce [definition.fullName] definition.base
    simp only [List.mem_singleton] at hfirst hrest
    rcases hknown with hself | hlater
    · obtain rfl := honce.eq_of_fullName_eq hother hindexed hself
      exact hfirst next hnext
    · exact hrest other hother hlater next hnext
  have hall : ∀ other, graph.HasAncestor name other → graph.Indexes other →
      other.fullName = definition.fullName ∨ other.fullName ∈ graph.ancestorNames definition →
        name = definition.fullName ∨ name ∈ graph.ancestorNames definition := by
    intro other hother
    induction hother with
    | base hbase h => exact fun hother hknown => h ▸ hclosed _ hother hknown _ hbase
    | @step other next hbase _ ih =>
      intro hother hknown
      refine ih (indexes_of_baseType? hbase) ?_
      obtain ⟨reference, hreference, hresolve⟩ := Option.bind_eq_some_iff.1 hbase
      obtain ⟨nextName, -, hname, -, -, hfull⟩ := exists_entry_of_resolve? hresolve
      rw [hfull]
      exact hclosed other hother hknown nextName (by rw [hreference, Option.bind_some, hname])
  exact hall definition h hindexed (.inl rfl)

theorem hasAncestor_of_baseType? (h : graph.baseType? definition = some base) :
    graph.HasAncestor base.fullName definition := by
  obtain ⟨reference, hreference, hresolve⟩ := Option.bind_eq_some_iff.1 h
  obtain ⟨baseName, -, hname, -, -, hfull⟩ := exists_entry_of_resolve? hresolve
  exact .base (by rw [hreference, Option.bind_some, hname]) hfull.symm

theorem hasAncestor_of_mem_baseTypesFrom {seen : List TypeId}
    (h : base ∈ graph.baseTypesFrom seen definition) :
    graph.HasAncestor base.fullName definition := by
  fun_induction baseTypesFrom graph seen definition with
  | case1 | case2 => cases h
  | case3 seen definition parent hparent hnew ih =>
    rcases List.mem_cons.1 h with rfl | h
    · exact hasAncestor_of_baseType? hparent
    · exact .step hparent (ih h)

/-- Whatever is known by name of a base is known of the types derived from it. -/
theorem mem_ancestorNames_of_mem_baseTypes (honce : graph.DefinesOnce)
    (hindexed : graph.Indexes definition) (hbase : base ∈ graph.baseTypes definition)
    (h : name = base.fullName ∨ name ∈ graph.ancestorNames base) :
    name = definition.fullName ∨ name ∈ graph.ancestorNames definition := by
  apply mem_ancestorNames_of_hasAncestor honce hindexed
  rcases h with rfl | h
  · exact hasAncestor_of_mem_baseTypesFrom hbase
  · exact baseTypesFrom_induction hbase (hasAncestor_of_mem_ancestorNamesFrom h rfl)
      fun derived parent hparent hancestor => .step hparent hancestor

end Graph

end Assemblage
