import Assemblage.Proofs.Graph.Ancestry

/-!
# Base chains

Each type has at most one base, so the bases of a type form a chain, which comes to
an end or back to itself.  Two walks follow it: one takes definitions and stops at an
identifier that it knows, the other takes names and stops at a name that it knows.
They keep in step, and all that the names have beyond the definitions is the name of a
base that the graph does not hold.
-/

namespace Assemblage

namespace TypeDef

theorem typeId_eq_iff {left right : TypeDef} :
    left.typeId = right.typeId ↔ left.fullName = right.fullName :=
  ⟨congrArg TypeId.fullName, congrArg TypeId.ofFullName⟩

theorem typeId_mem_map_iff {definition : TypeDef} {names : List String} :
    definition.typeId ∈ names.map TypeId.ofFullName ↔ definition.fullName ∈ names := by
  constructor
  · intro h
    obtain ⟨name, hname, heq⟩ := List.mem_map.1 h
    have hfull : name = definition.fullName := congrArg TypeId.fullName heq
    exact hfull ▸ hname
  · exact List.mem_map_of_mem

end TypeDef

namespace Graph

variable {graph : Graph} {definition base : TypeDef}

/-- The name of the base of a type, where the graph does not hold that base. -/
def lostBase? (graph : Graph) (definition : TypeDef) : Option TypeName :=
  definition.base.bind fun reference =>
    if (graph.resolve? reference).isNone then reference.definitionName? else none

/-- A base is lost if it is a name that the graph does not resolve. -/
theorem lostBase?_eq_some_iff {name : TypeName} :
    graph.lostBase? definition = some name ↔
      ∃ reference, definition.base = some reference ∧ graph.resolve? reference = none ∧
        reference.definitionName? = some name := by
  simp only [lostBase?, Option.bind_eq_some_iff, Option.isNone_iff_eq_none,
    Option.ite_none_right_eq_some]

theorem lostBase?_of_baseType? (h : graph.baseType? definition = some base) :
    graph.lostBase? definition = none := by
  obtain ⟨reference, hreference, hresolve⟩ := Option.bind_eq_some_iff.1 h
  rw [lostBase?, hreference, Option.bind_some, hresolve]
  rfl

/-- Where the graph holds the base, the walk by names takes its full name. -/
theorem ancestorNamesFrom_of_baseType? {names : List String}
    (h : graph.baseType? definition = some base) :
    graph.ancestorNamesFrom names definition.base =
      if base.fullName ∈ names then []
      else base.fullName :: graph.ancestorNamesFrom (base.fullName :: names) base.base := by
  obtain ⟨reference, hreference, hresolve⟩ := Option.bind_eq_some_iff.1 h
  obtain ⟨name, -, hname, -, -, hfull⟩ := exists_entry_of_resolve? hresolve
  rw [hreference, hfull, ancestorNamesFrom]
  split
  · rename_i hnone
    rw [hname] at hnone
    cases hnone
  · rename_i found hfound
    obtain rfl := Option.some.inj (hname.symm.trans hfound)
    simp only [List.contains_iff_mem, dite_eq_ite]
    congr 2
    split
    · rename_i parent hparent
      rw [Option.some.inj (hparent.symm.trans hresolve)]
    · rename_i hnone
      rw [hresolve] at hnone
      cases hnone

/-- Where it does not, the walk by names ends, with the name of the base if that is new. -/
theorem ancestorNamesFrom_of_baseType?_eq_none {names : List String}
    (h : graph.baseType? definition = none)
    (hnew : ∀ name, graph.lostBase? definition = some name → name.fullName ∉ names) :
    graph.ancestorNamesFrom names definition.base =
      (graph.lostBase? definition).toList.map TypeName.fullName := by
  rw [baseType?] at h
  rw [lostBase?] at hnew ⊢
  cases hbase : definition.base with
  | none => rw [ancestorNamesFrom]; rfl
  | some reference =>
    rw [hbase, Option.bind_some] at h hnew
    rw [Option.bind_some]
    rw [h, Option.isNone_none, if_pos rfl] at hnew ⊢
    rw [ancestorNamesFrom]
    split
    · rename_i hnone
      rw [hnone]
      rfl
    · rename_i name hname
      have hunseen : ¬names.contains name.fullName = true :=
        fun hseen => hnew name hname (List.contains_iff_mem.1 hseen)
      rw [dif_neg hunseen, hname, Option.toList_some, List.map_singleton]
      congr 1
      split
      · rename_i parent hparent
        rw [h] at hparent
        cases hparent
      · rfl

/-! ## The walks -/

/-- The walk by names takes the full names of the bases that the walk by definitions
takes, and then the name of the base of the last one, if the graph does not hold it. -/
theorem ancestorNamesFrom_eq {names : List String}
    (hnames : ∀ name ∈ names, ∃ known, graph.Indexes known ∧ known.fullName = name) :
    graph.ancestorNamesFrom names definition.base =
      (graph.baseTypesFrom (names.map TypeId.ofFullName) definition).map (·.fullName) ++
        (graph.lostBase? ((graph.baseTypesFrom (names.map TypeId.ofFullName)
          definition).getLastD definition)).toList.map TypeName.fullName := by
  generalize hseen : names.map TypeId.ofFullName = seen
  fun_induction baseTypesFrom graph seen definition generalizing names with
  | case1 seen definition hnone =>
    apply ancestorNamesFrom_of_baseType?_eq_none hnone
    intro name hlost hmem
    obtain ⟨reference, -, hresolve, hname⟩ := lostBase?_eq_some_iff.1 hlost
    obtain ⟨known, ⟨entry, hentry, rfl⟩, hknown⟩ := hnames _ hmem
    exact (resolve?_eq_none_iff hname).1 hresolve entry hentry hknown
  | case2 seen definition base hbase hknown =>
    rw [← hseen, List.contains_iff_mem, TypeDef.typeId_mem_map_iff] at hknown
    rw [ancestorNamesFrom_of_baseType? hbase, if_pos hknown, List.getLastD_nil,
      lostBase?_of_baseType? hbase]
    rfl
  | case3 seen definition base hbase hnew ih =>
    rw [← hseen, List.contains_iff_mem, TypeDef.typeId_mem_map_iff] at hnew
    have hgrown : ∀ name ∈ base.fullName :: names,
        ∃ known, graph.Indexes known ∧ known.fullName = name :=
      List.forall_mem_cons.2 ⟨⟨base, indexes_of_baseType? hbase, rfl⟩, hnames⟩
    rw [ancestorNamesFrom_of_baseType? hbase, if_neg hnew, ih hgrown (by rw [← hseen]; rfl),
      List.getLastD_cons, List.map_cons, List.cons_append]

/-- No name is walked twice. -/
theorem nodup_ancestorNamesFrom (graph : Graph) (seen : List String)
    (reference : Option Signature) :
    (graph.ancestorNamesFrom seen reference).Nodup ∧
      ∀ name ∈ graph.ancestorNamesFrom seen reference, name ∉ seen := by
  fun_induction ancestorNamesFrom graph seen reference with
  | case1 | case2 | case3 => exact ⟨List.nodup_nil, fun _ hnone => absurd hnone List.not_mem_nil⟩
  | case4 seen reference name hname hnew ih =>
    rw [List.contains_iff_mem] at hnew
    rw [List.nodup_cons, List.forall_mem_cons]
    split
    · rename_i parent hparent
      obtain ⟨hnodup, hunseen⟩ := ih parent hparent
      have hother : ∀ later ∈ graph.ancestorNamesFrom (name.fullName :: seen) parent.base,
          later ≠ name.fullName ∧ later ∉ seen :=
        fun later hlater => not_or.1 fun hold => hunseen later hlater (List.mem_cons.2 hold)
      exact ⟨⟨fun hmem => (hother _ hmem).1 rfl, hnodup⟩, hnew, fun later hlater =>
        (hother later hlater).2⟩
    · exact ⟨⟨List.not_mem_nil, List.nodup_nil⟩, hnew, fun _ hnone => absurd hnone List.not_mem_nil⟩

/-- Each type is the base of the one before it, and the last has no base in the graph or
one whose name has come up. -/
structure IsBaseChain (graph : Graph) (definition : TypeDef) (bases : List TypeDef) : Prop where
  follows : (definition :: bases).IsChain fun derived base => graph.baseType? derived = some base
  ends : ∀ next, graph.baseType? (bases.getLastD definition) = some next →
    next.fullName = definition.fullName ∨ next.fullName ∈ bases.map (·.fullName)

/-- The bases that are walked are a chain, which ends where no base is left or one comes again.
-/
theorem isBaseChain_baseTypesFrom (seen : List TypeId) (definition : TypeDef) :
    (definition :: graph.baseTypesFrom seen definition).IsChain
        (fun derived base => graph.baseType? derived = some base) ∧
      ∀ next, graph.baseType? ((graph.baseTypesFrom seen definition).getLastD definition) =
        some next → next.typeId ∈ seen ∨
          next.fullName ∈ (graph.baseTypesFrom seen definition).map (·.fullName) := by
  fun_induction baseTypesFrom graph seen definition with
  | case1 seen definition hnone =>
    refine ⟨.singleton _, fun next hnext => ?_⟩
    rw [List.getLastD_nil, hnone] at hnext
    cases hnext
  | case2 seen definition base hbase hseen =>
    refine ⟨.singleton _, fun next hnext => ?_⟩
    rw [List.getLastD_nil, hbase, Option.some.injEq] at hnext
    exact .inl (hnext ▸ List.contains_iff_mem.1 hseen)
  | case3 seen definition base hbase hnew ih =>
    obtain ⟨hchain, hends⟩ := ih
    refine ⟨List.isChain_cons_cons.2 ⟨hbase, hchain⟩, fun next hnext => ?_⟩
    rw [List.getLastD_cons] at hnext
    rcases hends next hnext with hknown | hlater
    · rcases List.mem_cons.1 hknown with hself | hknown
      · rw [TypeDef.typeId_eq_iff] at hself
        exact .inr (hself ▸ List.mem_cons_self)
      · exact .inl hknown
    · exact .inr (List.mem_cons_of_mem _ hlater)

theorem isBaseChain_baseTypes (graph : Graph) (definition : TypeDef) :
    graph.IsBaseChain definition (graph.baseTypes definition) := by
  obtain ⟨hfollows, hends⟩ := graph.isBaseChain_baseTypesFrom [definition.typeId] definition
  refine ⟨hfollows, fun next hnext => (hends next hnext).imp_left fun hself => ?_⟩
  exact TypeDef.typeId_eq_iff.1 (List.mem_singleton.1 hself)

/-- A chain of new types that is as long as can be is the one that the walk takes. -/
theorem baseTypesFrom_eq {seen : List TypeId} {bases : List TypeDef}
    (hfollows : (definition :: bases).IsChain
      fun derived base => graph.baseType? derived = some base)
    (hends : ∀ next, graph.baseType? (bases.getLastD definition) = some next →
      next.typeId ∈ seen ∨ next.typeId ∈ bases.map (·.typeId))
    (hnodup : (bases.map (·.typeId)).Nodup) (hnew : ∀ base ∈ bases, base.typeId ∉ seen) :
    graph.baseTypesFrom seen definition = bases := by
  induction bases generalizing seen definition with
  | nil =>
    rw [baseTypesFrom]
    split
    · rfl
    · rename_i base hbase
      have hseen : base.typeId ∈ seen := (hends base hbase).resolve_right List.not_mem_nil
      exact dif_pos (List.contains_iff_mem.2 hseen)
  | cons base rest ih =>
    obtain ⟨hbase, hrest⟩ := List.isChain_cons_cons.1 hfollows
    obtain ⟨hself, hnodup⟩ := List.nodup_cons.1 hnodup
    obtain ⟨hunseen, hnew⟩ := List.forall_mem_cons.1 hnew
    have hlater : graph.baseTypesFrom (base.typeId :: seen) base = rest := by
      apply ih hrest _ hnodup
      · intro other hother hknown
        rcases List.mem_cons.1 hknown with hsame | hknown
        · exact hself (List.mem_map.2 ⟨other, hother, hsame⟩)
        · exact hnew other hother hknown
      · intro next hnext
        rw [List.getLastD_cons] at hends
        rcases hends next hnext with hknown | hmem
        · exact .inl (List.mem_cons_of_mem _ hknown)
        · rcases List.mem_cons.1 hmem with hsame | hmem
          · exact .inl (hsame ▸ List.mem_cons_self)
          · exact .inr hmem
    rw [baseTypesFrom]
    split
    · rename_i hnone
      rw [hbase] at hnone
      cases hnone
    · rename_i found hfound
      obtain rfl := Option.some.inj (hbase.symm.trans hfound)
      rw [dif_neg fun hseen => hunseen (List.contains_iff_mem.1 hseen), hlater]

/-- A chain of bases without repetition is the one that is walked. -/
theorem IsBaseChain.eq_baseTypes {bases : List TypeDef} (h : graph.IsBaseChain definition bases)
    (hnodup : (definition.fullName :: bases.map (·.fullName)).Nodup) :
    bases = graph.baseTypes definition := by
  have hids : bases.map (·.typeId) = (bases.map (·.fullName)).map TypeId.ofFullName := by
    rw [List.map_map]
    rfl
  obtain ⟨hself, hnodup⟩ := List.nodup_cons.1 hnodup
  refine (baseTypesFrom_eq h.follows ?_ ?_ ?_).symm
  · intro next hnext
    rw [hids, TypeDef.typeId_mem_map_iff, List.mem_singleton, TypeDef.typeId_eq_iff]
    exact h.ends next hnext
  · rw [hids]
    exact hnodup.map fun _ _ hsame => congrArg TypeId.fullName hsame
  · intro base hbase hsame
    rw [List.mem_singleton, TypeDef.typeId_eq_iff] at hsame
    exact hself (hsame ▸ List.mem_map_of_mem hbase)

/-- The bases and the ancestors of a type of the graph are free of repetitions and of the
type itself, and the ancestors are the names of the bases, followed by one more name only
if the base of the last one cannot be resolved. -/
theorem ancestorNames_eq_baseTypes (hindexed : graph.Indexes definition) :
    let bases := graph.baseTypes definition
    graph.ancestorNames definition =
        bases.map (·.fullName) ++
          (graph.lostBase? (bases.getLastD definition)).toList.map TypeName.fullName ∧
      (∀ name, graph.lostBase? (bases.getLastD definition) = some name ↔
        ∃ reference, (bases.getLastD definition).base = some reference ∧
          graph.resolve? reference = none ∧ reference.definitionName? = some name) ∧
      (definition.fullName :: graph.ancestorNames definition).Nodup ∧
      (definition.fullName :: bases.map (·.fullName)).Nodup ∧
      graph.IsBaseChain definition bases ∧
      ∀ others, graph.IsBaseChain definition others →
        (definition.fullName :: others.map (·.fullName)).Nodup → others = bases := by
  intro bases
  have hagree : graph.ancestorNames definition = bases.map (·.fullName) ++
      (graph.lostBase? (bases.getLastD definition)).toList.map TypeName.fullName :=
    ancestorNamesFrom_eq (List.forall_mem_singleton.2 ⟨definition, hindexed, rfl⟩)
  have hnames : (definition.fullName :: graph.ancestorNames definition).Nodup := by
    obtain ⟨hnodup, hother⟩ :=
      graph.nodup_ancestorNamesFrom [definition.fullName] definition.base
    exact List.nodup_cons.2 ⟨fun hself => hother _ hself (List.mem_singleton_self _), hnodup⟩
  have hsublist : (definition.fullName :: bases.map (·.fullName)).Sublist
      (definition.fullName :: graph.ancestorNames definition) := by
    rw [hagree]
    exact (List.sublist_append_left _ _).cons_cons _
  exact ⟨hagree, fun name => lostBase?_eq_some_iff, hnames, hnames.sublist hsublist,
    graph.isBaseChain_baseTypes definition, fun others hchain => hchain.eq_baseTypes⟩

def derivedClass (name : String) (base : Signature) : TypeBlueprint :=
  { space := "App", name, base := some base }

/-- A generic class that is defined in two assemblies. -/
def boxClass (base : Signature) : TypeBlueprint :=
  { space := "Lib", name := "Box\x601", generics := ["T"], base := some base }

def boxOf (scope : String) : Signature :=
  .generic (.reference { scope := some scope, space := "Lib", path := "Box\x601" })
    [.primitive .int32]

def frameReference : Signature :=
  .reference { space := "App", path := "Frame" }

def lostReference : Signature :=
  .reference { scope := some "Gone", space := "Gone", path := "Widget" }

def boxAssembly (name : String) (base : Signature) : AssemblyBlueprint :=
  { identity := { name }, mainTypes := [boxClass base] }

def frameAssembly : AssemblyBlueprint :=
  { identity := { name := "App" }
    mainTypes := [derivedClass "Door" frameReference, derivedClass "Frame" (boxOf "West"),
      derivedClass "Panel" (boxOf "East")] }

/-- The box of one assembly leads back to the frame, so that the door is at the end of a
lasso; the box of the other one leads out of the graph. -/
theorem ancestorNames_eq_baseTypes_frameAssembly :
    let graph := ofAssemblies [frameAssembly.build, (boxAssembly "West" frameReference).build,
      (boxAssembly "East" lostReference).build]
    let scope : Scope := { assembly := "App", module := "App.dll" }
    let door := (derivedClass "Door" frameReference).build scope none
    let frame := (derivedClass "Frame" (boxOf "West")).build scope none
    let panel := (derivedClass "Panel" (boxOf "East")).build scope none
    let west := (boxClass frameReference).build { assembly := "West", module := "West.dll" } none
    let east := (boxClass lostReference).build { assembly := "East", module := "East.dll" } none
    graph.Indexes door ∧ graph.Indexes panel ∧
      graph.baseTypes door = [frame, west] ∧
      graph.ancestorNames door = ["App.Frame", "Lib.Box\x601"] ∧
      graph.baseTypes panel = [east] ∧
      graph.ancestorNames panel = ["Lib.Box\x601", "Gone.Widget"] := by
  intro graph scope door frame panel west east
  have hdoor : graph.Indexes door := ⟨⟨"App", door⟩, List.mem_of_getElem? (i := 0) rfl, rfl⟩
  have hpanel : graph.Indexes panel := ⟨⟨"App", panel⟩, List.mem_of_getElem? (i := 2) rfl, rfl⟩
  obtain ⟨hround, -, -, -, -, honly⟩ := ancestorNames_eq_baseTypes hdoor
  obtain ⟨hloose, -, -, -, -, hsole⟩ := ancestorNames_eq_baseTypes hpanel
  have hlasso : [frame, west] = graph.baseTypes door := by
    have hback : graph.baseType? west = some frame := rfl
    apply honly
    · refine ⟨.cons_cons rfl (.cons_cons rfl (.singleton west)), fun next hnext => ?_⟩
      obtain rfl := Option.some.inj (hback.symm.trans hnext)
      exact .inr List.mem_cons_self
    · decide +kernel
  have hend : [east] = graph.baseTypes panel := by
    have hnone : graph.baseType? east = none := rfl
    apply hsole
    · refine ⟨.cons_cons rfl (.singleton east), fun next hnext => ?_⟩
      exact absurd (hnone.symm.trans hnext) (Option.some_ne_none next).symm
    · decide +kernel
  refine ⟨hdoor, hpanel, hlasso.symm, ?_, hend.symm, ?_⟩
  · rw [hround, ← hlasso]
    decide +kernel
  · rw [hloose, ← hend]
    decide +kernel

end Graph

end Assemblage
