import Assemblage.Model.Program
import Assemblage.Proofs.Graph.Ancestry

/-!
# Proxies of derived types

An inheritable proxy applies to a type if it names the type or anything that the
type descends from.  References are followed through bases and interfaces, names
through bases alone, so that a base lost to the graph counts by its name; either
way what applies to a base applies to the types derived from it.
-/

namespace Assemblage

namespace Proxy

variable {graph : Graph} {proxy : Proxy} {definition base : TypeDef}

/-- A proxy for a base by type matches what derives from it, if it is inheritable. -/
theorem matchesType_of_mem_baseTypes (honce : graph.DefinesOnce) (hnamed : graph.ParentsNamed)
    (hindexed : graph.Indexes definition) (hbase : base ∈ graph.baseTypes definition)
    (hinherits : proxy.inheritable = true) {named : Signature}
    (h : proxy.matchesType graph base named = true) :
    proxy.matchesType graph definition named = true := by
  rw [matchesType, if_pos hinherits] at h ⊢
  exact Graph.isAssignableTo_of_mem_baseTypes honce hnamed hindexed hbase h

/-- An inheritable proxy matches by name the types that have the name or an ancestor of
that name. -/
theorem matchesName_iff (hinherits : proxy.inheritable = true) :
    proxy.matchesName graph definition = true ↔
      ∃ name ∈ proxy.names, name = definition.fullName ∨ name ∈ graph.ancestorNames definition := by
  simp only [matchesName, hinherits, Bool.true_and, Bool.or_eq_true, Bool.and_eq_true,
    List.any_eq_true, List.contains_iff_mem, Bool.not_eq_true', List.isEmpty_eq_false_iff]
  constructor
  · rintro (hself | ⟨-, name, hancestor, hname⟩)
    · exact ⟨_, hself, .inl rfl⟩
    · exact ⟨name, hname, .inr hancestor⟩
  · rintro ⟨name, hname, rfl | hancestor⟩
    · exact .inl hname
    · exact .inr ⟨List.ne_nil_of_mem hname, name, hancestor, hname⟩

/-- A proxy for a base by name matches what derives from it, if it is inheritable. -/
theorem matchesName_of_mem_baseTypes (honce : graph.DefinesOnce)
    (hindexed : graph.Indexes definition) (hbase : base ∈ graph.baseTypes definition)
    (hinherits : proxy.inheritable = true) (h : proxy.matchesName graph base = true) :
    proxy.matchesName graph definition = true := by
  rw [matchesName_iff hinherits] at h ⊢
  obtain ⟨name, hname, hknown⟩ := h
  exact ⟨name, hname, Graph.mem_ancestorNames_of_mem_baseTypes honce hindexed hbase hknown⟩

/-- What applies to a base applies to the types derived from it. -/
theorem applies_of_mem_baseTypes (honce : graph.DefinesOnce) (hnamed : graph.ParentsNamed)
    (hindexed : graph.Indexes definition) (hbase : base ∈ graph.baseTypes definition)
    (hinherits : proxy.inheritable = true) (h : proxy.applies graph base = true) :
    proxy.applies graph definition = true := by
  rw [applies, Bool.or_eq_true, List.any_eq_true] at h ⊢
  rcases h with ⟨named, hmem, hmatches⟩ | hmatches
  · exact .inl ⟨named, hmem,
      matchesType_of_mem_baseTypes honce hnamed hindexed hbase hinherits hmatches⟩
  · exact .inr (matchesName_of_mem_baseTypes honce hindexed hbase hinherits hmatches)

/-- A proxy that is not inheritable applies to the very types that it names. -/
theorem applies_iff_of_not_inheritable (hinherits : proxy.inheritable = false) :
    proxy.applies graph definition = true ↔
      (∃ named ∈ proxy.types, named.typeId = definition.typeId) ∨
        definition.fullName ∈ proxy.names := by
  simp [applies, matchesType, matchesName, hinherits]

theorem isRegistered_iff {proxies : List Proxy} {fullName : String} :
    isRegistered proxies fullName = true ↔ fullName ∈ proxies.map Proxy.fullName := by
  simp [isRegistered]

/-- No full name is registered twice. -/
theorem nodup_register {proxies : List Proxy} (h : (proxies.map fullName).Nodup) :
    ((register proxies proxy).map fullName).Nodup := by
  rw [register]
  split
  · exact h
  · rename_i hnew
    rw [isRegistered_iff] at hnew
    rw [List.map_append, List.map_singleton, ← List.concat_eq_append]
    exact h.concat hnew

/-- Registering keeps the order of the proxies. -/
theorem register_sublist (proxies : List Proxy) (proxy : Proxy) :
    (register proxies proxy).Sublist (proxies ++ [proxy]) := by
  rw [register]
  split
  · exact List.sublist_append_left _ _
  · exact List.Sublist.refl _

/-- No two of the registered proxies have one name. -/
theorem nodup_registerAll {proxies : List Proxy} (attempts : List Proxy)
    (h : (proxies.map fullName).Nodup) :
    ((attempts.foldl register proxies).map fullName).Nodup := by
  induction attempts generalizing proxies with
  | nil => exact h
  | cons attempt rest ih => exact ih (nodup_register h)

/-- Registration keeps the order. -/
theorem registerAll_sublist (proxies attempts : List Proxy) :
    (attempts.foldl register proxies).Sublist (proxies ++ attempts) := by
  induction attempts generalizing proxies with
  | nil =>
    rw [List.append_nil]
    exact List.Sublist.refl _
  | cons attempt rest ih =>
    rw [List.append_cons]
    exact (ih (register proxies attempt)).trans
      ((register_sublist proxies attempt).append_right rest)

end Proxy

namespace Program

variable {program : Program}

/-- The types at the far end of a base chain hand their inheritable proxies on, the other
proxies keep to the types that they name, and each type has its proxies once, in the
order in which they were registered. -/
theorem proxiesFor_inherited {attempts : List Proxy}
    (hproxies : program.proxies = attempts.foldl Proxy.register [])
    (honce : program.graph.DefinesOnce) (hnamed : program.graph.ParentsNamed) :
    (∀ definition, program.graph.Indexes definition →
      ∀ base ∈ program.graph.baseTypes definition, ∀ proxy ∈ program.proxiesFor base,
        proxy.inheritable = true → proxy ∈ program.proxiesFor definition) ∧
    (∀ definition, ∀ proxy ∈ program.proxies, proxy.inheritable = false →
      (proxy ∈ program.proxiesFor definition ↔
        (∃ named ∈ proxy.types, named.typeId = definition.typeId) ∨
          definition.fullName ∈ proxy.names)) ∧
    ∀ definition, (program.proxiesFor definition).Sublist program.proxies ∧
      program.proxies.Sublist attempts ∧
      ((program.proxiesFor definition).map Proxy.fullName).Nodup := by
  have hsublist (definition : TypeDef) :
      (program.proxiesFor definition).Sublist program.proxies := List.filter_sublist
  refine ⟨?inherits, ?keeps, ?once⟩
  case inherits =>
    intro definition hindexed base hbase proxy hproxy hinherits
    obtain ⟨hregistered, happlies⟩ := List.mem_filter.1 hproxy
    exact List.mem_filter.2 ⟨hregistered,
      Proxy.applies_of_mem_baseTypes honce hnamed hindexed hbase hinherits happlies⟩
  case keeps =>
    intro definition proxy hregistered hinherits
    rw [proxiesFor, Proxy.applying, List.mem_filter, and_iff_right hregistered]
    exact Proxy.applies_iff_of_not_inheritable hinherits
  case once =>
    intro definition
    have hnodup : (program.proxies.map Proxy.fullName).Nodup := by
      rw [hproxies]
      exact Proxy.nodup_registerAll attempts List.nodup_nil
    have hattempts : program.proxies.Sublist attempts := by
      rw [hproxies]
      exact Proxy.registerAll_sublist [] attempts
    exact ⟨hsublist definition, hattempts, hnodup.sublist ((hsublist definition).map _)⟩

def roundClass (name base : String) (interfaces : List Signature) : TypeBlueprint :=
  { space := "App", name, interfaces, base := some (.reference { space := "App", path := base }) }

def shape : Signature :=
  .reference { space := "Drawing", path := "IShape" }

/-- Two classes that are each other's base.  One of them implements an interface that the
graph does not hold. -/
def roundAssembly : AssemblyBlueprint :=
  { identity := { name := "App" }
    mainTypes := [roundClass "Circle" "Ellipse" [], roundClass "Ellipse" "Circle" [shape]] }

/-- Patches whatever implements the interface. -/
def shapesProxy : Proxy :=
  { definition := ({ space := "Patches", name := "Shapes" } : TypeBlueprint).buildDetached
    types := [shape]
    names := []
    inheritable := true }

/-- Patches one of the classes, and what derives from it if it is inheritable. -/
def ellipsesProxy (name : String) (inheritable : Bool) : Proxy :=
  { definition := ({ space := "Patches", name } : TypeBlueprint).buildDetached
    types := []
    names := ["App.Ellipse"]
    inheritable }

def roundAttempts : List Proxy :=
  [shapesProxy, ellipsesProxy "Ellipses" true, shapesProxy, ellipsesProxy "Ellipse" false]

def roundProgram : Program :=
  { graph := Graph.ofAssemblies [roundAssembly.build]
    proxies := roundAttempts.foldl Proxy.register [] }

/-- Two classes that are each other's base inherit the proxies of each other, but not the one
that is not inheritable. -/
theorem proxiesFor_inherited_roundProgram :
    let scope : Scope := { assembly := "App", module := "App.dll" }
    let circle := (roundClass "Circle" "Ellipse" []).build scope none
    let ellipse := (roundClass "Ellipse" "Circle" [shape]).build scope none
    roundProgram.graph.DefinesOnce ∧ roundProgram.graph.ParentsNamed ∧
      circle ∈ roundProgram.graph.baseTypes ellipse ∧
      ellipse ∈ roundProgram.graph.baseTypes circle ∧
      (∀ proxy ∈ [shapesProxy, ellipsesProxy "Ellipses" true],
        proxy ∈ roundProgram.proxiesFor ellipse ∧ proxy ∈ roundProgram.proxiesFor circle) ∧
      ellipsesProxy "Ellipse" false ∈ roundProgram.proxiesFor ellipse ∧
      ellipsesProxy "Ellipse" false ∉ roundProgram.proxiesFor circle ∧
      (roundProgram.proxiesFor circle).Sublist roundAttempts := by
  intro scope circle ellipse
  have honce : roundProgram.graph.DefinesOnce := by
    change List.Nodup _
    decide +kernel
  have hnamed : roundProgram.graph.ParentsNamed := by
    rintro definition ⟨entry, hentry, rfl⟩
    revert entry
    change ∀ entry ∈ roundProgram.graph.index, ∀ parent ∈ entry.definition.parents, _
    decide +kernel
  have hindex : roundProgram.graph.index = [⟨"App", circle⟩, ⟨"App", ellipse⟩] := rfl
  have hproxies : roundProgram.proxies =
      [shapesProxy, ellipsesProxy "Ellipses" true, ellipsesProxy "Ellipse" false] := rfl
  have hcircle : roundProgram.graph.Indexes circle := ⟨_, hindex ▸ List.mem_cons_self, rfl⟩
  have hellipse : roundProgram.graph.Indexes ellipse :=
    ⟨_, hindex ▸ List.mem_cons_of_mem _ List.mem_cons_self, rfl⟩
  have hforth : ellipse ∈ roundProgram.graph.baseTypes circle :=
    Graph.mem_baseTypes_of_baseType? rfl (by decide)
  have hback : circle ∈ roundProgram.graph.baseTypes ellipse :=
    Graph.mem_baseTypes_of_baseType? rfl (by decide)
  obtain ⟨hinherits, hkeeps, hordered⟩ := proxiesFor_inherited rfl honce hnamed
  have hshapes : shapesProxy ∈ roundProgram.proxiesFor ellipse := by
    have hassignable : roundProgram.graph.isAssignableTo ellipse shape.typeId = true :=
      (Graph.isAssignableTo_iff honce hnamed hellipse).2
        (.parent (List.mem_cons_of_mem _ (List.mem_singleton_self shape)) rfl)
    refine List.mem_filter.2 ⟨hproxies ▸ List.mem_cons_self, ?_⟩
    exact Bool.or_eq_true_iff.2 (.inl (List.any_eq_true.2
      ⟨shape, List.mem_singleton_self _, hassignable⟩))
  have hellipses : ellipsesProxy "Ellipses" true ∈ roundProgram.proxiesFor ellipse :=
    List.mem_filter.2
      ⟨hproxies ▸ List.mem_cons_of_mem _ List.mem_cons_self, by decide +kernel⟩
  have hregistered : ellipsesProxy "Ellipse" false ∈ roundProgram.proxies :=
    hproxies ▸ List.mem_of_getElem? (i := 2) rfl
  refine ⟨honce, hnamed, hback, hforth, ?_, ?_, ?_,
    (hordered circle).1.trans (hordered circle).2.1⟩
  · rw [List.forall_mem_cons, List.forall_mem_singleton]
    exact ⟨⟨hshapes, hinherits circle hcircle ellipse hforth _ hshapes rfl⟩,
      hellipses, hinherits circle hcircle ellipse hforth _ hellipses rfl⟩
  · exact (hkeeps ellipse _ hregistered rfl).2 (.inr (by decide))
  · rw [hkeeps circle _ hregistered rfl]
    rintro (⟨named, hnone, -⟩ | hname)
    · cases hnone
    · exact absurd hname (by decide)

end Program

end Assemblage
