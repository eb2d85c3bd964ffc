import Assemblage.Proofs.Lowering.Idempotence
import Assemblage.Proofs.Lowering.LocalNames

/-!
# Names as they are written

A variable without a name is written by its position.  Locals always have names
when they are written, but a parameter may have none, and the search for the name
of a local does not avoid the positions.  So a local is told apart from every
other variable exactly if it has not been given the position of a parameter
without a name.
-/

namespace Assemblage

/-- Two variables of the table, of which one is no parameter, are written differently. -/
def VariableTable.WritesApart (table : VariableTable) : Prop :=
  ∀ left right : VariableId, left.index < table.size → right.index < table.size → left ≠ right →
    (table.isParameter left = false ∨ table.isParameter right = false) →
    table.nameOf left ≠ table.nameOf right

/-- Two parameters of the table are written differently. -/
def VariableTable.WritesParametersApart (table : VariableTable) : Prop :=
  ∀ left ∈ table.parameters, ∀ right ∈ table.parameters, left ≠ right →
    table.nameOf left ≠ table.nameOf right

/-- The variable is a parameter without a name. -/
def VariableTable.IsUnnamedParameter (table : VariableTable) (id : VariableId) : Prop :=
  ∃ entry, table.get? id = some entry ∧ entry.isParameter = true ∧ entry.name = ""

namespace VariableTable

variable {table : VariableTable} {id : VariableId} {entry : Variable}

theorem exists_entry (h : id.index < table.size) : ∃ entry, table.get? id = some entry :=
  ⟨table.all[id.index], List.getElem?_eq_getElem h⟩

theorem isParameter_eq (h : table.get? id = some entry) :
    table.isParameter id = entry.isParameter := by
  rw [isParameter, h, Option.any_some]

theorem nameOf_of_named (h : table.get? id = some entry) (hname : entry.name ≠ "") :
    table.nameOf id = entry.name := by
  rw [nameOf, h]
  exact if_neg (by simpa using hname)

theorem nameOf_of_unnamed (h : table.get? id = some entry) (hname : entry.name = "") :
    table.nameOf id = id.text := by
  rw [nameOf, h]
  exact if_pos (by simp [hname])

end VariableTable

namespace Lowering

namespace VariableNames

section Tables

variable {table : VariableTable} {left right : VariableId} {entry other : Variable}

theorem mem_locals (hentry : table.get? left = some entry) (hlocal : entry.isParameter = false) :
    entry ∈ locals table.all :=
  mem_locals_iff.2 ⟨List.mem_of_getElem? hentry, hlocal⟩

/-- A local is shown by its name. -/
theorem NamesLocals.nameOf_eq (h : NamesLocals table) (hentry : table.get? left = some entry)
    (hlocal : entry.isParameter = false) : table.nameOf left = entry.name :=
  VariableTable.nameOf_of_named hentry (h.named entry (mem_locals hentry hlocal))

/-- Two locals have different names. -/
theorem NamesLocals.name_ne (h : NamesLocals table) (hleft : table.get? left = some entry)
    (hright : table.get? right = some other) (hne : left ≠ right)
    (hlocal : entry.isParameter = false) (hother : other.isParameter = false) :
    entry.name ≠ other.name := by
  have hpairs : table.all.Pairwise fun first second =>
      first.isParameter = false → second.isParameter = false → first.name ≠ second.name := by
    have hdistinct := h.distinct
    rw [List.Nodup, List.pairwise_map, locals, List.pairwise_filter] at hdistinct
    exact hdistinct.imp fun hpair hfirst hsecond => hpair (by simp [hfirst]) (by simp [hsecond])
  obtain ⟨hleftBound, rfl⟩ := List.getElem?_eq_some_iff.1 hleft
  obtain ⟨hrightBound, rfl⟩ := List.getElem?_eq_some_iff.1 hright
  obtain ⟨left⟩ := left
  obtain ⟨right⟩ := right
  rcases Nat.lt_trichotomy left right with hless | rfl | hless
  · exact List.pairwise_iff_getElem.1 hpairs left right hleftBound hrightBound hless hlocal hother
  · exact absurd rfl hne
  · exact (List.pairwise_iff_getElem.1 hpairs right left hrightBound hleftBound hless hother
      hlocal).symm

/-- A local and a parameter are written differently, unless the parameter is written by
its position. -/
theorem NamesLocals.nameOf_ne (h : NamesLocals table)
    (hpositions : ∀ id, table.IsUnnamedParameter id →
      id.text ∉ (locals table.all).map Variable.name)
    (hleft : table.get? left = some entry) (hright : table.get? right = some other)
    (hne : left ≠ right) (hlocal : entry.isParameter = false) :
    table.nameOf left ≠ table.nameOf right := by
  rw [h.nameOf_eq hleft hlocal]
  have hgiven : entry.name ∈ (locals table.all).map Variable.name :=
    List.mem_map_of_mem (mem_locals hleft hlocal)
  cases hother : other.isParameter with
  | false =>
    rw [h.nameOf_eq hright hother]
    exact h.name_ne hleft hright hne hlocal hother
  | true =>
    intro hsame
    by_cases hname : other.name = ""
    · rw [VariableTable.nameOf_of_unnamed hright hname] at hsame
      rw [hsame] at hgiven
      exact hpositions right ⟨other, hright, hother, hname⟩ hgiven
    · rw [VariableTable.nameOf_of_named hright hname] at hsame
      refine h.apart entry (mem_locals hleft hlocal) (hsame ▸ List.mem_map_of_mem ?_)
      exact List.mem_filter.2 ⟨List.mem_of_getElem? hright, hother⟩

/-- Where locals are named, all that can collide are unnamed parameters shown by their ids. -/
theorem NamesLocals.writesApart_iff_positions (h : NamesLocals table) :
    table.WritesApart ↔
      ∀ id, table.IsUnnamedParameter id → id.text ∉ (locals table.all).map Variable.name := by
  constructor
  · rintro hapart id ⟨entry, hentry, hparameter, hname⟩ hgiven
    obtain ⟨other, hother, htext⟩ := List.mem_map.1 hgiven
    obtain ⟨hmem, hlocal⟩ := mem_locals_iff.1 hother
    obtain ⟨index, hindex⟩ := List.mem_iff_getElem?.1 hmem
    have hfound : table.get? ⟨index⟩ = some other := hindex
    refine hapart id ⟨index⟩ (List.getElem?_eq_some_iff.1 hentry).1
      (List.getElem?_eq_some_iff.1 hindex).1 ?_ (.inr ?_) ?_
    · rintro rfl
      rw [hfound, Option.some.injEq] at hentry
      rw [hentry, hparameter] at hlocal
      cases hlocal
    · rw [VariableTable.isParameter_eq hfound, hlocal]
    · rw [VariableTable.nameOf_of_unnamed hentry hname, h.nameOf_eq hfound hlocal, htext]
  · intro hpositions left right hleft hright hne hlocal
    obtain ⟨entry, hentry⟩ := VariableTable.exists_entry hleft
    obtain ⟨other, hother⟩ := VariableTable.exists_entry hright
    rw [VariableTable.isParameter_eq hentry, VariableTable.isParameter_eq hother] at hlocal
    rcases hlocal with hlocal | hlocal
    · exact h.nameOf_ne hpositions hentry hother hne hlocal
    · exact (h.nameOf_ne hpositions hother hentry hne.symm hlocal).symm

end Tables

theorem IsFirstFree.base_prefix {taken : List String} {base name : String}
    (h : IsFirstFree taken base name) : base.toList <+: name.toList := by
  obtain ⟨n, rfl, -⟩ := h
  cases n with
  | zero => exact List.prefix_rfl
  | succ n =>
    rw [candidate, String.toList_append]
    exact List.prefix_append _ _

variable {tree : MethodTree}

/-- A variable of the result is one of the tree, renamed. -/
theorem exists_renamed {index : Nat} {named : Variable}
    (h : (run tree).1.table.all[index]? = some named) :
    ∃ entry, tree.table.all[index]? = some entry ∧ Renames entry named := by
  obtain ⟨hlength, hrenames⟩ :=
    List.forall₂_iff_get.1 (sameButLocalNames_run tree).entries
  obtain ⟨hbound, rfl⟩ := List.getElem?_eq_some_iff.1 h
  exact ⟨_, List.getElem?_eq_getElem (hlength ▸ hbound), hrenames index (hlength ▸ hbound) hbound⟩

theorem Renames.isParameter_eq {entry named : Variable} (h : Renames entry named) :
    named.isParameter = entry.isParameter := by
  rw [h.1]

/-- Naming gives no name to a parameter. -/
theorem isUnnamedParameter_of_run {id : VariableId}
    (h : (run tree).1.table.IsUnnamedParameter id) : tree.table.IsUnnamedParameter id := by
  obtain ⟨named, hnamed, hparameter, hname⟩ := h
  obtain ⟨entry, hentry, hrenames⟩ := exists_renamed hnamed
  rw [hrenames.isParameter_eq] at hparameter
  rw [hrenames.2 hparameter] at hname
  exact ⟨entry, hentry, hparameter, hname⟩

/-- What a local is called begins with the base of its name. -/
theorem exists_base_prefix {name : String}
    (h : name ∈ (locals (run tree).1.table.all).map Variable.name) :
    ∃ entry ∈ locals tree.table.all, (baseName entry).toList <+: name.toList := by
  obtain ⟨named, hnamed, rfl⟩ := List.mem_map.1 h
  obtain ⟨hmem, hlocal⟩ := mem_locals_iff.1 hnamed
  obtain ⟨index, hindex⟩ := List.mem_iff_getElem?.1 hmem
  obtain ⟨entry, hentry, hrenames⟩ := exists_renamed hindex
  rw [hrenames.isParameter_eq] at hlocal
  obtain ⟨given, hgiven, hfirst⟩ := exists_named (parameterNames tree.table) hentry hlocal
  obtain rfl : named = given := Option.some.inj (hindex.symm.trans hgiven)
  exact ⟨entry, mem_locals_iff.2 ⟨List.mem_of_getElem? hentry, hlocal⟩, hfirst.base_prefix⟩

end VariableNames

namespace Pipeline

open VariableNames

variable {pipeline : Pipeline} {name : String} {context : MethodContext} {tree : MethodTree}
  {function : Function}

/-- The pipeline returns the variables as they were named. -/
theorem table_of_run (h : pipeline.run name context tree = .ok function) :
    function.table = (VariableNames.run tree).1.table := by
  rw [run, lower_eq] at h
  cases hcheck : IgnoredTypes.check context tree with
  | error error =>
    rw [hcheck] at h
    cases h
  | ok checked =>
    rw [hcheck] at h
    cases h
    change (pipeline.shorten (pipeline.boundTree context tree)).table = _
    rw [table_shorten, boundTree, table_declaredTree]

/-- In a function of the pipeline every local is told apart from every other variable
exactly if no local has been given the position of a parameter without a name.  None is,
if no such position begins with what a local is named after. -/
theorem writesApart_iff (hrun : pipeline.run name context tree = .ok function) :
    (function.table.WritesApart ↔ ∀ id, function.table.IsUnnamedParameter id →
      id.text ∉ (locals function.table.all).map Variable.name) ∧
    ((∀ id, tree.table.IsUnnamedParameter id → ∀ entry ∈ locals tree.table.all,
        ¬(baseName entry).toList <+: id.text.toList) →
      function.table.WritesApart) := by
  rw [table_of_run hrun]
  refine ⟨(namesLocals_run tree).writesApart_iff_positions, fun hbases => ?_⟩
  refine (namesLocals_run tree).writesApart_iff_positions.2 fun id hid hgiven => ?_
  obtain ⟨entry, hentry, hprefix⟩ := exists_base_prefix hgiven
  exact hbases id (isUnnamedParameter_of_run hid) entry hentry hprefix

/-- `total = p; return total;` where the parameter `p` has no name. -/
def totalTree : MethodTree where
  table := ⟨[{ name := "", type := .primitive .int32, isParameter := true },
    { name := "total", type := .primitive .int32 }]⟩
  parameters := [⟨0⟩]
  body := [.expr (.assign none (.raw ⟨1⟩) (.raw ⟨0⟩)), .ret (some (.raw ⟨1⟩))]

def totalFunction : Function where
  name := "sum"
  parameters := ["v0"]
  table := totalTree.table
  body := [.declare ⟨1⟩ (some (.bound ⟨0⟩)), .ret (some (.bound ⟨1⟩))]

theorem run_totalTree :
    ({} : Pipeline).run "sum" ⟨"sum", Graph.oracle {}⟩ totalTree = .ok totalFunction := by
  with_unfolding_all rfl

/-- An unnamed parameter does not collide with a local that has another name. -/
theorem writesApart_iff_totalTree :
    ({} : Pipeline).run "sum" ⟨"sum", Graph.oracle {}⟩ totalTree = .ok totalFunction ∧
      totalTree.table.IsUnnamedParameter ⟨0⟩ ∧ totalFunction.table.WritesApart := by
  refine ⟨run_totalTree, ⟨_, rfl, rfl, rfl⟩, (writesApart_iff run_totalTree).2 ?_⟩
  rintro ⟨index⟩ ⟨entry, hentry, hparameter, -⟩ given hlocal
  obtain rfl : given = { name := "total", type := .primitive .int32 } := by
    simpa [totalTree, locals] using hlocal
  cases index with
  | zero => decide +kernel
  | succ index =>
    -- The second variable is no parameter, and there is no third one.
    have hmem := List.mem_of_getElem? (l := totalTree.table.all.tail) hentry
    obtain rfl := List.mem_singleton.1 hmem
    cases hparameter

/-- `v0 = p + 1; return v0;` where the parameter `p` has no name. -/
def capturingTree : MethodTree where
  table := ⟨[{ name := "", type := .primitive .int32, isParameter := true },
    { name := "v0", type := .primitive .int32 }]⟩
  parameters := [⟨0⟩]
  body := [.expr (.assign none (.raw ⟨1⟩) (.binary .add (.raw ⟨0⟩) (.literal (.int 1)))),
    .ret (some (.raw ⟨1⟩))]

def capturingFunction : Function where
  name := "next"
  parameters := ["v0"]
  table := capturingTree.table
  body := [.declare ⟨1⟩ (some (.binary .add (.bound ⟨0⟩) (.literal (.int 1)))),
    .ret (some (.bound ⟨1⟩))]

theorem run_capturingTree :
    ({} : Pipeline).run "next" ⟨"next", Graph.oracle {}⟩ capturingTree = .ok capturingFunction := by
  with_unfolding_all rfl

/-- The only parameter is written `v0`, which is what the local is called. -/
theorem not_writesApart_capturingTree :
    ¬∀ (pipeline : Pipeline) (name : String) (context : MethodContext) (tree : MethodTree)
      (function : Function), pipeline.run name context tree = .ok function →
        tree.table.WritesParametersApart → function.table.WritesApart := by
  intro h
  have honly : ∀ id ∈ capturingTree.table.parameters, id = ⟨0⟩ := by decide
  have hparameters : capturingTree.table.WritesParametersApart := fun left hleft right hright hne =>
    absurd ((honly left hleft).trans (honly right hright).symm) hne
  have hapart := h _ _ _ _ _ run_capturingTree hparameters
  exact hapart ⟨0⟩ ⟨1⟩ (by decide) (by decide) (by decide) (.inr rfl) (by decide +kernel)

end Pipeline

end Lowering

end Assemblage
