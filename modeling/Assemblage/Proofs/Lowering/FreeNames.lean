import Assemblage.Proofs.Lowering.Passes
import Assemblage.Proofs.Text.Decimal
import Mathlib.Data.List.Nodup
import Mathlib.Data.List.Perm.Subperm

/-!
# Free names

The candidates for a name are pairwise different, so among more of them than
there are names to avoid one is free.  A free name is the first candidate for
itself, and naming the variables of a tree a second time gives every variable
the name it has.
-/

namespace Assemblage.Lowering.VariableNames

theorem candidate_succ_ne (base : String) (n : Nat) : candidate base (n + 1) ≠ base := by
  intro h
  have hempty : toString (n + 2) = "" := (String.append_right_inj base).1 (h.trans (by simp))
  exact Text.toString_ne_empty _ hempty

/-- No candidate for a name comes twice. -/
theorem candidate_injective (base : String) : Function.Injective (candidate base) := by
  intro left right h
  cases left with
  | zero =>
    cases right with
    | zero => rfl
    | succ right => exact absurd h.symm (candidate_succ_ne base right)
  | succ left =>
    cases right with
    | zero => exact absurd h (candidate_succ_ne base left)
    | succ right =>
      have hnumber : left + 2 = right + 2 :=
        Text.toString_injective ((String.append_right_inj base).1 h)
      omega

theorem candidate_ne_empty {base : String} (hbase : base ≠ "") (n : Nat) :
    candidate base n ≠ "" := by
  cases n with
  | zero => exact hbase
  | succ n => exact fun h => hbase (String.append_eq_empty_iff.1 h).1

/-- Names that are not free are given already or reserved. -/
theorem mem_of_isFree_eq_false {taken : List String} {name : String}
    (h : isFree taken name = false) : name ∈ taken ++ Script.reservedWords := by
  simpa [isFree, Script.isReserved, Decidable.imp_iff_not_or, or_comm] using h

/-- More candidates are tried than there are names to avoid. -/
theorem exists_isFree_candidate (taken : List String) (base : String) :
    ∃ n < taken.length + Script.reservedWords.length + 1,
      isFree taken (candidate base n) = true := by
  by_contra hnone
  push Not at hnone
  have hdistinct : ((List.range (taken.length + Script.reservedWords.length + 1)).map
      (candidate base)).Nodup :=
    List.nodup_range.map (candidate_injective base)
  have havoided : (List.range (taken.length + Script.reservedWords.length + 1)).map
      (candidate base) ⊆ taken ++ Script.reservedWords := by
    intro name hname
    obtain ⟨n, hn, rfl⟩ := List.mem_map.1 hname
    exact mem_of_isFree_eq_false (by simpa using hnone n (List.mem_range.1 hn))
  have hlength := (List.subperm_of_subset hdistinct havoided).length_le
  simp only [List.length_map, List.length_range, List.length_append] at hlength
  omega

/-- The name chosen is the first candidate that is free. -/
theorem exists_freeName_eq (taken : List String) (base : String) :
    ∃ n, freeName taken base = candidate base n ∧ isFree taken (candidate base n) = true := by
  obtain ⟨n, hn, hfree⟩ := exists_isFree_candidate taken base
  cases hfind : ((List.range (taken.length + Script.reservedWords.length + 1)).map
      (candidate base)).find? (isFree taken) with
  | none =>
    have hnot := List.find?_eq_none.1 hfind _ (List.mem_map_of_mem (List.mem_range.2 hn))
    exact absurd hfree hnot
  | some name =>
    obtain ⟨m, -, rfl⟩ := List.mem_map.1 (List.mem_of_find?_eq_some hfind)
    refine ⟨m, ?_, List.find?_some hfind⟩
    rw [freeName, hfind, Option.getD_some]

/-- The name that is found is free. -/
theorem isFree_freeName (taken : List String) (base : String) :
    isFree taken (freeName taken base) = true := by
  obtain ⟨n, hname, hfree⟩ := exists_freeName_eq taken base
  rw [hname]
  exact hfree

theorem freeName_ne_empty {base : String} (hbase : base ≠ "") (taken : List String) :
    freeName taken base ≠ "" := by
  obtain ⟨n, hname, -⟩ := exists_freeName_eq taken base
  rw [hname]
  exact candidate_ne_empty hbase n

/-- A free name is kept. -/
theorem freeName_of_isFree {taken : List String} {base : String} (h : isFree taken base = true) :
    freeName taken base = base := by
  have hfirst : ((List.range (taken.length + Script.reservedWords.length + 1)).map
      (candidate base)).find? (isFree taken) = some base := by
    rw [List.range_succ_eq_map, List.map_cons]
    exact List.find?_cons_of_pos h
  rw [freeName, hfirst, Option.getD_some]

/-- The name a variable is given is the name it would be given once it has it. -/
theorem freeName_baseName (taken : List String) (entry : Variable) :
    freeName taken (baseName { entry with name := freeName taken (baseName entry) }) =
      freeName taken (baseName entry) := by
  by_cases hrecomputed : entry.isGenerated = true ∨ freeName taken (baseName entry) = ""
  · have hbase : baseName entry = ofType entry.type := by
      by_contra hnamed
      have hentry : ¬(entry.isGenerated = true ∨ entry.name = "") := fun h =>
        hnamed (if_pos (by simpa using h))
      have hname : baseName entry = entry.name := if_neg (by simpa using hentry)
      have hne := freeName_ne_empty (fun h => hentry (.inr (hname ▸ h))) taken
      exact hrecomputed.elim (fun h => hentry (.inl h)) hne
    have hagain : baseName { entry with name := freeName taken (baseName entry) } =
        ofType entry.type :=
      if_pos (by simpa using hrecomputed)
    rw [hagain, hbase]
  · have hagain : baseName { entry with name := freeName taken (baseName entry) } =
        freeName taken (baseName entry) :=
      if_neg (by simpa using hrecomputed)
    rw [hagain]
    exact freeName_of_isFree (isFree_freeName taken (baseName entry))

theorem assign_parameter {entry : Variable} (h : entry.isParameter = true)
    (taken : List String) (rest : List Variable) :
    (assign taken (entry :: rest)).1 = entry :: (assign taken rest).1 := by
  rw [assign, if_pos h]

/-- A local gets a free name made from its own, which is taken from then on. -/
theorem assign_local {entry : Variable} (h : entry.isParameter = false)
    (taken : List String) (rest : List Variable) :
    (assign taken (entry :: rest)).1 =
      { entry with name := freeName taken (baseName entry) } ::
        (assign (freeName taken (baseName entry) :: taken) rest).1 := by
  rw [assign, if_neg (by simp [h])]

/-- Names that were assigned are assigned again. -/
theorem assign_assign (taken : List String) (entries : List Variable) :
    (assign taken (assign taken entries).1).1 = (assign taken entries).1 := by
  induction entries generalizing taken with
  | nil => rfl
  | cons entry rest ih =>
    cases hparameter : entry.isParameter with
    | true =>
      rw [assign_parameter hparameter, assign_parameter hparameter, ih]
    | false =>
      rw [assign_local hparameter,
        @assign_local { entry with name := freeName taken (baseName entry) } hparameter,
        freeName_baseName, ih]

theorem filter_assign (taken : List String) (entries : List Variable) :
    (assign taken entries).1.filter Variable.isParameter =
      entries.filter Variable.isParameter := by
  induction entries generalizing taken with
  | nil => rfl
  | cons entry rest ih =>
    cases hparameter : entry.isParameter with
    | true =>
      rw [assign_parameter hparameter, List.filter_cons_of_pos hparameter,
        List.filter_cons_of_pos hparameter, ih]
    | false =>
      rw [assign_local hparameter,
        List.filter_cons_of_neg (by simp [hparameter]),
        List.filter_cons_of_neg (by simp [hparameter]), ih]

/-- Naming a tree whose variables are those of a named tree changes nothing. -/
theorem run_eq_self {tree named : MethodTree} (h : named.table = (run tree).1.table) :
    (run named).1 = named := by
  have hparameters : parameterNames named.table = parameterNames tree.table := by
    rw [h]
    exact congrArg (List.map Variable.name) (filter_assign _ _)
  have hentries : (assign (parameterNames named.table) named.table.all).1 = named.table.all := by
    rw [hparameters, h]
    exact assign_assign _ _
  calc
    (run named).1 = { named with table := ⟨(assign (parameterNames named.table)
        named.table.all).1⟩ } := rfl
    _ = named := by rw [hentries]

end Assemblage.Lowering.VariableNames
