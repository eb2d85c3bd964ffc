import Assemblage.Proofs.Lowering.FreeNames

/-!
# The names of locals

Every local is given the first candidate for its name that no parameter, no local
before it and no reserved word has; there always is one.  So no two locals share a
name, and none is called like a parameter.  Nothing but the names of locals has
changed, and naming once more changes nothing at all.
-/

namespace Assemblage.Lowering.VariableNames

/-- The variables that are no parameters. -/
def locals (entries : List Variable) : List Variable :=
  entries.filter fun entry => !entry.isParameter

theorem mem_locals_iff {entries : List Variable} {entry : Variable} :
    entry ∈ locals entries ↔ entry ∈ entries ∧ entry.isParameter = false := by
  simp [locals]

theorem locals_parameter {entry : Variable} (h : entry.isParameter = true) (rest : List Variable) :
    locals (entry :: rest) = locals rest :=
  List.filter_cons_of_neg (by simp [h])

theorem locals_local {entry : Variable} (h : entry.isParameter = false) (rest : List Variable) :
    locals (entry :: rest) = entry :: locals rest :=
  List.filter_cons_of_pos (by simp [h])

theorem isFree_eq_true_iff {taken : List String} {name : String} :
    isFree taken name = true ↔ name ∉ taken ∧ Script.isReserved name = false := by
  simp [isFree]

theorem isFree_congr {taken other : List String} (h : ∀ name, name ∈ taken ↔ name ∈ other)
    (name : String) : isFree taken name = isFree other name := by
  rw [Bool.eq_iff_iff, isFree_eq_true_iff, isFree_eq_true_iff, h]

/-- The name is a candidate for the base that is free, and no candidate before it is. -/
def IsFirstFree (taken : List String) (base name : String) : Prop :=
  ∃ n, name = candidate base n ∧ isFree taken name = true ∧
    ∀ m < n, isFree taken (candidate base m) = false

/-- The search finds the first free name. -/
theorem isFirstFree_freeName (taken : List String) (base : String) :
    IsFirstFree taken base (freeName taken base) := by
  obtain ⟨n, hn, hfree⟩ := exists_isFree_candidate taken base
  have hfound : ((List.range (taken.length + Script.reservedWords.length + 1)).find?
      (isFree taken ∘ candidate base)).isSome = true :=
    List.find?_isSome.2 ⟨n, List.mem_range.2 hn, hfree⟩
  obtain ⟨first, hfirst⟩ := Option.isSome_iff_exists.1 hfound
  have hname : freeName taken base = candidate base first := by
    rw [freeName, List.find?_map, hfirst]
    rfl
  obtain ⟨hisFree, -, hbefore⟩ := List.find?_range_eq_some.1 hfirst
  refine ⟨first, hname, isFree_freeName taken base, fun m hm => ?_⟩
  simpa using hbefore m hm

theorem IsFirstFree.congr {taken other : List String} {base name : String}
    (h : IsFirstFree taken base name) (hsame : ∀ name, name ∈ taken ↔ name ∈ other) :
    IsFirstFree other base name := by
  obtain ⟨n, hname, hfree, hbefore⟩ := h
  refine ⟨n, hname, ?_, fun m hm => ?_⟩
  · rw [← isFree_congr hsame, hfree]
  · rw [← isFree_congr hsame, hbefore m hm]

theorem lowerCase_ne_nil (c : Char) : Text.lowerCase c ≠ [] := by
  rw [Text.lowerCase]
  split
  · exact List.cons_ne_nil _ _
  · exact List.cons_ne_nil _ _

theorem ofPath_ne_empty (path : String) : ofPath path ≠ "" := by
  rw [ofPath]
  split
  · rename_i first rest hpath
    split
    · intro hempty
      have hnil := congrArg String.toList hempty
      rw [String.toList_ofList, String.toList_empty, List.append_eq_nil_iff] at hnil
      exact lowerCase_ne_nil first hnil.1
    · decide
  · decide

theorem ofPrimitive_ne_empty (primitive : Primitive) : ofPrimitive primitive ≠ "" := by
  cases primitive <;> decide

theorem ofType_ne_empty (type : Signature) : ofType type ≠ "" := by
  fun_induction ofType type with
  | case1 | case2 => decide
  | case3 inner ih | case4 inner ih => exact ih
  | case5 => exact ofPrimitive_ne_empty _
  | case6 => exact ofPath_ne_empty _
  | case7 => decide

theorem baseName_ne_empty (entry : Variable) : baseName entry ≠ "" := by
  rw [baseName]
  split
  · exact ofType_ne_empty entry.type
  · rename_i hnamed
    intro hempty
    exact hnamed (by simp [hempty])

variable {taken : List String} {entries : List Variable} {entry : Variable}

/-- A local is given the first name that is free at its turn. -/
theorem exists_named (taken : List String) {index : Nat} (hentry : entries[index]? = some entry)
    (hlocal : entry.isParameter = false) :
    ∃ named, (assign taken entries).1[index]? = some named ∧
      IsFirstFree (taken ++ (locals ((assign taken entries).1.take index)).map Variable.name)
        (baseName entry) named.name := by
  induction entries generalizing taken index with
  | nil => simp at hentry
  | cons first rest ih =>
    cases index with
    | zero =>
      obtain rfl : first = entry := by simpa using hentry
      rw [assign_local hlocal, List.take_zero]
      refine ⟨_, rfl, ?_⟩
      simpa [locals] using isFirstFree_freeName taken (baseName first)
    | succ index =>
      rw [List.getElem?_cons_succ] at hentry
      cases hfirst : first.isParameter with
      | true =>
        rw [assign_parameter hfirst, List.getElem?_cons_succ, List.take_succ_cons,
          locals_parameter hfirst]
        exact ih taken hentry
      | false =>
        obtain ⟨named, hnamed, hisFirst⟩ := ih (freeName taken (baseName first) :: taken) hentry
        rw [assign_local hfirst, List.getElem?_cons_succ, List.take_succ_cons,
          locals_local (by exact hfirst), List.map_cons]
        refine ⟨named, hnamed, hisFirst.congr fun name => ?_⟩
        simp only [List.mem_append, List.mem_cons]
        tauto

/-- A local is given a name that may be given and is not empty. -/
theorem isFree_of_mem_assign (h : entry ∈ (assign taken entries).1)
    (hlocal : entry.isParameter = false) : isFree taken entry.name = true ∧ entry.name ≠ "" := by
  induction entries generalizing taken with
  | nil => exact absurd h List.not_mem_nil
  | cons first rest ih =>
    cases hfirst : first.isParameter with
    | true =>
      rw [assign_parameter hfirst] at h
      obtain rfl | hrest := List.mem_cons.1 h
      · rw [hfirst] at hlocal
        cases hlocal
      · exact ih hrest
    | false =>
      rw [assign_local hfirst] at h
      obtain rfl | hrest := List.mem_cons.1 h
      · exact ⟨isFree_freeName _ _, freeName_ne_empty (baseName_ne_empty first) _⟩
      · obtain ⟨hfree, hne⟩ := ih hrest
        obtain ⟨hnew, hallowed⟩ := isFree_eq_true_iff.1 hfree
        exact ⟨isFree_eq_true_iff.2 ⟨fun hold => hnew (List.mem_cons_of_mem _ hold), hallowed⟩, hne⟩

/-- No two locals get the same name. -/
theorem nodup_names_assign (taken : List String) (entries : List Variable) :
    ((locals (assign taken entries).1).map Variable.name).Nodup := by
  induction entries generalizing taken with
  | nil => exact List.nodup_nil
  | cons first rest ih =>
    cases hfirst : first.isParameter with
    | true =>
      rw [assign_parameter hfirst, locals_parameter hfirst]
      exact ih taken
    | false =>
      rw [assign_local hfirst, locals_local (by exact hfirst), List.map_cons, List.nodup_cons]
      refine ⟨fun hmem => ?_, ih _⟩
      obtain ⟨other, hother, hname⟩ := List.mem_map.1 hmem
      obtain ⟨hother, hlocal⟩ := mem_locals_iff.1 hother
      have hnew := (isFree_eq_true_iff.1 (isFree_of_mem_assign hother hlocal).1).1
      rw [hname] at hnew
      exact hnew List.mem_cons_self

/-- The second variable is the first one, or, if that is no parameter, the first one
with another name. -/
def Renames (entry named : Variable) : Prop :=
  named = { entry with name := named.name } ∧ (entry.isParameter = true → named = entry)

/-- Names are all that changes, and only those of locals. -/
theorem renames_assign (taken : List String) (entries : List Variable) :
    List.Forall₂ Renames entries (assign taken entries).1 := by
  induction entries generalizing taken with
  | nil => exact .nil
  | cons first rest ih =>
    cases hfirst : first.isParameter with
    | true =>
      rw [assign_parameter hfirst]
      exact .cons ⟨rfl, fun _ => rfl⟩ (ih _)
    | false =>
      rw [assign_local hfirst]
      refine .cons ⟨rfl, fun hparameter => ?_⟩ (ih _)
      rw [hfirst] at hparameter
      cases hparameter

theorem assign_snd_eq_zero_iff :
    (assign taken entries).2 = 0 ↔ (assign taken entries).1 = entries := by
  induction entries generalizing taken with
  | nil => exact iff_of_true rfl rfl
  | cons first rest ih =>
    cases hfirst : first.isParameter with
    | true => simp [assign, hfirst, ih]
    | false =>
      have hname : first.name = freeName taken (baseName first) ↔
          { first with name := freeName taken (baseName first) } = first := by
        constructor
        · intro h
          rw [← h]
        · intro h
          exact (congrArg Variable.name h).symm
      rw [assign_local hfirst, List.cons.injEq, ← hname, ← ih]
      simp [assign, hfirst]

/-- A run counts nothing exactly if it changes nothing. -/
theorem run_snd_eq_zero_iff {tree : MethodTree} : (run tree).2 = 0 ↔ (run tree).1 = tree := by
  have htree : (run tree).1 = tree ↔
      (assign (parameterNames tree.table) tree.table.all).1 = tree.table.all := by
    constructor
    · intro h
      exact congrArg (fun tree => tree.table.all) h
    · intro h
      exact congrArg (fun all => { tree with table := { all } }) h
  rw [htree]
  exact assign_snd_eq_zero_iff

theorem run_run (tree : MethodTree) : run (run tree).1 = ((run tree).1, 0) := by
  have hsame : (run (run tree).1).1 = (run tree).1 := run_eq_self rfl
  exact Prod.ext hsame (run_snd_eq_zero_iff.2 hsame)

structure NamesLocals (table : VariableTable) : Prop where
  distinct : ((locals table.all).map Variable.name).Nodup
  named : ∀ entry ∈ locals table.all, entry.name ≠ ""
  allowed : ∀ entry ∈ locals table.all, Script.isReserved entry.name = false
  apart : ∀ entry ∈ locals table.all, entry.name ∉ parameterNames table

/-- The trees differ in the names of locals and in nothing else. -/
structure SameButLocalNames (tree named : MethodTree) : Prop where
  entries : List.Forall₂ Renames tree.table.all named.table.all
  parameters : named.parameters = tree.parameters
  body : named.body = tree.body

theorem parameterNames_run (tree : MethodTree) :
    parameterNames (run tree).1.table = parameterNames tree.table :=
  congrArg (List.map Variable.name) (filter_assign _ _)

theorem namesLocals_run (tree : MethodTree) : NamesLocals (run tree).1.table := by
  have hfree : ∀ entry ∈ locals (run tree).1.table.all,
      isFree (parameterNames tree.table) entry.name = true ∧ entry.name ≠ "" := by
    intro entry hentry
    obtain ⟨hmem, hlocal⟩ := mem_locals_iff.1 hentry
    exact isFree_of_mem_assign hmem hlocal
  constructor
  · exact nodup_names_assign _ _
  · exact fun entry hentry => (hfree entry hentry).2
  · exact fun entry hentry => (isFree_eq_true_iff.1 (hfree entry hentry).1).2
  · intro entry hentry
    rw [parameterNames_run]
    exact (isFree_eq_true_iff.1 (hfree entry hentry).1).1

/-- The tree is the same but for the names of locals. -/
theorem sameButLocalNames_run (tree : MethodTree) : SameButLocalNames tree (run tree).1 where
  entries := renames_assign _ _
  parameters := rfl
  body := rfl

/-- Every local is given the first candidate that no parameter, no earlier local and no
reserved word has, so that it has a name of its own; nothing else changes, and a second
run changes nothing. -/
theorem run_names_locals (tree : MethodTree) :
    (∀ index entry, tree.table.all[index]? = some entry → entry.isParameter = false →
      ∃ named, (run tree).1.table.all[index]? = some named ∧
        IsFirstFree (parameterNames tree.table ++
            (locals ((run tree).1.table.all.take index)).map Variable.name)
          (baseName entry) named.name) ∧
      NamesLocals (run tree).1.table ∧
      SameButLocalNames tree (run tree).1 ∧
      run (run tree).1 = ((run tree).1, 0) := by
  refine ⟨fun index entry hentry hlocal => ?_, namesLocals_run tree, sameButLocalNames_run tree,
    run_run tree⟩
  exact exists_named _ hentry hlocal

/-- Two locals called `x`, one called `x2` already, a parameter that has the name of
integers, a temporary and a local with a reserved name. -/
def crowdedTree : MethodTree where
  table := ⟨[{ name := "x", type := .primitive .int32 }, { name := "x", type := .primitive .int32 },
    { name := "x2", type := .primitive .int32 },
    { name := "num", type := .primitive .int32, isParameter := true },
    { name := "", type := .primitive .int32, isGenerated := true },
    { name := "class", type := .primitive .object }]⟩
  parameters := [⟨3⟩]

/-- Where names are taken, reserved or missing, the first free ones are found. -/
theorem run_names_locals_crowdedTree :
    (run crowdedTree).1.table.all.map Variable.name =
        ["x", "x2", "x22", "num", "num2", "class2"] ∧
      (∃ named, (run crowdedTree).1.table.all[2]? = some named ∧
        IsFirstFree ["num", "x", "x2"] "x2" named.name) ∧
      run (run crowdedTree).1 = ((run crowdedTree).1, 0) := by
  obtain ⟨hfirst, -, -, hagain⟩ := run_names_locals crowdedTree
  refine ⟨by decide +kernel, ?_, hagain⟩
  exact hfirst 2 { name := "x2", type := .primitive .int32 } rfl rfl

end Assemblage.Lowering.VariableNames
