/-!
# Cutting

Cutting a list at the first occurrence of an element, which belongs to neither
of the two parts.
-/

namespace Assemblage.Text

variable {α : Type} [DecidableEq α]

/-- What stands before and after the first `mark`; nothing where there is none. -/
def cut? (mark : α) : List α → Option (List α × List α)
  | [] => none
  | item :: rest =>
    if item = mark then some ([], rest)
    else (cut? mark rest).map fun (before, after) => (item :: before, after)

/-- The parts are what they were cut from, and the cut is the first possible. -/
theorem cut?_eq_some_iff {mark : α} {whole before after : List α} :
    cut? mark whole = some (before, after) ↔ whole = before ++ mark :: after ∧ mark ∉ before := by
  induction whole generalizing before with
  | nil => simp [cut?]
  | cons item rest ih =>
    simp only [cut?]
    split
    · rename_i heq
      subst heq
      cases before with
      | nil => simp
      | cons first others =>
        simp only [Option.some.injEq, Prod.mk.injEq, List.nil_eq, reduceCtorEq, false_and,
          List.cons_append, List.cons.injEq, List.mem_cons, not_or, false_iff, not_and]
        rintro ⟨rfl, -⟩ hne
        exact absurd rfl hne
    · rename_i hne
      cases before with
      | nil => simp [hne]
      | cons first others =>
        simp only [Option.map_eq_some_iff, Prod.exists, Prod.mk.injEq, List.cons.injEq,
          List.cons_append, List.mem_cons, not_or]
        constructor
        · rintro ⟨cutBefore, cutAfter, hcut, ⟨rfl, rfl⟩, rfl⟩
          obtain ⟨hrest, hmem⟩ := ih.1 hcut
          exact ⟨⟨rfl, hrest⟩, fun heq => hne heq.symm, hmem⟩
        · rintro ⟨⟨rfl, hrest⟩, -, hmem⟩
          exact ⟨others, after, ih.2 ⟨hrest, hmem⟩, ⟨rfl, rfl⟩, rfl⟩

theorem length_cut? {mark : α} {whole before after : List α}
    (h : cut? mark whole = some (before, after)) : after.length < whole.length := by
  rw [(cut?_eq_some_iff.1 h).1]
  simp only [List.length_append, List.length_cons]
  omega

end Assemblage.Text
