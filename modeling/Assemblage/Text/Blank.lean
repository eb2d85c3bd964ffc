/-!
# Blanks

The white space that surrounds the parts of a display name, and its removal.
-/

namespace Assemblage.Text

/-- The characters with the Unicode property White_Space. -/
def isBlank (c : Char) : Bool :=
  let code := c.toNat
  (decide (0x9 ≤ code) && decide (code ≤ 0xd)) || code == 0x20 || code == 0x85 || code == 0xa0 ||
    code == 0x1680 || (decide (0x2000 ≤ code) && decide (code ≤ 0x200a)) || code == 0x2028 ||
    code == 0x2029 || code == 0x202f || code == 0x205f || code == 0x3000

/-- The text without the blanks at its two ends. -/
def trim (text : List Char) : List Char :=
  ((text.dropWhile isBlank).reverse.dropWhile isBlank).reverse

/-- A text that neither begins nor ends with a blank. -/
def IsTrimmed (text : List Char) : Prop :=
  text.head?.any isBlank = false ∧ text.getLast?.any isBlank = false

theorem any_head?_dropWhile_isBlank (text : List Char) :
    (text.dropWhile isBlank).head?.any isBlank = false := by
  have h := List.head?_dropWhile_not isBlank text
  cases hfirst : (text.dropWhile isBlank).head? with
  | none => rfl
  | some c =>
    rw [hfirst] at h
    simpa using h

theorem trim_prefix_dropWhile (text : List Char) : trim text <+: text.dropWhile isBlank := by
  have h := List.reverse_prefix.2
    (List.dropWhile_suffix (l := (text.dropWhile isBlank).reverse) isBlank)
  rwa [List.reverse_reverse] at h

theorem isTrimmed_trim (text : List Char) : IsTrimmed (trim text) := by
  constructor
  · obtain ⟨rest, hrest⟩ := trim_prefix_dropWhile text
    have hfirst := any_head?_dropWhile_isBlank text
    rw [← hrest] at hfirst
    cases htrim : trim text with
    | nil => rfl
    | cons c others =>
      rw [htrim] at hfirst
      exact hfirst
  · rw [trim, List.getLast?_reverse]
    exact any_head?_dropWhile_isBlank _

theorem dropWhile_isBlank_eq_self {text : List Char} (h : text.head?.any isBlank = false) :
    text.dropWhile isBlank = text := by
  cases text with
  | nil => rfl
  | cons c rest =>
    have hc : isBlank c = false := h
    rw [List.dropWhile_cons_of_neg (by simp [hc])]

theorem IsTrimmed.trim_eq {text : List Char} (h : IsTrimmed text) : trim text = text := by
  have hreverse : text.reverse.head?.any isBlank = false := by
    rw [List.head?_reverse]
    exact h.2
  rw [trim, dropWhile_isBlank_eq_self h.1, dropWhile_isBlank_eq_self hreverse,
    List.reverse_reverse]

/-- A blank in front does not count. -/
theorem trim_cons {c : Char} (h : isBlank c = true) (text : List Char) :
    trim (c :: text) = trim text := by
  rw [trim, List.dropWhile_cons_of_pos h, ← trim]

theorem trim_subset (text : List Char) : trim text ⊆ text :=
  List.Subset.trans (trim_prefix_dropWhile text).subset (List.dropWhile_suffix isBlank).subset

/-- Blanks at the ends of a text are those of its first and its last part. -/
theorem isTrimmed_append {front back : List Char} (hfront : front.head?.any isBlank = false)
    (hne : front ≠ []) (hback : back.getLast?.any isBlank = false) (hne' : back ≠ []) :
    IsTrimmed (front ++ back) := by
  obtain ⟨c, rest, rfl⟩ := List.exists_cons_of_ne_nil hne
  refine ⟨hfront, ?_⟩
  rw [List.getLast?_append, Option.or_of_isSome (by simpa using hne')]
  exact hback

end Assemblage.Text
