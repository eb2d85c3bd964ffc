/-!
# Segments

Cutting a text at each occurrence of a character, and joining the pieces again.
A text without the character is its own single segment.
-/

namespace Assemblage.Text

def segments (separator : Char) : List Char → List (List Char)
  | [] => [[]]
  | c :: rest =>
    if c = separator then [] :: segments separator rest
    else
      match segments separator rest with
      | [] => [[c]]
      | first :: others => (c :: first) :: others

def joinWith (separator : Char) : List (List Char) → List Char
  | [] => []
  | [last] => last
  | first :: others => first ++ separator :: joinWith separator others

theorem segments_ne_nil (separator : Char) (text : List Char) :
    segments separator text ≠ [] := by
  cases text with
  | nil => simp [segments]
  | cons c rest =>
    simp only [segments]
    split
    · simp
    · split <;> simp

theorem joinWith_segments (separator : Char) (text : List Char) :
    joinWith separator (segments separator text) = text := by
  induction text with
  | nil => rfl
  | cons c rest ih =>
    simp only [segments]
    split
    · rename_i h
      obtain ⟨first, others, hs⟩ := List.exists_cons_of_ne_nil (segments_ne_nil separator rest)
      rw [hs] at ih ⊢
      simp [joinWith, ih, h]
    · obtain ⟨first, others, hs⟩ := List.exists_cons_of_ne_nil (segments_ne_nil separator rest)
      rw [hs] at ih ⊢
      cases others with
      | nil => simpa [joinWith] using ih
      | cons second others => simpa [joinWith] using ih

theorem segments_of_not_mem {separator : Char} {text : List Char} (h : separator ∉ text) :
    segments separator text = [text] := by
  induction text with
  | nil => rfl
  | cons c rest ih =>
    rw [List.mem_cons, not_or] at h
    rw [segments, if_neg (Ne.symm h.1), ih h.2]

/-- A text is cut where it is put together with a separator. -/
theorem segments_append_cons (separator : Char) (text rest : List Char) :
    segments separator (text ++ separator :: rest) =
      segments separator text ++ segments separator rest := by
  induction text with
  | nil => simp [segments]
  | cons c text ih =>
    rw [List.cons_append, segments, segments, ih]
    split
    · rfl
    · obtain ⟨first, others, hs⟩ := List.exists_cons_of_ne_nil (segments_ne_nil separator text)
      rw [hs]
      rfl

theorem mem_of_mem_segments {separator c : Char} {text piece : List Char}
    (hpiece : piece ∈ segments separator text) (hc : c ∈ piece) : c ∈ text ∧ c ≠ separator := by
  induction text generalizing piece with
  | nil =>
    rw [List.mem_singleton.1 hpiece] at hc
    cases hc
  | cons d rest ih =>
    rw [segments] at hpiece
    obtain ⟨first, others, hs⟩ := List.exists_cons_of_ne_nil (segments_ne_nil separator rest)
    split at hpiece
    · rcases List.mem_cons.1 hpiece with rfl | hpiece
      · cases hc
      · exact (ih hpiece hc).imp_left (List.mem_cons_of_mem d)
    · rename_i hne
      rw [hs] at hpiece ih
      rcases List.mem_cons.1 hpiece with rfl | hpiece
      · rcases List.mem_cons.1 hc with rfl | hc
        · exact ⟨List.mem_cons_self, hne⟩
        · exact (ih List.mem_cons_self hc).imp_left (List.mem_cons_of_mem d)
      · exact (ih (List.mem_cons_of_mem first hpiece) hc).imp_left (List.mem_cons_of_mem d)

theorem mem_joinWith {separator c : Char} {pieces : List (List Char)}
    (h : c ∈ joinWith separator pieces) : c = separator ∨ ∃ piece ∈ pieces, c ∈ piece := by
  induction pieces with
  | nil => cases h
  | cons first rest ih =>
    cases rest with
    | nil => exact .inr ⟨first, List.mem_cons_self, h⟩
    | cons second others =>
      rcases List.mem_append.1 h with hfirst | hrest
      · exact .inr ⟨first, List.mem_cons_self, hfirst⟩
      rcases List.mem_cons.1 hrest with rfl | hrest
      · exact .inl rfl
      refine (ih hrest).imp_right ?_
      rintro ⟨piece, hpiece, hc⟩
      exact ⟨piece, List.mem_cons_of_mem first hpiece, hc⟩

/-- A separator that occurs at all has a last occurrence. -/
theorem exists_last_separator {separator : Char} {text : List Char} (h : separator ∈ text) :
    ∃ before after, text = before ++ separator :: after ∧ separator ∉ after := by
  obtain ⟨after, before, htext, hafter⟩ := List.eq_append_cons_of_mem (List.mem_reverse.2 h)
  refine ⟨before.reverse, after.reverse, ?_, by simpa using hafter⟩
  rw [← List.reverse_reverse text, htext]
  simp

/-- The last separator tells where a text was put together. -/
theorem append_separator_inj {separator : Char} {left right first second : List Char}
    (hfirst : separator ∉ first) (hsecond : separator ∉ second)
    (h : left ++ separator :: first = right ++ separator :: second) :
    left = right ∧ first = second := by
  have hprefix : ∀ {middle before after : List Char}, separator ∉ before →
      separator :: before = middle ++ separator :: after → middle = [] := by
    intro middle before after hbefore heq
    cases middle with
    | nil => rfl
    | cons c rest =>
      obtain ⟨-, htail⟩ := List.cons.inj heq
      exact absurd (htail ▸ List.mem_append_right rest List.mem_cons_self) hbefore
  obtain ⟨middle, hright, hmiddle⟩ | ⟨middle, hleft, hmiddle⟩ := List.append_eq_append_iff.1 h
  · obtain rfl := hprefix hfirst hmiddle
    exact ⟨by rw [hright, List.append_nil], (List.cons.inj hmiddle).2⟩
  · obtain rfl := hprefix hsecond hmiddle
    exact ⟨by rw [hleft, List.append_nil], (List.cons.inj hmiddle).2.symm⟩

theorem joinWith_concat {separator : Char} {pieces : List (List Char)} (h : pieces ≠ [])
    (last : List Char) :
    joinWith separator (pieces ++ [last]) = joinWith separator pieces ++ separator :: last := by
  induction pieces with
  | nil => exact absurd rfl h
  | cons first rest ih =>
    cases rest with
    | nil => rfl
    | cons second others =>
      have hrest := ih (List.cons_ne_nil second others)
      simp only [List.cons_append, joinWith] at hrest ⊢
      rw [hrest]
      simp

/-- Pieces without the separator are found again. -/
theorem segments_joinWith {separator : Char} {pieces : List (List Char)} (hne : pieces ≠ [])
    (h : ∀ piece ∈ pieces, separator ∉ piece) :
    segments separator (joinWith separator pieces) = pieces := by
  induction pieces with
  | nil => exact absurd rfl hne
  | cons first rest ih =>
    have hfirst := segments_of_not_mem (h first List.mem_cons_self)
    cases rest with
    | nil => exact hfirst
    | cons second others =>
      have hrest := ih (List.cons_ne_nil second others) fun piece hpiece =>
        h piece (List.mem_cons_of_mem first hpiece)
      have hcut : joinWith separator (first :: second :: others) =
          first ++ separator :: joinWith separator (second :: others) := rfl
      rw [hcut, segments_append_cons, hfirst, hrest, List.singleton_append]

theorem toList_intercalate {separator : Char} {mark : String} (h : mark.toList = [separator])
    (texts : List String) :
    (mark.intercalate texts).toList = joinWith separator (texts.map String.toList) := by
  induction texts with
  | nil => simp [joinWith]
  | cons first rest ih =>
    cases rest with
    | nil => simp [joinWith]
    | cons second others =>
      rw [String.intercalate_cons_cons, String.toList_append, String.toList_append, h, ih]
      simp [joinWith]

/-- The text after the last occurrence of the separator, or all of it. -/
def lastSegment (separator : Char) (text : List Char) : List Char :=
  ((segments separator text).getLast?).getD text

theorem lastSegment_of_not_mem {separator : Char} {text : List Char} (h : separator ∉ text) :
    lastSegment separator text = text := by
  rw [lastSegment, segments_of_not_mem h]
  rfl

theorem lastSegment_append_cons {separator : Char} {after : List Char} (h : separator ∉ after)
    (before : List Char) : lastSegment separator (before ++ separator :: after) = after := by
  rw [lastSegment, segments_append_cons, segments_of_not_mem h]
  simp

theorem lastSegment_append_of_mem {separator : Char} {text : List Char} (h : separator ∈ text)
    (front : List Char) : lastSegment separator (front ++ text) = lastSegment separator text := by
  obtain ⟨before, after, rfl, hafter⟩ := exists_last_separator h
  rw [← List.append_assoc, lastSegment_append_cons hafter, lastSegment_append_cons hafter]

theorem lastSegment_append_of_not_mem {separator : Char} {text : List Char} (h : separator ∉ text)
    (front : List Char) :
    lastSegment separator (front ++ text) = lastSegment separator front ++ text := by
  by_cases hfront : separator ∈ front
  · obtain ⟨before, after, rfl, hafter⟩ := exists_last_separator hfront
    rw [List.append_assoc, List.cons_append, lastSegment_append_cons hafter,
      lastSegment_append_cons (by simp [hafter, h])]
  · rw [lastSegment_of_not_mem hfront, lastSegment_of_not_mem (by simp [hfront, h])]

/-- The text before the first occurrence of the separator, or all of it. -/
def firstSegment (separator : Char) (text : List Char) : List Char :=
  text.takeWhile (· ≠ separator)

theorem firstSegment_append_drop (separator : Char) (text : List Char) :
    firstSegment separator text ++ text.drop (firstSegment separator text).length = text :=
  List.prefix_iff_eq_append.1 (List.takeWhile_prefix _)

theorem firstSegment_append_of_not_mem {separator : Char} {text : List Char}
    (h : separator ∉ text) (rest : List Char) :
    firstSegment separator (text ++ rest) = text ++ firstSegment separator rest := by
  rw [firstSegment, List.takeWhile_append_of_pos, firstSegment]
  intro c hc
  simpa using fun heq : c = separator => h (heq ▸ hc)

/-- What follows a separator does not count. -/
theorem firstSegment_append_cons (separator : Char) (text rest : List Char) :
    firstSegment separator (text ++ separator :: rest) = firstSegment separator text := by
  induction text with
  | nil => simp [firstSegment]
  | cons c text ih =>
    simp only [firstSegment, List.cons_append, List.takeWhile_cons] at ih ⊢
    rw [ih]

theorem firstSegment_subset (separator : Char) (text : List Char) :
    firstSegment separator text ⊆ text :=
  (List.takeWhile_sublist _).subset

end Assemblage.Text
