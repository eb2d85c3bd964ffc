import Assemblage.Pattern.Reader
import Assemblage.Pattern.Search
import Mathlib.Data.List.Basic

/-!
# Patterns and what they match

What a pattern matches is told by its structure: copies of a repetition stand one after
the other, and an assertion is about the characters on both sides of its place.  The
search takes residuals from one character to the next instead.  It finds a pattern just
if the pattern matches some part of the text, for all patterns whose bounds are in order,
and no other pattern can be read.
-/

namespace Assemblage.Pattern

/-- Texts that stand between two characters, either of which is missing at an end. -/
abbrev Language := Option Char → List Char → Option Char → Prop

namespace Language

/-- A text of the first language and one of the second after it. -/
def Joined (first second : Language) : Language := fun before? text after? =>
  ∃ left right, text = left ++ right ∧ first before? left (right.head?.or after?) ∧
    second (left.getLast?.or before?) right after?

/-- So many texts of the language one after the other. -/
def Copies (language : Language) : Nat → Language
  | 0 => fun _ text _ => text = []
  | count + 1 => language.Joined (language.Copies count)

variable {first second language : Language} {before? after? : Option Char} {c : Char}
  {text rest : List Char}

theorem joined_nil_iff :
    first.Joined second before? [] after? ↔ first before? [] after? ∧ second before? [] after? := by
  constructor
  · rintro ⟨left, right, htext, hfirst, hsecond⟩
    obtain ⟨rfl, rfl⟩ := List.append_eq_nil_iff.1 htext.symm
    exact ⟨hfirst, hsecond⟩
  · rintro ⟨hfirst, hsecond⟩
    exact ⟨[], [], rfl, hfirst, hsecond⟩

theorem getLast?_cons_or (c : Char) (left : List Char) (before? : Option Char) :
    (c :: left).getLast?.or before? = left.getLast?.or (some c) := by
  rw [List.getLast?_cons]
  cases left.getLast? <;> rfl

/-- The first character belongs to the second text if the first one is empty. -/
theorem joined_cons_iff :
    first.Joined second before? (c :: rest) after? ↔
      first before? [] (some c) ∧ second before? (c :: rest) after? ∨
      ∃ left right, rest = left ++ right ∧ first before? (c :: left) (right.head?.or after?) ∧
        second (left.getLast?.or (some c)) right after? := by
  constructor
  · rintro ⟨left, right, htext, hfirst, hsecond⟩
    cases left with
    | nil =>
      obtain rfl : c :: rest = right := htext
      exact .inl ⟨hfirst, hsecond⟩
    | cons d left =>
      obtain ⟨rfl, hrest⟩ := List.cons.inj htext
      rw [getLast?_cons_or] at hsecond
      exact .inr ⟨left, right, hrest, hfirst, hsecond⟩
  · rintro (⟨hfirst, hsecond⟩ | ⟨left, right, rfl, hfirst, hsecond⟩)
    · exact ⟨[], c :: rest, rfl, hfirst, hsecond⟩
    · refine ⟨c :: left, right, rfl, hfirst, ?_⟩
      rwa [getLast?_cons_or]

/-- The empty text goes before any other. -/
theorem joined_of_nil (hfirst : first before? [] (text.head?.or after?))
    (hsecond : second before? text after?) : first.Joined second before? text after? :=
  ⟨[], text, rfl, hfirst, hsecond⟩

theorem copies_nil_iff {count : Nat} :
    language.Copies count before? [] after? ↔ count = 0 ∨ language before? [] after? := by
  induction count with
  | zero => exact iff_of_true rfl (.inl rfl)
  | succ count ih =>
    rw [Copies, joined_nil_iff, ih]
    exact ⟨fun h => .inr h.1, fun h => ⟨h.resolve_left (Nat.succ_ne_zero _),
      .inr (h.resolve_left (Nat.succ_ne_zero _))⟩⟩

/-- Where the empty text is a copy, there can be any number more of them. -/
theorem Copies.of_le {count more : Nat} (hempty : language before? [] (text.head?.or after?))
    (h : language.Copies count before? text after?) (hle : count ≤ more) :
    language.Copies more before? text after? := by
  induction hle with
  | refl => exact h
  | step _ ih => exact joined_of_nil hempty ih

/-- The copy that takes the first character; those before it are empty. -/
theorem Copies.exists_copy {count : Nat}
    (h : language.Copies count before? (c :: rest) after?) :
    ∃ fewer left right, rest = left ++ right ∧
      language before? (c :: left) (right.head?.or after?) ∧
      language.Copies fewer (left.getLast?.or (some c)) right after? ∧ fewer < count ∧
      (fewer + 1 = count ∨ language before? [] (some c)) := by
  induction count with
  | zero => cases h
  | succ count ih =>
    rcases joined_cons_iff.1 h with ⟨hempty, hrest⟩ | ⟨left, right, hrest, hcopy, hothers⟩
    · obtain ⟨fewer, left, right, hrest, hcopy, hothers, hfewer, -⟩ := ih hrest
      exact ⟨fewer, left, right, hrest, hcopy, hothers, Nat.lt_succ_of_lt hfewer, .inr hempty⟩
    · exact ⟨count, left, right, hrest, hcopy, hothers, Nat.lt_succ_self _, .inl rfl⟩

end Language

/-- The texts that a pattern matches. -/
def Matches : Pattern → Language
  | .empty => fun _ text _ => text = []
  | .one set => fun _ text _ => ∃ c, set.contains c = true ∧ text = [c]
  | .look assertion => fun before? text after? =>
    text = [] ∧ assertion.holds before? after? = true
  | .seq first second => first.Matches.Joined second.Matches
  | .either left right => fun before? text after? =>
    left.Matches before? text after? ∨ right.Matches before? text after?
  | .times body least most => fun before? text after? =>
    ∃ count, least ≤ count ∧ (∀ bound ∈ most, count ≤ bound) ∧
      body.Matches.Copies count before? text after?

/-- No repetition asks for more copies than it allows. -/
def IsOrdered : Pattern → Prop
  | .empty | .one _ | .look _ => True
  | .seq first second => first.IsOrdered ∧ second.IsOrdered
  | .either left right => left.IsOrdered ∧ right.IsOrdered
  | .times body least most => body.IsOrdered ∧ ∀ bound ∈ most, least ≤ bound

section

variable {pattern second residual : Pattern} {before? after? : Option Char} {c : Char}
  {text rest : List Char}

/-- The test for the empty text is exact for patterns in order. -/
theorem acceptsEmpty_iff (h : pattern.IsOrdered) :
    pattern.acceptsEmpty before? after? = true ↔ pattern.Matches before? [] after? := by
  induction pattern with
  | empty => exact iff_of_true rfl rfl
  | one set => exact iff_of_false Bool.false_ne_true fun ⟨_, _, hone⟩ => nomatch hone
  | look assertion => exact (and_iff_right rfl).symm
  | seq first second ihfirst ihsecond =>
    rw [acceptsEmpty, Bool.and_eq_true, ihfirst h.1, ihsecond h.2, Matches,
      Language.joined_nil_iff]
  | either left right ihleft ihright =>
    rw [acceptsEmpty, Bool.or_eq_true, ihleft h.1, ihright h.2, Matches]
  | times body least most ih =>
    simp only [acceptsEmpty, Bool.or_eq_true, beq_iff_eq, ih h.1, Matches,
      Language.copies_nil_iff]
    constructor
    · rintro (rfl | hempty)
      · exact ⟨0, Nat.le_refl _, fun _ _ => Nat.zero_le _, .inl rfl⟩
      · exact ⟨least, Nat.le_refl _, h.2, .inr hempty⟩
    · rintro ⟨count, hleast, -, rfl | hempty⟩
      · exact .inl (Nat.le_zero.1 hleast)
      · exact .inr hempty

/-- One pattern followed by another matches what the two match in a row. -/
theorem matches_followedBy_iff :
    (pattern.followedBy second).Matches before? text after? ↔
      pattern.Matches.Joined second.Matches before? text after? := by
  cases pattern with
  | empty =>
    constructor
    · exact fun h => ⟨[], text, rfl, rfl, h⟩
    · rintro ⟨left, right, rfl, rfl, h⟩
      exact h
  | _ => exact Iff.rfl

/-- The residuals of the first of two patterns, with the second after each of them. -/
theorem exists_mem_map_followedBy_iff {residuals : List Pattern} :
    (∃ residual ∈ residuals.map (·.followedBy second), residual.Matches before? rest after?) ↔
      ∃ left right, rest = left ++ right ∧
        (∃ residual ∈ residuals, residual.Matches before? left (right.head?.or after?)) ∧
        second.Matches (left.getLast?.or before?) right after? := by
  constructor
  · rintro ⟨_, hmem, h⟩
    obtain ⟨residual, hresidual, rfl⟩ := List.mem_map.1 hmem
    obtain ⟨left, right, hrest, hfirst, hsecond⟩ := matches_followedBy_iff.1 h
    exact ⟨left, right, hrest, ⟨residual, hresidual, hfirst⟩, hsecond⟩
  · rintro ⟨left, right, hrest, ⟨residual, hresidual, hfirst⟩, hsecond⟩
    exact ⟨_, List.mem_map_of_mem hresidual,
      matches_followedBy_iff.2 ⟨left, right, hrest, hfirst, hsecond⟩⟩

/-- A repetition goes on from the copy that takes the first character.  Where copies may be
empty, those that are missing can stand before it. -/
theorem matches_times_cons_iff {body : Pattern} {least : Nat} {most : Option Nat}
    (hbody : body.IsOrdered) (hordered : ∀ bound ∈ most, least ≤ bound) :
    (times body least most).Matches before? (c :: rest) after? ↔
      most ≠ some 0 ∧ ∃ left right, rest = left ++ right ∧
        body.Matches before? (c :: left) (right.head?.or after?) ∧
        (times body (if body.acceptsEmpty before? (some c) then 0 else least - 1)
          (most.map (· - 1))).Matches (left.getLast?.or (some c)) right after? := by
  constructor
  · rintro ⟨count, hleast, hmost, hcopies⟩
    obtain ⟨fewer, left, right, hrest, hcopy, hothers, hfewer, hskipped⟩ := hcopies.exists_copy
    refine ⟨?_, left, right, hrest, hcopy, fewer, ?_, ?_, hothers⟩
    · rintro rfl
      exact absurd (hmost 0 rfl) (by omega)
    · split
      · exact Nat.zero_le _
      · rename_i hempty
        have := hskipped.resolve_right fun h => hempty ((acceptsEmpty_iff hbody).2 h)
        omega
    · intro bound hbound
      obtain ⟨largest, hlargest, rfl⟩ := Option.map_eq_some_iff.1 hbound
      have := hmost largest hlargest
      omega
  · rintro ⟨hsome, left, right, rfl, hcopy, fewer, hleast, hmost, hothers⟩
    have hcopies : body.Matches.Copies (fewer + 1) before? (c :: (left ++ right)) after? :=
      Language.joined_cons_iff.2 (.inr ⟨left, right, rfl, hcopy, hothers⟩)
    have hbound : ∀ bound ∈ most, fewer + 1 ≤ bound := by
      rintro bound rfl
      have := hmost (bound - 1) rfl
      have : bound ≠ 0 := fun hzero => hsome (congrArg some hzero)
      omega
    by_cases hempty : body.acceptsEmpty before? (some c) = true
    · refine ⟨max (fewer + 1) least, Nat.le_max_right _ _, fun bound hmem => ?_,
        hcopies.of_le ((acceptsEmpty_iff hbody).1 hempty) (Nat.le_max_left _ _)⟩
      exact Nat.max_le.2 ⟨hbound bound hmem, hordered bound hmem⟩
    · rw [if_neg hempty] at hleast
      exact ⟨fewer + 1, by omega, hbound, hcopies⟩

/-- What a pattern matches from a character on is what its residuals match after it. -/
theorem matches_cons_iff (h : pattern.IsOrdered) :
    pattern.Matches before? (c :: rest) after? ↔
      ∃ residual ∈ pattern.residuals before? c, residual.Matches (some c) rest after? := by
  induction pattern generalizing rest after? with
  | empty => simp [Matches, residuals]
  | one set =>
    rw [residuals]
    split <;> simp_all [Matches]
  | look assertion => simp [Matches, residuals]
  | seq first second ihfirst ihsecond =>
    simp only [residuals, List.mem_append, or_and_right, exists_or,
      exists_mem_map_followedBy_iff, ← ihfirst h.1]
    rw [Matches, Language.joined_cons_iff, or_comm, ← acceptsEmpty_iff h.1, ihsecond h.2]
    refine or_congr_right ?_
    split <;> simp_all
  | either left right ihleft ihright =>
    simp only [Matches, residuals, ihleft h.1, ihright h.2, List.mem_append, or_and_right,
      exists_or]
  | times body least most ih =>
    rw [matches_times_cons_iff h.1 h.2, residuals]
    by_cases hnone : most = some 0
    · simp [hnone]
    · rw [if_neg hnone]
      simp only [exists_mem_map_followedBy_iff, ih h.1]
      exact and_iff_right hnone

/-- Residuals ask for no more copies than they allow either. -/
theorem IsOrdered.residuals (h : pattern.IsOrdered) (before? : Option Char) (c : Char) :
    ∀ residual ∈ pattern.residuals before? c, residual.IsOrdered := by
  have hfollowed : ∀ first second : Pattern, first.IsOrdered → second.IsOrdered →
      (first.followedBy second).IsOrdered := by
    intro first second hfirst hsecond
    cases first with
    | empty => exact hsecond
    | _ => exact ⟨hfirst, hsecond⟩
  induction pattern with
  | empty | look => exact fun _ hmem => absurd hmem List.not_mem_nil
  | one set =>
    rw [Pattern.residuals]
    split
    · rw [List.forall_mem_singleton]
      trivial
    · exact fun _ hmem => absurd hmem List.not_mem_nil
  | seq first second ihfirst ihsecond =>
    rw [Pattern.residuals, List.forall_mem_append, List.forall_mem_map]
    refine ⟨fun residual hmem => hfollowed _ _ (ihfirst h.1 residual hmem) h.2, ?_⟩
    split
    · exact ihsecond h.2
    · exact fun _ hmem => absurd hmem List.not_mem_nil
  | either left right ihleft ihright =>
    rw [Pattern.residuals, List.forall_mem_append]
    exact ⟨ihleft h.1, ihright h.2⟩
  | times body least most ih =>
    rw [Pattern.residuals]
    split
    · exact fun _ hmem => absurd hmem List.not_mem_nil
    · rw [List.forall_mem_map]
      refine fun residual hmem => hfollowed _ _ (ih h.1 residual hmem) ⟨h.1, fun bound hbound => ?_⟩
      obtain ⟨largest, hlargest, rfl⟩ := Option.map_eq_some_iff.1 hbound
      have := h.2 largest hlargest
      split <;> omega

/-- The pattern matches from the beginning of the text, which stands after `before?`. -/
def Starts (pattern : Pattern) (before? : Option Char) (text : List Char) : Prop :=
  ∃ matched after, text = matched ++ after ∧ pattern.Matches before? matched after.head?

theorem starts_nil_iff : pattern.Starts before? [] ↔ pattern.Matches before? [] none := by
  constructor
  · rintro ⟨matched, after, htext, h⟩
    obtain ⟨rfl, rfl⟩ := List.append_eq_nil_iff.1 htext.symm
    exact h
  · exact fun h => ⟨[], [], rfl, h⟩

/-- A pattern starts a text if it matches nothing of it, or if a residual of the first character
starts the rest. -/
theorem starts_cons_iff (h : pattern.IsOrdered) :
    pattern.Starts before? (c :: rest) ↔ pattern.Matches before? [] (some c) ∨
      ∃ residual ∈ pattern.residuals before? c, residual.Starts (some c) rest := by
  constructor
  · rintro ⟨matched, after, htext, hmatches⟩
    cases matched with
    | nil =>
      obtain rfl : c :: rest = after := htext
      exact .inl hmatches
    | cons d matched =>
      obtain ⟨rfl, hrest⟩ := List.cons.inj htext
      obtain ⟨residual, hresidual, hmatches⟩ := (matches_cons_iff h).1 hmatches
      exact .inr ⟨residual, hresidual, matched, after, hrest, hmatches⟩
  · rintro (hempty | ⟨residual, hresidual, matched, after, rfl, hmatches⟩)
    · exact ⟨[], c :: rest, rfl, hempty⟩
    · exact ⟨c :: matched, after, rfl, (matches_cons_iff h).2 ⟨residual, hresidual, hmatches⟩⟩

/-- The search goes on with what is open, and begins anew after every character. -/
theorem occursFrom_iff (h : pattern.IsOrdered) {opened : List Pattern}
    (hopened : ∀ other ∈ opened, other.IsOrdered) :
    pattern.occursFrom before? opened text = true ↔
      (∃ other ∈ opened, other.Starts before? text) ∨
      ∃ c skipped rest, text = c :: (skipped ++ rest) ∧
        pattern.Starts (skipped.getLast?.or (some c)) rest := by
  induction text generalizing before? opened with
  | nil =>
    simp only [occursFrom, List.any_eq_true, starts_nil_iff]
    constructor
    · rintro ⟨other, hother, haccepts⟩
      exact .inl ⟨other, hother, (acceptsEmpty_iff (hopened other hother)).1 haccepts⟩
    · rintro (⟨other, hother, hmatches⟩ | ⟨_, _, _, htext, -⟩)
      · exact ⟨other, hother, (acceptsEmpty_iff (hopened other hother)).2 hmatches⟩
      · cases htext
  | cons c rest ih =>
    have hlater : ∀ other ∈ (pattern :: opened.flatMap (residuals before? c)).eraseDups,
        other.IsOrdered := by
      intro other hother
      rw [List.mem_eraseDups, List.mem_cons, List.mem_flatMap] at hother
      rcases hother with rfl | ⟨earlier, hearlier, hresidual⟩
      · exact h
      · exact (hopened earlier hearlier).residuals before? c other hresidual
    rw [occursFrom, Bool.or_eq_true, ih hlater, List.any_eq_true]
    simp only [List.mem_eraseDups, List.mem_cons, List.mem_flatMap]
    constructor
    · rintro (⟨other, hother, haccepts⟩ | ⟨other, rfl | ⟨earlier, hearlier, hresidual⟩, hstarts⟩ |
        ⟨d, skipped, rest, rfl, hstarts⟩)
      · have hmatches := (acceptsEmpty_iff (hopened other hother)).1 haccepts
        exact .inl ⟨other, hother, (starts_cons_iff (hopened other hother)).2 (.inl hmatches)⟩
      · exact .inr ⟨c, [], rest, rfl, hstarts⟩
      · exact .inl ⟨earlier, hearlier, (starts_cons_iff (hopened earlier hearlier)).2
          (.inr ⟨other, hresidual, hstarts⟩)⟩
      · refine .inr ⟨c, d :: skipped, rest, rfl, ?_⟩
        rwa [Language.getLast?_cons_or]
    · rintro (⟨other, hother, hstarts⟩ | ⟨d, skipped, later, htext, hstarts⟩)
      · rcases (starts_cons_iff (hopened other hother)).1 hstarts with
          hmatches | ⟨residual, hresidual, hstarts⟩
        · exact .inl ⟨other, hother, (acceptsEmpty_iff (hopened other hother)).2 hmatches⟩
        · exact .inr (.inl ⟨residual, .inr ⟨other, hother, hresidual⟩, hstarts⟩)
      · obtain ⟨rfl, rfl⟩ := List.cons.inj htext
        cases skipped with
        | nil => exact .inr (.inl ⟨pattern, .inl rfl, hstarts⟩)
        | cons d skipped =>
          rw [Language.getLast?_cons_or] at hstarts
          exact .inr (.inr ⟨d, skipped, later, rfl, hstarts⟩)

/-- A pattern occurs in a text just if it matches some part of it. -/
theorem occursIn_iff (h : pattern.IsOrdered) (text : String) :
    pattern.occursIn text = true ↔ ∃ before matched after,
      text.toList = before ++ matched ++ after ∧
        pattern.Matches before.getLast? matched after.head? := by
  have hopened : ∀ other ∈ [pattern], other.IsOrdered :=
    fun other hother => List.mem_singleton.1 hother ▸ h
  rw [occursIn, occursFrom_iff h hopened]
  constructor
  · rintro (⟨other, hother, matched, after, htext, hmatches⟩ |
      ⟨c, skipped, _, htext, matched, after, rfl, hmatches⟩)
    · obtain rfl := List.mem_singleton.1 hother
      exact ⟨[], matched, after, htext, hmatches⟩
    · refine ⟨c :: skipped, matched, after, ?_, ?_⟩
      · rw [htext, List.append_assoc, List.cons_append]
      · rwa [← Option.or_none (o := (c :: skipped).getLast?), Language.getLast?_cons_or]
  · rintro ⟨before, matched, after, htext, hmatches⟩
    cases before with
    | nil => exact .inl ⟨pattern, List.mem_singleton_self _, matched, after, htext, hmatches⟩
    | cons c skipped =>
      refine .inr ⟨c, skipped, matched ++ after, ?_, matched, after, rfl, ?_⟩
      · rw [htext, List.append_assoc, List.cons_append]
      · rwa [← Language.getLast?_cons_or c skipped none, Option.or_none]

end

/-! ## Patterns that can be read -/

section

variable {pattern : Pattern} {patterns : List Pattern} {least : Nat} {most : Option Nat}

theorem isOrdered_sequence (h : ∀ pattern ∈ patterns, pattern.IsOrdered) :
    (sequence patterns).IsOrdered := by
  fun_induction sequence patterns with
  | case1 => trivial
  | case2 last => exact h last (List.mem_singleton_self last)
  | case3 first rest _ ih =>
    rw [List.forall_mem_cons] at h
    exact ⟨h.1, ih h.2⟩

theorem isOrdered_alternatives (hfirst : pattern.IsOrdered)
    (hothers : ∀ pattern ∈ patterns, pattern.IsOrdered) :
    (alternatives pattern patterns).IsOrdered := by
  fun_induction alternatives pattern patterns with
  | case1 => exact hfirst
  | case2 first second rest ih =>
    rw [List.forall_mem_cons] at hothers
    exact ⟨hfirst, ih hothers.1 hothers.2⟩

/-- Copies of copies that are counted together: the bounds are multiplied. -/
theorem le_mostCopies {inner : Nat} {innerMost : Option Nat}
    (h : ∀ bound ∈ most, least ≤ bound) (hinner : ∀ bound ∈ innerMost, inner ≤ bound) :
    ∀ bound ∈ mostCopies most innerMost, least * inner ≤ bound := by
  intro bound hbound
  unfold mostCopies at hbound
  split at hbound
  · have hnone : least = 0 := Nat.le_zero.1 (h 0 rfl)
    rw [hnone, Nat.zero_mul]
    exact Nat.zero_le _
  · have hnone : inner = 0 := Nat.le_zero.1 (hinner 0 rfl)
    rw [hnone, Nat.mul_zero]
    exact Nat.zero_le _
  · obtain rfl := Option.some.inj hbound
    exact Nat.mul_le_mul (h _ rfl) (hinner _ rfl)
  · cases hbound

theorem isOrdered_repeated (h : pattern.IsOrdered) (hbounds : ∀ bound ∈ most, least ≤ bound) :
    (pattern.repeated least most).IsOrdered := by
  unfold repeated
  split
  · split
    · exact ⟨h.1, le_mostCopies hbounds h.2⟩
    · exact ⟨h, hbounds⟩
  · exact ⟨h, hbounds⟩

end

/-- A repetition among the symbols does not ask for more copies than it allows. -/
def Symbol.IsOrdered : Symbol → Prop
  | .repetition least most => ∀ bound ∈ most, least ≤ bound
  | _ => True

section

variable {sign : Sign} {text rest : List Sign} {symbol : Symbol}

theorem le_of_bounds? {inside : List Sign} {least : Nat} {most : Option Nat}
    (h : bounds? inside = some (least, most)) : ∀ bound ∈ most, least ≤ bound := by
  unfold bounds? at h
  split at h
  · obtain ⟨count, -, hpair⟩ := Option.map_eq_some_iff.1 h
    obtain ⟨rfl, rfl⟩ := Prod.mk.inj hpair
    exact fun bound hbound => Nat.le_of_eq (Option.some.inj hbound)
  · obtain ⟨count, -, hpair⟩ := Option.map_eq_some_iff.1 h
    obtain ⟨rfl, rfl⟩ := Prod.mk.inj hpair
    exact fun bound hbound => nomatch hbound
  · simp only [Option.bind_eq_bind, Option.bind_eq_some_iff] at h
    obtain ⟨smaller, -, larger, -, h⟩ := h
    split at h
    · rename_i hle
      obtain ⟨rfl, rfl⟩ := Prod.mk.inj (Option.some.inj h)
      exact fun bound hbound => Option.some.inj hbound ▸ hle
    · cases h

/-- Counted repetitions are read with bounds in order. -/
theorem isOrdered_of_counted? (h : counted? text = some (symbol, rest)) : symbol.IsOrdered := by
  simp only [counted?, Option.bind_eq_bind, Option.bind_eq_some_iff, Prod.exists,
    Option.pure_def, Option.some.injEq, Prod.mk.injEq] at h
  obtain ⟨_, _, _, _, _, hbounds, rfl, -⟩ := h
  exact le_of_bounds? hbounds

/-- What a parenthesis begins is no repetition. -/
theorem isOrdered_of_parenthesis? (h : parenthesis? text = some (symbol, rest)) :
    symbol.IsOrdered := by
  have hnamed : ∀ text, namedGroup? text = some (symbol, rest) → symbol.IsOrdered := by
    intro text h
    simp only [namedGroup?, Option.bind_eq_bind, Option.bind_eq_some_iff, Prod.exists] at h
    obtain ⟨_, _, _, _, -, h⟩ := h
    split at h
    · obtain ⟨rfl, -⟩ := Prod.mk.inj (Option.some.inj h)
      trivial
    · cases h
  unfold parenthesis? at h
  split at h
  · exact hnamed _ h
  · exact hnamed _ h
  · unfold switched? at h
    dsimp only at h
    split at h
    · obtain ⟨_, -, hpair⟩ := Option.map_eq_some_iff.1 h
      obtain ⟨rfl, -⟩ := Prod.mk.inj hpair
      trivial
    · split at h
      · cases h
      · obtain ⟨_, -, hpair⟩ := Option.map_eq_some_iff.1 h
        obtain ⟨rfl, -⟩ := Prod.mk.inj hpair
        trivial
    · cases h
  · obtain ⟨rfl, -⟩ := Prod.mk.inj (Option.some.inj h)
    trivial

theorem isOrdered_of_symbol? (h : symbol? sign text = some (symbol, rest)) :
    symbol.IsOrdered := by
  unfold symbol? at h
  split at h
  · unfold plainSymbol? at h
    split at h
    case h_5 => exact isOrdered_of_parenthesis? h
    case h_10 => exact isOrdered_of_counted? h
    case h_11 =>
      obtain ⟨_, -, hpair⟩ := Option.map_eq_some_iff.1 h
      obtain ⟨rfl, -⟩ := Prod.mk.inj hpair
      trivial
    case h_9 =>
      obtain ⟨rfl, -⟩ := Prod.mk.inj (Option.some.inj h)
      exact fun bound _ => Nat.zero_le bound
    case h_7 | h_8 =>
      obtain ⟨rfl, -⟩ := Prod.mk.inj (Option.some.inj h)
      exact fun bound hbound => nomatch hbound
    all_goals
      obtain ⟨rfl, -⟩ := Prod.mk.inj (Option.some.inj h)
      trivial
  all_goals
    obtain ⟨rfl, -⟩ := Prod.mk.inj (Option.some.inj h)
    trivial

/-- All symbols that are read are in order. -/
theorem isOrdered_of_symbolsFrom? {symbols : List Symbol} (h : symbolsFrom? text = some symbols) :
    ∀ symbol ∈ symbols, symbol.IsOrdered := by
  fun_induction symbolsFrom? text generalizing symbols with
  | case1 =>
    obtain rfl := Option.some.inj h
    exact fun _ hmem => absurd hmem List.not_mem_nil
  | case2 => cases h
  | case3 sign text symbol rest hsymbol ih =>
    obtain ⟨others, hothers, rfl⟩ := Option.map_eq_some_iff.1 h
    exact List.forall_mem_cons.2 ⟨isOrdered_of_symbol? hsymbol, ih hothers⟩

end

/-- All that has been read in a group is in order. -/
structure OpenGroup.IsOrdered (group : OpenGroup) : Prop where
  alternatives : ∀ piece ∈ group.alternatives, piece.pattern.IsOrdered
  items : ∀ piece ∈ group.items, piece.pattern.IsOrdered

namespace OpenGroup.IsOrdered

variable {group : OpenGroup} {piece : Piece}

theorem new (flags : Flags) (isRemembered : Bool) :
    OpenGroup.IsOrdered { flags, isRemembered } :=
  ⟨fun _ hmem => absurd hmem List.not_mem_nil, fun _ hmem => absurd hmem List.not_mem_nil⟩

theorem add (h : group.IsOrdered) (hpiece : piece.pattern.IsOrdered) :
    (group.add piece).IsOrdered :=
  ⟨h.alternatives, List.forall_mem_cons.2 ⟨hpiece, h.items⟩⟩

theorem current (h : group.IsOrdered) : group.current.pattern.IsOrdered := by
  have hitems : ∀ piece ∈ group.items.reverse, piece.pattern.IsOrdered :=
    fun piece hmem => h.items piece (List.mem_reverse.1 hmem)
  rw [OpenGroup.current]
  generalize group.items.reverse = items at hitems
  unfold Piece.row
  split
  · trivial
  · exact hitems _ (List.mem_singleton_self _)
  · exact isOrdered_sequence (List.forall_mem_map.2 hitems)

theorem nextAlternative (h : group.IsOrdered) : group.nextAlternative.IsOrdered :=
  ⟨List.forall_mem_cons.2 ⟨h.current, h.alternatives⟩, fun _ hmem => absurd hmem List.not_mem_nil⟩

/-- The content of a group in order is in order. -/
theorem content (h : group.IsOrdered) : group.content.pattern.IsOrdered := by
  have hpieces : ∀ piece ∈ (group.current :: group.alternatives).reverse,
      piece.pattern.IsOrdered :=
    fun piece hmem => h.nextAlternative.alternatives piece (List.mem_reverse.1 hmem)
  rw [OpenGroup.content]
  generalize (group.current :: group.alternatives).reverse = pieces at hpieces
  cases pieces with
  | nil => trivial
  | cons first others =>
    obtain ⟨hfirst, hothers⟩ := List.forall_mem_cons.1 hpieces
    change (Piece.choice first others).pattern.IsOrdered
    unfold Piece.choice
    split
    · exact hfirst
    · exact isOrdered_alternatives hfirst (List.forall_mem_map.2 hothers)

/-- Only a repetition with its bounds in order is put on an item. -/
theorem repeatLast? {least : Nat} {most : Option Nat} {later : OpenGroup} (h : group.IsOrdered)
    (hbounds : ∀ bound ∈ most, least ≤ bound) (hlater : group.repeatLast? least most = some later) :
    later.IsOrdered := by
  unfold OpenGroup.repeatLast? at hlater
  split at hlater
  · cases hlater
  · rename_i item items hitems
    split at hlater
    · obtain rfl := Option.some.inj hlater
      have hall := h.items
      rw [hitems, List.forall_mem_cons] at hall
      exact ⟨h.alternatives, List.forall_mem_cons.2 ⟨isOrdered_repeated hall.1 hbounds, hall.2⟩⟩
    · cases hlater

end OpenGroup.IsOrdered

theorem isOrdered_ofAtom (flags : Flags) (atom : Atom) :
    (Piece.ofAtom flags atom).pattern.IsOrdered := by
  unfold Piece.ofAtom
  split <;> first | trivial | (split <;> trivial)

/-- The pattern built from symbols in order is in order. -/
theorem isOrdered_ofSymbols? {outer : List OpenGroup} {group : OpenGroup} {symbols : List Symbol}
    {piece : Piece} (hsymbols : ∀ symbol ∈ symbols, symbol.IsOrdered)
    (houter : ∀ parent ∈ outer, parent.IsOrdered) (hgroup : group.IsOrdered)
    (h : ofSymbols? outer group symbols = some piece) : piece.pattern.IsOrdered := by
  induction symbols generalizing outer group with
  | nil =>
    rw [ofSymbols?] at h
    split at h
    · obtain rfl := Option.some.inj h
      exact hgroup.content
    · cases h
  | cons symbol rest ih =>
    obtain ⟨hsymbol, hrest⟩ := List.forall_mem_cons.1 hsymbols
    cases symbol with
    | atom atom => exact ih hrest houter (hgroup.add (isOrdered_ofAtom _ _)) h
    | opening head =>
      refine ih hrest (List.forall_mem_cons.2 ⟨hgroup, houter⟩) ?_ h
      cases head <;> exact .new _ _
    | closing =>
      cases outer with
      | nil => cases h
      | cons parent outer =>
        obtain ⟨hparent, houter⟩ := List.forall_mem_cons.1 houter
        have hclosed : group.close.pattern.IsOrdered := hgroup.content
        exact ih hrest houter (hparent.add hclosed) h
    | bar => exact ih hrest houter hgroup.nextAlternative h
    | repetition least most =>
      rw [ofSymbols?] at h
      split at h
      · cases h
      · rename_i later hlater
        exact ih hrest houter (hgroup.repeatLast? hsymbol hlater) h
    | switches switches =>
      have hempty : Piece.empty.pattern.IsOrdered := trivial
      have hswitched : (group.switch switches).IsOrdered :=
        ⟨hgroup.alternatives, (hgroup.add hempty).items⟩
      exact ih hrest houter hswitched h

/-- The bounds of every pattern that can be read are in order. -/
theorem isOrdered_of_read {source : String} {pattern : Pattern}
    (h : read source = .ok pattern) : pattern.IsOrdered := by
  unfold read at h
  split at h
  · rename_i piece hpiece
    obtain rfl := Except.ok.inj h
    obtain ⟨hread, -⟩ := Option.filter_eq_some_iff.1 hpiece
    obtain ⟨symbols, hsymbols, hpiece⟩ := Option.bind_eq_some_iff.1 hread
    obtain ⟨hfrom, -⟩ := Option.filter_eq_some_iff.1 hsymbols
    obtain ⟨signs, -, hsigns⟩ := Option.bind_eq_some_iff.1 hfrom
    exact isOrdered_ofSymbols? (isOrdered_of_symbolsFrom? hsigns)
      (fun _ hmem => absurd hmem List.not_mem_nil) (.new {} true) hpiece
  · cases h

/-- A pattern that can be read occurs in a text just if it matches some part of it. -/
theorem occursIn_iff_of_read {source : String} {pattern : Pattern}
    (h : read source = .ok pattern) (text : String) :
    pattern.occursIn text = true ↔ ∃ before matched after,
      text.toList = before ++ matched ++ after ∧
        pattern.Matches before.getLast? matched after.head? :=
  occursIn_iff (isOrdered_of_read h) text

end Assemblage.Pattern
