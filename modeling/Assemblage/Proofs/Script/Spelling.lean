import Assemblage.Proofs.Script.Identifier
import Mathlib.Data.List.Induction

/-!
# Canonical identifiers

Reading an identifier is more lenient than writing one: it takes capital digits, a
sign, codes that are wider than they have to be or that no one needs, and it leaves
alone whatever is no code.  What is written is canonical, which an identifier shows
by itself, and an identifier that can be read is one that is written exactly if it
is canonical.
-/

namespace Assemblage

namespace Text.Numeral

/-- A digit that a number is written with. -/
def isSmallDigit (c : Char) : Bool :=
  ('0' ≤ c && c ≤ '9') || ('a' ≤ c && c ≤ 'f')

theorem isSmallDigit_digit : ∀ value < 16, isSmallDigit (digit value) = true := by
  decide

theorem all_isSmallDigit_padded (width code : Nat) :
    (padded 16 width code).all isSmallDigit = true := by
  rw [List.all_eq_true]
  intro c hc
  obtain ⟨value, hvalue, rfl⟩ := exists_digit_of_mem_padded hc
  exact isSmallDigit_digit value hvalue

theorem length_padded (base width value : Nat) : (padded base width value).length = width := by
  induction width generalizing value with
  | zero => rfl
  | succ width ih => rw [padded, List.length_append, ih, List.length_singleton]

theorem digit_of_digitValue? {c : Char} {value : Nat} (hsmall : isSmallDigit c = true)
    (h : digitValue? 16 c = some value) : value < 16 ∧ digit value = c := by
  rw [digitValue?, Option.filter_eq_some_iff, decide_eq_true_eq] at h
  obtain ⟨hvalue, hbound⟩ := h
  refine ⟨hbound, ?_⟩
  have hcode : ∀ n, n = c.toNat → Char.ofNat n = c := by
    rintro n rfl
    exact Char.ofNat_toNat c
  simp only [isSmallDigit, Bool.or_eq_true, Bool.and_eq_true, decide_eq_true_eq] at hsmall
  by_cases hdigit : '0' ≤ c ∧ c ≤ '9'
  · rw [if_pos hdigit, Option.some.injEq] at hvalue
    have hlow : 48 ≤ c.toNat := hdigit.1
    have hhigh : c.toNat ≤ 57 := hdigit.2
    have hzero : '0'.toNat = 48 := rfl
    rw [digit, if_pos (by omega)]
    exact hcode _ (by omega)
  · have hletter : 'a' ≤ c ∧ c ≤ 'f' := hsmall.resolve_left hdigit
    rw [if_neg hdigit, if_pos hletter, Option.some.injEq] at hvalue
    have hlow : 97 ≤ c.toNat := hletter.1
    have hletterCode : 'a'.toNat = 97 := rfl
    rw [digit, if_neg (by omega)]
    exact hcode _ (by omega)

theorem valueFrom?_concat (base value : Nat) (digits : List Char) (c : Char) :
    valueFrom? base value (digits ++ [c]) =
      (valueFrom? base value digits).bind fun middle =>
        (digitValue? base c).map fun last => middle * base + last := by
  induction digits generalizing value with
  | nil =>
    rw [List.nil_append, valueFrom?, valueFrom?, Option.bind_some]
    cases digitValue? base c <;> rfl
  | cons first rest ih =>
    rw [List.cons_append, valueFrom?, valueFrom?]
    cases digitValue? base first with
    | none => rfl
    | some digit => exact ih _

/-- Small digits are the ones that their number is written with. -/
theorem padded_of_valueFrom? {digits : List Char} {value : Nat}
    (hsmall : digits.all isSmallDigit = true) (h : valueFrom? 16 0 digits = some value) :
    padded 16 digits.length value = digits := by
  induction digits using List.reverseRecOn generalizing value with
  | nil => rfl
  | append_singleton digits c ih =>
    rw [valueFrom?_concat, Option.bind_eq_some_iff] at h
    obtain ⟨front, hfront, hlast⟩ := h
    obtain ⟨last, hdigit, rfl⟩ := Option.map_eq_some_iff.1 hlast
    rw [List.all_append, Bool.and_eq_true, List.all_cons, Bool.and_eq_true] at hsmall
    obtain ⟨hbound, hc⟩ := digit_of_digitValue? hsmall.2.1 hdigit
    have hquotient : (front * 16 + last) / 16 = front := by omega
    have hremainder : (front * 16 + last) % 16 = last := by omega
    rw [List.length_append, List.length_singleton, padded, hquotient, hremainder, hc,
      ih hsmall.1 hfront]

end Text.Numeral

namespace Script.Identifier

open Text.Numeral

/-- A character that does not stand for itself, at the front of an identifier or
behind it. -/
def needsCode (front : Bool) (c : Char) : Bool :=
  !isPlain c || (front && c.isDigit)

def codeWidth (c : Char) : Nat :=
  if c.toNat ≤ 0xff then 2 else if c.toNat ≤ 0xffff then 4 else 6

/-- Small digits, as few as possible, for a character that needs them. -/
def isCanonicalCode (front : Bool) (digits : List Char) : Bool :=
  digits.all isSmallDigit &&
    (charOfHex? digits).any fun c => needsCode front c && codeWidth c == digits.length

/-- An identifier without its mark, from the front on or from a later place. -/
def isCanonicalBody (front : Bool) : List Char → Bool
  | [] => true
  | '$' :: 'u' :: a :: b :: c :: d :: rest =>
    isCanonicalCode front [a, b, c, d] && isCanonicalBody false rest
  | '$' :: 'U' :: a :: b :: c :: d :: e :: f :: rest =>
    isCanonicalCode front [a, b, c, d, e, f] && isCanonicalBody false rest
  | '$' :: a :: b :: rest => isCanonicalCode front [a, b] && isCanonicalBody false rest
  | c :: rest => !needsCode front c && isCanonicalBody false rest

/-- Reserved words and the empty word have the mark, and nothing else has it. -/
def isCanonical (identifier : String) : Bool :=
  match identifier.toList with
  | '$' :: '$' :: rest => rest.isEmpty || isReserved (String.ofList rest)
  | whole => !whole.isEmpty && !isReserved identifier && isCanonicalBody true whole

def escapeAt (front : Bool) (c : Char) : List Char :=
  if needsCode front c then escapeCode c.toNat else [c]

/-- A name without its mark, from the front on or from a later place. -/
def spelled (front : Bool) : List Char → List Char
  | [] => []
  | c :: rest => escapeAt front c ++ spelled false rest

theorem spelled_false (text : List Char) : spelled false text = text.flatMap escapeChar := by
  induction text with
  | nil => rfl
  | cons c rest ih =>
    have hchar : escapeAt false c = escapeChar c := by
      cases hplain : isPlain c <;> simp [escapeAt, needsCode, escapeChar, hplain]
    rw [spelled, ih, hchar, List.flatMap_cons]

theorem spelled_true (text : List Char) : spelled true text = escapeChars text := by
  cases text with
  | nil => rfl
  | cons c rest =>
    have hchar : escapeAt true c = if c.isDigit then escapeCode c.toNat else escapeChar c := by
      cases hplain : isPlain c <;> cases hdigit : c.isDigit <;>
        simp [escapeAt, needsCode, escapeChar, hplain, hdigit]
    rw [spelled, hchar, spelled_false, escapeChars]

/-- What stands before the digits and tells how many follow. -/
def announcement : Nat → List Char
  | 4 => ['$', 'u']
  | 6 => ['$', 'U']
  | _ => ['$']

theorem codeWidth_cases (c : Char) : codeWidth c = 2 ∨ codeWidth c = 4 ∨ codeWidth c = 6 := by
  rw [codeWidth]
  split
  · exact .inl rfl
  split
  · exact .inr (.inl rfl)
  · exact .inr (.inr rfl)

/-- A code is announced by its width and has as many digits. -/
theorem escapeCode_eq (c : Char) :
    escapeCode c.toNat = announcement (codeWidth c) ++ padded 16 (codeWidth c) c.toNat := by
  rw [codeWidth, escapeCode]
  split
  · rfl
  split <;> rfl

theorem isCanonicalBody_cons {front : Bool} {c : Char} (h : needsCode front c = false)
    (rest : List Char) : isCanonicalBody front (c :: rest) = isCanonicalBody false rest := by
  have hplain : isPlain c = true := by
    rw [needsCode, Bool.or_eq_false_iff, Bool.not_eq_false'] at h
    exact h.1
  have hmark : c ≠ '$' := ne_of_isPlain hplain rfl
  rw [isCanonicalBody.eq_def]
  split
  · simp_all
  · simp_all
  · simp_all
  · simp_all
  · rename_i heq
    obtain ⟨rfl, rfl⟩ := List.cons.inj heq
    rw [h, Bool.not_false, Bool.true_and]

/-- The code of a character is read back as the character. -/
theorem charOfHex?_padded_codeWidth (c : Char) :
    charOfHex? (padded 16 (codeWidth c) c.toNat) = some c := by
  have hlast : c.toNat < 0x110000 := by
    rcases c.valid with h | ⟨-, h⟩
    · exact Nat.lt_trans h (by decide)
    · exact h
  rw [codeWidth]
  split
  · rename_i hshort
    exact charOfHex?_padded (by decide) (Nat.lt_succ_of_le hshort)
  split
  · rename_i hmiddle
    exact charOfHex?_padded (by decide) (Nat.lt_succ_of_le hmiddle)
  · exact charOfHex?_padded (by decide) (Nat.lt_trans hlast (by decide))

/-- The code of a character that needs one is canonical. -/
theorem isCanonicalCode_padded {front : Bool} {c : Char} (h : needsCode front c = true) :
    isCanonicalCode front (padded 16 (codeWidth c) c.toNat) = true := by
  rw [isCanonicalCode, all_isSmallDigit_padded, charOfHex?_padded_codeWidth, length_padded,
    Option.any_some, h, beq_self_eq_true]
  rfl

/-- The code of a character that needs one is canonical. -/
theorem isCanonicalBody_escapeCode {front : Bool} {c : Char} (h : needsCode front c = true)
    (rest : List Char) :
    isCanonicalBody front (escapeCode c.toNat ++ rest) = isCanonicalBody false rest := by
  have hcanonical := isCanonicalCode_padded h
  rw [escapeCode_eq]
  rcases codeWidth_cases c with hwidth | hwidth | hwidth
  all_goals
    rw [hwidth] at hcanonical ⊢
    simp only [announcement, padded, List.nil_append, List.cons_append] at hcanonical ⊢
  · -- The first digit is not taken for a letter that announces a longer code.
    have hfirst : digit (c.toNat / 16 % 16) ∈ padded 16 2 c.toNat := List.mem_cons_self
    obtain ⟨-, hu, hU⟩ := isPlain_of_mem_padded hfirst
    rw [isCanonicalBody.eq_4 _ _ _ _ (by simp_all) (by simp_all), hcanonical, Bool.true_and]
  · rw [isCanonicalBody, hcanonical, Bool.true_and]
  · rw [isCanonicalBody, hcanonical, Bool.true_and]

/-- What is spelled is canonical. -/
theorem isCanonicalBody_spelled (front : Bool) (text : List Char) :
    isCanonicalBody front (spelled front text) = true := by
  induction text generalizing front with
  | nil => rfl
  | cons c rest ih =>
    rw [spelled, escapeAt]
    split
    · rename_i hneeds
      rw [isCanonicalBody_escapeCode hneeds, ih]
    · rename_i hneeds
      rw [List.singleton_append, isCanonicalBody_cons (Bool.eq_false_iff.2 hneeds), ih]

/-! ## What is read -/

theorem valueFrom?_of_charOfHex? {digits : List Char} {c : Char}
    (hsmall : digits.all isSmallDigit = true) (h : charOfHex? digits = some c) :
    valueFrom? 16 0 digits = some c.toNat := by
  rw [charOfHex?] at h
  cases hcode : read? 16 (Nat.pow 2 32) digits with
  | none =>
    rw [hcode] at h
    cases h
  | some code =>
    have hvalue : valueFrom? 16 0 digits = some code := by
      rw [read?.eq_def] at hcode
      split at hcode
      · exact absurd hsmall Bool.false_ne_true
      · dsimp only at hcode
        split at hcode
        · cases hcode
        · exact (Option.filter_eq_some_iff.1 hcode).1
    rw [hcode] at h
    by_cases hvalid : code.isValidChar
    · cases (dif_pos hvalid).symm.trans h
      exact hvalue
    · cases (dif_neg hvalid).symm.trans h

/-- A canonical code is the one that its character is written with. -/
theorem exists_char_of_isCanonicalCode {front : Bool} {digits : List Char}
    (h : isCanonicalCode front digits = true) :
    ∃ c, charOfHex? digits = some c ∧
      escapeAt front c = announcement digits.length ++ digits := by
  simp only [isCanonicalCode, Bool.and_eq_true, Option.any_eq_true, beq_iff_eq] at h
  obtain ⟨hsmall, c, hread, hneeds, hwidth⟩ := h
  have hdigits := padded_of_valueFrom? hsmall (valueFrom?_of_charOfHex? hsmall hread)
  refine ⟨c, hread, ?_⟩
  rw [escapeAt, if_pos hneeds, escapeCode_eq, hwidth, hdigits]

/-- A canonical code at the front of a text is the spelling of one character. -/
theorem exists_name_of_code {front : Bool} {digits rest text : List Char}
    (hcode : isCanonicalCode front digits = true)
    (htext : announcement digits.length ++ digits ++ rest = text)
    (hread : ∀ char, charOfHex? digits = some char →
      unescapeChars text = (unescapeChars rest).map (char :: ·))
    (hrest : ∃ name, unescapeChars rest = some name ∧ spelled false name = rest) :
    ∃ name, unescapeChars text = some name ∧ spelled front name = text := by
  obtain ⟨char, hchar, hwritten⟩ := exists_char_of_isCanonicalCode hcode
  obtain ⟨name, hname, hspelled⟩ := hrest
  refine ⟨char :: name, ?_, ?_⟩
  · rw [hread char hchar, hname, Option.map_some]
  · rw [spelled, hwritten, hspelled, htext]

/-- A canonical text can be read, and what is read is written as this text. -/
theorem exists_name_of_isCanonicalBody {front : Bool} {text : List Char}
    (h : isCanonicalBody front text = true) :
    ∃ name, unescapeChars text = some name ∧ spelled front name = text := by
  fun_induction isCanonicalBody front text with
  | case1 => exact ⟨[], rfl, rfl⟩
  | case2 front a b c d rest ih | case3 front a b c d e f rest ih =>
    rw [Bool.and_eq_true] at h
    refine exists_name_of_code h.1 rfl (fun char hchar => ?_) (ih h.2)
    rw [unescapeChars, hchar]
    cases unescapeChars rest <;> rfl
  | case4 front a b rest hu hU ih =>
    rw [Bool.and_eq_true] at h
    have hdigit : isSmallDigit a = true := by
      rw [isCanonicalCode, List.all_cons, Bool.and_assoc, Bool.and_eq_true] at h
      exact h.1.1
    have hletter : ¬(a = 'u' ∨ a = 'U') := by
      rintro (rfl | rfl)
      all_goals exact absurd hdigit (by decide)
    refine exists_name_of_code h.1 rfl (fun char hchar => ?_) (ih h.2)
    rw [unescapeChars.eq_4 _ _ _ (by simp_all) (by simp_all), if_neg hletter, hchar]
    cases unescapeChars rest <;> rfl
  | case5 front c rest hu hU hshort ih =>
    rw [Bool.and_eq_true, Bool.not_eq_true'] at h
    have hmark : c ≠ '$' := by
      rintro rfl
      exact absurd h.1 (by cases front <;> decide)
    obtain ⟨name, hname, hspelled⟩ := ih h.2
    refine ⟨c :: name, by rw [unescapeChars_cons hmark, hname, Option.map_some], ?_⟩
    rw [spelled, escapeAt, h.1, hspelled]
    rfl

/-- A reserved word is plain throughout, so that only its mark tells it from itself. -/
theorem chars_of_isReserved {word : String} (h : isReserved word = true) :
    escapeChars word.toList = word.toList ∧ word.isEmpty = false := by
  have hwords : ∀ word ∈ reservedWords,
      escapeChars word.toList = word.toList ∧ word.isEmpty = false := by
    decide
  exact hwords word (List.contains_iff_mem.1 h)

/-- An escaped name is canonical. -/
theorem isCanonical_escape (name : String) : isCanonical (escape name) = true := by
  have htext : (escape name).toList =
      (if name.isEmpty || isReserved name then ['$', '$'] else []) ++ escapeChars name.toList :=
    String.toList_ofList
  by_cases hmark : (name.isEmpty || isReserved name) = true
  · rw [if_pos hmark] at htext
    rw [isCanonical, htext]
    rcases Bool.or_eq_true_iff.1 hmark with hempty | hreserved
    · rw [String.isEmpty_iff.1 hempty]
      rfl
    · simp only [(chars_of_isReserved hreserved).1, List.cons_append, List.nil_append,
        String.ofList_toList, hreserved, Bool.or_true]
  · rw [if_neg hmark, List.nil_append] at htext
    rw [isCanonical, htext]
    split
    · rename_i rest heq
      exact absurd heq (escapeChars_ne_mark _ rest)
    · have hempty : (escapeChars name.toList).isEmpty = false := by
        rw [← htext, List.isEmpty_eq_false_iff, Ne, String.toList_eq_nil_iff]
        exact escape_ne_empty name
      rw [hempty, isReserved_escape, ← spelled_true, isCanonicalBody_spelled]
      rfl

/-- A canonical identifier can be read, and is written for what is read. -/
theorem exists_name_of_isCanonical {text : String} (h : isCanonical text = true) :
    ∃ name, unescape? text = some name ∧ escape name = text := by
  rw [isCanonical] at h
  split at h
  · rename_i rest htext
    have hword : unescapeChars rest = some rest ∧
        escape (String.ofList rest) = String.ofList ('$' :: '$' :: rest) := by
      rcases Bool.or_eq_true_iff.1 h with hempty | hreserved
      · rw [List.isEmpty_iff.1 hempty]
        exact ⟨rfl, rfl⟩
      · obtain ⟨hchars, -⟩ := chars_of_isReserved hreserved
        rw [String.toList_ofList] at hchars
        refine ⟨by rw [← hchars, unescapeChars_escapeChars, hchars], ?_⟩
        rw [escape, hreserved, Bool.or_true, if_pos rfl, String.toList_ofList, hchars]
        rfl
    refine ⟨String.ofList rest, by simp only [unescape?, htext, hword.1, Option.map_some], ?_⟩
    rw [hword.2, ← htext, String.ofList_toList]
  · rename_i hunmarked
    simp only [Bool.and_eq_true, Bool.not_eq_true'] at h
    obtain ⟨⟨hempty, hreserved⟩, hbody⟩ := h
    obtain ⟨name, hname, hspelled⟩ := exists_name_of_isCanonicalBody hbody
    rw [spelled_true] at hspelled
    have hmark : ((String.ofList name).isEmpty || isReserved (String.ofList name)) = false := by
      rw [Bool.or_eq_false_iff]
      refine ⟨Bool.eq_false_iff.2 fun hnone => ?_, Bool.eq_false_iff.2 fun hword => ?_⟩
      · obtain rfl : name = [] := String.ofList_eq_empty_iff.1 (String.isEmpty_iff.1 hnone)
        rw [← hspelled] at hempty
        cases hempty
      · have hchars := (chars_of_isReserved hword).1
        rw [String.toList_ofList, hspelled] at hchars
        rw [← String.ofList_toList (s := text), hchars, hword] at hreserved
        cases hreserved
    refine ⟨String.ofList name, ?_, ?_⟩
    · rw [unescape?]
      split
      · rename_i rest htext
        exact absurd htext (hunmarked rest)
      · rw [hname, Option.map_some]
    · rw [escape, hmark, String.toList_ofList, hspelled]
      exact String.ofList_toList

/-- A text is read only as a name that it is written for, exactly if it is not read at
all or canonical.  It is written for a name if it is canonical and read as this name,
and the canonical texts are the ones that are written for some name. -/
theorem escape_eq_iff (text : String) :
    ((∀ name, unescape? text = some name → escape name = text) ↔
      unescape? text = none ∨ isCanonical text = true) ∧
    (∀ name, escape name = text ↔ unescape? text = some name ∧ isCanonical text = true) ∧
    ((∃ name, escape name = text) ↔ isCanonical text = true) := by
  have hwritten : ∀ name, escape name = text ↔
      unescape? text = some name ∧ isCanonical text = true := by
    intro name
    constructor
    · rintro rfl
      exact ⟨unescape?_escape name, isCanonical_escape name⟩
    · rintro ⟨hread, hcanonical⟩
      obtain ⟨other, hother, hescape⟩ := exists_name_of_isCanonical hcanonical
      rw [hread, Option.some.injEq] at hother
      rw [hother, hescape]
  refine ⟨⟨fun h => ?_, ?_⟩, hwritten, ?_, fun hcanonical => ?_⟩
  · cases hread : unescape? text with
    | none => exact .inl rfl
    | some name => exact .inr ((hwritten name).1 (h name hread)).2
  · rintro (hnone | hcanonical) name hread
    · rw [hnone] at hread
      cases hread
    · exact (hwritten name).2 ⟨hread, hcanonical⟩
  · rintro ⟨name, hname⟩
    exact ((hwritten name).1 hname).2
  · obtain ⟨name, -, hname⟩ := exists_name_of_isCanonical hcanonical
    exact ⟨name, hname⟩

/-- A blank is read as it stands, and is never written so. -/
theorem not_escape_of_unescape? :
    ¬∀ text name, unescape? text = some name → escape name = text := by
  intro h
  exact absurd (h "a b" "a b" (by decide)) (by decide)

end Script.Identifier

end Assemblage
