import Mathlib.Data.List.Basic
import Mathlib.Logic.Function.Basic
import Assemblage.Script.Location

/-!
# Identifiers tell names apart

An escaped name can be read again, so no two names have one identifier.  As no
identifier holds a period, the same goes for dotted paths; as none is a reserved
word, no namespace is mistaken for the object around the types without one.
-/

namespace Assemblage

namespace Text.Numeral

theorem digitValue?_digit : ∀ value < 16, digitValue? 16 (digit value) = some value := by
  decide

theorem valueFrom?_append {base value : Nat} {digits : List Char} {middle : Nat}
    (h : valueFrom? base value digits = some middle) (rest : List Char) :
    valueFrom? base value (digits ++ rest) = valueFrom? base middle rest := by
  induction digits generalizing value with
  | nil => rw [List.nil_append, Option.some.inj h]
  | cons c digits ih =>
    rw [List.cons_append, valueFrom?]
    rw [valueFrom?] at h
    cases hdigit : digitValue? base c with
    | none => simp [hdigit] at h
    | some digit =>
      simp only [hdigit] at h ⊢
      exact ih h

/-- A number that fits into the digits is read again. -/
theorem valueFrom?_padded {width code : Nat} (h : code < Nat.pow 16 width) :
    valueFrom? 16 0 (padded 16 width code) = some code := by
  induction width generalizing code with
  | zero =>
    obtain rfl : code = 0 := Nat.lt_one_iff.1 h
    rfl
  | succ width ih =>
    have hfront : code / 16 < Nat.pow 16 width :=
      Nat.div_lt_of_lt_mul (by rw [Nat.mul_comm]; exact h)
    rw [padded, valueFrom?_append (ih hfront), valueFrom?,
      digitValue?_digit _ (Nat.mod_lt _ (by decide))]
    simp only [valueFrom?]
    rw [Nat.mul_comm, Nat.div_add_mod]

theorem exists_digit_of_mem_padded {width code : Nat} {c : Char} (h : c ∈ padded 16 width code) :
    ∃ value < 16, digit value = c := by
  induction width generalizing code with
  | zero => cases h
  | succ width ih =>
    rcases List.mem_append.1 h with h | h
    · exact ih h
    · exact ⟨code % 16, Nat.mod_lt _ (by decide), (List.mem_singleton.1 h).symm⟩

end Text.Numeral

namespace Script.Identifier

open Text.Numeral

/-- Digits stand for themselves and are none of the letters that tell how many follow. -/
theorem isPlain_digit : ∀ value < 16,
    isPlain (digit value) = true ∧ digit value ≠ 'u' ∧ digit value ≠ 'U' := by
  decide

theorem ne_of_isPlain {c other : Char} (h : isPlain c = true) (hother : isPlain other = false) :
    c ≠ other := by
  rintro rfl
  rw [h] at hother
  cases hother

theorem isPlain_of_mem_padded {width code : Nat} {c : Char} (h : c ∈ padded 16 width code) :
    isPlain c = true ∧ c ≠ 'u' ∧ c ≠ 'U' := by
  obtain ⟨value, hvalue, rfl⟩ := exists_digit_of_mem_padded h
  exact isPlain_digit value hvalue

/-- The digits of a character are read as that character. -/
theorem charOfHex?_padded {c : Char} {width : Nat} (hwidth : 0 < width)
    (h : c.toNat < Nat.pow 16 width) : charOfHex? (padded 16 width c.toNat) = some c := by
  have hread : read? 16 (Nat.pow 2 32) (padded 16 width c.toNat) = some c.toNat := by
    have hvalue := valueFrom?_padded h
    have hbound : c.toNat < Nat.pow 2 32 := c.val.toNat_lt
    have hsign : ∀ first ∈ padded 16 width c.toNat, first ≠ '+' :=
      fun first hfirst => ne_of_isPlain (isPlain_of_mem_padded hfirst).1 rfl
    cases hdigits : padded 16 width c.toNat with
    | nil => cases width <;> simp [padded] at hwidth hdigits
    | cons first others =>
      rw [hdigits] at hvalue hsign
      simp [read?, hsign first List.mem_cons_self, hvalue, hbound]
  have hvalid : c.toNat.isValidChar := c.valid
  rw [charOfHex?, hread]
  exact dif_pos hvalid

theorem unescapeChars_cons {c : Char} (h : c ≠ '$') (rest : List Char) :
    unescapeChars (c :: rest) = (unescapeChars rest).map (c :: ·) := by
  rw [unescapeChars.eq_def]
  split
  · simp_all
  · simp_all
  · simp_all
  · simp_all
  · rename_i heq
    obtain ⟨rfl, rfl⟩ := List.cons.inj heq
    rw [if_neg h]
    cases unescapeChars _ <;> rfl

/-- The code of a character is read as that character. -/
theorem unescapeChars_escapeCode (c : Char) (rest : List Char) :
    unescapeChars (escapeCode c.toNat ++ rest) = (unescapeChars rest).map (c :: ·) := by
  rw [escapeCode]
  split
  · rename_i hshort
    have hread : charOfHex? (padded 16 2 c.toNat) = some c :=
      charOfHex?_padded (by decide) (Nat.lt_succ_of_le hshort)
    -- The first digit is not taken for a letter that announces a longer code.
    have hfirst : digit (c.toNat / 16 % 16) ∈ padded 16 2 c.toNat := List.mem_cons_self
    obtain ⟨-, hu, hU⟩ := isPlain_of_mem_padded hfirst
    simp only [padded, List.nil_append, List.cons_append] at hread ⊢
    rw [unescapeChars.eq_4 _ _ _ (by simp_all) (by simp_all), if_neg (by simp [hu, hU]), hread]
    cases unescapeChars rest <;> rfl
  split
  · rename_i hmiddle
    have hread : charOfHex? (padded 16 4 c.toNat) = some c :=
      charOfHex?_padded (by decide) (Nat.lt_succ_of_le hmiddle)
    simp only [padded, List.nil_append, List.cons_append] at hread ⊢
    rw [unescapeChars, hread]
    cases unescapeChars rest <;> rfl
  · have hread : charOfHex? (padded 16 6 c.toNat) = some c := by
      have hbound : c.toNat < 0x110000 := by
        rcases c.valid with h | ⟨-, h⟩
        · exact Nat.lt_trans h (by decide)
        · exact h
      exact charOfHex?_padded (by decide) (Nat.lt_trans hbound (by decide))
    simp only [padded, List.nil_append, List.cons_append] at hread ⊢
    rw [unescapeChars, hread]
    cases unescapeChars rest <;> rfl

/-- A character that was escaped is read back as itself. -/
theorem unescapeChars_escapeChar (c : Char) (rest : List Char) :
    unescapeChars (escapeChar c ++ rest) = (unescapeChars rest).map (c :: ·) := by
  rw [escapeChar]
  split
  · rename_i hplain
    exact unescapeChars_cons (ne_of_isPlain hplain rfl) rest
  · exact unescapeChars_escapeCode c rest

theorem unescapeChars_flatMap (text : List Char) :
    unescapeChars (text.flatMap escapeChar) = some text := by
  induction text with
  | nil => rfl
  | cons c rest ih => rw [List.flatMap_cons, unescapeChars_escapeChar, ih, Option.map_some]

/-- Escaping a text loses nothing of it. -/
theorem unescapeChars_escapeChars (text : List Char) :
    unescapeChars (escapeChars text) = some text := by
  cases text with
  | nil => rfl
  | cons c rest =>
    rw [escapeChars]
    split
    · rw [unescapeChars_escapeCode, unescapeChars_flatMap, Option.map_some]
    · rw [unescapeChars_escapeChar, unescapeChars_flatMap, Option.map_some]

/-- What an identifier is made of. -/
theorem isPlain_of_mem_escapeCode {code : Nat} {c : Char} (h : c ∈ escapeCode code) :
    isPlain c = true ∨ c = '$' := by
  have hdigits : ∀ {width}, c ∈ padded 16 width code → isPlain c = true :=
    fun hmem => (isPlain_of_mem_padded hmem).1
  rw [escapeCode] at h
  split at h
  · rcases List.mem_cons.1 h with rfl | h
    · exact .inr rfl
    · exact .inl (hdigits h)
  split at h
  all_goals
    rcases List.mem_cons.1 h with rfl | h
    · exact .inr rfl
    rcases List.mem_cons.1 h with rfl | h
    · exact .inl rfl
    · exact .inl (hdigits h)

theorem isPlain_of_mem_escapeChar {c d : Char} (h : d ∈ escapeChar c) :
    isPlain d = true ∨ d = '$' := by
  rw [escapeChar] at h
  split at h
  · rename_i hplain
    exact .inl (List.mem_singleton.1 h ▸ hplain)
  · exact isPlain_of_mem_escapeCode h

theorem isPlain_of_mem_escape {name : String} {c : Char} (h : c ∈ (escape name).toList) :
    isPlain c = true ∨ c = '$' := by
  have hchars : ∀ text : List Char, c ∈ escapeChars text → isPlain c = true ∨ c = '$' := by
    intro text htext
    cases text with
    | nil => cases htext
    | cons first rest =>
      rw [escapeChars, List.mem_append, List.mem_flatMap] at htext
      rcases htext with htext | ⟨other, -, hother⟩
      · split at htext
        · exact isPlain_of_mem_escapeCode htext
        · exact isPlain_of_mem_escapeChar htext
      · exact isPlain_of_mem_escapeChar hother
  rw [escape, String.toList_ofList, List.mem_append] at h
  rcases h with hmark | htext
  · split at hmark
    · simp at hmark
      exact .inr hmark
    · cases hmark
  · exact hchars _ htext

/-- An identifier without a mark does not begin like one with a mark. -/
theorem escapeChars_ne_mark (text rest : List Char) : escapeChars text ≠ '$' :: '$' :: rest := by
  have hcode : ∀ code more, escapeCode code ++ more ≠ '$' :: '$' :: rest := by
    intro code more heq
    have hfirst : digit (code / 16 % 16) ∈ padded 16 2 code := List.mem_cons_self
    have hdigit : digit (code / 16 % 16) ≠ '$' :=
      ne_of_isPlain (isPlain_of_mem_padded hfirst).1 rfl
    rw [escapeCode] at heq
    split at heq
    · simp [padded, hdigit] at heq
    split at heq
    all_goals simp at heq
  cases text with
  | nil => simp [escapeChars]
  | cons c others =>
    rw [escapeChars]
    split
    · exact hcode _ _
    rw [escapeChar]
    split
    · rename_i hplain
      intro heq
      exact ne_of_isPlain hplain rfl (List.cons.inj heq).1
    · exact hcode _ _

/-- An identifier can be read again. -/
theorem unescape?_escape (name : String) : unescape? (escape name) = some name := by
  have hread : (unescapeChars (escapeChars name.toList)).map String.ofList = some name := by
    rw [unescapeChars_escapeChars, Option.map_some, String.ofList_toList]
  rw [unescape?, escape, String.toList_ofList]
  by_cases hmark : (name.isEmpty || isReserved name) = true
  · rw [if_pos hmark]
    exact hread
  · rw [if_neg hmark, List.nil_append]
    split
    · rename_i rest heq
      exact absurd heq (escapeChars_ne_mark _ rest)
    · exact hread

/-- Different names have different identifiers. -/
theorem escape_injective : Function.Injective escape := by
  intro left right heq
  have hread := unescape?_escape left
  rw [heq, unescape?_escape] at hread
  exact (Option.some.inj hread).symm

/-- What the script takes for an identifier. -/
structure IsUsable (word : String) : Prop where
  ne_empty : word ≠ ""
  chars : ∀ c ∈ word.toList, c.isAlphanum = true ∨ c = '_' ∨ c = '$'
  head : ∀ c ∈ word.toList.head?, c.isDigit = false
  not_reserved : isReserved word = false

theorem escape_ne_empty (name : String) : escape name ≠ "" := by
  intro heq
  have hread := unescape?_escape name
  have hempty : unescape? "" = some "" := rfl
  rw [heq, hempty] at hread
  rw [← Option.some.inj hread] at heq
  exact absurd heq (by decide)

/-- A digit in front is written by its code, and codes begin with a dollar sign. -/
theorem isDigit_head_escape {name : String} {c : Char} (h : c ∈ (escape name).toList.head?) :
    c.isDigit = false := by
  have hcode : ∀ code rest, c ∈ (escapeCode code ++ rest).head? → c = '$' := by
    intro code rest hmem
    rw [escapeCode] at hmem
    split at hmem
    · exact (Option.some.inj hmem).symm
    split at hmem
    all_goals exact (Option.some.inj hmem).symm
  rw [escape, String.toList_ofList] at h
  split at h
  · obtain rfl : '$' = c := Option.some.inj h
    rfl
  cases htext : name.toList with
  | nil =>
    rw [htext] at h
    cases h
  | cons first rest =>
    rw [htext, List.nil_append, escapeChars] at h
    split at h
    · rw [hcode _ _ h]
      rfl
    · rename_i hdigit
      rw [escapeChar] at h
      split at h
      · obtain rfl : first = c := Option.some.inj h
        exact Bool.eq_false_iff.2 hdigit
      · rw [hcode _ _ h]
        rfl

/-- A reserved word stands for itself when it is read, and is never written. -/
theorem isReserved_escape (name : String) : isReserved (escape name) = false := by
  have hwords : ∀ word ∈ reservedWords, unescape? word = some word ∧ escape word ≠ word := by
    decide
  rw [isReserved, List.contains_eq_mem, decide_eq_false_iff_not]
  intro hmem
  obtain ⟨hread, hwritten⟩ := hwords _ hmem
  rw [unescape?_escape] at hread
  exact hwritten (congrArg escape (Option.some.inj hread).symm)

/-- An escaped name can be used as an identifier: it is not empty, does not begin with a digit
and is not reserved. -/
theorem isUsable_escape (name : String) : IsUsable (escape name) where
  ne_empty := escape_ne_empty name
  chars c hc := by
    rcases isPlain_of_mem_escape hc with hplain | hdollar
    · rw [isPlain, Bool.or_eq_true, beq_iff_eq] at hplain
      exact hplain.imp_right .inl
    · exact .inr (.inr hdollar)
  head _ := isDigit_head_escape
  not_reserved := isReserved_escape name

/-- The word for the object around the types without a namespace is no identifier. -/
theorem escape_ne_globalParent (name : String) : escape name ≠ Location.globalParent := by
  intro heq
  have hreserved := isReserved_escape name
  rw [heq] at hreserved
  exact absurd hreserved (by decide)

/-! ## Paths -/

theorem period_not_mem_escape (name : String) : '.' ∉ (escape name).toList := by
  intro h
  rcases isPlain_of_mem_escape h with h | h
  · exact absurd h (by decide)
  · exact absurd h (by decide)

/-- The segments of a path are the identifiers of the segments. -/
theorem segments_escapePath (path : String) :
    Text.segments '.' (escapePath path).toList =
      (Text.segments '.' path.toList).map fun segment =>
        (escape (String.ofList segment)).toList := by
  have hperiod : ".".toList = ['.'] := rfl
  rw [escapePath, Text.toList_intercalate hperiod, List.map_map, Text.segments_joinWith]
  · rfl
  · simpa using Text.segments_ne_nil '.' path.toList
  · intro piece hpiece
    obtain ⟨segment, -, rfl⟩ := List.mem_map.1 hpiece
    exact period_not_mem_escape _

/-- Different paths stay different when their parts are escaped. -/
theorem escapePath_injective : Function.Injective escapePath := by
  intro left right heq
  have hsegments := segments_escapePath left
  rw [heq, segments_escapePath] at hsegments
  have hone : Function.Injective fun segment : List Char =>
      (escape (String.ofList segment)).toList := by
    intro segment other h
    exact String.ofList_injective (escape_injective (String.toList_injective h))
  have hsame := List.map_injective_iff.2 hone hsegments
  have htext : left.toList = right.toList := by
    rw [← Text.joinWith_segments '.' left.toList, ← hsame, Text.joinWith_segments]
  exact String.toList_injective htext

/-- No escaped path is the object that global types are put on. -/
theorem escapePath_ne_globalParent (path : String) : escapePath path ≠ Location.globalParent := by
  intro heq
  have hsegments := segments_escapePath path
  have hword : Text.segments '.' Location.globalParent.toList = [Location.globalParent.toList] := by
    decide
  rw [heq, hword] at hsegments
  obtain ⟨segment, -, hsegment⟩ := List.mem_map.1 (hsegments ▸ List.mem_cons_self)
  exact escape_ne_globalParent _ (String.toList_injective hsegment)

/-- The segments of a path are read again one by one. -/
theorem map_unescape?_escapePath (path : String) :
    (Text.segments '.' (escapePath path).toList).map (fun segment =>
        unescape? (String.ofList segment)) =
      (Text.segments '.' path.toList).map fun segment => some (String.ofList segment) := by
  rw [segments_escapePath, List.map_map]
  apply List.map_congr_left
  intro segment _
  rw [Function.comp_apply, String.ofList_toList, unescape?_escape]

/-- Every name has a usable identifier that is read as that name again, and every path
one that is read segment by segment; so neither names nor paths are confused. -/
theorem escape_isUsable_and_readable :
    (∀ name, IsUsable (escape name) ∧ unescape? (escape name) = some name) ∧
      Function.Injective escape ∧
      (∀ path, (Text.segments '.' (escapePath path).toList).map (fun segment =>
          unescape? (String.ofList segment)) =
        (Text.segments '.' path.toList).map fun segment => some (String.ofList segment)) ∧
      Function.Injective escapePath :=
  ⟨fun name => ⟨isUsable_escape name, unescape?_escape name⟩, escape_injective,
    map_unescape?_escapePath, escapePath_injective⟩

end Script.Identifier

namespace Script.Location

/-- A full name is cut in one place at most. -/
theorem ofFullName_eq (fullName : String) :
    ofFullName fullName = { parent := globalParent, name := Identifier.escape fullName } ∨
      ∃ space name, fullName = space ++ "." ++ name ∧
        ofFullName fullName =
          { parent := Identifier.escapePath space, name := Identifier.escape name } := by
  have hwhole := Text.firstSegment_append_drop '/' fullName.toList
  have hjoined := Text.joinWith_segments '.' (Text.firstSegment '/' fullName.toList)
  have hpieces := Text.segments_ne_nil '.' (Text.firstSegment '/' fullName.toList)
  simp only [ofFullName, Text.lastSegment, List.getLast?_eq_getLast_of_ne_nil hpieces]
  rw [← List.dropLast_append_getLast hpieces] at hjoined
  split
  · exact .inl rfl
  · rename_i hspaces
    rw [Text.joinWith_concat hspaces] at hjoined
    refine .inr ⟨_, _, String.toList_injective ?_, rfl⟩
    refine hwhole.symm.trans ((congrArg (· ++ _) hjoined.symm).trans ?_)
    simp only [String.toList_append, String.toList_ofList, Option.getD_some, List.append_assoc]
    rfl

/-- No two types live in one place. -/
theorem ofFullName_injective : Function.Injective ofFullName := by
  intro left right heq
  rcases ofFullName_eq left with hleft | ⟨space, name, rfl, hleft⟩
  all_goals
    rcases ofFullName_eq right with hright | ⟨space', name', rfl, hright⟩
    all_goals rw [hleft, hright, Location.mk.injEq] at heq
  · exact Identifier.escape_injective heq.2
  · exact absurd heq.1.symm (Identifier.escapePath_ne_globalParent _)
  · exact absurd heq.1 (Identifier.escapePath_ne_globalParent _)
  · rw [Identifier.escapePath_injective heq.1, Identifier.escape_injective heq.2]

theorem period_not_mem_name (fullName : String) : '.' ∉ (ofFullName fullName).name.toList := by
  rcases ofFullName_eq fullName with heq | ⟨space, name, -, heq⟩
  all_goals
    rw [heq]
    exact Identifier.period_not_mem_escape _

/-- No two types are kept under one path. -/
theorem path_ofFullName_injective :
    Function.Injective fun fullName => (ofFullName fullName).path := by
  intro left right heq
  have htext := congrArg String.toList heq
  simp only [path, String.toList_append, List.append_assoc] at htext
  obtain ⟨hparent, hname⟩ := Text.append_separator_inj (period_not_mem_name left)
    (period_not_mem_name right) htext
  apply ofFullName_injective
  rw [Location.mk.injEq]
  exact ⟨String.toList_injective hparent, String.toList_injective hname⟩

end Script.Location

end Assemblage
