import Assemblage.Pattern.Basic
import Assemblage.Text.Cut
import Assemblage.Text.Numeral

/-!
# Signs

The notation of patterns is first cut into signs: the characters as they are,
and what a backslash makes of those after it.  Before most signs it makes a
character that stands for itself; before a letter it names a character, a kind
of characters or an assertion.  `\x`, `\u` and `\U` give the number of a
character, in two, four or eight hexadecimal digits or in braces.
-/

namespace Assemblage.Pattern

inductive Sign where
  /-- A character that may have a meaning in the notation. -/
  | plain (c : Char)
  /-- A character that stands for itself. -/
  | escaped (c : Char)
  | kind (named : CharKind) (complemented : Bool)
  | look (assertion : Look)
deriving DecidableEq

namespace Sign

def char? : Sign → Option Char
  | .plain c | .escaped c => some c
  | .kind _ _ | .look _ => none

/-- The characters that a sign stands for where it has no other meaning. -/
def set? : Sign → Option CharSet
  | .plain c | .escaped c => some (.single c)
  | .kind named complemented =>
    some (if complemented then .complement (.kind named) else .kind named)
  | .look _ => none

/-- The characters of signs that a backslash has not changed. -/
def plainText? (signs : List Sign) : Option (List Char) :=
  signs.mapM fun
    | .plain c => some c
    | _ => none

end Sign

/-- Whether a backslash before the character makes it stand for itself. -/
def isEscapable (c : Char) : Bool :=
  decide (c.toNat < 128) && !c.isAlphanum

/-- What a backslash makes of a single character. -/
def escaped? (c : Char) : Option Sign :=
  match c with
  | 'd' => some (.kind .decimalDigit false)
  | 'D' => some (.kind .decimalDigit true)
  | 's' => some (.kind .space false)
  | 'S' => some (.kind .space true)
  | 'w' => some (.kind .word false)
  | 'W' => some (.kind .word true)
  | 'A' => some (.look .textStart)
  | 'z' => some (.look .textEnd)
  | 'B' => some (.look .noWordBoundary)
  | '<' => some (.look .wordStart)
  | '>' => some (.look .wordEnd)
  | 'a' => some (.escaped '\x07')
  | 't' => some (.escaped '\t')
  | 'n' => some (.escaped '\n')
  | 'v' => some (.escaped '\x0b')
  | 'f' => some (.escaped '\x0c')
  | 'r' => some (.escaped '\r')
  | c => if isEscapable c then some (.escaped c) else none

/-- The character with a hexadecimal number. -/
def numbered? (digits : List Char) : Option Char :=
  if digits.isEmpty then none
  else
    ((Text.Numeral.valueFrom? 16 0 digits).filter fun code => decide code.isValidChar).map
      Char.ofNat

/-- A character given by a number of `count` digits or by one in braces. -/
def numberedSign? (count : Nat) (text : List Char) : Option (Sign × List Char) :=
  match text with
  | '{' :: inside => do
    let (digits, rest) ← Text.cut? '}' inside
    return (.escaped (← numbered? digits), rest)
  | text =>
    if text.length < count then none
    else (numbered? (text.take count)).map fun c => (.escaped c, text.drop count)

def boundaryNamed? (name : String) : Option Look :=
  match name with
  | "start" => some .wordStart
  | "end" => some .wordEnd
  | "start-half" => some .wordStartHalf
  | "end-half" => some .wordEndHalf
  | _ => none

/-- An assertion about words.  A letter or a hyphen after a brace begins the
name of one; any other brace is left to what follows. -/
def boundary? (text : List Char) : Option (Sign × List Char) :=
  match text with
  | '{' :: c :: inside =>
    if c.isAlpha || c == '-' then do
      let (name, rest) ← Text.cut? '}' (c :: inside)
      return (.look (← boundaryNamed? (String.ofList name)), rest)
    else some (.look .wordBoundary, text)
  | text => some (.look .wordBoundary, text)

/-- The sign of a backslash and the text after it, and what follows the sign. -/
def escape? : List Char → Option (Sign × List Char)
  | [] => none
  | c :: rest =>
    if c = 'b' then boundary? rest
    else if c = 'x' then numberedSign? 2 rest
    else if c = 'u' then numberedSign? 4 rest
    else if c = 'U' then numberedSign? 8 rest
    else (escaped? c).map fun sign => (sign, rest)

def sign? (c : Char) (text : List Char) : Option (Sign × List Char) :=
  if c = '\\' then escape? text else some (.plain c, text)

theorem length_numberedSign? {count : Nat} {text rest : List Char} {sign : Sign}
    (h : numberedSign? count text = some (sign, rest)) : rest.length ≤ text.length := by
  unfold numberedSign? at h
  split at h
  · simp only [Option.bind_eq_bind, Option.bind_eq_some_iff, Prod.exists, Option.pure_def,
      Option.some.injEq, Prod.mk.injEq] at h
    obtain ⟨_, _, hcut, _, -, -, rfl⟩ := h
    have := Text.length_cut? hcut
    simp only [List.length_cons]
    omega
  · split at h
    · simp at h
    · obtain ⟨_, -, heq⟩ := Option.map_eq_some_iff.1 h
      simp [← (Prod.mk.inj heq).2]

theorem length_boundary? {text rest : List Char} {sign : Sign}
    (h : boundary? text = some (sign, rest)) : rest.length ≤ text.length := by
  unfold boundary? at h
  split at h
  · split at h
    · simp only [Option.bind_eq_bind, Option.bind_eq_some_iff, Prod.exists, Option.pure_def,
        Option.some.injEq, Prod.mk.injEq] at h
      obtain ⟨_, _, hcut, _, -, -, rfl⟩ := h
      have := Text.length_cut? hcut
      simp only [List.length_cons] at this ⊢
      omega
    · simp only [Option.some.injEq, Prod.mk.injEq] at h
      simp [← h.2]
  · simp only [Option.some.injEq, Prod.mk.injEq] at h
    simp [← h.2]

theorem length_escape? {text rest : List Char} {sign : Sign}
    (h : escape? text = some (sign, rest)) : rest.length ≤ text.length := by
  unfold escape? at h
  split at h
  · simp at h
  · rename_i c after
    have hrest : rest.length ≤ after.length := by
      split at h
      · exact length_boundary? h
      · split at h
        · exact length_numberedSign? h
        · split at h
          · exact length_numberedSign? h
          · split at h
            · exact length_numberedSign? h
            · obtain ⟨_, -, heq⟩ := Option.map_eq_some_iff.1 h
              simp [← (Prod.mk.inj heq).2]
    simp only [List.length_cons]
    omega

/-- A sign takes at least its first character. -/
theorem length_sign? {c : Char} {text rest : List Char} {sign : Sign}
    (h : sign? c text = some (sign, rest)) : rest.length ≤ text.length := by
  unfold sign? at h
  split at h
  · exact length_escape? h
  · simp only [Option.some.injEq, Prod.mk.injEq] at h
    simp [← h.2]

def signs? : List Char → Option (List Sign)
  | [] => some []
  | c :: text =>
    match _h : sign? c text with
    | none => none
    | some (sign, rest) => (signs? rest).map (sign :: ·)
termination_by text => text.length
decreasing_by
  have := length_sign? _h
  simp only [List.length_cons]
  omega

end Assemblage.Pattern
