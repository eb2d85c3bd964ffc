import Assemblage.Pattern.Bracket
import Assemblage.Pattern.Flags
import Assemblage.Text.Blank
import Assemblage.Text.Letter

/-!
# Symbols

Signs make up the symbols of a pattern: what matches a character or asserts
something, the parentheses of groups, bars, repetitions and switches of flags.

Repetition is written `*`, `+`, `?` or as bounds between braces, and a question
mark after it, which prefers few copies, changes nothing.  A group may have a
name; `(?:` begins one that is not remembered.
-/

namespace Assemblage.Pattern

/-- What can be repeated without parentheses.  Flags decide what some of these
match. -/
inductive Atom where
  | literal (c : Char)
  | kind (set : CharSet)
  | bracketed (content : Bracketed)
  | period
  /-- The sign `^`. -/
  | start
  /-- The sign `$`. -/
  | stop
  | look (assertion : Look)

inductive GroupHead where
  | numbered
  | named (name : List Char)
  /-- The switches hold inside the group. -/
  | unremembered (switches : List Switch)

inductive Symbol where
  | atom (atom : Atom)
  | opening (head : GroupHead)
  | closing
  | bar
  | repetition (least : Nat) (most : Option Nat)
  /-- The switches hold up to the end of the group that they stand in. -/
  | switches (switches : List Switch)

/-- A bound of a repetition: digits, with blanks around them. -/
def bound? (signs : List Sign) : Option Nat := do
  let digits := Text.trim (← Sign.plainText? signs)
  if digits.isEmpty then none else (Text.Numeral.valueFrom? 10 0 digits).filter (· < Nat.pow 2 32)

/-- The bounds that stand between braces. -/
def bounds? (inside : List Sign) : Option (Nat × Option Nat) :=
  match Text.cut? (.plain ',') inside with
  | none => (bound? inside).map fun count => (count, some count)
  | some (least, []) => (bound? least).map fun least => (least, none)
  | some (least, most) => do
    let least ← bound? least
    let most ← bound? most
    if least ≤ most then some (least, some most) else none

/-- Drops the mark that prefers few copies. -/
def afterPreference (text : List Sign) : List Sign :=
  match text with
  | .plain '?' :: rest => rest
  | text => text

/-- The repetition in braces of which the first has been read. -/
def counted? (text : List Sign) : Option (Symbol × List Sign) := do
  let (inside, rest) ← Text.cut? (.plain '}') text
  let (least, most) ← bounds? inside
  return (.repetition least most, afterPreference rest)

/-- Names start with a letter or an underscore. -/
def isNameStart (c : Char) : Bool :=
  c == '_' || Text.isAlphabetic c

def isNamePart (c : Char) : Bool :=
  isNameStart c || Text.isDecimalDigit c || c == '.' || c == '[' || c == ']'

def isName : List Char → Bool
  | [] => false
  | first :: others => isNameStart first && others.all isNamePart

/-- The start of a group whose name follows. -/
def namedGroup? (text : List Sign) : Option (Symbol × List Sign) := do
  let (name, rest) ← Text.cut? (.plain '>') text
  let name ← Sign.plainText? name
  if isName name then some (.opening (.named name), rest) else none

/-- Switches, which either stand by themselves or are the start of a group. -/
def switched? (text : List Sign) : Option (Symbol × List Sign) :=
  let letters := text.takeWhile fun sign => sign ≠ .plain ')' && sign ≠ .plain ':'
  match text.drop letters.length with
  | .plain ':' :: rest =>
    (switches? letters).map fun switches => (.opening (.unremembered switches), rest)
  | .plain ')' :: rest =>
    if letters.isEmpty then none
    else (switches? letters).map fun switches => (.switches switches, rest)
  | _ => none

/-- What a parenthesis begins. -/
def parenthesis? (text : List Sign) : Option (Symbol × List Sign) :=
  match text with
  | .plain '?' :: .plain 'P' :: .plain '<' :: rest => namedGroup? rest
  | .plain '?' :: .plain '<' :: rest => namedGroup? rest
  | .plain '?' :: rest => switched? rest
  | text => some (.opening .numbered, text)

/-! ## Reading -/

/-- The symbol of a sign that a backslash has not changed. -/
def plainSymbol? (c : Char) (text : List Sign) : Option (Symbol × List Sign) :=
  match c with
  | '.' => some (.atom .period, text)
  | '^' => some (.atom .start, text)
  | '$' => some (.atom .stop, text)
  | '|' => some (.bar, text)
  | '(' => parenthesis? text
  | ')' => some (.closing, text)
  | '*' => some (.repetition 0 none, afterPreference text)
  | '+' => some (.repetition 1 none, afterPreference text)
  | '?' => some (.repetition 0 (some 1), afterPreference text)
  | '{' => counted? text
  | '[' => (bracketedSet? text).map fun (content, rest) => (.atom (.bracketed content), rest)
  | c => some (.atom (.literal c), text)

/-- The first symbol of a text that is not empty, and what follows it. -/
def symbol? (sign : Sign) (text : List Sign) : Option (Symbol × List Sign) :=
  match sign with
  | .plain c => plainSymbol? c text
  | .escaped c => some (.atom (.literal c), text)
  | .kind named false => some (.atom (.kind (.kind named)), text)
  | .kind named true => some (.atom (.kind (.complement (.kind named))), text)
  | .look assertion => some (.atom (.look assertion), text)

theorem length_afterPreference (text : List Sign) :
    (afterPreference text).length ≤ text.length := by
  unfold afterPreference
  split <;> simp

theorem length_counted? {text rest : List Sign} {symbol : Symbol}
    (h : counted? text = some (symbol, rest)) : rest.length ≤ text.length := by
  simp only [counted?, Option.bind_eq_bind, Option.bind_eq_some_iff, Prod.exists,
    Option.pure_def, Option.some.injEq, Prod.mk.injEq] at h
  obtain ⟨_, after, hcut, _, _, -, -, rfl⟩ := h
  have hafter := Text.length_cut? hcut
  have := length_afterPreference after
  omega

theorem length_namedGroup? {text rest : List Sign} {symbol : Symbol}
    (h : namedGroup? text = some (symbol, rest)) : rest.length ≤ text.length := by
  simp only [namedGroup?, Option.bind_eq_bind, Option.bind_eq_some_iff, Prod.exists] at h
  obtain ⟨_, after, hcut, _, -, h⟩ := h
  split at h
  · simp only [Option.some.injEq, Prod.mk.injEq] at h
    have hafter := Text.length_cut? hcut
    rw [← h.2]
    omega
  · simp at h

theorem length_switched? {text rest : List Sign} {symbol : Symbol}
    (h : switched? text = some (symbol, rest)) : rest.length ≤ text.length := by
  unfold switched? at h
  simp only at h
  split at h
  · rename_i heq
    obtain ⟨_, -, hpair⟩ := Option.map_eq_some_iff.1 h
    have := congrArg List.length heq
    simp only [List.length_drop, List.length_cons] at this
    rw [← (Prod.mk.inj hpair).2]
    omega
  · rename_i heq
    split at h
    · simp at h
    · obtain ⟨_, -, hpair⟩ := Option.map_eq_some_iff.1 h
      have := congrArg List.length heq
      simp only [List.length_drop, List.length_cons] at this
      rw [← (Prod.mk.inj hpair).2]
      omega
  · simp at h

theorem length_parenthesis? {text rest : List Sign} {symbol : Symbol}
    (h : parenthesis? text = some (symbol, rest)) : rest.length ≤ text.length := by
  unfold parenthesis? at h
  split at h
  · have := length_namedGroup? h
    simp only [List.length_cons]
    omega
  · have := length_namedGroup? h
    simp only [List.length_cons]
    omega
  · have := length_switched? h
    simp only [List.length_cons]
    omega
  · simp only [Option.some.injEq, Prod.mk.injEq] at h
    simp [← h.2]

theorem length_plainSymbol? {c : Char} {text rest : List Sign} {symbol : Symbol}
    (h : plainSymbol? c text = some (symbol, rest)) : rest.length ≤ text.length := by
  unfold plainSymbol? at h
  split at h
  case h_5 => exact length_parenthesis? h
  case h_7 | h_8 | h_9 =>
    simp only [Option.some.injEq, Prod.mk.injEq] at h
    rw [← h.2]
    exact length_afterPreference text
  case h_10 => exact length_counted? h
  case h_11 =>
    obtain ⟨⟨content, after⟩, hset, heq⟩ := Option.map_eq_some_iff.1 h
    rw [← (Prod.mk.inj heq).2]
    exact length_bracketedSet? hset
  all_goals
    simp only [Option.some.injEq, Prod.mk.injEq] at h
    simp [← h.2]

/-- A symbol takes at least its first sign. -/
theorem length_symbol? {sign : Sign} {text rest : List Sign} {symbol : Symbol}
    (h : symbol? sign text = some (symbol, rest)) : rest.length ≤ text.length := by
  unfold symbol? at h
  split at h
  case h_1 => exact length_plainSymbol? h
  all_goals
    simp only [Option.some.injEq, Prod.mk.injEq] at h
    simp [← h.2]

def symbolsFrom? : List Sign → Option (List Symbol)
  | [] => some []
  | sign :: text =>
    match _h : symbol? sign text with
    | none => none
    | some (symbol, rest) => (symbolsFrom? rest).map (symbol :: ·)
termination_by text => text.length
decreasing_by
  have := length_symbol? _h
  simp only [List.length_cons]
  omega

def names (symbols : List Symbol) : List (List Char) :=
  symbols.filterMap fun
    | .opening (.named name) => some name
    | _ => none

/-- The symbols of a pattern, in which no two groups have one name. -/
def symbols? (text : List Char) : Option (List Symbol) :=
  ((signs? text).bind symbolsFrom?).filter fun symbols => decide (names symbols).Nodup

end Assemblage.Pattern
