import Assemblage.Pattern.Sign

/-!
# Brackets

A set of characters is written between brackets: characters, ranges and kinds
one after the other, and further brackets among them.  A circumflex in front
takes the complement.  `&&`, `--` and `~~` stand for intersection, difference
and symmetric difference; they bind weaker than union and to the left.  A name
such as `[:alpha:]` stands for a set of ASCII characters.

A hyphen stands for itself at the start, at the end and where no range can be.
-/

namespace Assemblage.Pattern

/-- A set that has been read, with how deep its notation nests. -/
structure Bracketed where
  set : CharSet
  nesting : Nat := 0

/-- The largest of some depths. -/
def deepest (depths : List Nat) : Nat :=
  depths.foldl max 0

namespace Bracketed

/-- The union of some items.  Two or more of them make the notation deeper. -/
def union : List Bracketed → Bracketed
  | [] => { set := .empty }
  | [item] => item
  | first :: items =>
    { set := items.foldl (fun left item => left.union item.set) first.set
      nesting := deepest ((first :: items).map (·.nesting)) + 1 }

def combine (operation : SetOperation) (left right : Bracketed) : Bracketed :=
  { set := .combination operation left.set right.set
    nesting := max left.nesting right.nesting + 1 }

end Bracketed

/-- A bracket that is being read. -/
structure OpenBracket where
  complemented : Bool
  /-- The operation that waits for its right operand, and its left operand. -/
  pending : Option (SetOperation × Bracketed) := none
  /-- What the current operand is the union of, the last item first. -/
  items : List Bracketed := []

namespace OpenBracket

def add (bracket : OpenBracket) (item : Bracketed) : OpenBracket :=
  { bracket with items := item :: bracket.items }

/-- The set that has been read so far. -/
def value (bracket : OpenBracket) : Bracketed :=
  let operand := .union bracket.items.reverse
  match bracket.pending with
  | none => operand
  | some (operation, left) => .combine operation left operand

def operate (bracket : OpenBracket) (operation : SetOperation) : OpenBracket :=
  { bracket with pending := some (operation, bracket.value), items := [] }

def close (bracket : OpenBracket) : Bracketed :=
  let { set, nesting } := bracket.value
  { set := if bracket.complemented then .complement set else set, nesting := nesting + 1 }

end OpenBracket

inductive BracketItem where
  | set (set : CharSet)
  | operation (operation : SetOperation)
  | opening (bracket : OpenBracket)
  | closing

/-- The ASCII characters with a named property. -/
def asciiRanges? (name : String) : Option (List (Char × Char)) :=
  match name with
  | "alnum" => some [('0', '9'), ('A', 'Z'), ('a', 'z')]
  | "alpha" => some [('A', 'Z'), ('a', 'z')]
  | "ascii" => some [('\x00', '\x7f')]
  | "blank" => some [('\t', '\t'), (' ', ' ')]
  | "cntrl" => some [('\x00', '\x1f'), ('\x7f', '\x7f')]
  | "digit" => some [('0', '9')]
  | "graph" => some [('!', '~')]
  | "lower" => some [('a', 'z')]
  | "print" => some [(' ', '~')]
  | "punct" => some [('!', '/'), (':', '@'), ('[', '\x60'), ('\x7b', '~')]
  | "space" => some [('\t', '\r'), (' ', ' ')]
  | "upper" => some [('A', 'Z')]
  | "word" => some [('0', '9'), ('A', 'Z'), ('_', '_'), ('a', 'z')]
  | "xdigit" => some [('0', '9'), ('A', 'F'), ('a', 'f')]
  | _ => none

def asciiSet? (name : String) (complemented : Bool) : Option CharSet :=
  (asciiRanges? name).map fun ranges =>
    let set := CharSet.ranges (ranges.map fun (first, last) => (first.toNat, last.toNat))
    if complemented then .complement set else set

/-- Whether a circumflex comes first, and what follows it. -/
def circumflex (text : List Sign) : Bool × List Sign :=
  match text with
  | .plain '^' :: rest => (true, rest)
  | text => (false, text)

/-- A named set whose bracket has been read, and what follows it. -/
def named? (text : List Sign) : Option (CharSet × List Sign) :=
  match text with
  | .plain ':' :: text =>
    match Text.cut? (.plain ':') (circumflex text).2 with
    | some (name, .plain ']' :: rest) => do
      let name ← Sign.plainText? name
      let set ← asciiSet? (String.ofList name) (circumflex text).1
      return (set, rest)
    | _ => none
  | _ => none

/-- A bracket of which the sign has been read, and what follows its start.  Any
number of hyphens, or else one closing bracket, stands for itself there. -/
def openBracket (text : List Sign) : OpenBracket × List Sign :=
  let (complemented, text) := circumflex text
  let hyphens := text.takeWhile fun sign => decide (sign = .plain '-')
  let rest := text.drop hyphens.length
  if hyphens.isEmpty ∧ rest.head? = some (.plain ']') then
    ({ complemented, items := [{ set := .single ']' }] }, rest.tail)
  else
    ({ complemented, items := hyphens.map fun _ => { set := .single '-' } }, rest)

def operation? (sign : Sign) (text : List Sign) : Option (SetOperation × List Sign) :=
  match sign, text with
  | .plain '&', .plain '&' :: rest => some (.intersection, rest)
  | .plain '-', .plain '-' :: rest => some (.difference, rest)
  | .plain '~', .plain '~' :: rest => some (.symmetricDifference, rest)
  | _, _ => none

/-- The range that starts with a sign, or else the set that the sign stands for. -/
def range? (sign : Sign) (text : List Sign) : Option (CharSet × List Sign) :=
  match text with
  | .plain '-' :: last :: rest =>
    if last = .plain ']' ∨ last = .plain '-' then sign.set?.map fun set => (set, text)
    else do
      let first ← sign.char?
      let last ← last.char?
      if first ≤ last then some (.range first last, rest) else none
  | text => sign.set?.map fun set => (set, text)

/-- The first item of a text that is not empty, and what follows it. -/
def bracketItem? (sign : Sign) (text : List Sign) : Option (BracketItem × List Sign) :=
  if sign = .plain ']' then some (.closing, text)
  else if sign = .plain '[' then
    match named? text with
    | some (set, rest) => some (.set set, rest)
    | none =>
      let (bracket, rest) := openBracket text
      some (.opening bracket, rest)
  else
    match operation? sign text with
    | some (operation, rest) => some (.operation operation, rest)
    | none => (range? sign text).map fun (set, rest) => (.set set, rest)

theorem length_circumflex (text : List Sign) : (circumflex text).2.length ≤ text.length := by
  unfold circumflex
  split <;> simp

theorem length_named? {text rest : List Sign} {set : CharSet}
    (h : named? text = some (set, rest)) : rest.length ≤ text.length := by
  unfold named? at h
  split at h
  · rename_i text
    split at h
    · rename_i hcut
      simp only [Option.bind_eq_bind, Option.bind_eq_some_iff, Option.pure_def,
        Option.some.injEq, Prod.mk.injEq] at h
      obtain ⟨_, -, _, -, -, rfl⟩ := h
      have hafter := Text.length_cut? hcut
      have htext := length_circumflex text
      simp only [List.length_cons] at hafter ⊢
      omega
    · simp at h
  · simp at h

theorem length_openBracket (text : List Sign) : (openBracket text).2.length ≤ text.length := by
  refine Nat.le_trans ?_ (length_circumflex text)
  unfold openBracket
  simp only
  split
  · simp only [List.length_tail, List.length_drop]
    omega
  · simp only [List.length_drop]
    omega

theorem length_operation? {sign : Sign} {text rest : List Sign} {operation : SetOperation}
    (h : operation? sign text = some (operation, rest)) : rest.length ≤ text.length := by
  unfold operation? at h
  split at h <;> simp at h
  all_goals simp [← h.2]

theorem length_range? {sign : Sign} {text rest : List Sign} {set : CharSet}
    (h : range? sign text = some (set, rest)) : rest.length ≤ text.length := by
  unfold range? at h
  split at h
  · split at h
    · obtain ⟨_, -, heq⟩ := Option.map_eq_some_iff.1 h
      simp [← (Prod.mk.inj heq).2]
    · simp only [Option.bind_eq_bind, Option.bind_eq_some_iff] at h
      obtain ⟨_, -, _, -, h⟩ := h
      split at h
      · simp only [Option.some.injEq, Prod.mk.injEq] at h
        simp only [← h.2, List.length_cons]
        omega
      · simp at h
  · obtain ⟨_, -, heq⟩ := Option.map_eq_some_iff.1 h
    simp [← (Prod.mk.inj heq).2]

/-- An item takes at least its first sign. -/
theorem length_bracketItem? {sign : Sign} {text rest : List Sign} {item : BracketItem}
    (h : bracketItem? sign text = some (item, rest)) : rest.length ≤ text.length := by
  unfold bracketItem? at h
  split at h
  · simp only [Option.some.injEq, Prod.mk.injEq] at h
    simp [← h.2]
  · split at h
    · split at h
      · rename_i hnamed
        simp only [Option.some.injEq, Prod.mk.injEq] at h
        rw [← h.2]
        exact length_named? hnamed
      · simp only [Option.some.injEq, Prod.mk.injEq] at h
        rw [← h.2]
        exact length_openBracket text
    · split at h
      · rename_i hoperation
        simp only [Option.some.injEq, Prod.mk.injEq] at h
        rw [← h.2]
        exact length_operation? hoperation
      · obtain ⟨⟨set, after⟩, hrange, heq⟩ := Option.map_eq_some_iff.1 h
        rw [← (Prod.mk.inj heq).2]
        exact length_range? hrange

/-! ## Whole brackets -/

/-- Reads what stands in the innermost bracket; `outer` are the brackets around
it.  With the set comes what follows the outermost bracket. -/
def bracketed? (outer : List OpenBracket) (bracket : OpenBracket) :
    List Sign → Option (Bracketed × List Sign)
  | [] => none
  | sign :: text =>
    match _h : bracketItem? sign text with
    | none => none
    | some (.set set, rest) => bracketed? outer (bracket.add { set }) rest
    | some (.operation operation, rest) => bracketed? outer (bracket.operate operation) rest
    | some (.opening inner, rest) => bracketed? (bracket :: outer) inner rest
    | some (.closing, rest) =>
      match outer with
      | [] => some (bracket.close, rest)
      | parent :: outer => bracketed? outer (parent.add bracket.close) rest
termination_by text => text.length
decreasing_by
  all_goals
    have := length_bracketItem? _h
    simp only [List.length_cons]
    omega

theorem length_bracketed? {outer : List OpenBracket} {bracket : OpenBracket}
    {text rest : List Sign} {result : Bracketed}
    (h : bracketed? outer bracket text = some (result, rest)) :
    rest.length ≤ text.length := by
  fun_induction bracketed? outer bracket text with
  | case1 | case2 => simp at h
  | case3 _ _ _ _ _ _ hitem ih | case4 _ _ _ _ _ _ hitem ih | case5 _ _ _ _ _ _ hitem ih
  | case7 _ _ _ _ hitem _ _ ih =>
    have := length_bracketItem? hitem
    have := ih h
    simp only [List.length_cons]
    omega
  | case6 _ _ _ _ hitem =>
    simp only [Option.some.injEq, Prod.mk.injEq] at h
    have := length_bracketItem? hitem
    rw [← h.2]
    simp only [List.length_cons]
    omega

/-- The set whose first bracket has been read, and what follows it. -/
def bracketedSet? (text : List Sign) : Option (Bracketed × List Sign) :=
  bracketed? [] (openBracket text).1 (openBracket text).2

theorem length_bracketedSet? {text rest : List Sign} {result : Bracketed}
    (h : bracketedSet? text = some (result, rest)) : rest.length ≤ text.length :=
  Nat.le_trans (length_bracketed? h) (length_openBracket text)

end Assemblage.Pattern
