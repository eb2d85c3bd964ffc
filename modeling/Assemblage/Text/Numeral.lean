/-!
# Numerals

Unsigned numbers in a base from two to sixteen.  Reading admits one plus sign
before the digits, and the letters of either case; writing uses lower case.
-/

namespace Assemblage.Text.Numeral

def digitValue? (base : Nat) (c : Char) : Option Nat :=
  let value? : Option Nat :=
    if '0' ≤ c ∧ c ≤ '9' then some (c.toNat - '0'.toNat)
    else if 'a' ≤ c ∧ c ≤ 'f' then some (c.toNat - 'a'.toNat + 10)
    else if 'A' ≤ c ∧ c ≤ 'F' then some (c.toNat - 'A'.toNat + 10)
    else none
  value?.filter (· < base)

/-- The value of a row of digits that continues a number already read. -/
def valueFrom? (base : Nat) (value : Nat) : List Char → Option Nat
  | [] => some value
  | c :: rest =>
    match digitValue? base c with
    | some digit => valueFrom? base (value * base + digit) rest
    | none => none

/-- Reads a numeral below `bound`: an optional plus sign and at least one digit. -/
def read? (base bound : Nat) (text : List Char) : Option Nat :=
  let digits :=
    match text with
    | '+' :: rest => rest
    | _ => text
  if digits.isEmpty then none else (valueFrom? base 0 digits).filter (· < bound)

theorem valueFrom?_eq_none {base : Nat} {text : List Char} {c : Char} (hmem : c ∈ text)
    (hdigit : digitValue? base c = none) (value : Nat) : valueFrom? base value text = none := by
  induction text generalizing value with
  | nil => cases hmem
  | cons first rest ih =>
    rw [valueFrom?]
    rcases List.mem_cons.1 hmem with rfl | hrest
    · rw [hdigit]
    · split
      · exact ih hrest _
      · rfl

/-- A character that is neither a sign nor a digit makes a numeral unreadable. -/
theorem read?_eq_none {base bound : Nat} {text : List Char} {c : Char} (hmem : c ∈ text)
    (hsign : c ≠ '+') (hdigit : digitValue? base c = none) : read? base bound text = none := by
  have hdigits : ∀ digits : List Char, c ∈ digits →
      (if digits.isEmpty then none
        else (valueFrom? base 0 digits).filter (· < bound)) = none := by
    intro digits hmem
    rw [valueFrom?_eq_none hmem hdigit]
    split <;> rfl
  refine hdigits _ ?_
  split
  · exact (List.mem_cons.1 hmem).resolve_left hsign
  · exact hmem

def digit (value : Nat) : Char :=
  if value < 10 then Char.ofNat ('0'.toNat + value) else Char.ofNat ('a'.toNat + (value - 10))

/-- The last `width` digits of a number, with leading zeros. -/
def padded (base : Nat) : Nat → Nat → List Char
  | 0, _ => []
  | width + 1, value => padded base width (value / base) ++ [digit (value % base)]

/-- All digits of a number, without leading zeros. -/
def plain (base value : Nat) : List Char :=
  Nat.toDigits base value

end Assemblage.Text.Numeral
