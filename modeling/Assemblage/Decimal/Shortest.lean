/-!
# Shortest decimals

The fewest decimal digits that read back as a given binary number, which is 64
bits in the double precision format: one sign bit, eleven bits of exponent and
52 of fraction.  The real numbers that round to `mantissa · 2 ^ exponent` form
an interval around it, whose ends belong to it when the mantissa is even.  For
one digit, two digits and so on, the two neighbours of the number on that
decimal grid are tested against the interval; seventeen digits always suffice.
-/

namespace Assemblage.Decimal

/-- A double precision value; a finite one is `mantissa · 2 ^ exponent`. -/
inductive Binary where
  | nan
  | infinite (negative : Bool)
  | finite (negative : Bool) (mantissa : Nat) (exponent : Int)
deriving DecidableEq

def Binary.ofBits (bits : UInt64) : Binary :=
  let word : Nat := bits.toNat
  let negative := decide (Nat.pow 2 63 ≤ word)
  let scale : Nat := word / Nat.pow 2 52 % Nat.pow 2 11
  let fraction : Nat := word % Nat.pow 2 52
  if scale = 2047 then
    if fraction = 0 then .infinite negative else .nan
  else if scale = 0 then .finite negative fraction (-1074)
  else .finite negative (Nat.pow 2 52 + fraction) ((scale : Int) - 1075)

/-- Equality of the numbers: a value that is no number differs from itself,
and the two zeros are the same. -/
def Binary.sameNumber : Binary → Binary → Bool
  | .nan, _ => false
  | .finite negative mantissa exponent, .finite negative' mantissa' exponent' =>
    mantissa == mantissa' && (mantissa == 0 || (negative == negative' && exponent == exponent'))
  | left, right => left == right

/-- The real numbers that round to one binary number, over a common
denominator. -/
structure Rounding where
  low : Nat
  value : Nat
  high : Nat
  denominator : Nat
  closed : Bool

/-- The number below a power of two is only half as far away as the one above
it, unless both are subnormal. -/
def Rounding.of (mantissa : Nat) (exponent : Int) : Rounding :=
  let scale := Nat.pow 2 (exponent - 2).toNat
  let narrow := mantissa == Nat.pow 2 52 && decide (-1074 < exponent)
  { low := (4 * mantissa - if narrow then 1 else 2) * scale
    value := 4 * mantissa * scale
    high := (4 * mantissa + 2) * scale
    denominator := Nat.pow 2 (2 - exponent).toNat
    closed := mantissa % 2 == 0 }

/-- The decimal `digits · 10 ^ exponent`. -/
structure Digits where
  digits : Nat
  exponent : Int
deriving DecidableEq

/-- `digits · 10 ^ exponent` over the given denominator, as a fraction whose
second part is a power of ten. -/
def Digits.over (d : Digits) (denominator : Nat) : Nat × Nat :=
  (d.digits * Nat.pow 10 d.exponent.toNat * denominator, Nat.pow 10 (-d.exponent).toNat)

def Rounding.contains (r : Rounding) (d : Digits) : Bool :=
  let (above, below) := d.over r.denominator
  if r.closed then decide (r.low * below ≤ above) && decide (above ≤ r.high * below)
  else decide (r.low * below < above) && decide (above < r.high * below)

/-- The largest decimal with the given exponent that does not exceed the value. -/
def Rounding.floor (r : Rounding) (exponent : Int) : Digits :=
  ⟨r.value * Nat.pow 10 (-exponent).toNat / (r.denominator * Nat.pow 10 exponent.toNat), exponent⟩

/-- Whether the value is nearer to the decimal below it than to the one above;
a value half way between counts as nearer to the one above. -/
def Rounding.nearerBelow (r : Rounding) (below : Digits) : Bool :=
  let (low, scale) := below.over r.denominator
  let (high, _) := { below with digits := below.digits + 1 }.over r.denominator
  decide (2 * (r.value * scale) < low + high)

/-- The best decimal on the grid of multiples of `10 ^ exponent`, if one of the
value's two neighbours reads back. -/
def Rounding.onGrid? (r : Rounding) (exponent : Int) : Option Digits :=
  let below := r.floor exponent
  let above : Digits := { below with digits := below.digits + 1 }
  match r.contains below, r.contains above with
  | true, true => some (if r.nearerBelow below then below else above)
  | true, false => some below
  | false, true => some above
  | false, false => none

/-- The exponent of the leading digit of a positive value. -/
def Rounding.leading (r : Rounding) : Int :=
  let whole := r.value / r.denominator
  if whole = 0 then
    match (List.range 400).find? fun places =>
        decide (r.denominator ≤ r.value * Nat.pow 10 (places + 1)) with
    | some places => -(places + 1 : Int)
    | none => -400
  else ((Nat.toDigits 10 whole).length : Int) - 1

/-- Moves the zeros at the end of the digits into the exponent. -/
def Digits.trimmed (d : Digits) : Nat → Digits
  | 0 => d
  | fuel + 1 =>
    if d.digits ≠ 0 ∧ d.digits % 10 = 0 then
      Digits.trimmed ⟨d.digits / 10, d.exponent + 1⟩ fuel
    else d

/-- The shortest decimal that reads back as `mantissa · 2 ^ exponent`, for a
positive mantissa; of several the nearest. -/
def shortest (mantissa : Nat) (exponent : Int) : Digits :=
  let rounding := Rounding.of mantissa exponent
  let leading := rounding.leading
  let grids := (List.range 17).map fun (places : Nat) => leading - (places : Int)
  match grids.findSome? rounding.onGrid? with
  | some digits => digits.trimmed 20
  | none => rounding.floor (leading - 16)

end Assemblage.Decimal
