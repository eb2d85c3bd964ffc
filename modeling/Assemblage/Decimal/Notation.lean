import Assemblage.Decimal.Shortest

/-!
# Decimal notation

How a floating point number is written out: plainly while its magnitude lies
within the bounds of a `Notation`, with an exponent beyond them.
-/

namespace Assemblage.Decimal

/-- A way of writing numbers.  `plainFrom` and `plainBelow` bound the exponents
of ten of the magnitudes that are written without one. -/
structure Style where
  plainFrom : Int
  plainBelow : Int
  nan : String
  infinity : String

/-- Numbers keep a digit after the point, and an exponent stands for magnitudes
below `10 ^ -4` and from `10 ^ 16` on. -/
def literalStyle : Style :=
  { plainFrom := -4, plainBelow := 16, nan := "NaN", infinity := "inf" }

def digitText (value : Nat) : List Char :=
  Nat.toDigits 10 value

/-- The digits with a point in them or zeros around them, and at least one digit
after the point. -/
def Digits.plainText (d : Digits) : List Char :=
  let digits := digitText d.digits
  if 0 ≤ d.exponent then digits ++ List.replicate d.exponent.toNat '0' ++ ['.', '0']
  else
    let places := (-d.exponent).toNat
    if places < digits.length then
      digits.take (digits.length - places) ++ '.' :: digits.drop (digits.length - places)
    else '0' :: '.' :: List.replicate (places - digits.length) '0' ++ digits

/-- One digit before the point, the others after it, and the exponent. -/
def Digits.exponentText (d : Digits) : List Char :=
  let digits := digitText d.digits
  let power := d.exponent + ((digits.length : Int) - 1)
  let fraction := digits.drop 1
  digits.take 1 ++ (if fraction.isEmpty then [] else '.' :: fraction) ++
    'e' :: (if power < 0 then ['-'] else []) ++ digitText power.natAbs

def Style.magnitude (style : Style) (d : Digits) : List Char :=
  let leading := d.exponent + ((digitText d.digits).length : Int) - 1
  if style.plainFrom ≤ leading ∧ leading < style.plainBelow then d.plainText else d.exponentText

def Style.render (style : Style) (value : Binary) : String :=
  match value with
  | .nan => style.nan
  | .infinite negative => if negative then "-" ++ style.infinity else style.infinity
  | .finite negative mantissa exponent =>
    let digits : Digits := if mantissa = 0 then ⟨0, 0⟩ else shortest mantissa exponent
    String.ofList ((if negative then ['-'] else []) ++ style.magnitude digits)

end Assemblage.Decimal
