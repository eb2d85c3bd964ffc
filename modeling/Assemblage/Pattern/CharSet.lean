import Assemblage.Text.Blank
import Assemblage.Text.CaseFold
import Assemblage.Text.WordCharacter

/-!
# Sets of characters

Sets are built from ranges of code points and from three kinds of characters by
the operations of sets.  A set can be made blind to case: it then holds every
character that differs only in case from one of its own.  Decimal digits are
those of every script that writes numbers in base ten, as in Unicode 16.
-/

namespace Assemblage

namespace Text

/-- Code points of the category Nd. -/
def decimalDigitRanges : Ranges :=
  [(0x30, 0x39), (0x660, 0x669), (0x6f0, 0x6f9), (0x7c0, 0x7c9), (0x966, 0x96f), (0x9e6, 0x9ef),
   (0xa66, 0xa6f), (0xae6, 0xaef), (0xb66, 0xb6f), (0xbe6, 0xbef), (0xc66, 0xc6f),
   (0xce6, 0xcef), (0xd66, 0xd6f), (0xde6, 0xdef), (0xe50, 0xe59), (0xed0, 0xed9),
   (0xf20, 0xf29), (0x1040, 0x1049), (0x1090, 0x1099), (0x17e0, 0x17e9), (0x1810, 0x1819),
   (0x1946, 0x194f), (0x19d0, 0x19d9), (0x1a80, 0x1a89), (0x1a90, 0x1a99), (0x1b50, 0x1b59),
   (0x1bb0, 0x1bb9), (0x1c40, 0x1c49), (0x1c50, 0x1c59), (0xa620, 0xa629), (0xa8d0, 0xa8d9),
   (0xa900, 0xa909), (0xa9d0, 0xa9d9), (0xa9f0, 0xa9f9), (0xaa50, 0xaa59), (0xabf0, 0xabf9),
   (0xff10, 0xff19), (0x104a0, 0x104a9), (0x10d30, 0x10d39), (0x10d40, 0x10d49),
   (0x11066, 0x1106f), (0x110f0, 0x110f9), (0x11136, 0x1113f), (0x111d0, 0x111d9),
   (0x112f0, 0x112f9), (0x11450, 0x11459), (0x114d0, 0x114d9), (0x11650, 0x11659),
   (0x116c0, 0x116c9), (0x116d0, 0x116e3), (0x11730, 0x11739), (0x118e0, 0x118e9),
   (0x11950, 0x11959), (0x11bf0, 0x11bf9), (0x11c50, 0x11c59), (0x11d50, 0x11d59),
   (0x11da0, 0x11da9), (0x11f50, 0x11f59), (0x16130, 0x16139), (0x16a60, 0x16a69),
   (0x16ac0, 0x16ac9), (0x16b50, 0x16b59), (0x16d70, 0x16d79), (0x1ccf0, 0x1ccf9),
   (0x1d7ce, 0x1d7ff), (0x1e140, 0x1e149), (0x1e2f0, 0x1e2f9), (0x1e4f0, 0x1e4f9),
   (0x1e5f1, 0x1e5fa), (0x1e950, 0x1e959), (0x1fbf0, 0x1fbf9)]

def isDecimalDigit (c : Char) : Bool :=
  decimalDigitRanges.has c

end Text

inductive CharKind where
  | decimalDigit
  | space
  | word
deriving DecidableEq

def CharKind.has : CharKind → Char → Bool
  | .decimalDigit => Text.isDecimalDigit
  | .space => Text.isBlank
  | .word => Text.isWordCharacter

inductive SetOperation where
  | union
  | intersection
  | difference
  | symmetricDifference
deriving DecidableEq

/-- Whether what is in the two operands as said is in the result. -/
def SetOperation.combine : SetOperation → Bool → Bool → Bool
  | .union, left, right => left || right
  | .intersection, left, right => left && right
  | .difference, left, right => left && !right
  | .symmetricDifference, left, right => left != right

inductive CharSet where
  /-- The characters of some inclusive ranges of code points, in any order. -/
  | ranges (listed : List (Nat × Nat))
  | kind (named : CharKind)
  /-- The characters that differ at most in case from one of the set. -/
  | anyCase (set : CharSet)
  | complement (set : CharSet)
  | combination (operation : SetOperation) (left right : CharSet)
deriving DecidableEq, Inhabited

namespace CharSet

def empty : CharSet :=
  .ranges []

def single (c : Char) : CharSet :=
  .ranges [(c.toNat, c.toNat)]

/-- The characters from `first` to `last`. -/
def range (first last : Char) : CharSet :=
  .ranges [(first.toNat, last.toNat)]

def union (left right : CharSet) : CharSet :=
  .combination .union left right

def all : CharSet :=
  .complement .empty

/-- Every character but the line feed. -/
def exceptLineFeed : CharSet :=
  .complement (.single '\n')

def contains : CharSet → Char → Bool
  | .ranges listed, c =>
    listed.any fun (first, last) => decide (first ≤ c.toNat) && decide (c.toNat ≤ last)
  | .kind named, c => named.has c
  | .anyCase set, c => (Text.caseVariants c).any set.contains
  | .complement set, c => !set.contains c
  | .combination operation left right, c => operation.combine (left.contains c) (right.contains c)

/-- The set with every part of it blind to case.  The kinds of characters are
so by themselves. -/
def ignoringCase : CharSet → CharSet
  | .ranges listed => .anyCase (.ranges listed)
  | .complement set => .complement set.ignoringCase
  | .combination operation left right =>
    .combination operation left.ignoringCase right.ignoringCase
  | set => set

end CharSet

end Assemblage
