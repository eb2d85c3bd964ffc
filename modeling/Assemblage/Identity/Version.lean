import Assemblage.Text.Numeral
import Assemblage.Text.Segments

/-!
# Assembly versions

A version has four parts of sixteen bits.  A reference with the all-zero
version asks for no version in particular; any other asks for the same major
version, no older than its own.
-/

namespace Assemblage

structure Version where
  major : UInt16
  minor : UInt16
  build : UInt16
  revision : UInt16
deriving DecidableEq, Inhabited

/-- Why a text is not a version. -/
inductive VersionFault where
  | tooManyParts (text : String)
  | badPart (part : String)
deriving DecidableEq

namespace Version

def unknown : Version := ⟨0, 0, 0, 0⟩

def isUnknown (version : Version) : Bool :=
  decide (version = unknown)

def parts (version : Version) : List Nat :=
  [version.major.toNat, version.minor.toNat, version.build.toNat, version.revision.toNat]

/-- The part at a position, zero where the list ends. -/
def partAt (parts : List Nat) (index : Nat) : UInt16 :=
  UInt16.ofNat ((parts[index]?).getD 0)

/-- Missing parts are zero and further ones are dropped. -/
def ofParts (parts : List Nat) : Version :=
  ⟨partAt parts 0, partAt parts 1, partAt parts 2, partAt parts 3⟩

def compare (left right : Version) : Ordering :=
  compareOfLessAndEq left.major.toNat right.major.toNat
    |>.then (compareOfLessAndEq left.minor.toNat right.minor.toNat)
    |>.then (compareOfLessAndEq left.build.toNat right.build.toNat)
    |>.then (compareOfLessAndEq left.revision.toNat right.revision.toNat)

/-- Whether an assembly of this version can be used where `required` is asked for. -/
def isCompatibleWith (version required : Version) : Bool :=
  required.isUnknown ||
    (version.major == required.major && version.compare required != .lt)

def readParts : List (List Char) → Except VersionFault (List Nat)
  | [] => .ok []
  | part :: rest =>
    match Text.Numeral.read? 10 (Nat.pow 2 16) part with
    | none => .error (.badPart (String.ofList part))
    | some value =>
      match readParts rest with
      | .ok values => .ok (value :: values)
      | .error fault => .error fault

/-- Reads `major[.minor[.build[.revision]]]`. -/
def parse (text : List Char) : Except VersionFault Version :=
  let pieces := Text.segments '.' text
  if 4 < pieces.length then .error (.tooManyParts (String.ofList text))
  else
    match readParts pieces with
    | .ok parts => .ok (ofParts parts)
    | .error fault => .error fault

def text (version : Version) : String :=
  s!"{version.major.toNat}.{version.minor.toNat}.{version.build.toNat}.{version.revision.toNat}"

end Version

end Assemblage
