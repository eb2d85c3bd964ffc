/-!
# Sets of code points

A property of characters is given as an ascending list of inclusive ranges of
code points.  Membership stops at the first range that lies beyond the code
point asked for.
-/

namespace Assemblage.Text

/-- Ascending, disjoint, inclusive ranges of code points. -/
abbrev Ranges := List (Nat × Nat)

def Ranges.covers : Ranges → Nat → Bool
  | [], _ => false
  | (first, last) :: rest, code =>
    decide (first ≤ code) && (decide (code ≤ last) || Ranges.covers rest code)

def Ranges.has (ranges : Ranges) (c : Char) : Bool :=
  ranges.covers c.toNat

/-- One stretch of a simple case mapping: every `step`-th code point from
`first` to `last` moves by `offset`. -/
structure CaseRun where
  first : Nat
  last : Nat
  step : Nat
  offset : Int

def CaseRun.covers (run : CaseRun) (code : Nat) : Bool :=
  decide (run.first ≤ code) && decide (code ≤ run.last) && (code - run.first) % run.step == 0

/-- The image of a character under a simple case mapping; characters outside
every run stay as they are. -/
def CaseRun.map (runs : List CaseRun) (c : Char) : Char :=
  match runs.find? (·.covers c.toNat) with
  | some run => Char.ofNat (c.toNat + run.offset).toNat
  | none => c

end Assemblage.Text
