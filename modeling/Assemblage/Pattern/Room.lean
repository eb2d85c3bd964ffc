import Assemblage.Pattern.Basic

/-!
# Room

How much room the automaton of a pattern takes, in bytes.  Every state takes
thirty-two, and a choice of several ways four more for each way.  A character is
matched by one state for each byte of its encoding, and a set of ASCII characters
by two states with eight bytes for each range.  For other sets, whose automata
depend on which encodings share their bytes, the room is an estimate.
-/

namespace Assemblage

namespace CharSet

/-- Of about how many ranges a set consists. -/
def parts : CharSet → Nat
  | .ranges listed => listed.length
  | .kind .decimalDigit => Text.decimalDigitRanges.length
  | .kind .space => 10
  | .kind .word => Text.wordRanges.length
  | .anyCase set => 2 * set.parts
  | .complement set => set.parts + 11
  | .combination _ left right => left.parts + right.parts

/-- Whether it shows that a set has ASCII characters only. -/
def isAscii : CharSet → Bool
  | .ranges listed => listed.all fun (_, last) => decide (last < 128)
  | .kind _ | .complement _ => false
  | .anyCase set => set.isAscii
  | .combination .intersection left right => left.isAscii || right.isAscii
  | .combination .difference left _ => left.isAscii
  | .combination _ left right => left.isAscii && right.isAscii

end CharSet

namespace Pattern.Room

def state : Nat := 32

def ofChar (c : Char) : Nat :=
  c.utf8Size * state

def ofSet (set : CharSet) : Nat :=
  2 * state +
    if set.isAscii then (if set.parts ≤ 1 then 0 else 8 * set.parts) else 76 * set.parts

/-- Alternatives that take some rooms: a state where they part, which leads to
each of them, and one where they meet. -/
def ofAlternatives (rooms : List Nat) : Nat :=
  rooms.foldr (· + ·) 0 + 2 * state + 4 * rooms.length

/-- Copies of what takes some room.  Each copy that can be left out, and the way
back where there is no bound, has a state with two ways; the copies that can be
left out meet in one more state.  What matches the empty text alone is never
copied. -/
def ofCopies (room : Nat) (isWidthless : Bool) (least : Nat) (most : Option Nat) : Nat :=
  let count := fun copies => if isWidthless then min copies 1 else copies
  match most with
  | none => count (max least 1) * room + state + 8
  | some most =>
    if most = least then count least * room
    else count least * room + (count most - count least) * (room + state + 8) + state

/-- A group that is remembered has a state for each end. -/
def ofGroup (room : Nat) : Nat :=
  room + 2 * state

/-- A whole pattern is remembered; a state tells of the match, and two states
skip the text before it. -/
def ofWhole (room : Nat) : Nat :=
  ofGroup room + 3 * state + 8

def limit : Nat := 10 * Nat.pow 2 20

end Pattern.Room

end Assemblage
