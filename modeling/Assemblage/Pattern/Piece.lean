import Assemblage.Pattern.Room
import Assemblage.Pattern.Symbol

/-!
# Pieces

The parts that a pattern is put together from, each with the two measures that
are limited: how deep its notation nests, and how much room its automaton takes.
Brackets, groups, repetitions, bars and rows of several items each make the
notation deeper by one.
-/

namespace Assemblage.Pattern

structure Piece where
  pattern : Pattern
  nesting : Nat := 0
  room : Nat := Room.state
  /-- Whether a repetition may come after it. -/
  isRepeatable : Bool := true

namespace Piece

/-- What stands where there is nothing, or where flags are switched. -/
def empty : Piece :=
  { pattern := .empty, isRepeatable := false }

def ofSet (set : CharSet) (nesting : Nat) : Piece :=
  { pattern := .one set, nesting, room := Room.ofSet set }

def ofLook (assertion : Look) : Piece :=
  { pattern := .look assertion }

def ofAtom (flags : Flags) : Atom → Piece
  | .literal c =>
    if flags.ignoresCase then ofSet (.anyCase (.single c)) 0
    else { pattern := .one (.single c), room := Room.ofChar c }
  | .kind set => ofSet set 0
  | .bracketed { set, nesting } =>
    ofSet (if flags.ignoresCase then set.ignoringCase else set) nesting
  | .period => ofSet (if flags.periodIsAll then .all else .exceptLineFeed) 0
  | .start => ofLook (if flags.multiline then .lineStart else .textStart)
  | .stop => ofLook (if flags.multiline then .lineEnd else .textEnd)
  | .look assertion => ofLook assertion

/-- The pieces one after the other. -/
def row : List Piece → Piece
  | [] => empty
  | [item] => item
  | items =>
    { pattern := sequence (items.map (·.pattern))
      nesting := deepest (items.map (·.nesting)) + 1
      room := (items.map (·.room)).foldr (· + ·) 0 }

/-- What matches as one of the pieces does. -/
def choice (first : Piece) : List Piece → Piece
  | [] => first
  | others =>
    { pattern := alternatives first.pattern (others.map (·.pattern))
      nesting := deepest ((first :: others).map (·.nesting)) + 1
      room := Room.ofAlternatives ((first :: others).map (·.room)) }

def repeated (piece : Piece) (least : Nat) (most : Option Nat) : Piece :=
  { pattern := piece.pattern.repeated least most
    nesting := piece.nesting + 1
    room := Room.ofCopies piece.room piece.pattern.isWidthless least most }

def group (piece : Piece) (isRemembered : Bool) : Piece :=
  { piece with
    nesting := piece.nesting + 1
    room := if isRemembered then Room.ofGroup piece.room else piece.room
    isRepeatable := true }

/-- How deep the notation of a pattern may nest. -/
def nestingLimit : Nat := 250

def isWithinLimits (piece : Piece) : Bool :=
  decide (piece.nesting ≤ nestingLimit) && decide (Room.ofWhole piece.room ≤ Room.limit)

end Piece

end Assemblage.Pattern
