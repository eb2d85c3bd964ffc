import Assemblage.Error
import Assemblage.Pattern.Piece

/-!
# Reading patterns

The symbols of a pattern are put together with a stack of the groups that are
still open.  Flags hold from where they are switched up to the end of the group,
across its bars.
-/

namespace Assemblage.Pattern

/-- A group that is being read: the flags that hold, its finished alternatives
and the items of the current one, each list with the last first. -/
structure OpenGroup where
  flags : Flags := {}
  isRemembered : Bool := true
  alternatives : List Piece := []
  items : List Piece := []

namespace OpenGroup

/-- A group inside another, whose flags it takes over. -/
def within (parent : OpenGroup) : GroupHead → OpenGroup
  | .numbered | .named _ => { flags := parent.flags }
  | .unremembered switches => { flags := parent.flags.setAll switches, isRemembered := false }

def add (group : OpenGroup) (item : Piece) : OpenGroup :=
  { group with items := item :: group.items }

/-- Switching flags is an item of the row that it stands in. -/
def switch (group : OpenGroup) (switches : List Switch) : OpenGroup :=
  { group.add .empty with flags := group.flags.setAll switches }

def current (group : OpenGroup) : Piece :=
  .row group.items.reverse

def nextAlternative (group : OpenGroup) : OpenGroup :=
  { group with alternatives := group.current :: group.alternatives, items := [] }

/-- Repeats the last item. -/
def repeatLast? (group : OpenGroup) (least : Nat) (most : Option Nat) : Option OpenGroup :=
  match group.items with
  | [] => none
  | item :: items =>
    if item.isRepeatable then some { group with items := item.repeated least most :: items }
    else none

/-- All that stands in the group. -/
def content (group : OpenGroup) : Piece :=
  match (group.current :: group.alternatives).reverse with
  | [] => .empty
  | first :: others => .choice first others

def close (group : OpenGroup) : Piece :=
  group.content.group group.isRemembered

end OpenGroup

/-- Reads symbols into the innermost group; `outer` are the groups around it. -/
def ofSymbols? (outer : List OpenGroup) (group : OpenGroup) : List Symbol → Option Piece
  | [] => if outer.isEmpty then some group.content else none
  | .atom atom :: rest => ofSymbols? outer (group.add (.ofAtom group.flags atom)) rest
  | .opening head :: rest => ofSymbols? (group :: outer) (group.within head) rest
  | .closing :: rest =>
    match outer with
    | [] => none
    | parent :: outer => ofSymbols? outer (parent.add group.close) rest
  | .bar :: rest => ofSymbols? outer group.nextAlternative rest
  | .repetition least most :: rest =>
    match group.repeatLast? least most with
    | none => none
    | some group => ofSymbols? outer group rest
  | .switches switches :: rest => ofSymbols? outer (group.switch switches) rest

def readPiece? (text : List Char) : Option Piece :=
  ((symbols? text).bind (ofSymbols? [] {})).filter Piece.isWithinLimits

def read (text : String) : Except Error Pattern :=
  match readPiece? text.toList with
  | some piece => .ok piece.pattern
  | none => .error .pattern

end Assemblage.Pattern
