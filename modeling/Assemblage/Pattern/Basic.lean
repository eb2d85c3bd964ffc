import Assemblage.Pattern.CharSet

/-!
# Patterns

Regular expressions over the characters of a text, with assertions about the
two characters between which the empty text is matched.
-/

namespace Assemblage

/-- What is asserted of a place in a text. -/
inductive Look where
  | textStart
  | textEnd
  | lineStart
  | lineEnd
  | wordBoundary
  | noWordBoundary
  | wordStart
  | wordEnd
  /-- No word goes on up to here. -/
  | wordStartHalf
  /-- No word goes on from here. -/
  | wordEndHalf
deriving DecidableEq

namespace Look

def isWord (c? : Option Char) : Bool :=
  c?.any Text.isWordCharacter

/-- Whether the assertion is true between two characters, either of which is
missing at an end of the text. -/
def holds (before? after? : Option Char) : Look → Bool
  | .textStart => before?.isNone
  | .textEnd => after?.isNone
  | .lineStart => before?.isNone || before? == some '\n'
  | .lineEnd => after?.isNone || after? == some '\n'
  | .wordBoundary => isWord before? != isWord after?
  | .noWordBoundary => isWord before? == isWord after?
  | .wordStart => !isWord before? && isWord after?
  | .wordEnd => isWord before? && !isWord after?
  | .wordStartHalf => !isWord before?
  | .wordEndHalf => !isWord after?

end Look

inductive Pattern where
  /-- Matches the empty text. -/
  | empty
  | one (set : CharSet)
  /-- Matches the empty text where an assertion is true. -/
  | look (assertion : Look)
  | seq (first second : Pattern)
  | either (left right : Pattern)
  /-- At least `least` copies and, where there is a bound, at most `most`. -/
  | times (body : Pattern) (least : Nat) (most : Option Nat)
deriving DecidableEq, Inhabited

namespace Pattern

/-- The patterns one after the other. -/
def sequence : List Pattern → Pattern
  | [] => .empty
  | [last] => last
  | first :: rest => .seq first (sequence rest)

/-- What matches as one of the patterns does, of which there is at least one. -/
def alternatives (first : Pattern) : List Pattern → Pattern
  | [] => first
  | second :: rest => .either first (alternatives second rest)

/-- The largest count of copies of copies. -/
def mostCopies : Option Nat → Option Nat → Option Nat
  | some 0, _ | _, some 0 => some 0
  | some outer, some inner => some (outer * inner)
  | _, _ => none

/-- Repetition.  Copies of copies of which one may be enough are counted
together: every count between the smallest and the largest can be reached. -/
def repeated (body : Pattern) (least : Nat) (most : Option Nat) : Pattern :=
  match body with
  | .times inner innerLeast innerMost =>
    if innerLeast ≤ 1 then .times inner (least * innerLeast) (mostCopies most innerMost)
    else .times body least most
  | _ => .times body least most

/-- Whether only the empty text can match. -/
def isWidthless : Pattern → Bool
  | .empty | .look _ => true
  | .one _ => false
  | .seq first second => first.isWidthless && second.isWidthless
  | .either left right => left.isWidthless && right.isWidthless
  | .times body _ most => body.isWidthless || most == some 0

end Pattern

end Assemblage
