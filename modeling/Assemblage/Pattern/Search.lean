import Assemblage.Pattern.Basic

/-!
# Search

Whether a pattern occurs anywhere in a text.  The text is read once, from left
to right, with the set of patterns that the rest may still match; a character
turns each of them into its residuals.  Apart from the counts of its
repetitions, a pattern has no more residuals after any text than it has
characters, so that the set stays small.
-/

namespace Assemblage.Pattern

/-- Whether the empty text matches between two characters. -/
def acceptsEmpty (before? after? : Option Char) : Pattern → Bool
  | .empty => true
  | .one _ => false
  | .look assertion => assertion.holds before? after?
  | .seq first second => first.acceptsEmpty before? after? && second.acceptsEmpty before? after?
  | .either left right => left.acceptsEmpty before? after? || right.acceptsEmpty before? after?
  | .times body least _ => least == 0 || body.acceptsEmpty before? after?

def followedBy : Pattern → Pattern → Pattern
  | .empty, second => second
  | first, second => .seq first second

/-- What may follow a character that comes after `before?`: the texts that match
with it in front are those that match one of these.  Where the body of a
repetition accepts the empty text, any of its copies may be skipped. -/
def residuals (before? : Option Char) (c : Char) : Pattern → List Pattern
  | .empty | .look _ => []
  | .one set => if set.contains c then [.empty] else []
  | .seq first second =>
    (first.residuals before? c).map (·.followedBy second) ++
      if first.acceptsEmpty before? (some c) then second.residuals before? c else []
  | .either left right => left.residuals before? c ++ right.residuals before? c
  | .times body least most =>
    if most = some 0 then []
    else
      let least := if body.acceptsEmpty before? (some c) then 0 else least - 1
      (body.residuals before? c).map (·.followedBy (.times body least (most.map (· - 1))))

/-- Whether one of the open patterns, or the pattern from some later place on,
matches. -/
def occursFrom (pattern : Pattern) (before? : Option Char) (opened : List Pattern) :
    List Char → Bool
  | [] => opened.any (acceptsEmpty before? none)
  | c :: rest =>
    opened.any (acceptsEmpty before? (some c)) ||
      occursFrom pattern (some c)
        (pattern :: opened.flatMap (residuals before? c)).eraseDups rest

def occursIn (pattern : Pattern) (text : String) : Bool :=
  occursFrom pattern none [pattern] text.toList

end Assemblage.Pattern
