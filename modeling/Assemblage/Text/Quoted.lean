import Assemblage.Text.GraphemeExtend
import Assemblage.Text.Numeral
import Assemblage.Text.Unprintable

/-!
# Quoted text

Strings and characters as they are written inside method bodies and
declarations: between quotes, with a backslash escape for the controls that
have a letter, for the backslash and for the enclosing quote, and a numeric
escape for every character that could not be read on its own.
-/

namespace Assemblage.Text.Quoted

/-- The letters that only fill the place of another one and show nothing. -/
def isFiller (c : Char) : Bool :=
  c = '\u115f' || c = '\u1160' || c = '\u3164' || c = '\uffa0'

/-- The two grapheme extenders that take a place of their own on the line, the
halfwidth sound marks. -/
def isHalfwidthMark (c : Char) : Bool :=
  c = '\uff9e' || c = '\uff9f'

/-- Characters written as the hexadecimal number of their code point: those that
show nothing or only change the character before them. -/
def needsNumber (c : Char) : Bool :=
  isUnprintable c || isFiller c || (isGraphemeExtend c && !isHalfwidthMark c)

def escape (quote : Char) (c : Char) : List Char :=
  if c = '\x00' then ['\\', '0']
  else if c = '\t' then ['\\', 't']
  else if c = '\r' then ['\\', 'r']
  else if c = '\n' then ['\\', 'n']
  else if c = '\\' then ['\\', '\\']
  else if c = quote then ['\\', quote]
  else if needsNumber c then ['\\', 'u', '{'] ++ Numeral.plain 16 c.toNat ++ ['}']
  else [c]

def string (text : String) : String :=
  String.ofList ('"' :: text.toList.flatMap (escape '"') ++ ['"'])

def char (c : Char) : String :=
  String.ofList ('\'' :: escape '\'' c ++ ['\''])

end Assemblage.Text.Quoted
