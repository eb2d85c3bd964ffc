import Assemblage.Text.Numeral
import Assemblage.Text.Segments

/-!
# Script identifiers

Names in metadata may hold any character; identifiers of the script may not.
A letter, a digit or an underscore stands for itself unless a digit comes
first.  Every other character becomes a dollar sign and its code point in
hexadecimal: two digits, or `u` and four, or `U` and six.  The empty name and
the reserved words get two dollar signs in front.
-/

namespace Assemblage.Script

/-- Words that no variable of the script may be called. -/
def reservedWords : List String :=
  ["arguments", "await", "break", "case", "catch", "class", "const", "continue", "debugger",
   "default", "delete", "do", "else", "enum", "eval", "export", "extends", "false", "finally",
   "for", "function", "if", "implements", "import", "in", "instanceof", "interface", "let",
   "new", "null", "package", "private", "protected", "public", "return", "static", "super",
   "switch", "this", "throw", "true", "try", "typeof", "undefined", "var", "void", "while",
   "with", "yield"]

def isReserved (word : String) : Bool :=
  reservedWords.contains word

namespace Identifier

def isPlain (c : Char) : Bool :=
  c.isAlphanum || c == '_'

def escapeCode (code : Nat) : List Char :=
  if code ≤ 0xff then '$' :: Text.Numeral.padded 16 2 code
  else if code ≤ 0xffff then '$' :: 'u' :: Text.Numeral.padded 16 4 code
  else '$' :: 'U' :: Text.Numeral.padded 16 6 code

def escapeChar (c : Char) : List Char :=
  if isPlain c then [c] else escapeCode c.toNat

/-- A digit in front is written by its code. -/
def escapeChars : List Char → List Char
  | [] => []
  | c :: rest =>
    (if c.isDigit then escapeCode c.toNat else escapeChar c) ++ rest.flatMap escapeChar

def escape (name : String) : String :=
  let mark := if name.isEmpty || isReserved name then ['$', '$'] else []
  String.ofList (mark ++ escapeChars name.toList)

/-- Escapes each segment of a dotted path and keeps the periods. -/
def escapePath (path : String) : String :=
  ".".intercalate ((Text.segments '.' path.toList).map fun segment =>
    escape (String.ofList segment))

/-- The character with a code point written in hexadecimal. -/
def charOfHex? (digits : List Char) : Option Char :=
  match Text.Numeral.read? 16 (Nat.pow 2 32) digits with
  | some code => if h : code.isValidChar then some (Char.ofNatAux code h) else none
  | none => none

/-- Undoes the escapes of a name without its mark.  An escape at the end of the
text that is cut short makes the whole text unreadable. -/
def unescapeChars : List Char → Option (List Char)
  | [] => some []
  | '$' :: 'u' :: a :: b :: c :: d :: rest => do
    let char ← charOfHex? [a, b, c, d]
    let others ← unescapeChars rest
    return char :: others
  | '$' :: 'U' :: a :: b :: c :: d :: e :: f :: rest => do
    let char ← charOfHex? [a, b, c, d, e, f]
    let others ← unescapeChars rest
    return char :: others
  | '$' :: a :: b :: rest =>
    if a = 'u' ∨ a = 'U' then none
    else do
      let char ← charOfHex? [a, b]
      let others ← unescapeChars rest
      return char :: others
  | c :: rest =>
    if c = '$' then none
    else do
      let others ← unescapeChars rest
      return c :: others

/-- The name an identifier stands for. -/
def unescape? (identifier : String) : Option String :=
  let body :=
    match identifier.toList with
    | '$' :: '$' :: rest => rest
    | whole => whole
  (unescapeChars body).map String.ofList

end Identifier

end Assemblage.Script
