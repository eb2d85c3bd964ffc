/-!
# Operators
-/

namespace Assemblage

inductive BinaryOp where
  | add | sub | mul | div | rem
  | bitAnd | bitOr | bitXor | shiftLeft | shiftRight
  | equal | notEqual | less | lessEqual | greater | greaterEqual
  | and | or
deriving DecidableEq, Inhabited

namespace BinaryOp

def all : List BinaryOp :=
  [add, sub, mul, div, rem, bitAnd, bitOr, bitXor, shiftLeft, shiftRight, equal, notEqual, less,
   lessEqual, greater, greaterEqual, and, or]

def symbol : BinaryOp → String
  | add => "+"
  | sub => "-"
  | mul => "*"
  | div => "/"
  | rem => "%"
  | bitAnd => "&"
  | bitOr => "|"
  | bitXor => "^"
  | shiftLeft => "<<"
  | shiftRight => ">>"
  | equal => "=="
  | notEqual => "!="
  | less => "<"
  | lessEqual => "<="
  | greater => ">"
  | greaterEqual => ">="
  | and => "&&"
  | or => "||"

/-- Whether the result is a boolean whatever the operands are. -/
def isComparison : BinaryOp → Bool
  | equal | notEqual | less | lessEqual | greater | greaterEqual | and | or => true
  | _ => false

/-- Whether there is a compound assignment with this operator. -/
def isCompoundable (op : BinaryOp) : Bool :=
  !op.isComparison

/-- Whether the right operand is evaluated only for some values of the left. -/
def isShortCircuit : BinaryOp → Bool
  | and | or => true
  | _ => false

end BinaryOp

inductive UnaryOp where
  | negate | not | bitNot
  | preIncrement | preDecrement | postIncrement | postDecrement
deriving DecidableEq, Inhabited

namespace UnaryOp

/-- Whether the operand is written to. -/
def isMutating : UnaryOp → Bool
  | preIncrement | preDecrement | postIncrement | postDecrement => true
  | _ => false

/-- What stands before and after the operand. -/
def symbols : UnaryOp → String × String
  | negate => ("-", "")
  | not => ("!", "")
  | bitNot => ("~", "")
  | preIncrement => ("++", "")
  | preDecrement => ("--", "")
  | postIncrement => ("", "++")
  | postDecrement => ("", "--")

end UnaryOp

end Assemblage
