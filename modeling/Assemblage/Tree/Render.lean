import Assemblage.Decimal.Notation
import Assemblage.Text.Quoted
import Assemblage.Tree.Stmt

/-!
# Rendering

The text of expressions, statements and functions, with two spaces for each
level of nesting.
-/

namespace Assemblage

def Literal.text : Literal → String
  | .null => "null"
  | .boolean value => if value then "true" else "false"
  | .int value => toString value
  | .float bits => Decimal.literalStyle.render (.ofBits bits)
  | .char value => Text.Quoted.char value
  | .string value => Text.Quoted.string value

namespace Expr

mutual

def render (names : VariableId → String) : Expr → String
  | .literal value => value.text
  | .raw id | .bound id => names id
  | .self => "this"
  | .staticField owner name _ => owner.fullName ++ "." ++ name
  | .field target _ name _ => target.render names ++ "." ++ name
  | .element array index _ => array.render names ++ "[" ++ index.render names ++ "]"
  | .staticCall method arguments =>
    method.declaring.fullName ++ "." ++ method.name ++ "(" ++
      ", ".intercalate (renderList names arguments) ++ ")"
  | .call target method arguments =>
    target.render names ++ "." ++ method.name ++ "(" ++
      ", ".intercalate (renderList names arguments) ++ ")"
  | .create type arguments =>
    "new " ++ type.fullName ++ "(" ++ ", ".intercalate (renderList names arguments) ++ ")"
  | .binary op left right =>
    "(" ++ left.render names ++ " " ++ op.symbol ++ " " ++ right.render names ++ ")"
  | .unary op operand => op.symbols.1 ++ operand.render names ++ op.symbols.2
  | .assign op target value =>
    target.render names ++ " " ++ (op.map BinaryOp.symbol).getD "" ++ "= " ++ value.render names
  | .conditional condition whenTrue whenFalse =>
    "(" ++ condition.render names ++ " ? " ++ whenTrue.render names ++ " : " ++
      whenFalse.render names ++ ")"
  | .copy value => value.render names ++ ".MemberwiseClone()"
  | .defaultValue type => "default(" ++ type.fullName ++ ")"
  | .cast type value => "(" ++ type.fullName ++ ")" ++ value.render names

def renderList (names : VariableId → String) : List Expr → List String
  | [] => []
  | expr :: rest => expr.render names :: renderList names rest

end

end Expr

namespace Stmt

def indent (depth : Nat) : String :=
  String.ofList (List.replicate (2 * depth) ' ')

mutual

def render (names : VariableId → String) (depth : Nat) : Stmt → String
  | .expr value => indent depth ++ value.render names ++ ";\n"
  | .declare id none => indent depth ++ "var " ++ names id ++ ";\n"
  | .declare id (some value) =>
    indent depth ++ "var " ++ names id ++ " = " ++ value.render names ++ ";\n"
  | .block body =>
    indent depth ++ "\x7b\n" ++ renderBlock names (depth + 1) body ++ indent depth ++ "\x7d\n"
  | .ifThen condition body =>
    indent depth ++ "if (" ++ condition.render names ++ ") \x7b\n" ++
      renderBlock names (depth + 1) body ++ indent depth ++ "\x7d\n"
  | .ifElse condition body otherwise =>
    indent depth ++ "if (" ++ condition.render names ++ ") \x7b\n" ++
      renderBlock names (depth + 1) body ++ indent depth ++ "\x7d else \x7b\n" ++
      renderBlock names (depth + 1) otherwise ++ indent depth ++ "\x7d\n"
  | .loop condition body =>
    indent depth ++ "while (" ++ condition.render names ++ ") \x7b\n" ++
      renderBlock names (depth + 1) body ++ indent depth ++ "\x7d\n"
  | .ret none => indent depth ++ "return;\n"
  | .ret (some value) => indent depth ++ "return " ++ value.render names ++ ";\n"
  | .breakLoop => indent depth ++ "break;\n"
  | .continueLoop => indent depth ++ "continue;\n"
  | .raise value => indent depth ++ "throw " ++ value.render names ++ ";\n"

def renderBlock (names : VariableId → String) (depth : Nat) : List Stmt → String
  | [] => ""
  | stmt :: rest => stmt.render names depth ++ renderBlock names depth rest

end

end Stmt

/-- The text of a block outside any method, where variables have no names. -/
def Block.text (block : Block) : String :=
  Stmt.renderBlock VariableId.text 0 block

def MethodTree.text (tree : MethodTree) : String :=
  Stmt.renderBlock tree.table.nameOf 0 tree.body

namespace Function

def bodyText (function : Function) : String :=
  Stmt.renderBlock function.table.nameOf 1 function.body

def text (function : Function) : String :=
  "function " ++ function.name ++ "(" ++ ", ".intercalate function.parameters ++ ") \x7b\n" ++
    function.bodyText ++ "\x7d"

end Function

end Assemblage
