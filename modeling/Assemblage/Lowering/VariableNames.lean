import Assemblage.Script.Identifier
import Assemblage.Text.Letter
import Assemblage.Tree.Stmt

/-!
# Variable names

Every local gets a name of its own.  A named local keeps its name and a
temporary is named after its type; a name that is reserved, belongs to a
parameter or has been given before is extended by the first number from two on
that makes it free.
-/

namespace Assemblage.Lowering.VariableNames

/-- The last part of a type's path without its arity, with a small first letter. -/
def ofPath (path : String) : String :=
  match Text.firstSegment '\x60' (Text.lastSegment '/' path.toList) with
  | first :: rest =>
    if Text.isAlphabetic first then String.ofList (Text.lowerCase first ++ rest) else "val"
  | [] => "val"

def ofPrimitive : Primitive → String
  | .boolean => "flag"
  | .char => "c"
  | .string => "text"
  | .object => "obj"
  | _ => "num"

/-- What a variable of the given type is called when nothing else is known. -/
def ofType : Signature → String
  | .vector _ | .array _ _ => "array"
  | .byRef inner | .pointer inner => ofType inner
  | signature =>
    match signature.primitive?, signature.definitionName? with
    | some primitive, _ => ofPrimitive primitive
    | none, some name => ofPath name.path
    | none, none => "val"

def baseName (entry : Variable) : String :=
  if entry.isGenerated || entry.name.isEmpty then ofType entry.type else entry.name

/-- The names tried for a variable: the base, then the base with 2, 3 and so on. -/
def candidate (base : String) : Nat → String
  | 0 => base
  | n + 1 => base ++ toString (n + 2)

def isFree (taken : List String) (name : String) : Bool :=
  !taken.contains name && !Script.isReserved name

/-- The first candidate that is free.  Among more candidates than there are
names to avoid, one is. -/
def freeName (taken : List String) (base : String) : String :=
  let tries := taken.length + Script.reservedWords.length + 1
  (((List.range tries).map (candidate base)).find? (isFree taken)).getD base

def assign (taken : List String) : List Variable → List Variable × Nat
  | [] => ([], 0)
  | entry :: rest =>
    if entry.isParameter then
      let (rest, n) := assign taken rest
      (entry :: rest, n)
    else
      let name := freeName taken (baseName entry)
      let (rest, n) := assign (name :: taken) rest
      ({ entry with name } :: rest, (if entry.name = name then 0 else 1) + n)

def parameterNames (table : VariableTable) : List String :=
  (table.all.filter Variable.isParameter).map Variable.name

/-- Names the variables of a tree and counts those whose name changed. -/
def run (tree : MethodTree) : MethodTree × Nat :=
  let (all, n) := assign (parameterNames tree.table) tree.table.all
  ({ tree with table := { all } }, n)

end Assemblage.Lowering.VariableNames
