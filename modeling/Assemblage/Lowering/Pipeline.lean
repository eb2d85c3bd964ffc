import Assemblage.Lowering.Declarations
import Assemblage.Lowering.IgnoredTypes
import Assemblage.Lowering.OperatorForms
import Assemblage.Lowering.References
import Assemblage.Lowering.StructCopies
import Assemblage.Lowering.Temporaries
import Assemblage.Lowering.VariableNames

/-!
# The pipeline

The passes over a method tree in the one order that is correct: bound
variables need declarations, and operators are shortened once the expressions
have their final shape.  Only the elimination of temporaries is repeated.
-/

namespace Assemblage.Lowering

inductive Pass where
  | ignoredTypes | variableNames | temporaries | structCopies | declarations | references
  | operatorForms
deriving DecidableEq

namespace Pass

def all : List Pass :=
  [ignoredTypes, variableNames, temporaries, structCopies, declarations, references,
   operatorForms]

def name : Pass → String
  | ignoredTypes => "ignored-types"
  | variableNames => "name-variables"
  | temporaries => "eliminate-temporaries"
  | structCopies => "emulate-struct-assignment"
  | declarations => "introduce-declarations"
  | references => References.passName
  | operatorForms => "simplify-operators"

def description : Pass → String
  | ignoredTypes => "Rejects methods whose body references an ignored type"
  | variableNames => "Assigns stable, unique display names to locals and temporaries"
  | temporaries => "Collapses single-use temporary bindings into their use site"
  | structCopies => "Inserts explicit copies where struct values are assigned or passed"
  | declarations => "Declares every local at the statement of its first use"
  | references => "Resolves raw variable operands into declared variable references"
  | operatorForms => "Folds assignments and negations into compound operator forms"

def ofName? (name : String) : Option Pass :=
  all.find? (·.name == name)

/-- Runs a pass once; the number counts what it changed. -/
def run (pass : Pass) (context : MethodContext) (tree : MethodTree) :
    Except Error (MethodTree × Nat) :=
  match pass with
  | ignoredTypes => (IgnoredTypes.check context tree).map fun tree => (tree, 0)
  | variableNames => .ok (VariableNames.run tree)
  | temporaries => .ok (Temporaries.run tree)
  | structCopies => .ok (StructCopies.run context.oracle tree)
  | declarations => .ok (Declarations.run context.oracle tree)
  | references => References.run context tree
  | operatorForms => .ok (OperatorForms.run tree)

end Pass

/-- Which optional passes take place. -/
structure Pipeline where
  eliminatesTemporaries : Bool := true
  shortensOperators : Bool := true
  /-- At least one elimination is run, also where the bound is zero. -/
  maxEliminations : Nat := 100
deriving DecidableEq

namespace Pipeline

def eliminate (pipeline : Pipeline) (tree : MethodTree) : MethodTree :=
  if pipeline.eliminatesTemporaries then
    Temporaries.runRepeatedly (max pipeline.maxEliminations 1) tree
  else tree

def shorten (pipeline : Pipeline) (tree : MethodTree) : MethodTree :=
  if pipeline.shortensOperators then (OperatorForms.run tree).1 else tree

/-- The tree after every pass. -/
def lower (pipeline : Pipeline) (context : MethodContext) (tree : MethodTree) :
    Except Error MethodTree :=
  match IgnoredTypes.check context tree with
  | .error error => .error error
  | .ok tree =>
    let named := (VariableNames.run tree).1
    let eliminated := pipeline.eliminate named
    let copied := (StructCopies.run context.oracle eliminated).1
    let declared := (Declarations.run context.oracle copied).1
    match References.run context declared with
    | .error error => .error error
    | .ok (bound, _) => .ok (pipeline.shorten bound)

def toFunction (name : String) (tree : MethodTree) : Function :=
  { name
    parameters := tree.parameters.map tree.table.nameOf
    table := tree.table
    body := tree.body }

/-- The function written out for a method. -/
def run (pipeline : Pipeline) (name : String) (context : MethodContext) (tree : MethodTree) :
    Except Error Function :=
  (pipeline.lower context tree).map (toFunction name)

end Pipeline

end Assemblage.Lowering
