import Assemblage.Signature

/-!
# Variables

The parameters, locals and temporaries of one method, addressed by their
position in its variable table.  A position may lie outside the table.
-/

namespace Assemblage

structure VariableId where
  index : Nat
deriving DecidableEq, Inhabited

def VariableId.text (id : VariableId) : String :=
  "v" ++ toString id.index

structure Variable where
  /-- Empty until the variable is named. -/
  name : String
  type : Signature
  isParameter : Bool := false
  /-- Whether it holds an intermediate value and has no name in the source. -/
  isGenerated : Bool := false
deriving Inhabited

structure VariableTable where
  all : List Variable := []
deriving Inhabited

namespace VariableTable

def get? (table : VariableTable) (id : VariableId) : Option Variable :=
  table.all[id.index]?

def size (table : VariableTable) : Nat :=
  table.all.length

/-- The variable's name, or the text of its position where it has none. -/
def nameOf (table : VariableTable) (id : VariableId) : String :=
  match table.get? id with
  | some entry => if entry.name.isEmpty then id.text else entry.name
  | none => id.text

def entries (table : VariableTable) : List (VariableId × Variable) :=
  table.all.zipIdx.map fun (entry, index) => (⟨index⟩, entry)

/-- The positions of the parameters. -/
def parameters (table : VariableTable) : List VariableId :=
  (table.entries.filter (·.2.isParameter)).map (·.1)

def isParameter (table : VariableTable) (id : VariableId) : Bool :=
  (table.get? id).any (·.isParameter)

end VariableTable

end Assemblage
