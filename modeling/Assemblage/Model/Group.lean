import Assemblage.Model.Member

/-!
# Method groups

Overloads: methods of one type with the same name, all static or all not.  At
least two methods make a group.  Ignored methods and static constructors belong
to none.
-/

namespace Assemblage

structure MethodGroup where
  name : String
  /-- Full name of the type. -/
  declaring : String
  isStatic : Bool
  methods : List Member
deriving Inhabited

namespace MethodGroup

/-- What the methods of a group have in common. -/
def key (member : Member) : String × Bool :=
  (member.name, member.isStatic)

def isGroupable (member : Member) : Bool :=
  member.definition.method?.any fun method =>
    !member.isIgnored && !method.isStaticConstructor

def ofKey (declaring : String) (methods : List Member) (shared : String × Bool) : MethodGroup :=
  { name := shared.1
    declaring
    isStatic := shared.2
    methods := methods.filter (key · == shared) }

/-- The groups of a member table in the order of their first methods. -/
def construct (declaring : String) (members : List Member) : List MethodGroup :=
  let methods := members.filter isGroupable
  (((methods.map key).eraseDups).map (ofKey declaring methods)).filter fun group =>
    decide (2 ≤ group.methods.length)

def size (group : MethodGroup) : Nat :=
  group.methods.length

/-- The parameter types of every method. -/
def signatures (group : MethodGroup) : List (List String) :=
  group.methods.map (·.id.parameters)

/-- The position of a method in the group. -/
def indexOf? (group : MethodGroup) (id : MemberId) : Option Nat :=
  group.methods.findIdx? (·.id == id)

/-- The name of the method at a position in the script. -/
def mangledName (group : MethodGroup) (index : Nat) : String :=
  group.name ++ "$" ++ toString index

end MethodGroup

end Assemblage
