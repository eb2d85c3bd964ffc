import Assemblage.Model.Construction
import Std.Data.HashMap

/-!
# Member tables in place

A member table is built up from its first member to its last, and while that goes on an
index tells where the member with an identifier stands.  Once the table is complete, the
method groups are formed by going through it once.
-/

namespace Assemblage

deriving instance Hashable for MemberId

structure MemberTable where
  members : Array Member := #[]
  /-- The positions of the members, of the last one where several have one identifier. -/
  positions : Std.HashMap MemberId Nat := {}

namespace MemberTable

def push (table : MemberTable) (member : Member) : MemberTable :=
  { members := table.members.push member
    positions := table.positions.insert member.id table.members.size }

def ofMembers (members : List Member) : MemberTable :=
  members.foldl push {}

def member? (table : MemberTable) (id : MemberId) : Option Member := do
  let position ← table.positions[id]?
  table.members[position]?

/-- Patches the member with the identifier of a proxy member, or adds that one. -/
def patch (proxy : String) (typeExternal : Bool) (table : MemberTable)
    (patching : MemberDef) : MemberTable :=
  match table.positions[patching.id]? with
  | some position => { table with members := table.members.modify position (·.patch patching) }
  | none => table.push { definition := patching, origin := .proxy proxy, typeExternal }

def applyProxy (typeExternal : Bool) (table : MemberTable) (proxy : Proxy) : MemberTable :=
  proxy.memberDefs.foldl (patch proxy.fullName typeExternal) table

/-- Adds a static constructor where fields need one and there is none. -/
def withStaticConstructor (declaring : String) (table : MemberTable) : MemberTable :=
  if !table.members.any TypeModel.isStaticConstructor &&
      table.members.any (·.setByStaticConstructor) then
    table.push
      { definition := .method (synthesizedConstructor declaring)
        origin := .synthesized
        typeExternal := false }
  else table

end MemberTable

/-- The member table of a type with its index. -/
def Program.memberTable (program : Program) (cache : Cache) (definition : TypeDef) :
    MemberTable :=
  let typeExternal := (program.marksOf definition).external
  let declared := MemberTable.ofMembers
    (definition.memberDefs.map fun member => { definition := member, typeExternal })
  let patched :=
    (program.proxiesFor definition).foldl (MemberTable.applyProxy typeExternal) declared
  let marked :=
    if definition.kind.isDeclaredInFull then patched
    else { patched with members := patched.members.map (program.markField cache) }
  marked.withStaticConstructor definition.fullName

namespace MethodGroup

/-- Puts a method into the first group of its name and staticness, or else into a new one. -/
def file (declaring : String) (groups : List MethodGroup) (method : Member) : List MethodGroup :=
  match groups with
  | [] =>
    [{ name := method.name, declaring, isStatic := method.isStatic, methods := [method] }]
  | group :: rest =>
    if group.name = method.name ∧ group.isStatic = method.isStatic then
      { group with methods := group.methods ++ [method] } :: rest
    else group :: file declaring rest method

/-- Takes a member of a table, which may be none of those that are grouped. -/
def collectMember (declaring : String) (groups : List MethodGroup) (member : Member) :
    List MethodGroup :=
  if isGroupable member then file declaring groups member else groups

/-- The groups of two or more methods, as they are found in one go through a table. -/
def collect (declaring : String) (members : List Member) : List MethodGroup :=
  (members.foldl (collectMember declaring) []).filter fun group =>
    decide (2 ≤ group.methods.length)

end MethodGroup

end Assemblage
