import Assemblage.Identity.Version
import Assemblage.Text.Blank

/-!
# Assembly identities

An assembly is named by its simple name, its version, a culture and the token
of its public key.  Its display name
`Name, Version=1.0.0.0, Culture=neutral, PublicKeyToken=null` is what
references carry and what assemblies are told apart by.  Simple names compare
without regard to the case of the letters `A` to `Z`; every other character
counts as it stands.
-/

namespace Assemblage

namespace Text

def lowerAscii (text : String) : String :=
  String.ofList (text.toList.map Char.toLower)

def equalIgnoringCase (left right : String) : Bool :=
  left.toList.map Char.toLower == right.toList.map Char.toLower

theorem equalIgnoringCase_iff {left right : String} :
    equalIgnoringCase left right = true ↔
      left.toList.map Char.toLower = right.toList.map Char.toLower := by
  simp [equalIgnoringCase]

theorem equalIgnoringCase_refl (text : String) : equalIgnoringCase text text = true := by
  simp [equalIgnoringCase]

theorem equalIgnoringCase_symm {left right : String}
    (h : equalIgnoringCase left right = true) : equalIgnoringCase right left = true := by
  rw [equalIgnoringCase_iff] at h ⊢
  exact h.symm

theorem equalIgnoringCase_trans {left middle right : String}
    (h : equalIgnoringCase left middle = true) (h' : equalIgnoringCase middle right = true) :
    equalIgnoringCase left right = true := by
  rw [equalIgnoringCase_iff] at h h' ⊢
  exact h.trans h'

end Text

structure AssemblyIdentity where
  name : String
  version : Version := Version.unknown
  /-- Absent for a neutral culture. -/
  culture : Option String := none
  /-- Absent for an assembly without a strong name. -/
  token : Option String := none
deriving DecidableEq, Inhabited

/-- Why a text is not the display name of an assembly. -/
inductive IdentityFault where
  | emptyName (displayName : String)
  | badToken (token : String)
  | version (fault : VersionFault)
deriving DecidableEq

namespace AssemblyIdentity

def withToken (identity : AssemblyIdentity) (token : String) : AssemblyIdentity :=
  { identity with token := some (Text.lowerAscii token) }

def isTokenDigit (c : Char) : Bool :=
  (Text.Numeral.digitValue? 16 c).isSome

def isToken (text : List Char) : Bool :=
  text.length == 16 && text.all isTokenDigit

/-- The rest of a text that begins with the given one. -/
def afterStart? : List Char → List Char → Option (List Char)
  | [], text => some text
  | _ :: _, [] => none
  | c :: start, d :: text => if c = d then afterStart? start text else none

def valueOf? (key : String) (component : List Char) : Option (List Char) :=
  afterStart? (key.toList ++ ['=']) component

/-- Takes one component of a display name into account; a component with an
unknown key changes nothing. -/
def applyComponent (identity : AssemblyIdentity) (component : List Char) :
    Except IdentityFault AssemblyIdentity :=
  match valueOf? "Version" component with
  | some value =>
    match Version.parse value with
    | .ok version => .ok { identity with version }
    | .error fault => .error (.version fault)
  | none =>
    match valueOf? "Culture" component with
    | some value =>
      if value = "neutral".toList ∨ value = [] then .ok identity
      else .ok { identity with culture := some (String.ofList value) }
    | none =>
      match valueOf? "PublicKeyToken" component with
      | some value =>
        if value = "null".toList ∨ value = [] then .ok identity
        else if isToken value then .ok (identity.withToken (String.ofList value))
        else .error (.badToken (String.ofList value))
      | none => .ok identity

def applyComponents (identity : AssemblyIdentity) :
    List (List Char) → Except IdentityFault AssemblyIdentity
  | [] => .ok identity
  | component :: rest =>
    match identity.applyComponent component with
    | .ok identity => applyComponents identity rest
    | .error fault => .error fault

/-- Reads a display name.  Only the simple name is mandatory, and of a component
that is repeated the last one counts. -/
def parse (displayName : String) : Except IdentityFault AssemblyIdentity :=
  match (Text.segments ',' displayName.toList).map Text.trim with
  | [] | [] :: _ => .error (.emptyName displayName)
  | name :: components => applyComponents { name := String.ofList name } components

def displayName (identity : AssemblyIdentity) : String :=
  identity.name ++ ", Version=" ++ identity.version.text ++
    ", Culture=" ++ identity.culture.getD "neutral" ++
    ", PublicKeyToken=" ++ identity.token.getD "null"

def isStrongNamed (identity : AssemblyIdentity) : Bool :=
  identity.token.isSome

def isCultureNeutral (identity : AssemblyIdentity) : Bool :=
  identity.culture.isNone

/-- Whether an assembly with this identity can stand in for `required`.  The
token does not matter. -/
def satisfies (identity required : AssemblyIdentity) : Bool :=
  Text.equalIgnoringCase identity.name required.name && identity.culture == required.culture &&
    identity.version.isCompatibleWith required.version

end AssemblyIdentity

end Assemblage
