import Assemblage.Signature
import Assemblage.Text.Numeral
import Assemblage.Text.Segments

/-!
# Type identifiers

The key under which everything known about a type is kept: its full name, its
generic arity and the arrays, references and pointers around it.  The assembly
a reference points into, generic arguments and the spelling of a primitive do
not count.
-/

namespace Assemblage

/-- One layer around a named type. -/
inductive Wrapper where
  | vector
  | array (rank : Nat)
  | byRef
  | pointer
deriving DecidableEq

namespace Wrapper

def order : Wrapper → Nat × Nat
  | vector => (0, 0)
  | array rank => (1, rank)
  | byRef => (2, 0)
  | pointer => (3, 0)

def compare (left right : Wrapper) : Ordering :=
  (compareOfLessAndEq left.order.1 right.order.1).then
    (compareOfLessAndEq left.order.2 right.order.2)

def suffix : Wrapper → String
  | vector => "[]"
  | array rank => Signature.arraySuffix rank
  | byRef => "&"
  | pointer => "*"

end Wrapper

/-- Compares position by position; a list comes before its extensions. -/
def compareLists {α : Type} (compare : α → α → Ordering) : List α → List α → Ordering
  | [], [] => .eq
  | [], _ :: _ => .lt
  | _ :: _, [] => .gt
  | x :: xs, y :: ys => (compare x y).then (compareLists compare xs ys)

def compareTexts (left right : String) : Ordering :=
  compareLists (fun c d => compareOfLessAndEq c.toNat d.toNat) left.toList right.toList

/-- The number after the last backtick of the last segment of a type's name,
zero where there is none. -/
def arityOf (name : String) : Nat :=
  match (Text.segments '\x60' (Text.lastSegment '/' name.toList)).reverse with
  | digits :: _ :: _ => (Text.Numeral.read? 10 (Nat.pow 2 32) digits).getD 0
  | _ => 0

theorem arityOf_eq {name : String} {before digits : List Char}
    (h : Text.lastSegment '/' name.toList = before ++ '\x60' :: digits) (hlast : '\x60' ∉ digits) :
    arityOf name = (Text.Numeral.read? 10 (Nat.pow 2 32) digits).getD 0 := by
  obtain ⟨piece, others, hbefore⟩ := List.exists_cons_of_ne_nil
    fun hnil => Text.segments_ne_nil '\x60' before (List.reverse_eq_nil_iff.1 hnil)
  rw [arityOf, h, Text.segments_append_cons, Text.segments_of_not_mem hlast, List.reverse_append,
    hbefore]
  rfl

theorem arityOf_eq_zero {name : String} (h : '\x60' ∉ Text.lastSegment '/' name.toList) :
    arityOf name = 0 := by
  rw [arityOf, Text.segments_of_not_mem h]
  rfl

/-- A namespace cannot contribute to the arity, as a period follows. -/
theorem arityOf_append (space path : String) : arityOf (space ++ "." ++ path) = arityOf path := by
  have htext : (space ++ "." ++ path).toList = (space.toList ++ ['.']) ++ path.toList := by simp
  by_cases hslash : '/' ∈ path.toList
  · rw [arityOf, htext, Text.lastSegment_append_of_mem hslash, arityOf]
  have hpath := Text.lastSegment_of_not_mem hslash
  have hwhole : Text.lastSegment '/' (space ++ "." ++ path).toList =
      Text.lastSegment '/' space.toList ++ '.' :: path.toList := by
    rw [htext, Text.lastSegment_append_of_not_mem hslash,
      Text.lastSegment_append_of_not_mem (by decide), List.append_assoc]
    rfl
  by_cases hmark : '\x60' ∈ path.toList
  · obtain ⟨before, digits, heq, hlast⟩ := Text.exists_last_separator hmark
    rw [arityOf_eq (hpath.trans heq) hlast]
    rw [heq, ← List.cons_append, ← List.append_assoc] at hwhole
    exact arityOf_eq hwhole hlast
  have hzero : arityOf path = 0 := arityOf_eq_zero (by rwa [hpath])
  rw [hzero]
  by_cases hspace : '\x60' ∈ Text.lastSegment '/' space.toList
  · -- What follows the backtick holds the period, and is no number.
    obtain ⟨before, digits, heq, hlast⟩ := Text.exists_last_separator hspace
    rw [heq, List.append_assoc, List.cons_append] at hwhole
    rw [arityOf_eq hwhole (by simp [hlast, hmark]),
      Text.Numeral.read?_eq_none (c := '.') (by simp) (by decide) (by decide)]
    rfl
  · refine arityOf_eq_zero ?_
    rw [hwhole]
    simp [hspace, hmark]

/-- The arity that is spelled out in the path of a name. -/
def TypeName.arity (name : TypeName) : Nat :=
  arityOf name.path

/-- How a full name is split into a namespace and a path makes no difference. -/
theorem TypeName.arity_eq (name : TypeName) : name.arity = arityOf name.fullName := by
  rw [arity, fullName]
  split
  · rfl
  · rw [arityOf_append]

structure TypeId where
  fullName : String
  arity : Nat
  /-- Outermost first. -/
  shape : List Wrapper := []
deriving DecidableEq, Inhabited

namespace TypeId

def wrap (wrapper : Wrapper) (id : TypeId) : TypeId :=
  { id with shape := wrapper :: id.shape }

def ofFullName (fullName : String) : TypeId :=
  { fullName, arity := arityOf fullName }

def ofName (name : TypeName) : TypeId :=
  { fullName := name.fullName, arity := name.arity }

theorem ofName_eq (name : TypeName) : ofName name = ofFullName name.fullName := by
  rw [ofName, name.arity_eq, ofFullName]

def isConstructed (id : TypeId) : Bool :=
  !id.shape.isEmpty

def text (id : TypeId) : String :=
  id.shape.reverse.foldl (fun text wrapper => text ++ wrapper.suffix) id.fullName

def compare (left right : TypeId) : Ordering :=
  (compareTexts left.fullName right.fullName).then
    ((compareOfLessAndEq left.arity right.arity).then
      (compareLists Wrapper.compare left.shape right.shape))

end TypeId

/-- The identifier of the type a signature refers to. -/
def Signature.typeId : Signature → TypeId
  | .vector element => element.typeId.wrap .vector
  | .array element rank => element.typeId.wrap (.array rank)
  | .byRef target => target.typeId.wrap .byRef
  | .pointer target => target.typeId.wrap .pointer
  | .generic definition _ => definition.typeId
  | .reference name | .value name => TypeId.ofName name
  | .primitive p => TypeId.ofName { space := "System", path := p.simpleName }
  | .typeParameter index => { fullName := "!" ++ toString index, arity := 0 }
  | .methodParameter index => { fullName := "!!" ++ toString index, arity := 0 }

end Assemblage
