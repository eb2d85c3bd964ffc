import Assemblage.Proofs.Model.Completed
import Assemblage.Proofs.Text.Decimal
import Mathlib.Data.List.Pairwise

/-!
# Methods and their groups

A group holds all methods with its name and its staticness, in the order of the
member table, and a method belongs to at most one group.  The name that a method
is given follows from a search through all groups, which does not look at the
staticness of the method.  Where methods that share an identifier also share
their position, the two ways of counting agree.
-/

namespace Assemblage

theorem Member.name_id (member : Member) : member.id.name = member.name := by
  obtain ⟨definition, origin, marks, typeExternal, replacement, setBy, ignored⟩ := member
  cases definition <;> rfl

namespace MethodGroup

variable {declaring : String} {members : List Member} {group other : MethodGroup}

/-- The name and the staticness that the methods of the group share. -/
def sharedKey (group : MethodGroup) : String × Bool :=
  (group.name, group.isStatic)

/-- The methods of a member table that belong to a group of two or more. -/
theorem mem_construct_iff :
    group ∈ construct declaring members ↔
      group = ofKey declaring (members.filter isGroupable) group.sharedKey ∧
        2 ≤ group.methods.length := by
  rw [construct, List.mem_filter, decide_eq_true_iff, List.mem_map]
  constructor
  · intro ⟨⟨shared, _, heq⟩, hsize⟩
    subst heq
    exact ⟨rfl, hsize⟩
  · intro ⟨heq, hsize⟩
    refine ⟨⟨group.sharedKey, ?_, heq.symm⟩, hsize⟩
    obtain ⟨member, hmember⟩ := List.exists_mem_of_length_pos (by omega : 0 < group.methods.length)
    rw [heq, ofKey, List.mem_filter] at hmember
    rw [List.mem_eraseDups, List.mem_map]
    exact ⟨member, hmember.1, by simpa using hmember.2⟩

/-- Groups are told apart by their names and their staticness. -/
theorem eq_of_sharedKey (hgroup : group ∈ construct declaring members)
    (hother : other ∈ construct declaring members) (h : group.sharedKey = other.sharedKey) :
    group = other := by
  rw [(mem_construct_iff.1 hgroup).1, (mem_construct_iff.1 hother).1, h]

/-- The methods of a group are all that have its key. -/
theorem methods_eq_filter (hgroup : group ∈ construct declaring members) :
    group.methods = (members.filter isGroupable).filter (key · == group.sharedKey) :=
  congrArg methods (mem_construct_iff.1 hgroup).1

theorem key_eq_of_mem (hgroup : group ∈ construct declaring members) {member : Member}
    (hmember : member ∈ group.methods) : key member = group.sharedKey := by
  rw [methods_eq_filter hgroup, List.mem_filter, beq_iff_eq] at hmember
  exact hmember.2

theorem isGroupable_of_mem (hgroup : group ∈ construct declaring members) {member : Member}
    (hmember : member ∈ group.methods) : isGroupable member = true := by
  rw [methods_eq_filter hgroup, List.mem_filter, List.mem_filter] at hmember
  exact hmember.1.2

theorem kind_of_isGroupable {member : Member} (h : isGroupable member = true) :
    member.kind = .method := by
  obtain ⟨definition, origin, marks, typeExternal, replacement, setBy, ignored⟩ := member
  cases definition with
  | method definition => rfl
  | _ => simp [isGroupable, MemberDef.method?] at h

theorem isIgnored_of_isGroupable {member : Member} (h : isGroupable member = true) :
    member.isIgnored = false := by
  obtain ⟨method, -, hmethod⟩ := (Option.any_eq_true _ _).1 h
  simp only [Bool.and_eq_true, Bool.not_eq_true'] at hmethod
  exact hmethod.1

end MethodGroup

namespace TypeModel

variable {model : TypeModel}

theorem mem_methods_iff {member : Member} :
    member ∈ model.methods ↔ member ∈ model.members ∧ member.kind = .method := by
  rw [methods, List.mem_filter, beq_iff_eq]

/-- The position of a method in the group of its name and staticness. -/
def position? (model : TypeModel) (member : Member) : Option Nat :=
  (model.groups.find? (·.sharedKey == MethodGroup.key member)).bind (·.indexOf? member.id)

/-- The groups are those of the member table, and methods with the same identifier
differ in their staticness. -/
structure Grouped (model : TypeModel) : Prop where
  groups : model.groups = MethodGroup.construct model.fullName model.members
  apart : model.methods.Pairwise fun left right =>
    left.id = right.id → left.isStatic ≠ right.isStatic

namespace Grouped

variable (h : model.Grouped) {group : MethodGroup} (hgroup : group ∈ model.groups)

include h

/-- In a model with positions, an id and a staticness determine a method. -/
theorem eq_of_id {left right : Member} (hleft : left ∈ model.methods)
    (hright : right ∈ model.methods) (hid : left.id = right.id)
    (hstatic : left.isStatic = right.isStatic) : left = right := by
  by_contra hne
  have hsymmetric : Std.Symm fun left right : Member =>
      left.id = right.id → left.isStatic ≠ right.isStatic :=
    ⟨fun _ _ h hid => (h hid.symm).symm⟩
  exact h.apart.forall hleft hright hne hid hstatic

include hgroup

theorem sublist_methods : group.methods.Sublist model.methods := by
  have hfilter : model.members.filter MethodGroup.isGroupable =
      model.methods.filter MethodGroup.isGroupable := by
    rw [methods, List.filter_filter]
    apply List.filter_congr
    intro member _
    by_cases hgroupable : MethodGroup.isGroupable member = true
    · rw [hgroupable, MethodGroup.kind_of_isGroupable hgroupable]
      rfl
    · rw [Bool.not_eq_true] at hgroupable
      rw [hgroupable, Bool.false_and]
  rw [MethodGroup.methods_eq_filter (h.groups ▸ hgroup), hfilter]
  exact List.filter_sublist.trans List.filter_sublist

theorem key_eq {member : Member} (hmember : member ∈ group.methods) :
    MethodGroup.key member = group.sharedKey :=
  MethodGroup.key_eq_of_mem (h.groups ▸ hgroup) hmember

theorem isIgnored_eq_false {member : Member} (hmember : member ∈ group.methods) :
    member.isIgnored = false :=
  MethodGroup.isIgnored_of_isGroupable (MethodGroup.isGroupable_of_mem (h.groups ▸ hgroup) hmember)

/-- The identifiers in a group are pairwise different. -/
theorem pairwise_id : group.methods.Pairwise fun left right => left.id ≠ right.id := by
  apply (h.apart.sublist (h.sublist_methods hgroup)).imp_of_mem
  intro left right hleft hright hapart hid
  have hkey := (h.key_eq hgroup hleft).trans (h.key_eq hgroup hright).symm
  exact hapart hid (congrArg Prod.snd hkey)

theorem indexOf?_eq {index : Nat} {member : Member}
    (hmember : group.methods[index]? = some member) :
    group.indexOf? member.id = some index := by
  obtain ⟨hindex, rfl⟩ := List.getElem?_eq_some_iff.1 hmember
  rw [MethodGroup.indexOf?, List.findIdx?_eq_some_iff_getElem]
  refine ⟨hindex, beq_self_eq_true _, ?_⟩
  intro before hbefore
  rw [beq_iff_eq]
  exact List.pairwise_iff_getElem.1 (h.pairwise_id hgroup) before index _ hindex hbefore

theorem position?_eq {index : Nat} {member : Member}
    (hmember : group.methods[index]? = some member) : model.position? member = some index := by
  have hkey := h.key_eq hgroup (List.mem_of_getElem? hmember)
  have hfind : model.groups.find? (·.sharedKey == MethodGroup.key member) = some group := by
    cases hfind : model.groups.find? (·.sharedKey == MethodGroup.key member) with
    | none =>
      have hother := List.find?_eq_none.1 hfind group hgroup
      exact absurd (beq_iff_eq.2 hkey.symm) hother
    | some other =>
      have hshared : other.sharedKey = MethodGroup.key member := by
        simpa using List.find?_some hfind
      rw [MethodGroup.eq_of_sharedKey (h.groups ▸ List.mem_of_find?_eq_some hfind)
        (h.groups ▸ hgroup) (hshared.trans hkey)]
  rw [position?, hfind, Option.bind_some, h.indexOf?_eq hgroup hmember]

end Grouped

/-- Methods that share an identifier are ignored together and have the same
position in their groups. -/
def SharesPositions (model : TypeModel) : Prop :=
  ∀ left ∈ model.methods, ∀ right ∈ model.methods, left.id = right.id →
    left.isIgnored = right.isIgnored ∧ model.position? left = model.position? right

/-- The group of an id is one with a method of that id at the index. -/
theorem groupOf?_eq_some {id : MemberId} {group : MethodGroup} {index : Nat}
    (h : model.groupOf? id = some (group, index)) :
    group ∈ model.groups ∧ ∃ member, group.methods[index]? = some member ∧ member.id = id := by
  obtain ⟨found, hfound, hindex⟩ := List.exists_of_findSome?_eq_some h
  obtain ⟨position, hposition, heq⟩ := Option.map_eq_some_iff.1 hindex
  cases heq
  rw [MethodGroup.indexOf?, List.findIdx?_eq_some_iff_getElem] at hposition
  obtain ⟨hlt, hid, -⟩ := hposition
  exact ⟨hfound, group.methods[index], List.getElem?_eq_getElem hlt, beq_iff_eq.1 hid⟩

theorem emittedName_eq_name {member : Member} (h : model.groupOf? member.id = none) :
    model.emittedName member = member.name := by
  rw [emittedName, h]

theorem exists_groupOf? {group : MethodGroup} (hgroup : group ∈ model.groups) {member : Member}
    (hmember : member ∈ group.methods) : ∃ found, model.groupOf? member.id = some found := by
  rw [← Option.isSome_iff_exists, groupOf?, List.findSome?_isSome_iff]
  refine ⟨group, hgroup, ?_⟩
  rw [Option.isSome_map, MethodGroup.indexOf?, List.findIdx?_isSome, List.any_eq_true]
  exact ⟨member, hmember, beq_self_eq_true _⟩

namespace Grouped

variable (h : model.Grouped) (hshares : model.SharesPositions) {group : MethodGroup}
  (hgroup : group ∈ model.groups)

include h hshares

/-- A method of a group is emitted under the mangled name of its index. -/
theorem emittedName_of_mem (hgroup : group ∈ model.groups) {index : Nat} {member : Member}
    (hmember : group.methods[index]? = some member) :
    model.emittedName member = group.mangledName index := by
  have hmem := List.mem_of_getElem? hmember
  obtain ⟨⟨found, position⟩, hfound⟩ := exists_groupOf? hgroup hmem
  obtain ⟨hfoundGroup, other, hother, hid⟩ := groupOf?_eq_some hfound
  have hotherMem := List.mem_of_getElem? hother
  have hposition : position = index := by
    have hsame := (hshares other ((h.sublist_methods hfoundGroup).mem hotherMem) member
      ((h.sublist_methods hgroup).mem hmem) hid).2
    rw [h.position?_eq hfoundGroup hother, h.position?_eq hgroup hmember] at hsame
    exact Option.some.inj hsame
  have hname : found.name = group.name := by
    calc
      found.name = other.name := (congrArg Prod.fst (h.key_eq hfoundGroup hotherMem)).symm
      _ = member.name := by rw [← Member.name_id, hid, Member.name_id]
      _ = group.name := congrArg Prod.fst (h.key_eq hgroup hmem)
  rw [emittedName, hfound]
  exact hposition ▸ congrArg (fun name => name ++ "$" ++ toString position) hname

/-- A method outside all groups is emitted under its own name. -/
theorem emittedName_of_not_mem {member : Member} (hmember : member ∈ model.methods)
    (houtside : ∀ group ∈ model.groups, member ∉ group.methods) :
    model.emittedName member = member.name := by
  apply emittedName_eq_name
  cases hfound : model.groupOf? member.id with
  | none => rfl
  | some found =>
    obtain ⟨hfoundGroup, other, hother, hid⟩ := groupOf?_eq_some hfound
    have hotherMem := (h.sublist_methods hfoundGroup).mem (List.mem_of_getElem? hother)
    have hsame := (hshares other hotherMem member hmember hid).2
    rw [h.position?_eq hfoundGroup hother] at hsame
    -- The group of the method's own name and staticness holds its identifier, so the method too.
    obtain ⟨own, hown, hindex⟩ := Option.bind_eq_some_iff.1 hsame.symm
    rw [MethodGroup.indexOf?, List.findIdx?_eq_some_iff_getElem] at hindex
    obtain ⟨hlt, hthird, -⟩ := hindex
    have hownGroup := List.mem_of_find?_eq_some hown
    have hthirdMem := List.getElem_mem hlt
    have hkey : MethodGroup.key own.methods[found.2] = MethodGroup.key member :=
      (h.key_eq hownGroup hthirdMem).trans (by simpa using List.find?_some hown)
    have heq := h.eq_of_id ((h.sublist_methods hownGroup).mem hthirdMem) hmember
      (beq_iff_eq.1 hthird) (congrArg Prod.snd hkey)
    exact absurd (heq ▸ hthirdMem) (houtside own hownGroup)

/-- A name that an overload table lists belongs to one method of that name and
staticness alone. -/
theorem emittedName_eq_mangledName_iff (hgroup : group ∈ model.groups) {member : Member}
    (hmember : member ∈ model.methods) (hkey : MethodGroup.key member = group.sharedKey)
    (index : Nat) :
    model.emittedName member = group.mangledName index ↔ group.methods[index]? = some member := by
  constructor
  · intro hname
    by_cases hinside : ∃ own ∈ model.groups, member ∈ own.methods
    · obtain ⟨own, hown, hmem⟩ := hinside
      have heq : own = group := MethodGroup.eq_of_sharedKey (h.groups ▸ hown) (h.groups ▸ hgroup)
        ((h.key_eq hown hmem).symm.trans hkey)
      subst heq
      obtain ⟨position, hposition⟩ := List.getElem?_of_mem hmem
      rw [h.emittedName_of_mem hshares hown hposition, MethodGroup.mangledName,
        MethodGroup.mangledName, String.append_right_inj] at hname
      rw [← Text.toString_injective hname, hposition]
    · have houtside : ∀ own ∈ model.groups, member ∉ own.methods :=
        fun own hown hmem => hinside ⟨own, hown, hmem⟩
      have hlength := congrArg String.length hname
      have hshared : member.name = group.name := congrArg Prod.fst hkey
      have hseparator : "$".length = 1 := by decide
      rw [h.emittedName_of_not_mem hshares hmember houtside, MethodGroup.mangledName, hshared,
        String.length_append, String.length_append, hseparator] at hlength
      omega
  · intro hindex
    exact h.emittedName_of_mem hshares hgroup hindex

end Grouped

end TypeModel

end Assemblage
