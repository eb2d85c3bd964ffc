import Assemblage.Model.Table
import Assemblage.Proofs.Model.Patches
import Std.Data.HashMap.Lemmas

/-!
# Tables with an index

The index of a member table keeps up with it: for every identifier it has the position
of the last member, if there is one.  So a table that is built by way of its index is the
one that is built by searching, and a member is found by either.
-/

namespace Assemblage

theorem updateLast?_append_cons {α : Type} {p : α → Bool} {after : List α} {item : α}
    (hitem : p item = true) (hafter : ∀ other ∈ after, p other = false) (f : α → α)
    (before : List α) :
    updateLast? p f (before ++ item :: after) = some (before ++ f item :: after) := by
  induction before with
  | nil =>
    rw [List.nil_append, updateLast?, updateLast?_eq_none_iff.2 hafter]
    simp only [hitem, if_true]
    rfl
  | cons head rest ih =>
    rw [List.cons_append, updateLast?, ih]
    rfl

namespace MemberTable

variable {table : MemberTable} {members : List Member}

/-- A table has certain members, and its index the positions of the last of each identifier. -/
structure Represents (table : MemberTable) (members : List Member) : Prop where
  toList_eq : table.members.toList = members
  found : ∀ id position, table.positions[id]? = some position →
    ∃ before after, members.map Member.id = before ++ id :: after ∧
      before.length = position ∧ id ∉ after
  absent : ∀ id, table.positions[id]? = none → id ∉ members.map Member.id

theorem represents_empty : Represents {} [] where
  toList_eq := rfl
  found id position h := by
    rw [Std.HashMap.getElem?_empty] at h
    cases h
  absent _ _ := List.not_mem_nil

namespace Represents

variable (h : table.Represents members)

include h

/-- The place that the index has for an identifier. -/
theorem exists_split {id : MemberId} {position : Nat}
    (hposition : table.positions[id]? = some position) :
    ∃ before member after, members = before ++ member :: after ∧ before.length = position ∧
      (member.id == id) = true ∧ ∀ other ∈ after, (other.id == id) = false := by
  obtain ⟨ids, later, hids, hlength, hlater⟩ := h.found id position hposition
  obtain ⟨before, rest, rfl, rfl, hrest⟩ := List.map_eq_append_iff.1 hids
  obtain ⟨member, after, rfl, hid, rfl⟩ := List.map_eq_cons_iff.1 hrest
  refine ⟨before, member, after, rfl, ?_, beq_iff_eq.2 hid, ?_⟩
  · rwa [List.length_map] at hlength
  · intro other hother
    rw [beq_eq_false_iff_ne]
    exact fun hsame => hlater (List.mem_map.2 ⟨other, hother, hsame⟩)

theorem push (member : Member) : (table.push member).Represents (members ++ [member]) where
  toList_eq := by rw [MemberTable.push, Array.toList_push, h.toList_eq]
  found id position hposition := by
    rw [MemberTable.push, Std.HashMap.getElem?_insert] at hposition
    rw [List.map_append, List.map_singleton]
    split at hposition
    · rename_i hsame
      have hsize : table.members.size = (members.map Member.id).length := by
        rw [List.length_map, ← h.toList_eq, Array.length_toList]
      refine ⟨members.map Member.id, [], ?_, ?_, List.not_mem_nil⟩
      · rw [eq_of_beq hsame]
      · rw [← hsize, Option.some.inj hposition]
    · rename_i hother
      obtain ⟨before, after, hids, hlength, hafter⟩ := h.found id position hposition
      refine ⟨before, after ++ [member.id], ?_, hlength, ?_⟩
      · rw [hids, List.append_assoc, List.cons_append]
      · rw [List.mem_append, List.mem_singleton, not_or]
        exact ⟨hafter, fun hsame => hother (beq_iff_eq.2 hsame.symm)⟩
  absent id hnone := by
    rw [MemberTable.push, Std.HashMap.getElem?_insert] at hnone
    split at hnone
    · cases hnone
    · rename_i hother
      rw [List.map_append, List.map_singleton, List.mem_append, List.mem_singleton, not_or]
      exact ⟨h.absent id hnone, fun hsame => hother (beq_iff_eq.2 hsame.symm)⟩

theorem foldl_push (added : List Member) :
    (added.foldl MemberTable.push table).Represents (members ++ added) := by
  induction added generalizing table members with
  | nil => rwa [List.append_nil]
  | cons member rest ih =>
    rw [List.foldl_cons, List.append_cons]
    exact ih (h.push member)

/-- The index does not notice a change that leaves the identifiers alone. -/
theorem of_map_id {changed : List Member} {array : Array Member} (harray : array.toList = changed)
    (hids : changed.map Member.id = members.map Member.id) :
    Represents { table with members := array } changed where
  toList_eq := harray
  found id position hposition := by
    rw [hids]
    exact h.found id position hposition
  absent id hnone := by
    rw [hids]
    exact h.absent id hnone

theorem patch (proxy : String) (typeExternal : Bool) (patching : MemberDef) :
    (MemberTable.patch proxy typeExternal table patching).Represents
      (Member.patchTable proxy typeExternal members patching) := by
  rw [MemberTable.patch, Member.patchTable]
  cases hposition : table.positions[patching.id]? with
  | none =>
    have hnone : ∀ member ∈ members, (member.id == patching.id) = false := by
      intro member hmember
      rw [beq_eq_false_iff_ne]
      exact fun hsame => h.absent _ hposition (List.mem_map.2 ⟨member, hmember, hsame⟩)
    rw [updateLast?_eq_none_iff.2 hnone]
    exact h.push _
  | some position =>
    obtain ⟨before, member, after, rfl, rfl, hid, hafter⟩ := h.exists_split hposition
    rw [updateLast?_append_cons (p := fun other : Member => other.id == patching.id) hid hafter]
    refine h.of_map_id ?_ ?_
    · rw [Array.toList_modify, h.toList_eq, List.modify_eq_take_drop, List.take_left,
        List.drop_left]
      rfl
    · rw [List.map_append, List.map_append, List.map_cons, List.map_cons, Member.id_patch]

theorem applyProxy (typeExternal : Bool) (proxy : Proxy) :
    (MemberTable.applyProxy typeExternal table proxy).Represents
      (Member.applyProxy typeExternal members proxy) := by
  rw [MemberTable.applyProxy, Member.applyProxy]
  exact List.foldl_rel (r := Represents) h fun patching _ _ _ hsame =>
    hsame.patch proxy.fullName typeExternal patching

theorem withStaticConstructor (declaring : String) :
    (table.withStaticConstructor declaring).Represents
      (Program.withStaticConstructor declaring members) := by
  rw [MemberTable.withStaticConstructor, Program.withStaticConstructor, ← h.toList_eq,
    Array.any_toList, Array.any_toList]
  split
  · rw [h.toList_eq]
    exact h.push _
  · rw [h.toList_eq]
    exact h

/-- A member is found by way of the index as by searching from the end. -/
theorem member?_eq (id : MemberId) :
    table.member? id = members.reverse.find? (·.id == id) := by
  rw [member?]
  cases hposition : table.positions[id]? with
  | none =>
    refine (List.find?_eq_none.2 ?_).symm
    intro member hmember hsame
    exact h.absent id hposition
      (List.mem_map.2 ⟨member, List.mem_reverse.1 hmember, eq_of_beq hsame⟩)
  | some position =>
    obtain ⟨before, member, after, rfl, rfl, hid, hafter⟩ := h.exists_split hposition
    have hplace : table.members[before.length]? = some member := by
      rw [← Array.getElem?_toList, h.toList_eq, List.getElem?_append_right (Nat.le_refl _),
        Nat.sub_self]
      rfl
    have hlater : after.reverse.find? (·.id == id) = none := by
      rw [List.find?_eq_none]
      intro other hother
      rw [hafter other (List.mem_reverse.1 hother)]
      exact Bool.false_ne_true
    have hfirst : (member :: before.reverse).find? (·.id == id) = some member :=
      List.find?_cons_of_pos hid
    rw [List.reverse_append, List.reverse_cons, List.append_assoc, List.find?_append, hlater,
      Option.none_or, List.singleton_append, hfirst]
    exact hplace

end Represents

end MemberTable

namespace Program

/-- The member table with its index is the one that is found by searching. -/
theorem represents_memberTable (program : Program) (cache : Cache) (definition : TypeDef) :
    (program.memberTable cache definition).Represents (program.membersOf cache definition) := by
  have hpatched : ((program.proxiesFor definition).foldl
      (MemberTable.applyProxy (program.marksOf definition).external)
      (MemberTable.ofMembers (definition.memberDefs.map fun member =>
        { definition := member,
          typeExternal := (program.marksOf definition).external }))).Represents
      (program.patchedMembers definition) := by
    have hdeclared := MemberTable.represents_empty.foldl_push
      (definition.memberDefs.map fun member =>
      { definition := member, typeExternal := (program.marksOf definition).external })
    rw [List.nil_append] at hdeclared
    exact List.foldl_rel (r := MemberTable.Represents) hdeclared fun proxy _ _ _ hsame =>
      hsame.applyProxy _ proxy
  rw [memberTable, membersOf]
  apply MemberTable.Represents.withStaticConstructor
  split
  · exact hpatched
  · refine hpatched.of_map_id ?_ ?_
    · rw [Array.toList_map, hpatched.toList_eq]
    · rw [List.map_map]
      rfl

end Program

end Assemblage
