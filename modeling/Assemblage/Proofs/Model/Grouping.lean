import Assemblage.Model.Table
import Assemblage.Proofs.Graph.Loaded
import Assemblage.Proofs.Model.Groups

/-!
# Groups as a partition

The groups of a member table, formed in one go with a search among the groups found so
far, are those of the distinct names and staticnesses of its methods.  Every name and
staticness that two methods share has one group, with all these methods in the order of
the table, and the groups are in the order of their first methods.
-/

namespace Assemblage.MethodGroup

variable {declaring : String} {members methods : List Member} {member method : Member}
  {shared : String × Bool} {keys : List (String × Bool)}

/-- Whether a member is a method of the given name and staticness that counts as an overload. -/
def isOverload (shared : String × Bool) (member : Member) : Bool :=
  match member.definition with
  | .method method =>
    !member.isIgnored && !method.isStaticConstructor &&
      (method.name == shared.1 && method.isStatic == shared.2)
  | _ => false

/-- The groups a member table is to have. -/
structure IsGrouping (declaring : String) (members : List Member) (groups : List MethodGroup) :
    Prop where
  /-- No two groups are of one name and staticness. -/
  apart : (groups.map sharedKey).Nodup
  /-- There is a group wherever two methods share their name and staticness, and only there. -/
  shared_iff : ∀ shared, shared ∈ groups.map sharedKey ↔ 2 ≤ members.countP (isOverload shared)
  declaring_eq : ∀ group ∈ groups, group.declaring = declaring
  /-- A group has the methods of its name and staticness, as they are in the table. -/
  methods_eq : ∀ group ∈ groups, group.methods = members.filter (isOverload group.sharedKey)
  /-- The first method of a group stands before those of the groups that follow. -/
  ordered : groups.Pairwise fun left right =>
    members.findIdx (isOverload left.sharedKey) < members.findIdx (isOverload right.sharedKey)
  /-- A method is in one group at most. -/
  disjoint : ∀ left ∈ groups, ∀ right ∈ groups, ∀ method ∈ left.methods,
    method ∈ right.methods → left = right

theorem isOverload_eq (shared : String × Bool) (member : Member) :
    isOverload shared member = (key member == shared && isGroupable member) := by
  obtain ⟨definition, origin, marks, typeExternal, replacement, setBy, ignored⟩ := member
  cases definition with
  | field | property => exact (Bool.and_false _).symm
  | method method => exact Bool.and_comm _ _

theorem filter_isOverload (shared : String × Bool) (members : List Member) :
    members.filter (isOverload shared) =
      (members.filter isGroupable).filter (key · == shared) := by
  rw [List.filter_filter]
  exact List.filter_congr fun member _ => isOverload_eq shared member

@[simp]
theorem sharedKey_ofKey (declaring : String) (methods : List Member) (shared : String × Bool) :
    (ofKey declaring methods shared).sharedKey = shared := rfl

theorem ofKey_concat_of_ne (h : key method ≠ shared) :
    ofKey declaring (methods ++ [method]) shared = ofKey declaring methods shared := by
  rw [ofKey, ofKey, List.filter_append, List.filter_singleton, beq_false_of_ne h]
  exact congrArg (MethodGroup.mk _ _ _) (List.append_nil _)

theorem methods_ofKey_concat :
    (ofKey declaring (methods ++ [method]) (key method)).methods =
      (ofKey declaring methods (key method)).methods ++ [method] := by
  rw [ofKey, ofKey, List.filter_append, List.filter_singleton, beq_self_eq_true]
  rfl

/-- A method whose group is not there makes one of its own. -/
theorem file_of_not_mem {groups : List MethodGroup} (h : key method ∉ groups.map sharedKey) :
    file declaring groups method = groups ++ [ofKey declaring [method] (key method)] := by
  induction groups with
  | nil =>
    have hown : [method].filter (key · == key method) = [method] := by
      rw [List.filter_singleton, beq_self_eq_true]
      rfl
    rw [file, ofKey, hown]
    rfl
  | cons group rest ih =>
    rw [List.map_cons, List.mem_cons, not_or] at h
    have hother : ¬(group.name = method.name ∧ group.isStatic = method.isStatic) :=
      fun hsame => h.1 (Prod.ext hsame.1.symm hsame.2.symm)
    rw [file, if_neg hother, ih h.2, List.cons_append]

/-- A method is put behind those that are there of its name and staticness. -/
theorem file_of_mem (hnodup : keys.Nodup) (h : key method ∈ keys) :
    file declaring (keys.map (ofKey declaring methods)) method =
      keys.map (ofKey declaring (methods ++ [method])) := by
  induction keys with
  | nil => cases h
  | cons first rest ih =>
    rw [List.nodup_cons] at hnodup
    rw [List.map_cons, List.map_cons, file]
    by_cases hfirst : key method = first
    · subst hfirst
      have hrest : rest.map (ofKey declaring (methods ++ [method])) =
          rest.map (ofKey declaring methods) :=
        List.map_congr_left fun shared hshared =>
          ofKey_concat_of_ne fun heq => hnodup.1 (heq ▸ hshared)
      rw [if_pos ⟨rfl, rfl⟩, hrest, ← methods_ofKey_concat]
      rfl
    · have hother : ¬((ofKey declaring methods first).name = method.name ∧
          (ofKey declaring methods first).isStatic = method.isStatic) :=
        fun hsame => hfirst (Prod.ext hsame.1.symm hsame.2.symm)
      rw [if_neg hother, ih hnodup.2 ((List.mem_cons.1 h).resolve_left hfirst),
        ofKey_concat_of_ne hfirst]

/-- The names and staticnesses of methods, each where it first occurs. -/
def keysOf (methods : List Member) : List (String × Bool) :=
  (methods.map key).eraseDups

/-- The keys are those of the methods. -/
theorem mem_keysOf : shared ∈ keysOf methods ↔ ∃ method ∈ methods, key method = shared := by
  rw [keysOf, List.mem_eraseDups, List.mem_map]

theorem keysOf_concat (methods : List Member) (method : Member) :
    keysOf (methods ++ [method]) =
      if key method ∈ keysOf methods then keysOf methods
      else keysOf methods ++ [key method] := by
  rw [keysOf, List.map_append, List.map_singleton, List.eraseDups, eraseDupsBy_concat]
  simp only [List.any_beq, List.contains_iff_mem]
  rfl

theorem nodup_keysOf (methods : List Member) : (keysOf methods).Nodup := by
  have hnodup := nodup_map_eraseDupsBy id (methods.map key)
  rwa [List.map_id] at hnodup

/-- One more method among those that have been grouped. -/
theorem file_keysOf (methods : List Member) (method : Member) :
    file declaring ((keysOf methods).map (ofKey declaring methods)) method =
      (keysOf (methods ++ [method])).map (ofKey declaring (methods ++ [method])) := by
  rw [keysOf_concat]
  by_cases hknown : key method ∈ keysOf methods
  · rw [if_pos hknown, file_of_mem (nodup_keysOf methods) hknown]
  · have hlisted : key method ∉ ((keysOf methods).map (ofKey declaring methods)).map sharedKey := by
      rw [List.map_map]
      simpa [Function.comp_def] using hknown
    have hothers : (keysOf methods).map (ofKey declaring (methods ++ [method])) =
        (keysOf methods).map (ofKey declaring methods) :=
      List.map_congr_left fun shared hshared =>
        ofKey_concat_of_ne fun heq => hknown (heq ▸ hshared)
    have hnone : methods.filter (key · == key method) = [] := by
      rw [List.filter_eq_nil_iff]
      intro other hother hsame
      exact hknown (mem_keysOf.2 ⟨other, hother, beq_iff_eq.1 hsame⟩)
    have hown : ofKey declaring (methods ++ [method]) (key method) =
        ofKey declaring [method] (key method) := by
      rw [ofKey, ofKey, List.filter_append, hnone, List.nil_append]
    rw [if_neg hknown, file_of_not_mem hlisted, List.map_append, List.map_singleton, hothers, hown]

/-- Members collected one by one end in the groups of their keys. -/
theorem foldl_collectMember (declaring : String) (members : List Member) :
    members.foldl (collectMember declaring) [] =
      (keysOf (members.filter isGroupable)).map
        (ofKey declaring (members.filter isGroupable)) := by
  induction members using List.reverseRecOn with
  | nil => rfl
  | append_singleton members member ih =>
    rw [List.foldl_append, List.foldl_cons, List.foldl_nil, ih, collectMember,
      List.filter_append, List.filter_singleton]
    cases isGroupable member with
    | true => exact file_keysOf _ member
    | false => rw [if_neg Bool.false_ne_true, Bool.cond_false, List.append_nil]

/-- Collecting members one by one makes the groups that the construction makes at once. -/
theorem collect_eq_construct (declaring : String) (members : List Member) :
    collect declaring members = construct declaring members := by
  rw [collect, foldl_collectMember]
  rfl

/-- A name and staticness that methods share stands for a place in the table. -/
theorem findIdx_isOverload_lt (h : shared ∈ keysOf (members.filter isGroupable)) :
    members.findIdx (isOverload shared) < members.length := by
  obtain ⟨method, hmethod, rfl⟩ := mem_keysOf.1 h
  rw [List.mem_filter] at hmethod
  rw [List.findIdx_lt_length]
  refine ⟨method, hmethod.1, ?_⟩
  rw [isOverload_eq, beq_self_eq_true, hmethod.2, Bool.and_self]

/-- Groups come in the order of their first methods. -/
theorem pairwise_findIdx (members : List Member) :
    (keysOf (members.filter isGroupable)).Pairwise fun left right =>
      members.findIdx (isOverload left) < members.findIdx (isOverload right) := by
  induction members using List.reverseRecOn with
  | nil => exact List.Pairwise.nil
  | append_singleton members member ih =>
    have hplace : ∀ shared ∈ keysOf (members.filter isGroupable),
        (members ++ [member]).findIdx (isOverload shared) =
          members.findIdx (isOverload shared) := by
      intro shared hshared
      rw [List.findIdx_append, if_pos (findIdx_isOverload_lt hshared)]
    have hkept : (keysOf (members.filter isGroupable)).Pairwise fun left right =>
        (members ++ [member]).findIdx (isOverload left) <
          (members ++ [member]).findIdx (isOverload right) := by
      apply ih.imp_of_mem
      intro left right hleft hright hlt
      rwa [hplace left hleft, hplace right hright]
    rw [List.filter_append, List.filter_singleton]
    cases hgroupable : isGroupable member with
    | false => rwa [Bool.cond_false, List.append_nil]
    | true =>
      rw [Bool.cond_true, keysOf_concat]
      split
      · exact hkept
      · rename_i hnew
        -- Nothing in the table is an overload of the new name, so its place is the last one.
        have hlast : (members ++ [member]).findIdx (isOverload (key member)) = members.length := by
          have hnone : members.findIdx (isOverload (key member)) = members.length := by
            rw [List.findIdx_eq_length]
            intro other hother
            rw [isOverload_eq, Bool.and_eq_false_imp, beq_iff_eq]
            intro hsame
            by_contra hgroupable
            rw [Bool.not_eq_false] at hgroupable
            exact hnew (mem_keysOf.2 ⟨other, List.mem_filter.2 ⟨hother, hgroupable⟩, hsame⟩)
          rw [List.findIdx_append, hnone, if_neg (Nat.lt_irrefl _), List.findIdx_singleton,
            isOverload_eq, beq_self_eq_true, hgroupable]
          exact Nat.zero_add _
        rw [List.pairwise_append]
        refine ⟨hkept, List.pairwise_singleton _ _, ?_⟩
        intro shared hshared other hother
        rw [List.mem_singleton.1 hother, hplace shared hshared, hlast]
        exact findIdx_isOverload_lt hshared

theorem methods_eq_filter_isOverload {group : MethodGroup}
    (h : group ∈ construct declaring members) :
    group.methods = members.filter (isOverload group.sharedKey) := by
  rw [filter_isOverload]
  exact methods_eq_filter h

/-- There is a group for a key exactly if two members at least have it. -/
theorem mem_sharedKey_construct_iff :
    shared ∈ (construct declaring members).map sharedKey ↔
      2 ≤ members.countP (isOverload shared) := by
  rw [List.countP_eq_length_filter, List.mem_map]
  constructor
  · rintro ⟨group, hgroup, rfl⟩
    rw [← methods_eq_filter_isOverload hgroup]
    exact (mem_construct_iff.1 hgroup).2
  · intro hsize
    rw [filter_isOverload] at hsize
    exact ⟨ofKey declaring (members.filter isGroupable) shared,
      mem_construct_iff.2 ⟨rfl, hsize⟩, rfl⟩

/-- The groups of a member table are found in one go through it; they are those of the names
and staticnesses that overloads share. -/
theorem isGrouping_construct (declaring : String) (members : List Member) :
    IsGrouping declaring members (construct declaring members) ∧
      collect declaring members = construct declaring members := by
  have hordered : (construct declaring members).Pairwise fun left right =>
      members.findIdx (isOverload left.sharedKey) <
        members.findIdx (isOverload right.sharedKey) := by
    rw [construct]
    apply List.Pairwise.filter
    rw [List.pairwise_map]
    exact pairwise_findIdx members
  refine ⟨⟨?_, fun shared => mem_sharedKey_construct_iff, ?_, ?_, hordered, ?_⟩,
    collect_eq_construct declaring members⟩
  · rw [List.Nodup, List.pairwise_map]
    refine hordered.imp fun {left right} hlt (heq : left.sharedKey = right.sharedKey) => ?_
    rw [heq] at hlt
    exact Nat.lt_irrefl _ hlt
  · intro group hgroup
    rw [(mem_construct_iff.1 hgroup).1]
    rfl
  · exact fun group hgroup => methods_eq_filter_isOverload hgroup
  · intro left hleft right hright method hmethod hother
    exact eq_of_sharedKey hleft hright
      ((key_eq_of_mem hleft hmethod).symm.trans (key_eq_of_mem hright hother))

end Assemblage.MethodGroup
