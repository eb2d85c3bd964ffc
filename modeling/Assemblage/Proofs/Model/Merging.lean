import Assemblage.Proofs.Graph.Loaded
import Assemblage.Proofs.Model.Tables

/-!
# Merged member tables

What proxies do to a member table one after the other can be told at once.  Each member
of the type is patched by all their members with its identifier; then come the members
with other identifiers, of each the first one that there is, and patched by the rest.
-/

namespace Assemblage

/-- A member of a proxy. -/
structure ProxyMember where
  /-- Full name of the proxy. -/
  proxy : String
  definition : MemberDef

def ProxyMember.id (member : ProxyMember) : MemberId :=
  member.definition.id

/-- The members of proxies with an identifier. -/
def ProxyMember.under (id : MemberId) (supplied : List ProxyMember) : List MemberDef :=
  (supplied.filter (·.id == id)).map ProxyMember.definition

/-- The first member of each identifier that a type does not have itself. -/
def ProxyMember.added (own : List MemberDef) (supplied : List ProxyMember) : List ProxyMember :=
  (supplied.filter fun member => decide (member.id ∉ own.map MemberDef.id)).eraseDupsBy
    fun left right => left.id == right.id

namespace Member

def patchAll (member : Member) (patches : List MemberDef) : Member :=
  patches.foldl patch member

theorem patchAll_concat (member : Member) (patches : List MemberDef) (patching : MemberDef) :
    member.patchAll (patches ++ [patching]) = (member.patchAll patches).patch patching := by
  rw [patchAll, List.foldl_append]
  rfl

/-- All marks are added, and the last body that is supplied counts. -/
theorem patchAll_eq (member : Member) (patches : List MemberDef) :
    member.patchAll patches =
      { member with
        marks := (patches.map MemberDef.marks).foldl Marks.merge member.marks
        replacement :=
          (patches.filterMap MemberDef.supplied?).getLast?.or member.replacement } := by
  induction patches using List.reverseRecOn with
  | nil => rfl
  | append_singleton patches patching ih =>
    rw [patchAll_concat, patch_eq, ih, List.map_append, List.foldl_append,
      List.filterMap_append, List.getLast?_append, List.filterMap_cons]
    cases patching.supplied? with
    | none => rfl
    | some method => rfl

theorem id_patchAll (member : Member) (patches : List MemberDef) :
    (member.patchAll patches).id = member.id := by
  rw [patchAll_eq]
  rfl

/-- The members of a table after all patches. -/
def mergeTable (typeExternal : Bool) (own : List MemberDef) (supplied : List ProxyMember) :
    List Member :=
  own.map (fun definition =>
      patchAll { definition, typeExternal } (ProxyMember.under definition.id supplied)) ++
    (ProxyMember.added own supplied).map fun member =>
      patchAll { definition := member.definition, origin := .proxy member.proxy, typeExternal }
        (ProxyMember.under member.id supplied).tail

end Member

/-- Where keys are different, the last item with a key is the only one. -/
theorem updateLast?_of_nodup {α β : Type} [DecidableEq β] {key : α → β} {items : List α}
    (h : (items.map key).Nodup) (sought : β) (f : α → α) :
    updateLast? (key · == sought) f items =
      if sought ∈ items.map key then
        some (items.map fun item => if key item = sought then f item else item)
      else none := by
  split
  · rename_i hmem
    obtain ⟨item, hitem, rfl⟩ := List.mem_map.1 hmem
    obtain ⟨before, after, rfl⟩ := List.append_of_mem hitem
    rw [List.map_append, List.map_cons, List.nodup_middle, List.nodup_cons, List.mem_append,
      not_or] at h
    have hkept : ∀ others : List α, key item ∉ others.map key →
        others.map (fun other => if key other = key item then f other else other) = others := by
      intro others hothers
      conv_rhs => rw [← List.map_id others]
      refine List.map_congr_left fun other hother => if_neg fun hsame => ?_
      exact hothers (List.mem_map.2 ⟨other, hother, hsame⟩)
    have hafter : ∀ other ∈ after, (key other == key item) = false := by
      intro other hother
      rw [beq_eq_false_iff_ne]
      exact fun hsame => h.1.2 (List.mem_map.2 ⟨other, hother, hsame⟩)
    rw [updateLast?_append_cons (p := (key · == key item)) (beq_self_eq_true _) hafter,
      List.map_append, List.map_cons, hkept before h.1.1, hkept after h.1.2, if_pos rfl]
  · rename_i hmem
    apply updateLast?_eq_none_iff.2
    intro item hitem
    rw [beq_eq_false_iff_ne]
    exact fun hsame => hmem (List.mem_map.2 ⟨item, hitem, hsame⟩)

namespace ProxyMember

variable {own : List MemberDef} {supplied : List ProxyMember} {member : ProxyMember}
  {id : MemberId}

theorem under_concat (id : MemberId) (supplied : List ProxyMember) (member : ProxyMember) :
    under id (supplied ++ [member]) =
      under id supplied ++ if member.id = id then [member.definition] else [] := by
  rw [under, List.filter_append, List.filter_singleton, List.map_append]
  by_cases hid : member.id = id
  · rw [if_pos hid, beq_iff_eq.2 hid]
    rfl
  · rw [if_neg hid, beq_false_of_ne hid]
    rfl

theorem under_eq_nil_iff : under id supplied = [] ↔ id ∉ supplied.map ProxyMember.id := by
  rw [under, List.map_eq_nil_iff, List.filter_eq_nil_iff, List.mem_map]
  simp only [beq_iff_eq, not_exists, not_and]

/-- Members are added under the ids that the type itself does not have. -/
theorem mem_map_id_added : id ∈ (added own supplied).map ProxyMember.id ↔
    id ∉ own.map MemberDef.id ∧ id ∈ supplied.map ProxyMember.id := by
  rw [added, mem_map_eraseDupsBy]
  constructor
  · intro hmem
    obtain ⟨member, hmember, rfl⟩ := List.mem_map.1 hmem
    rw [List.mem_filter, decide_eq_true_iff] at hmember
    exact ⟨hmember.2, List.mem_map_of_mem hmember.1⟩
  · rintro ⟨hother, hmem⟩
    obtain ⟨member, hmember, rfl⟩ := List.mem_map.1 hmem
    exact List.mem_map_of_mem (List.mem_filter.2 ⟨hmember, decide_eq_true hother⟩)

theorem added_concat (own : List MemberDef) (supplied : List ProxyMember)
    (member : ProxyMember) :
    added own (supplied ++ [member]) =
      if member.id ∈ own.map MemberDef.id ∨ member.id ∈ supplied.map ProxyMember.id then
        added own supplied
      else added own supplied ++ [member] := by
  rw [added, List.filter_append, List.filter_singleton]
  by_cases hown : member.id ∈ own.map MemberDef.id
  · rw [if_pos (.inl hown), decide_eq_false (not_not_intro hown), Bool.cond_false, List.append_nil]
    rfl
  · have hknown : (added own supplied).any (member.id == ·.id) = true ↔
        member.id ∈ supplied.map ProxyMember.id := by
      rw [← and_iff_right hown (b := member.id ∈ _), ← mem_map_id_added, List.any_eq_true,
        List.mem_map]
      simp only [beq_iff_eq, eq_comm (a := member.id)]
    rw [decide_eq_true hown, Bool.cond_true, eraseDupsBy_concat, ← added]
    simp only [hknown, hown, false_or]

theorem added_subset (own : List MemberDef) (supplied : List ProxyMember) :
    added own supplied ⊆ supplied :=
  List.Subset.trans (eraseDupsBy_subset _ _) (List.filter_subset_self _)

/-- What is added is the first of its identifier. -/
theorem under_eq_cons (h : member ∈ added own supplied) :
    under member.id supplied = member.definition :: (under member.id supplied).tail := by
  apply List.eq_cons_of_mem_head?
  induction supplied using List.reverseRecOn with
  | nil => cases h
  | append_singleton supplied other ih =>
    have hkept : member ∈ added own supplied →
        member.definition ∈ (under member.id (supplied ++ [other])).head? := by
      intro hmember
      rw [under_concat, List.head?_append, ih hmember]
      rfl
    rw [added_concat] at h
    split at h
    · exact hkept h
    · rename_i hnew
      rcases List.mem_append.1 h with hmember | hlast
      · exact hkept hmember
      · rw [List.mem_singleton.1 hlast, under_concat, if_pos rfl,
          under_eq_nil_iff.2 fun hmem => hnew (.inr hmem)]
        rfl

theorem under_ne_nil (h : member ∈ added own supplied) : under member.id supplied ≠ [] := by
  rw [under_eq_cons h]
  exact List.cons_ne_nil _ _

end ProxyMember

namespace Member

open ProxyMember

variable {typeExternal : Bool} {own : List MemberDef} {supplied : List ProxyMember}
  {id : MemberId}

/-- The merged table has the ids of the type in their order, then the new ones in theirs. -/
theorem map_id_mergeTable (typeExternal : Bool) (own : List MemberDef)
    (supplied : List ProxyMember) :
    (mergeTable typeExternal own supplied).map Member.id =
      own.map MemberDef.id ++ (added own supplied).map ProxyMember.id := by
  rw [mergeTable, List.map_append, List.map_map, List.map_map]
  congr 1
  · exact List.map_congr_left fun definition _ => id_patchAll _ _
  · exact List.map_congr_left fun member _ => id_patchAll _ _

theorem mem_map_id_mergeTable : id ∈ (mergeTable typeExternal own supplied).map Member.id ↔
    id ∈ own.map MemberDef.id ∨ id ∈ supplied.map ProxyMember.id := by
  rw [map_id_mergeTable, List.mem_append, mem_map_id_added]
  exact ⟨Or.imp_right And.right, fun hor => or_iff_not_imp_left.2 fun hown =>
    ⟨hown, hor.resolve_left hown⟩⟩

/-- No id is twice in the merged table if none is twice in the type. -/
theorem nodup_map_id_mergeTable (h : (own.map MemberDef.id).Nodup) (typeExternal : Bool)
    (supplied : List ProxyMember) :
    ((mergeTable typeExternal own supplied).map Member.id).Nodup := by
  rw [map_id_mergeTable, List.nodup_append]
  refine ⟨h, nodup_map_eraseDupsBy ProxyMember.id _, ?_⟩
  rintro id hown other hother rfl
  exact (mem_map_id_added.1 hother).1 hown

/-- One more patch for the members that have its identifier. -/
theorem patchAll_under_concat {base : Member} {patches before : List MemberDef}
    (member : ProxyMember)
    (h : patches = before ++ if member.id = base.id then [member.definition] else []) :
    base.patchAll patches =
      if (base.patchAll before).id = member.id then
        (base.patchAll before).patch member.definition
      else base.patchAll before := by
  rw [h, id_patchAll]
  by_cases hid : member.id = base.id
  · rw [if_pos hid, if_pos hid.symm, patchAll_concat]
  · rw [if_neg hid, if_neg (Ne.symm hid), List.append_nil]

/-- The members that are in a table take one more patch. -/
theorem map_mergeTable (typeExternal : Bool) (own : List MemberDef)
    (supplied : List ProxyMember) (member : ProxyMember) :
    (mergeTable typeExternal own supplied).map (fun patched =>
        if patched.id = member.id then patched.patch member.definition else patched) =
      own.map (fun definition => patchAll { definition, typeExternal }
          (under definition.id (supplied ++ [member]))) ++
        (added own supplied).map fun other =>
          patchAll { definition := other.definition, origin := .proxy other.proxy, typeExternal }
            (under other.id (supplied ++ [member])).tail := by
  rw [mergeTable, List.map_append, List.map_map, List.map_map]
  congr 1
  · refine List.map_congr_left fun definition _ => (patchAll_under_concat member ?_).symm
    exact under_concat _ _ _
  · refine List.map_congr_left fun other hother => (patchAll_under_concat member ?_).symm
    rw [under_concat, List.tail_append_of_ne_nil (under_ne_nil hother)]
    rfl

/-- One more member of a proxy, for a table that all those before have been merged into. -/
theorem patchTable_mergeTable (h : (own.map MemberDef.id).Nodup) (member : ProxyMember) :
    patchTable member.proxy typeExternal (mergeTable typeExternal own supplied)
        member.definition =
      mergeTable typeExternal own (supplied ++ [member]) := by
  have hupdate : updateLast? (fun patched : Member => patched.id == member.definition.id)
      (·.patch member.definition) (mergeTable typeExternal own supplied) = _ :=
    updateLast?_of_nodup (nodup_map_id_mergeTable h typeExternal supplied) member.id _
  rw [patchTable, hupdate]
  by_cases hknown : member.id ∈ own.map MemberDef.id ∨ member.id ∈ supplied.map ProxyMember.id
  · rw [if_pos (mem_map_id_mergeTable.2 hknown)]
    conv_rhs => rw [mergeTable, added_concat, if_pos hknown, ← map_mergeTable]
  · have hnew : under member.id (supplied ++ [member]) = [member.definition] := by
      rw [under_concat, if_pos rfl, under_eq_nil_iff.2 fun hmem => hknown (.inr hmem)]
      rfl
    have hkept : (mergeTable typeExternal own supplied).map (fun patched =>
        if patched.id = member.id then patched.patch member.definition else patched) =
          mergeTable typeExternal own supplied := by
      conv_rhs => rw [← List.map_id (mergeTable typeExternal own supplied)]
      refine List.map_congr_left fun patched hpatched => if_neg fun hsame => hknown ?_
      exact mem_map_id_mergeTable.1 (List.mem_map.2 ⟨patched, hpatched, hsame⟩)
    rw [if_neg fun hmem => hknown (mem_map_id_mergeTable.1 hmem)]
    conv_rhs => rw [mergeTable, added_concat, if_neg hknown, List.map_append, List.map_singleton,
      hnew, ← List.append_assoc, ← map_mergeTable, hkept]
    rfl

/-- Patching member by member makes the merged table. -/
theorem foldl_patchTable (h : (own.map MemberDef.id).Nodup) (typeExternal : Bool)
    (supplied : List ProxyMember) :
    supplied.foldl (fun members member =>
        patchTable member.proxy typeExternal members member.definition)
      (own.map fun definition => { definition, typeExternal }) =
      mergeTable typeExternal own supplied := by
  induction supplied using List.reverseRecOn with
  | nil => exact (List.append_nil _).symm
  | append_singleton supplied member ih =>
    rw [List.foldl_append, ih]
    exact patchTable_mergeTable h member

/-- The members of proxies that patch a member: those of its identifier, without the one by
which a proxy has added it. -/
def patchesFrom (supplied : List ProxyMember) (member : Member) : List MemberDef :=
  match member.origin with
  | .proxy _ => (under member.id supplied).tail
  | _ => under member.id supplied

/-- A member has the marks and the body that members of proxies give it: the marks of all
that patch it, and the last body among them. -/
structure PatchedBy (supplied : List ProxyMember) (member : Member) : Prop where
  /-- A proxy adds the first member of an identifier, and all others patch it. -/
  added_eq : ∀ proxy, member.origin = .proxy proxy →
    under member.id supplied = member.definition :: member.patchesFrom supplied
  marks_eq : member.marks =
    ((member.patchesFrom supplied).map MemberDef.marks).foldl Marks.merge member.definition.marks
  replacement_eq : member.replacement =
    ((member.patchesFrom supplied).filterMap MemberDef.supplied?).getLast?

/-- A table of members with certain definitions and origins, in this order, that are told
apart by their identifiers. -/
structure MergedTable (sources : List (MemberDef × Origin)) (supplied : List ProxyMember)
    (members : List Member) : Prop where
  sources_eq : members.map (fun member => (member.definition, member.origin)) = sources
  nodup : (members.map Member.id).Nodup
  patchedBy : ∀ member ∈ members, member.PatchedBy supplied

/-- Definitions and origins of the members of a type and of those its proxies add. -/
def givenSources (own : List MemberDef) (supplied : List ProxyMember) :
    List (MemberDef × Origin) :=
  own.map (fun definition => (definition, .declared)) ++
    (added own supplied).map fun member => (member.definition, .proxy member.proxy)

/-- A new member after the patches for it. -/
theorem patchedBy_patchAll (base : Member)
    (hadded : ∀ proxy, base.origin = .proxy proxy →
      under base.id supplied = base.definition :: base.patchesFrom supplied)
    (hmarks : base.marks = base.definition.marks) (hreplacement : base.replacement = none) :
    (base.patchAll (base.patchesFrom supplied)).PatchedBy supplied := by
  have hsame : (base.patchAll (base.patchesFrom supplied)).patchesFrom supplied =
      base.patchesFrom supplied := by
    rw [patchAll_eq]
    rfl
  constructor
  · rw [hsame, id_patchAll, patchAll_eq]
    exact hadded
  · rw [hsame, patchAll_eq, hmarks]
  · rw [hsame, patchAll_eq, hreplacement, Option.or_none]

/-- The merged table is as the account of it says. -/
theorem mergedTable_mergeTable (h : (own.map MemberDef.id).Nodup) (typeExternal : Bool)
    (supplied : List ProxyMember) :
    MergedTable (givenSources own supplied) supplied (mergeTable typeExternal own supplied) where
  sources_eq := by
    rw [mergeTable, List.map_append, List.map_map, List.map_map, givenSources]
    simp only [patchAll_eq]
    rfl
  nodup := nodup_map_id_mergeTable h typeExternal supplied
  patchedBy := by
    rw [mergeTable, List.forall_mem_append, List.forall_mem_map, List.forall_mem_map]
    constructor
    · intro definition _
      exact patchedBy_patchAll { definition, typeExternal } (fun _ hnone => by cases hnone) rfl rfl
    · intro other hother
      exact patchedBy_patchAll
        { definition := other.definition, origin := .proxy other.proxy, typeExternal }
        (fun _ _ => under_eq_cons hother) rfl rfl

namespace MergedTable

variable {sources : List (MemberDef × Origin)} {members : List Member}

theorem map_id_eq (h : MergedTable sources supplied members) :
    members.map Member.id = sources.map (·.1.id) := by
  rw [← h.sources_eq, List.map_map]
  rfl

/-- A change of members that concerns nothing proxies have to do with. -/
theorem map (h : MergedTable sources supplied members) {change : Member → Member}
    (hchange : ∀ member, (change member).definition = member.definition ∧
      (change member).origin = member.origin ∧ (change member).marks = member.marks ∧
      (change member).replacement = member.replacement) :
    MergedTable sources supplied (members.map change) := by
  have hid : ∀ member, (change member).id = member.id :=
    fun member => congrArg MemberDef.id (hchange member).1
  have hids : (members.map change).map Member.id = members.map Member.id := by
    rw [List.map_map]
    exact List.map_congr_left fun member _ => hid member
  refine ⟨?_, hids ▸ h.nodup, ?_⟩
  · rw [List.map_map, ← h.sources_eq]
    exact List.map_congr_left fun member _ => Prod.ext (hchange member).1 (hchange member).2.1
  · rw [List.forall_mem_map]
    intro member hmember
    obtain ⟨hadded, hmarks, hreplacement⟩ := h.patchedBy member hmember
    obtain ⟨hdefinition, horigin, hsameMarks, hsameReplacement⟩ := hchange member
    have hpatches : (change member).patchesFrom supplied = member.patchesFrom supplied := by
      rw [patchesFrom, horigin, hid, ← patchesFrom]
    constructor
    · rw [horigin, hid, hdefinition, hpatches]
      exact hadded
    · rw [hsameMarks, hpatches, hdefinition, hmarks]
    · rw [hsameReplacement, hpatches, hreplacement]

/-- A member that is made up, and that no proxy knows of. -/
theorem concat (h : MergedTable sources supplied members) {member : Member}
    (hnew : member.id ∉ members.map Member.id) (horigin : member.origin = .synthesized)
    (hunknown : member.id ∉ supplied.map ProxyMember.id)
    (hmarks : member.marks = member.definition.marks) (hreplacement : member.replacement = none) :
    MergedTable (sources ++ [(member.definition, .synthesized)]) supplied
      (members ++ [member]) where
  sources_eq := by
    rw [List.map_append, h.sources_eq, List.map_singleton, horigin]
  nodup := by
    rw [List.map_append, List.map_singleton, ← List.concat_eq_append, List.nodup_concat]
    exact ⟨hnew, h.nodup⟩
  patchedBy := by
    have hpatches : member.patchesFrom supplied = [] := by
      rw [patchesFrom, horigin]
      exact under_eq_nil_iff.2 hunknown
    rw [List.forall_mem_append, List.forall_mem_singleton]
    refine ⟨h.patchedBy, ?_, ?_, ?_⟩
    · rw [horigin]
      exact fun _ hnone => by cases hnone
    · rw [hpatches, hmarks]
      rfl
    · rw [hpatches, hreplacement]
      rfl

/-- A member is found under its identifier, and nothing else is. -/
theorem find?_eq_some_iff (h : MergedTable sources supplied members) {id : MemberId}
    {member : Member} :
    members.reverse.find? (·.id == id) = some member ↔ member ∈ members ∧ member.id = id := by
  constructor
  · intro hfound
    exact ⟨List.mem_reverse.1 (List.mem_of_find?_eq_some hfound),
      eq_of_beq (List.find?_some (p := fun other : Member => other.id == id) hfound)⟩
  · rintro ⟨hmember, hid⟩
    cases hfound : members.reverse.find? (·.id == id) with
    | none =>
      rw [List.find?_eq_none] at hfound
      exact absurd (beq_iff_eq.2 hid) (hfound member (List.mem_reverse.2 hmember))
    | some other =>
      have hother := eq_of_beq (List.find?_some (p := fun other : Member => other.id == id) hfound)
      have hmem := List.mem_reverse.1 (List.mem_of_find?_eq_some hfound)
      rw [List.inj_on_of_nodup_map h.nodup hmem hmember (hother.trans hid.symm)]

end MergedTable

end Member

/-! ## The table of a type -/

/-- Whatever is called like a static constructor is one. -/
def TypeDef.InitializesStatically (definition : TypeDef) : Prop :=
  ∀ method ∈ definition.methods, method.name = ".cctor" → method.isStatic = true

/-- Only a static constructor has the identifier of one. -/
theorem MemberDef.isStaticConstructor_of_id {definition : MemberDef} {declaring : String}
    (hid : definition.id = (MemberDef.method (synthesizedConstructor declaring)).id)
    (hstatic : ∀ method, definition = .method method →
      method.name = ".cctor" → method.isStatic = true) :
    definition.method?.any (·.isStaticConstructor) = true := by
  cases definition with
  | field | property => cases hid
  | method method =>
    have hname : method.name = ".cctor" := congrArg MemberId.name hid
    change (method.name == ".cctor" && method.isStatic) = true
    rw [hname, hstatic method rfl hname]
    rfl

namespace Program

open Member

variable {program : Program} {definition : TypeDef}

/-- The members that proxies have for a type, in the order in which they take effect. -/
def proxyMembers (program : Program) (definition : TypeDef) : List ProxyMember :=
  (program.proxiesFor definition).flatMap fun proxy =>
    proxy.memberDefs.map fun member => { proxy := proxy.fullName, definition := member }

/-- Definitions and origins of the members of a type and of those its proxies add. -/
def givenMembers (program : Program) (definition : TypeDef) : List (MemberDef × Origin) :=
  givenSources definition.memberDefs (program.proxyMembers definition)

/-- Whether a static constructor has to be made up: a field is set by it, and neither the type
nor a proxy has one. -/
def makesStaticConstructor (program : Program) (cache : Cache) (definition : TypeDef) : Bool :=
  !(program.givenMembers definition).any (·.1.method?.any (·.isStaticConstructor)) &&
    (!definition.kind.isDeclaredInFull &&
      (program.givenMembers definition).any
        (·.1.field?.any (program.isSetByStaticConstructor cache)))

/-- Definitions and origins of the members of a model: those of the type, then those that only
proxies have, last a static constructor that has been made up. -/
def memberSources (program : Program) (cache : Cache) (definition : TypeDef) :
    List (MemberDef × Origin) :=
  program.givenMembers definition ++
    if program.makesStaticConstructor cache definition then
      [(.method (synthesizedConstructor definition.fullName), .synthesized)]
    else []

/-- The patched members of a definition are the merged table of its own members and of those of
its proxies. -/
theorem patchedMembers_eq (h : (definition.memberDefs.map MemberDef.id).Nodup) :
    program.patchedMembers definition =
      mergeTable (program.marksOf definition).external definition.memberDefs
        (program.proxyMembers definition) := by
  rw [← foldl_patchTable h, proxyMembers, List.foldl_flatMap, patchedMembers]
  simp only [List.foldl_map]
  rfl

/-- What a type and its proxies have under the name of a static constructor is static. -/
theorem isStatic_of_mem_givenMembers (hown : definition.InitializesStatically)
    (hproxies : ∀ proxy ∈ program.proxiesFor definition, proxy.definition.InitializesStatically)
    {method : MethodDef} {origin : Origin}
    (h : (.method method, origin) ∈ program.givenMembers definition)
    (hname : method.name = ".cctor") : method.isStatic = true := by
  rcases List.mem_append.1 h with hgiven | hgiven
  · obtain ⟨declared, hdeclared, heq⟩ := List.mem_map.1 hgiven
    obtain ⟨rfl, -⟩ := Prod.mk.inj heq
    exact hown method (by simpa [TypeDef.memberDefs] using hdeclared) hname
  · obtain ⟨added, hadded, heq⟩ := List.mem_map.1 hgiven
    obtain ⟨proxy, hproxy, hmember⟩ := List.mem_flatMap.1 (ProxyMember.added_subset _ _ hadded)
    obtain ⟨supplied, hsupplied, rfl⟩ := List.mem_map.1 hmember
    obtain ⟨rfl, -⟩ := Prod.mk.inj heq
    have hmethod : method ∈ proxy.definition.methods ∧
        (method.isConstructor = false ∨ method.attributes.isEmpty = false) := by
      simpa [Proxy.memberDefs] using hsupplied
    exact hproxies proxy hproxy method hmethod.1 hname

/-- The members of a type with those of its proxies, once it is told which fields are set. -/
def markedMembers (program : Program) (cache : Cache) (definition : TypeDef) : List Member :=
  if definition.kind.isDeclaredInFull then program.patchedMembers definition
  else (program.patchedMembers definition).map (program.markField cache)

theorem membersOf_eq (program : Program) (cache : Cache) (definition : TypeDef) :
    program.membersOf cache definition =
      withStaticConstructor definition.fullName (program.markedMembers cache definition) := rfl

/-- Marking fields keeps the account of the merged table. -/
theorem mergedTable_markedMembers (program : Program) (cache : Cache)
    (hnodup : (definition.memberDefs.map MemberDef.id).Nodup) :
    MergedTable (program.givenMembers definition) (program.proxyMembers definition)
      (program.markedMembers cache definition) := by
  have hpatched := mergedTable_mergeTable hnodup (program.marksOf definition).external
    (program.proxyMembers definition)
  rw [← patchedMembers_eq hnodup] at hpatched
  rw [markedMembers]
  split
  · exact hpatched
  · exact hpatched.map fun member => ⟨rfl, rfl, rfl, rfl⟩

/-- The fields that are set are told by the definitions alone. -/
theorem any_setByStaticConstructor (program : Program) (cache : Cache)
    (hnodup : (definition.memberDefs.map MemberDef.id).Nodup) :
    (program.markedMembers cache definition).any (·.setByStaticConstructor) =
      (!definition.kind.isDeclaredInFull && (program.givenMembers definition).any
        (·.1.field?.any (program.isSetByStaticConstructor cache))) := by
  have hsources := (program.mergedTable_markedMembers cache hnodup).sources_eq
  rw [← hsources, List.any_map, markedMembers]
  split
  · rename_i hkind
    rw [hkind, Bool.not_true, Bool.false_and, List.any_eq_false]
    intro member hmember
    rw [(program.patched_patchedMembers definition member hmember).unset]
    exact Bool.false_ne_true
  · rename_i hkind
    rw [Bool.eq_false_iff.2 hkind, Bool.not_false, Bool.true_and, List.any_map, List.any_map]
    rfl

/-- A static constructor that has been made up has an identifier of its own. -/
theorem id_synthesizedMember_not_mem (cache : Cache)
    (hnodup : (definition.memberDefs.map MemberDef.id).Nodup)
    (hown : definition.InitializesStatically)
    (hproxies : ∀ proxy ∈ program.proxiesFor definition, proxy.definition.InitializesStatically)
    (hlacks : (program.givenMembers definition).any (·.1.method?.any (·.isStaticConstructor)) =
      false) :
    (synthesizedMember definition.fullName).id ∉
      (program.markedMembers cache definition).map Member.id := by
  intro hmem
  obtain ⟨member, hmember, hid⟩ := List.mem_map.1 hmem
  have hgiven : (member.definition, member.origin) ∈ program.givenMembers definition := by
    rw [← (program.mergedTable_markedMembers cache hnodup).sources_eq]
    exact List.mem_map.2 ⟨member, hmember, rfl⟩
  refine List.any_eq_false.1 hlacks _ hgiven
    (MemberDef.isStaticConstructor_of_id hid fun method hmethod hname => ?_)
  change member.definition = _ at hmethod
  rw [hmethod] at hgiven
  exact isStatic_of_mem_givenMembers hown hproxies hgiven hname

/-- The static constructor that is made where one is missing keeps the account of the merged
table. -/
theorem mergedTable_membersOf (hnodup : (definition.memberDefs.map MemberDef.id).Nodup)
    (hown : definition.InitializesStatically)
    (hproxies : ∀ proxy ∈ program.proxiesFor definition, proxy.definition.InitializesStatically)
    (cache : Cache) :
    MergedTable (program.memberSources cache definition) (program.proxyMembers definition)
      (program.membersOf cache definition) := by
  have hmarked := program.mergedTable_markedMembers cache hnodup
  have hstatic : (program.markedMembers cache definition).any TypeModel.isStaticConstructor =
      (program.givenMembers definition).any (·.1.method?.any (·.isStaticConstructor)) := by
    rw [← hmarked.sources_eq, List.any_map]
    rfl
  rw [membersOf_eq, withStaticConstructor, hstatic, any_setByStaticConstructor program cache hnodup,
    ← makesStaticConstructor, memberSources]
  split
  · rename_i hmakes
    have hlacks := (Bool.and_eq_true_iff.1 hmakes).1
    rw [Bool.not_eq_true'] at hlacks
    have hnew := id_synthesizedMember_not_mem cache hnodup hown hproxies hlacks
    have hids : (program.markedMembers cache definition).map Member.id =
        (mergeTable (program.marksOf definition).external definition.memberDefs
          (program.proxyMembers definition)).map Member.id := by
      rw [hmarked.map_id_eq, (mergedTable_mergeTable hnodup _ _).map_id_eq]
      rfl
    have hunknown := hnew
    rw [hids, mem_map_id_mergeTable, not_or] at hunknown
    exact hmarked.concat hnew rfl hunknown.2 rfl rfl
  · rw [List.append_nil]
    exact hmarked

/-- The members of a model are those of its type with those of its proxies merged into them,
and each is found under its identifier. -/
structure MergesProxies (program : Program) (cache : Cache) (model : TypeModel) : Prop where
  merged : MergedTable (program.memberSources cache model.definition)
    (program.proxyMembers model.definition) model.members
  member?_eq_some_iff : ∀ id member,
    model.member? id = some member ↔ member ∈ model.members ∧ member.id = id

/-- Proxies are merged into a model when it is built, and the check for ignored types leaves
this as it is.  A table with an index comes to the same members. -/
theorem mergesProxies_build (hnodup : (definition.memberDefs.map MemberDef.id).Nodup)
    (hown : definition.InitializesStatically)
    (hproxies : ∀ proxy ∈ program.proxiesFor definition, proxy.definition.InitializesStatically)
    (cache : Cache) (id : TypeId) :
    let model := program.build cache id definition
    let table := program.memberTable cache definition
    program.MergesProxies cache model ∧
      (∀ later, program.MergesProxies cache (program.complete later model)) ∧
      table.members.toList = model.members ∧
      ∀ sought, table.member? sought = model.member? sought := by
  intro model table
  have hmerged : MergedTable (program.memberSources cache definition)
      (program.proxyMembers definition) model.members :=
    mergedTable_membersOf hnodup hown hproxies cache
  have htable : table.Represents model.members := program.represents_memberTable cache definition
  refine ⟨⟨hmerged, fun _ _ => hmerged.find?_eq_some_iff⟩, fun later => ?_, htable.toList_eq,
    htable.member?_eq⟩
  have hchecked : MergedTable (program.memberSources cache definition)
      (program.proxyMembers definition) (program.complete later model).members :=
    hmerged.map fun member => ⟨rfl, rfl, rfl, rfl⟩
  exact ⟨hchecked, fun _ _ => hchecked.find?_eq_some_iff⟩

/-- A class with a counter that a static constructor has to set. -/
def clockClass : TypeBlueprint :=
  { space := "App", name := "Clock"
    fields := [({ name := "ticks", type := .primitive .int32 } : FieldDef).asStatic]
    methods := [{ name := "Now" }, MethodDef.constructor] }

/-- A proxy for the class, with a constructor that takes no part. -/
def clockProxy (name : String) (attributes : List Attribute) : Proxy :=
  let blueprint : TypeBlueprint :=
    { space := "Patches", name
      methods :=
        [({ name := "Now", attributes } : MethodDef).withTree {},
          ({ name := "Reset" } : MethodDef).withTree {}, MethodDef.constructor]
      properties := [{ name := "Zone", type := .primitive .string, attributes }] }
  { definition := blueprint.buildDetached
    types := []
    names := ["App.Clock"]
    inheritable := false }

/-- A program with two proxies that have the same members, external in the second one. -/
def clockProgram : Program :=
  { graph := {}
    proxies := [clockProxy "First" [], clockProxy "Second" [{ typeName := Attribute.external }]] }

/-- Of two proxies with the same members, the first one adds what is new, and the later
implementation counts unless it is external. -/
theorem mergesProxies_build_clockProgram :
    let definition := clockClass.buildDetached
    let model := clockProgram.build {} definition.typeId definition
    (definition.memberDefs.map MemberDef.id).Nodup ∧ definition.InitializesStatically ∧
      (∀ proxy ∈ clockProgram.proxiesFor definition, proxy.definition.InitializesStatically) ∧
      (clockProgram.proxiesFor definition).map Proxy.fullName =
        ["Patches.First", "Patches.Second"] ∧
      clockProgram.MergesProxies {} model ∧
      model.members.map (fun member => (member.name, member.origin)) =
        [("ticks", .declared), ("Now", .declared), (".ctor", .declared),
          ("Reset", .proxy "Patches.First"), ("Zone", .proxy "Patches.First"),
          (".cctor", .synthesized)] ∧
      model.members.map (fun member =>
          (member.marks.external, member.replacement.map (·.declaring))) =
        [(false, none), (true, some "Patches.First"), (false, none),
          (false, some "Patches.Second"), (true, none), (false, none)] := by
  intro definition model
  have hnodup : (definition.memberDefs.map MemberDef.id).Nodup := by decide +kernel
  have hown : definition.InitializesStatically := by
    rw [TypeDef.InitializesStatically]
    decide +kernel
  have hproxies : ∀ proxy ∈ clockProgram.proxiesFor definition,
      proxy.definition.InitializesStatically := by
    intro proxy hproxy
    have hall : ∀ proxy ∈ clockProgram.proxies, ∀ method ∈ proxy.definition.methods,
        method.name = ".cctor" → method.isStatic = true := by decide +kernel
    exact hall proxy (List.mem_filter.1 hproxy).1
  refine ⟨hnodup, hown, hproxies, ?_,
    (mergesProxies_build hnodup hown hproxies {} definition.typeId).1, ?_, ?_⟩
  · decide +kernel
  · decide +kernel
  · decide +kernel

end Program

end Assemblage
