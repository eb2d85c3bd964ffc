import Assemblage.Proofs.Script.Naming
import Assemblage.Proofs.Script.Turns

/-!
# Names of methods side by side

The name of an overload ends in a dollar sign and its position.  Overloads of one
staticness therefore never share a name: the position holds no dollar sign, so
the last one tells where the name of the group ends.  A method without overloads
keeps its own name, and nothing keeps that from being the name of an overload of
another group.
-/

namespace Assemblage

/-- A mangled name determines the name and the index it was made of. -/
theorem MethodGroup.mangledName_inj {left right : MethodGroup} {first second : Nat}
    (h : left.mangledName first = right.mangledName second) :
    left.name = right.name ∧ first = second := by
  have hdigits : ∀ index : Nat, '$' ∉ (toString index).toList := by
    intro index hmem
    exact absurd (Text.isDigit_of_mem_toString hmem) (by decide)
  have hchars : left.name.toList ++ '$' :: (toString first).toList =
      right.name.toList ++ '$' :: (toString second).toList := by
    simpa [mangledName] using congrArg String.toList h
  obtain ⟨hname, hindex⟩ :=
    Text.append_separator_inj (hdigits first) (hdigits second) hchars
  exact ⟨String.toList_inj.1 hname, Text.toString_injective (String.toList_inj.1 hindex)⟩

namespace TypeModel

variable {model : TypeModel}

/-! ## Collisions -/

/-- The method has no overloads. -/
def IsAlone (model : TypeModel) (member : Member) : Prop :=
  ∀ group ∈ model.groups, member ∉ group.methods

/-- No method without overloads has the name of an overload of its own staticness. -/
def LeavesOverloads (model : TypeModel) : Prop :=
  ∀ member ∈ model.methods, member.isIgnored = false → model.IsAlone member →
    ∀ group ∈ model.groups, group.isStatic = member.isStatic →
      ∀ index < group.size, member.name ≠ group.mangledName index

/-- At most one static constructor is not ignored. -/
def ConstructsOnce (model : TypeModel) : Prop :=
  ∀ left ∈ model.methods, ∀ right ∈ model.methods,
    left.isIgnored = false → right.isIgnored = false →
    isStaticConstructor left = true → isStaticConstructor right = true → left = right

/-- Different methods of one staticness that are not ignored have different names in
the script. -/
def NamesApart (model : TypeModel) : Prop :=
  ∀ left ∈ model.methods, ∀ right ∈ model.methods,
    left.isIgnored = false → right.isIgnored = false → left ≠ right →
    left.isStatic = right.isStatic → Script.methodName model left ≠ Script.methodName model right

theorem isStaticConstructor_iff {member : Member} (hkind : member.kind = .method) :
    isStaticConstructor member = true ↔ member.name = ".cctor" ∧ member.isStatic = true := by
  obtain ⟨definition, origin, marks, typeExternal, replacement, setBy, ignored⟩ := member
  cases definition with
  | method method =>
    simp [isStaticConstructor, MemberDef.method?, MethodDef.isStaticConstructor, Member.name,
      MemberDef.name, Member.isStatic, MemberDef.isStatic]
  | field | property => cases hkind

theorem eq_of_id (hids : (model.members.map Member.id).Nodup) {left right : Member}
    (hleft : left ∈ model.members) (hright : right ∈ model.members) (hid : left.id = right.id) :
    left = right :=
  List.inj_on_of_nodup_map hids hleft hright hid

theorem sharesPositions_of_nodup (hids : (model.members.map Member.id).Nodup) :
    model.SharesPositions := by
  intro left hleft right hright hid
  obtain rfl := eq_of_id hids (mem_methods_iff.1 hleft).1 (mem_methods_iff.1 hright).1 hid
  exact ⟨rfl, rfl⟩

theorem grouped_of_nodup
    (hgroups : model.groups = MethodGroup.construct model.fullName model.members)
    (hids : (model.members.map Member.id).Nodup) : model.Grouped where
  groups := hgroups
  apart := by
    have hpairwise : model.members.Pairwise fun left right => left.id ≠ right.id :=
      List.pairwise_map.1 hids
    apply (hpairwise.sublist List.filter_sublist).imp
    intro left right hne hid
    exact absurd hid hne

/-- A method is alone, or it is one of the methods of a group. -/
theorem isAlone_or (model : TypeModel) (member : Member) :
    model.IsAlone member ∨
      ∃ group ∈ model.groups, ∃ index : Nat, group.methods[index]? = some member := by
  by_cases h : ∃ group ∈ model.groups, member ∈ group.methods
  · obtain ⟨group, hgroup, hmem⟩ := h
    exact .inr ⟨group, hgroup, List.getElem?_of_mem hmem⟩
  · exact .inl fun group hgroup hmem => h ⟨group, hgroup, hmem⟩

/-- A method that is not ignored and not in a group is the static constructor. -/
theorem isStaticConstructor_of_not_isGroupable {member : Member} (hmember : member ∈ model.methods)
    (hignored : member.isIgnored = false) (h : MethodGroup.isGroupable member = false) :
    isStaticConstructor member = true := by
  have hkind := (mem_methods_iff.1 hmember).2
  obtain ⟨definition, origin, marks, typeExternal, replacement, setBy, ignored⟩ := member
  cases definition with
  | method method =>
    simpa [MethodGroup.isGroupable, isStaticConstructor, MemberDef.method?, hignored] using h
  | field | property => cases hkind

/-- Two methods that can be overloads and share their name and staticness are. -/
theorem not_isAlone (hgroups : model.groups = MethodGroup.construct model.fullName model.members)
    {left right : Member} (hleft : left ∈ model.methods) (hright : right ∈ model.methods)
    (hne : left ≠ right) (hkey : MethodGroup.key right = MethodGroup.key left)
    (hfirst : MethodGroup.isGroupable left = true)
    (hsecond : MethodGroup.isGroupable right = true) : ¬model.IsAlone left := by
  intro halone
  let group := MethodGroup.ofKey model.fullName (model.members.filter MethodGroup.isGroupable)
    (MethodGroup.key left)
  have hmem : ∀ member ∈ model.methods, MethodGroup.isGroupable member = true →
      MethodGroup.key member = MethodGroup.key left → member ∈ group.methods := by
    intro member hmember hgroupable hkey
    refine List.mem_filter.2 ⟨List.mem_filter.2 ⟨(mem_methods_iff.1 hmember).1, hgroupable⟩, ?_⟩
    exact beq_iff_eq.2 hkey
  have hin := hmem left hleft hfirst rfl
  have hsize : 2 ≤ group.methods.length := by
    by_contra hsmall
    have hpos := List.length_pos_of_mem hin
    obtain ⟨only, honly⟩ := List.length_eq_one_iff.1 (by omega : group.methods.length = 1)
    have hother := hmem right hright hsecond hkey
    rw [honly, List.mem_singleton] at hin hother
    exact hne (hin.trans hother.symm)
  exact halone group (hgroups ▸ MethodGroup.mem_construct_iff.2 ⟨rfl, hsize⟩) hin

section Distinct

variable (hgroups : model.groups = MethodGroup.construct model.fullName model.members)
  (hids : (model.members.map Member.id).Nodup)

include hgroups

/-- A static constructor has no overloads. -/
theorem isAlone_of_isStaticConstructor {member : Member}
    (h : isStaticConstructor member = true) : model.IsAlone member := by
  intro group hgroup hmem
  have hgroupable := MethodGroup.isGroupable_of_mem (hgroups ▸ hgroup) hmem
  obtain ⟨method, hmethod, hnot⟩ := (Option.any_eq_true _ _).1 hgroupable
  rw [isStaticConstructor, hmethod, Option.any_some] at h
  simp [h] at hnot

/-- A method without overloads and another with its name and staticness are static
constructors. -/
theorem ConstructsOnce.eq_of_isAlone (h : model.ConstructsOnce) {left right : Member}
    (hleft : left ∈ model.methods) (hright : right ∈ model.methods)
    (hfirst : left.isIgnored = false) (hsecond : right.isIgnored = false)
    (halone : model.IsAlone left) (hkey : MethodGroup.key right = MethodGroup.key left) :
    left = right := by
  by_contra hne
  have hconstructs : isStaticConstructor left = true ∨ isStaticConstructor right = true := by
    by_contra hneither
    rw [not_or, Bool.not_eq_true, Bool.not_eq_true] at hneither
    have hgroupable : ∀ member ∈ model.methods, member.isIgnored = false →
        isStaticConstructor member = false → MethodGroup.isGroupable member = true := by
      intro member hmember hignored hstatic
      by_contra hnot
      rw [isStaticConstructor_of_not_isGroupable hmember hignored (by simpa using hnot)] at hstatic
      cases hstatic
    exact not_isAlone hgroups hleft hright hne hkey (hgroupable left hleft hfirst hneither.1)
      (hgroupable right hright hsecond hneither.2) halone
  have hsame : isStaticConstructor left = true ↔ isStaticConstructor right = true := by
    have hname : right.name = left.name := congrArg Prod.fst hkey
    have hstatic : right.isStatic = left.isStatic := congrArg Prod.snd hkey
    rw [isStaticConstructor_iff (mem_methods_iff.1 hleft).2,
      isStaticConstructor_iff (mem_methods_iff.1 hright).2, hname, hstatic]
  obtain hstatic | hstatic := hconstructs
  · exact hne (h left hleft right hright hfirst hsecond hstatic (hsame.1 hstatic))
  · exact hne (h left hleft right hright hfirst hsecond (hsame.2 hstatic) hstatic)

include hids

/-- A method that is not overloaded keeps its name. -/
theorem emittedName_of_isAlone {member : Member} (hmember : member ∈ model.methods)
    (h : model.IsAlone member) : model.emittedName member = member.name :=
  (grouped_of_nodup hgroups hids).emittedName_of_not_mem (sharesPositions_of_nodup hids) hmember h

/-- An overload is named by its position in the group. -/
theorem emittedName_of_overload {group : MethodGroup} (hgroup : group ∈ model.groups)
    {index : Nat} {member : Member} (hmember : group.methods[index]? = some member) :
    model.emittedName member = group.mangledName index :=
  (grouped_of_nodup hgroups hids).emittedName_of_mem (sharesPositions_of_nodup hids) hgroup hmember

theorem key_of_overload {group : MethodGroup} (hgroup : group ∈ model.groups) {index : Nat}
    {member : Member} (hmember : group.methods[index]? = some member) :
    MethodGroup.key member = group.sharedKey :=
  (grouped_of_nodup hgroups hids).key_eq hgroup (List.mem_of_getElem? hmember)

theorem NamesApart.leavesOverloads (h : model.NamesApart) : model.LeavesOverloads := by
  intro member hmember hignored halone group hgroup hstatic index hindex hname
  have hgrouped := grouped_of_nodup hgroups hids
  have hother : group.methods[index]? = some group.methods[index] :=
    List.getElem?_eq_getElem hindex
  have hmem := List.mem_of_getElem? hother
  have hkey := key_of_overload hgroups hids hgroup hother
  apply h member hmember group.methods[index] ((hgrouped.sublist_methods hgroup).mem hmem)
    hignored (hgrouped.isIgnored_eq_false hgroup hmem)
  · exact fun heq => halone group hgroup (heq ▸ hmem)
  · exact hstatic.symm.trans (congrArg Prod.snd hkey).symm
  · rw [Script.methodName, Script.methodName, emittedName_of_isAlone hgroups hids hmember halone,
      emittedName_of_overload hgroups hids hgroup hother, hname]

theorem NamesApart.constructsOnce (h : model.NamesApart) : model.ConstructsOnce := by
  intro left hleft right hright hfirst hsecond hconstructs hother
  by_contra hne
  obtain ⟨hname, hstatic⟩ := (isStaticConstructor_iff (mem_methods_iff.1 hleft).2).1 hconstructs
  obtain ⟨hsame, hboth⟩ := (isStaticConstructor_iff (mem_methods_iff.1 hright).2).1 hother
  apply h left hleft right hright hfirst hsecond hne (hstatic.trans hboth.symm)
  rw [Script.methodName, Script.methodName,
    emittedName_of_isAlone hgroups hids hleft (isAlone_of_isStaticConstructor hgroups hconstructs),
    emittedName_of_isAlone hgroups hids hright (isAlone_of_isStaticConstructor hgroups hother),
    hname, hsame]

/-- Names are apart where no plain name is one of an overload and there is one static
constructor at most. -/
theorem namesApart_of_leavesOverloads (hleaves : model.LeavesOverloads)
    (honce : model.ConstructsOnce) : model.NamesApart := by
  intro left hleft right hright hfirst hsecond hne hstatic hnames
  have hemitted : model.emittedName left = model.emittedName right :=
    Script.Identifier.escape_injective hnames
  -- A method without overloads is not named like an overload.
  have hmixed : ∀ alone ∈ model.methods, alone.isIgnored = false → model.IsAlone alone →
      ∀ group ∈ model.groups, ∀ (index : Nat) (member : Member),
        group.methods[index]? = some member → member.isStatic = alone.isStatic →
          model.emittedName alone ≠ model.emittedName member := by
    intro alone halone hignored hlone group hgroup index member hmember hsame hname
    rw [emittedName_of_isAlone hgroups hids halone hlone,
      emittedName_of_overload hgroups hids hgroup hmember] at hname
    have hkey := key_of_overload hgroups hids hgroup hmember
    exact hleaves alone halone hignored hlone group hgroup
      ((congrArg Prod.snd hkey).symm.trans hsame) index
      (List.getElem?_eq_some_iff.1 hmember).1 hname
  obtain hlone | ⟨group, hgroup, index, hindex⟩ := model.isAlone_or left
  · obtain hother | ⟨group, hgroup, index, hindex⟩ := model.isAlone_or right
    · rw [emittedName_of_isAlone hgroups hids hleft hlone,
        emittedName_of_isAlone hgroups hids hright hother] at hemitted
      exact hne (honce.eq_of_isAlone hgroups hleft hright hfirst hsecond hlone
        (Prod.ext hemitted.symm hstatic.symm))
    · exact hmixed left hleft hfirst hlone group hgroup index right hindex hstatic.symm hemitted
  · obtain hother | ⟨second, hsecondGroup, position, hposition⟩ := model.isAlone_or right
    · exact hmixed right hright hsecond hother group hgroup index left hindex hstatic hemitted.symm
    · rw [emittedName_of_overload hgroups hids hgroup hindex,
        emittedName_of_overload hgroups hids hsecondGroup hposition] at hemitted
      obtain ⟨hname, rfl⟩ := MethodGroup.mangledName_inj hemitted
      have hstatics : group.isStatic = second.isStatic :=
        calc
          group.isStatic = left.isStatic :=
            (congrArg Prod.snd (key_of_overload hgroups hids hgroup hindex)).symm
          _ = right.isStatic := hstatic
          _ = second.isStatic :=
            congrArg Prod.snd (key_of_overload hgroups hids hsecondGroup hposition)
      have hsame : group = second := MethodGroup.eq_of_sharedKey (hgroups ▸ hgroup)
        (hgroups ▸ hsecondGroup) (Prod.ext hname hstatics)
      rw [hsame, hposition] at hindex
      exact hne (Option.some.inj hindex).symm

/-- Methods of a model whose members have different identifiers get different names,
unless one without overloads has the name of an overload or both are static
constructors. -/
theorem namesApart_iff : model.NamesApart ↔ model.LeavesOverloads ∧ model.ConstructsOnce :=
  ⟨fun h => ⟨h.leavesOverloads hgroups hids, h.constructsOnce hgroups hids⟩,
    fun h => namesApart_of_leavesOverloads hgroups hids h.1 h.2⟩

end Distinct

end TypeModel

namespace Script

/-- What a step puts out. -/
def Run.added {α : Type} (step : Run α) (session : Session) : List Declaration :=
  (step.run.run session).2.output.drop session.output.length

namespace Run

variable {declaration : Declaration} {session : Session}

theorem eq_of_mem_added_emit {emitted : Declaration}
    (h : declaration ∈ (emit emitted).added session) : declaration = emitted := by
  rw [added, run_emit] at h
  cases haccept : session.sink.accept session.output emitted with
  | ok => simpa [haccept] using h
  | error => simp [haccept] at h

theorem not_mem_added_pure : declaration ∉ (pure () : Run Unit).added session := by
  have hnone : (pure () : Run Unit).added session = [] := List.drop_length
  rw [hnone]
  exact List.not_mem_nil

/-- Declaring a method adds a declaration at its place only. -/
theorem eq_of_mem_added_declareMethod {owner : Owner} {name : String} {declared : MethodDef}
    {result : Except Error Function}
    (h : declaration ∈ (declareMethod owner name declared result).added session) :
    declaration.methodPlace? = some (owner, name) := by
  cases result with
  | ok function =>
    rw [@eq_of_mem_added_emit _ session _ h]
    rfl
  | error error =>
    rw [declareMethod] at h
    split at h
    · let reported : Session := { session with
        translator := { session.translator with
          store := session.translator.store.report (untranslated declared error) } }
      have hemit : declaration ∈
          (emit (.untranslatable owner name declared.fullName)).added reported := h
      rw [eq_of_mem_added_emit hemit]
      rfl
    · have hnone : (throw error : Run Unit).added session = [] := List.drop_length
      rw [hnone] at h
      exact absurd h List.not_mem_nil

/-- Whatever is declared for a method is put under its name on its owner. -/
theorem methodPlace?_of_mem_added {model : TypeModel} {path : String} {initializers : Block}
    {member : Member}
    (h : declaration ∈ (translateMethod model path initializers member).added session) :
    declaration.methodPlace? =
      some (Owner.ofMember path member.isStatic, methodName model member) := by
  rw [translateMethod_eq] at h
  cases hmethod : member.definition.method? with
  | none =>
    rw [hmethod] at h
    exact absurd h not_mem_added_pure
  | some declared =>
    simp only [hmethod] at h
    split at h
    · split at h
      · rw [eq_of_mem_added_emit h]
        rfl
      · exact absurd h not_mem_added_pure
    · split at h
      · exact @eq_of_mem_added_declareMethod _ session _ _ _ _ h
      · exact absurd h not_mem_added_pure

end Run

end Script

/-- In a model whose members have different identifiers, methods of one staticness have
different names exactly if no method without overloads has the name of an overload and
at most one is a static constructor.  What is then declared for two methods never lands
in the same place. -/
theorem Script.methodNames_apart_iff {model : TypeModel}
    (hgroups : model.groups = MethodGroup.construct model.fullName model.members)
    (hids : (model.members.map Member.id).Nodup) :
    (model.NamesApart ↔ model.LeavesOverloads ∧ model.ConstructsOnce) ∧
      (model.LeavesOverloads ∧ model.ConstructsOnce →
        ∀ left ∈ model.methods, ∀ right ∈ model.methods,
          left.isIgnored = false → right.isIgnored = false → left ≠ right →
          ∀ (path : String) (before after : Block) (first second : Session),
            ∀ declaration ∈ (Run.translateMethod model path before left).added first,
              ∀ other ∈ (Run.translateMethod model path after right).added second,
                declaration.methodPlace? ≠ other.methodPlace?) := by
  have hiff := TypeModel.namesApart_iff hgroups hids
  refine ⟨hiff, fun hfree left hleft right hright hfirst hsecond hne path before after first second
    declaration hdeclaration other hother hplace => ?_⟩
  rw [Run.methodPlace?_of_mem_added hdeclaration, Run.methodPlace?_of_mem_added hother] at hplace
  obtain ⟨howner, hname⟩ := Prod.mk.inj (Option.some.inj hplace)
  have hstatic : left.isStatic = right.isStatic := by
    simpa [Owner.ofMember] using congrArg Owner.onPrototype howner
  exact hiff.2 hfree left hleft right hright hfirst hsecond hne hstatic hname

namespace Script

/-- Overloads and a method that is named much like them. -/
def numberedClass : TypeBlueprint :=
  { space := "App", name := "Numbered"
    methods :=
      [sampleMethod onType "F$2" [], sampleMethod onType "F" [.int32],
       sampleMethod onType "F" [.string], sampleMethod MethodFlag.isPublic "F$1" [.int32]] }

/-- Two methods that are named like overloads do not collide with them: one has an index out of
range, the other is on objects. -/
theorem methodNames_apart_iff_numberedClass :
    let definition := numberedClass.buildDetached
    let model := (soleStore definition).program.modelOf definition
    model.groups = MethodGroup.construct model.fullName model.members ∧
      (model.members.map Member.id).Nodup ∧
      model.methods.map (methodName model) = ["F$242", "F$240", "F$241", "F$241"] ∧
      model.NamesApart := by
  intro definition model
  have hgroups : model.groups = MethodGroup.construct model.fullName model.members := rfl
  have hids : (model.members.map Member.id).Nodup := by decide +kernel
  have hleaves : model.LeavesOverloads := by
    have hall : ∀ member ∈ model.methods, ∀ group ∈ model.groups,
        group.isStatic = member.isStatic → ∀ index < group.size,
          member.name ≠ group.mangledName index := by
      decide +kernel
    exact fun member hmember _ _ => hall member hmember
  have honce : model.ConstructsOnce := by
    have hnone : ∀ member ∈ model.methods, TypeModel.isStaticConstructor member = false := by
      decide +kernel
    intro left hleft right _ _ _ hconstructs
    rw [hnone left hleft] at hconstructs
    cases hconstructs
  exact ⟨hgroups, hids, by decide +kernel,
    (methodNames_apart_iff hgroups hids).1.2 ⟨hleaves, honce⟩⟩

/-- Overloads and a method that has the name of the first one. -/
def collidingClass : TypeBlueprint :=
  { space := "App", name := "Colliding"
    methods :=
      [sampleMethod onType "F$0" [], sampleMethod onType "F" [.int32],
       sampleMethod onType "F" [.string]] }

/-- The method `F$0` and the overload `F(Int32)` are put in the same place. -/
theorem not_namesApart_collidingClass :
    let definition := collidingClass.buildDetached
    let model := (soleStore definition).program.modelOf definition
    ¬((model.groups = MethodGroup.construct model.fullName model.members ∧
      (model.members.map Member.id).Nodup) → model.NamesApart) := by
  intro definition model h
  have hgroups : model.groups = MethodGroup.construct model.fullName model.members := rfl
  have hids : (model.members.map Member.id).Nodup := by decide +kernel
  have htable : model.methods.map (fun member =>
      ((member.name, member.isIgnored), member.isStatic, methodName model member)) =
      [(("F$0", false), true, "F$240"), (("F", false), true, "F$240"),
       (("F", false), true, "F$241")] := by
    decide +kernel
  have hmem : ∀ entry ∈ [(("F$0", false), true, "F$240"), (("F", false), true, "F$240")],
      ∃ member ∈ model.methods, ((member.name, member.isIgnored), member.isStatic,
        methodName model member) = entry := by
    intro entry hentry
    apply List.mem_map.1
    rw [htable]
    exact List.mem_of_mem_take (i := 2) hentry
  obtain ⟨left, hleft, hfirst⟩ := hmem _ List.mem_cons_self
  obtain ⟨right, hright, hsecond⟩ := hmem _ (List.mem_cons_of_mem _ List.mem_cons_self)
  simp only [Prod.mk.injEq] at hfirst hsecond
  have hne : left ≠ right := by
    rintro rfl
    exact absurd (hfirst.1.1.symm.trans hsecond.1.1) (by decide)
  exact h ⟨hgroups, hids⟩ left hleft right hright hfirst.1.2 hsecond.1.2 hne
    (hfirst.2.1.trans hsecond.2.1.symm) (hfirst.2.2.trans hsecond.2.2.symm)

end Script

end Assemblage
