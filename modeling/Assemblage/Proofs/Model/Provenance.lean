import Assemblage.Proofs.Model.Bodies
import Assemblage.Proofs.Model.Completed

/-!
# Where members come from

A member table begins with the members of the definition, in their order.  Proxies
add members behind them and replace bodies, and a static constructor may be made up;
none of these bodies comes from the graph.
-/

namespace Assemblage

variable {f : Body → Body}

namespace Member

/-- The members begin with certain definitions; whatever else is in the table has
bodies that are left alone. -/
structure StemFrom (f : Body → Body) (definitions : List MemberDef) (members : List Member) :
    Prop where
  definitions_eq : ∃ added, members.map Member.definition = definitions ++ added ∧
    ∀ extra ∈ added, extra.mapBodies f = extra
  replacement_eq : ∀ member ∈ members,
    member.replacement.map (·.mapBodies f) = member.replacement

variable {definitions : List MemberDef} {members : List Member}

/-- A change of members that concerns neither definitions nor replacements. -/
theorem StemFrom.map (h : StemFrom f definitions members) {change : Member → Member}
    (hchange : ∀ member, (change member).definition = member.definition ∧
      (change member).replacement = member.replacement) :
    StemFrom f definitions (members.map change) where
  definitions_eq := by
    have hsame : (members.map change).map Member.definition = members.map Member.definition := by
      rw [List.map_map]
      exact List.map_congr_left fun member _ => (hchange member).1
    rw [hsame]
    exact h.definitions_eq
  replacement_eq := by
    rw [List.forall_mem_map]
    intro member hmember
    rw [(hchange member).2]
    exact h.replacement_eq member hmember

theorem StemFrom.concat (h : StemFrom f definitions members) {member : Member}
    (hdefinition : member.definition.mapBodies f = member.definition)
    (hreplacement : member.replacement = none) :
    StemFrom f definitions (members ++ [member]) where
  definitions_eq := by
    obtain ⟨added, hadded, hleft⟩ := h.definitions_eq
    refine ⟨added ++ [member.definition], ?_, ?_⟩
    · rw [List.map_append, hadded, List.append_assoc]
      rfl
    · rw [List.forall_mem_append, List.forall_mem_singleton]
      exact ⟨hleft, hdefinition⟩
  replacement_eq := by
    rw [List.forall_mem_append, List.forall_mem_singleton, hreplacement]
    exact ⟨h.replacement_eq, rfl⟩

theorem replacement_patch {member : Member} {patching : MemberDef}
    (h : member.replacement.map (·.mapBodies f) = member.replacement)
    (hpatching : patching.mapBodies f = patching) :
    (member.patch patching).replacement.map (·.mapBodies f) =
      (member.patch patching).replacement := by
  cases patching with
  | field | property => exact h
  | method method =>
    rw [patch]
    split
    · exact congrArg some (MemberDef.method.inj hpatching)
    · exact h

theorem map_updateLast? {α β : Type} {p : α → Bool} {change : α → α} {view : α → β}
    (hview : ∀ item, view (change item) = view item) {items updated : List α}
    (h : updateLast? p change items = some updated) : updated.map view = items.map view := by
  obtain ⟨before, item, after, rfl, -, -, rfl⟩ := exists_split_of_updateLast? h
  rw [List.map_append, List.map_append, List.map_cons, List.map_cons, hview]

/-- A patch by a spared member leaves the members stemming from the same definitions. -/
theorem StemFrom.patchTable (h : StemFrom f definitions members) (proxy : String)
    (typeExternal : Bool) {patching : MemberDef} (hpatching : patching.mapBodies f = patching) :
    StemFrom f definitions (patchTable proxy typeExternal members patching) := by
  rw [Member.patchTable]
  split
  · rename_i patched hpatched
    constructor
    · rw [map_updateLast? (fun member => member.definition_patch patching) hpatched]
      exact h.definitions_eq
    · have hkeeps : ∀ member : Member,
          member.replacement.map (·.mapBodies f) = member.replacement →
            (member.patch patching).replacement.map (·.mapBodies f) =
              (member.patch patching).replacement :=
        fun _ hmember => replacement_patch hmember hpatching
      exact forall_updateLast? hkeeps hpatched h.replacement_eq
  · exact h.concat hpatching rfl

theorem StemFrom.applyProxy (h : StemFrom f definitions members) (typeExternal : Bool)
    {proxy : Proxy} (hproxy : proxy.definition.mapBodies f = proxy.definition) :
    StemFrom f definitions (applyProxy typeExternal members proxy) := by
  rw [Member.applyProxy]
  apply List.foldlRecOn (motive := StemFrom f definitions) _ _ h
  intro table htable patching hpatching
  exact htable.patchTable proxy.fullName typeExternal
    (Program.mapBodies_of_mem_memberDefs hproxy hpatching)

end Member

namespace Program

variable {program : Program}

/-- The members of a definition stem from its own, in their order. -/
theorem Spared.stemFrom_membersOf (h : program.Spared f) (cache : Cache) (definition : TypeDef) :
    Member.StemFrom f definition.memberDefs (program.membersOf cache definition) := by
  have hpatched : Member.StemFrom f definition.memberDefs (program.patchedMembers definition) := by
    rw [patchedMembers]
    refine List.foldlRecOn (motive := Member.StemFrom f definition.memberDefs) _ _ ?_ ?_
    · refine ⟨⟨[], ?_, fun _ hextra => absurd hextra List.not_mem_nil⟩, ?_⟩
      · rw [List.map_map, List.append_nil]
        exact List.map_id _
      · rw [List.forall_mem_map]
        exact fun _ _ => rfl
    · intro table htable proxy hproxy
      exact htable.applyProxy _ (h.proxies proxy (List.mem_of_mem_filter hproxy))
  have hmarked : Member.StemFrom f definition.memberDefs
      (if definition.kind.isDeclaredInFull then program.patchedMembers definition
        else (program.patchedMembers definition).map (program.markField cache)) := by
    split
    · exact hpatched
    · exact hpatched.map fun member => ⟨rfl, rfl⟩
  rw [membersOf, withStaticConstructor]
  generalize (if definition.kind.isDeclaredInFull then program.patchedMembers definition
    else (program.patchedMembers definition).map (program.markField cache)) = members at hmarked
  split
  · refine hmarked.concat ?_ rfl
    exact congrArg MemberDef.method (MethodDef.mapBodies_eq_self _ fun body hbody =>
      Option.some.inj hbody ▸ h.synthesized)
  · exact hmarked

theorem Finishes.stemFrom_members {model : TypeModel} (h : program.Finishes model)
    (hspared : program.Spared f) :
    Member.StemFrom f model.definition.memberDefs model.members := by
  obtain ⟨earlier, later, id, definition, rfl⟩ := h
  exact (hspared.stemFrom_membersOf earlier definition).map fun member => ⟨rfl, rfl⟩

theorem filter_method_memberDefs (definition : TypeDef) :
    definition.memberDefs.filter (·.id.kind == .method) = definition.methods.map .method := by
  have hfields : (definition.fields.map MemberDef.field).filter (·.id.kind == .method) = [] := by
    simp [List.filter_eq_nil_iff, MemberDef.id, FieldDef.id, MemberId.kind]
  have hmethods : (definition.methods.map MemberDef.method).filter (·.id.kind == .method) =
      definition.methods.map .method := by
    simp [List.filter_eq_self, MemberDef.id, MethodDef.id, MemberId.ofMethod, MemberId.kind]
  have hproperties :
      (definition.properties.map MemberDef.property).filter (·.id.kind == .method) = [] := by
    simp [List.filter_eq_nil_iff, MemberDef.id, PropertyDef.id, MemberId.kind]
  rw [TypeDef.memberDefs, List.filter_append, List.filter_append, hfields, hmethods, hproperties,
    List.nil_append, List.append_nil]

/-- The methods of a finished model begin with those of its definition; the bodies of
all others are left alone. -/
theorem Finishes.exists_methods {model : TypeModel} (h : program.Finishes model)
    (hspared : program.Spared f) :
    ∃ added, model.methods.map Member.definition = model.definition.methods.map .method ++ added ∧
      ∀ extra ∈ added, extra.mapBodies f = extra := by
  obtain ⟨added, hmembers, hleft⟩ := (h.stemFrom_members hspared).definitions_eq
  refine ⟨added.filter (·.id.kind == .method), ?_, fun extra hextra =>
    hleft extra (List.mem_of_mem_filter hextra)⟩
  calc
    _ = (model.members.map Member.definition).filter (·.id.kind == .method) :=
      List.filter_map.symm
    _ = _ := by rw [hmembers, List.filter_append, filter_method_memberDefs]

end Program

end Assemblage
