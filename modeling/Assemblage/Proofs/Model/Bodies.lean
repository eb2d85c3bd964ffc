import Assemblage.Model.Store
import Assemblage.Proofs.Graph.Bodies

/-!
# Models with other bodies

Where the bodies in a graph are exchanged, the models that are built come out with
the exchanged bodies and are the same in every other respect.  Proxies are no part
of the graph; whether one replaces a method depends on the bodies in it, so they
have to be left alone.
-/

namespace Assemblage

variable {f : Body → Body}

namespace MemberDef

def mapBodies (f : Body → Body) : MemberDef → MemberDef
  | .field definition => .field definition
  | .method definition => .method (definition.mapBodies f)
  | .property definition => .property (definition.mapBodies f)

variable (definition : MemberDef)

@[simp]
theorem name_mapBodies : (definition.mapBodies f).name = definition.name := by
  cases definition <;> rfl

@[simp]
theorem id_mapBodies : (definition.mapBodies f).id = definition.id := by
  cases definition <;> rfl

@[simp]
theorem marks_mapBodies : (definition.mapBodies f).marks = definition.marks := by
  cases definition <;> rfl

@[simp]
theorem isStatic_mapBodies : (definition.mapBodies f).isStatic = definition.isStatic := by
  cases definition with
  | field | method => rfl
  | property definition => exact definition.isStatic_mapBodies

@[simp]
theorem types_mapBodies : (definition.mapBodies f).types = definition.types := by
  cases definition <;> rfl

@[simp]
theorem field?_mapBodies : (definition.mapBodies f).field? = definition.field? := by
  cases definition <;> rfl

@[simp]
theorem method?_mapBodies :
    (definition.mapBodies f).method? = definition.method?.map (·.mapBodies f) := by
  cases definition <;> rfl

@[simp]
theorem property?_mapBodies :
    (definition.mapBodies f).property? = definition.property?.map (·.mapBodies f) := by
  cases definition <;> rfl

@[simp]
theorem mapBodies_id : (definition.mapBodies fun body => body) = definition := by
  cases definition <;> simp [mapBodies]

end MemberDef

theorem TypeDef.memberDefs_mapBodies (definition : TypeDef) :
    (definition.mapBodies f).memberDefs = definition.memberDefs.map (·.mapBodies f) := by
  simp [memberDefs, MemberDef.mapBodies, Function.comp_def]

namespace Member

def mapBodies (f : Body → Body) (member : Member) : Member :=
  { member with
    definition := member.definition.mapBodies f
    replacement := member.replacement.map (·.mapBodies f) }

variable (member : Member)

@[simp]
theorem mapBodies_id : (member.mapBodies fun body => body) = member := by
  simp [mapBodies]

@[simp]
theorem definition_mapBodies :
    (member.mapBodies f).definition = member.definition.mapBodies f := rfl

@[simp]
theorem replacement_mapBodies :
    (member.mapBodies f).replacement = member.replacement.map (·.mapBodies f) := rfl

@[simp]
theorem marks_mapBodies : (member.mapBodies f).marks = member.marks := rfl

@[simp]
theorem setByStaticConstructor_mapBodies :
    (member.mapBodies f).setByStaticConstructor = member.setByStaticConstructor := rfl

@[simp]
theorem id_mapBodies : (member.mapBodies f).id = member.id :=
  member.definition.id_mapBodies

@[simp]
theorem kind_mapBodies : (member.mapBodies f).kind = member.kind :=
  congrArg MemberId.kind member.id_mapBodies

@[simp]
theorem name_mapBodies : (member.mapBodies f).name = member.name :=
  member.definition.name_mapBodies

@[simp]
theorem isStatic_mapBodies : (member.mapBodies f).isStatic = member.isStatic :=
  member.definition.isStatic_mapBodies

@[simp]
theorem types_mapBodies : (member.mapBodies f).types = member.types :=
  member.definition.types_mapBodies

@[simp]
theorem isIgnored_mapBodies : (member.mapBodies f).isIgnored = member.isIgnored := rfl

@[simp]
theorem isReplaced_mapBodies : (member.mapBodies f).isReplaced = member.isReplaced := rfl

@[simp]
theorem isExternal_mapBodies : (member.mapBodies f).isExternal = member.isExternal := by
  simp [isExternal, mapBodies, Option.any_map]

/-- A body from a proxy that is left alone is put in place of an exchanged one. -/
theorem patch_mapBodies {patching : MemberDef} (h : patching.mapBodies f = patching) :
    (member.mapBodies f).patch patching = (member.patch patching).mapBodies f := by
  cases patching with
  | field | property => rfl
  | method method =>
    have hmethod : method.mapBodies f = method := MemberDef.method.inj h
    simp only [patch]
    split
    · simp only [mapBodies, Option.map_some, hmethod]
    · rfl

theorem resolveIgnored_mapBodies (mentionsIgnoredType : Bool) :
    (member.mapBodies f).resolveIgnored mentionsIgnoredType =
      (member.resolveIgnored mentionsIgnoredType).mapBodies f := rfl

end Member

namespace MethodGroup

def mapBodies (f : Body → Body) (group : MethodGroup) : MethodGroup :=
  { group with methods := group.methods.map (·.mapBodies f) }

theorem key_mapBodies (member : Member) : key (member.mapBodies f) = key member := by
  simp [key]

theorem isGroupable_mapBodies (member : Member) :
    isGroupable (member.mapBodies f) = isGroupable member := by
  simp [isGroupable, Option.any_map]

theorem ofKey_mapBodies (declaring : String) (methods : List Member) (shared : String × Bool) :
    ofKey declaring (methods.map (·.mapBodies f)) shared =
      (ofKey declaring methods shared).mapBodies f := by
  simp [ofKey, mapBodies, List.filter_map, Function.comp_def, key_mapBodies]

theorem construct_mapBodies (declaring : String) (members : List Member) :
    construct declaring (members.map (·.mapBodies f)) =
      (construct declaring members).map (·.mapBodies f) := by
  have hmethods : (members.map (·.mapBodies f)).filter isGroupable =
      (members.filter isGroupable).map (·.mapBodies f) := by
    simp [List.filter_map, Function.comp_def, isGroupable_mapBodies]
  rw [construct, construct, hmethods]
  simp [List.filter_map, Function.comp_def, key_mapBodies, ofKey_mapBodies, mapBodies]

@[simp]
theorem indexOf?_mapBodies (group : MethodGroup) (id : MemberId) :
    (group.mapBodies f).indexOf? id = group.indexOf? id := by
  simp [indexOf?, mapBodies, List.findIdx?_map, Function.comp_def]

end MethodGroup

/-! ## Models -/

namespace TypeModel

def mapBodies (f : Body → Body) (model : TypeModel) : TypeModel :=
  { model with
    definition := model.definition.mapBodies f
    members := model.members.map (·.mapBodies f)
    groups := model.groups.map (·.mapBodies f) }

variable (model : TypeModel)

@[simp]
theorem mapBodies_id : (model.mapBodies fun body => body) = model := by
  simp [mapBodies, MethodGroup.mapBodies]

@[simp]
theorem definition_mapBodies :
    (model.mapBodies f).definition = model.definition.mapBodies f := rfl

@[simp]
theorem members_mapBodies :
    (model.mapBodies f).members = model.members.map (·.mapBodies f) := rfl

@[simp]
theorem groups_mapBodies : (model.mapBodies f).groups = model.groups.map (·.mapBodies f) := rfl

@[simp]
theorem ignored_mapBodies : (model.mapBodies f).ignored = model.ignored := rfl

@[simp]
theorem fullName_mapBodies : (model.mapBodies f).fullName = model.fullName :=
  model.definition.fullName_mapBodies

@[simp]
theorem kind_mapBodies : (model.mapBodies f).kind = model.kind :=
  model.definition.kind_mapBodies

@[simp]
theorem isFlags_mapBodies : (model.mapBodies f).isFlags = model.isFlags := by
  simp [isFlags]

theorem member?_mapBodies (id : MemberId) :
    (model.mapBodies f).member? id = (model.member? id).map (·.mapBodies f) := by
  have hfinds : (·.id == id) ∘ Member.mapBodies f = (·.id == id) := by
    funext member
    rw [Function.comp_apply, Member.id_mapBodies]
  rw [member?, member?, members_mapBodies, ← List.map_reverse, List.find?_map, hfinds]

theorem fields_mapBodies : (model.mapBodies f).fields = model.fields.map (·.mapBodies f) := by
  simp [fields, List.filter_map, Function.comp_def]

theorem methods_mapBodies : (model.mapBodies f).methods = model.methods.map (·.mapBodies f) := by
  simp [methods, List.filter_map, Function.comp_def]

theorem properties_mapBodies :
    (model.mapBodies f).properties = model.properties.map (·.mapBodies f) := by
  simp [properties, List.filter_map, Function.comp_def]

@[simp]
theorem enumMembers_mapBodies : (model.mapBodies f).enumMembers = model.enumMembers := by
  simp [enumMembers]

@[simp]
theorem staticConstructorFields_mapBodies :
    (model.mapBodies f).staticConstructorFields = model.staticConstructorFields := by
  simp [staticConstructorFields, List.filter_map, List.filterMap_map, Function.comp_def]

@[simp]
theorem isStaticConstructor_mapBodies (member : Member) :
    isStaticConstructor (member.mapBodies f) = isStaticConstructor member := by
  simp [isStaticConstructor, Option.any_map]

theorem staticConstructor?_mapBodies :
    (model.mapBodies f).staticConstructor? = model.staticConstructor?.map (·.mapBodies f) := by
  have hfinds : isStaticConstructor ∘ Member.mapBodies f = isStaticConstructor := by
    funext member
    exact isStaticConstructor_mapBodies member
  rw [staticConstructor?, staticConstructor?, members_mapBodies, List.find?_map, hfinds]

theorem staticConstructorMember?_mapBodies :
    (model.mapBodies f).staticConstructorMember? =
      model.staticConstructorMember?.map (·.mapBodies f) := by
  rw [staticConstructorMember?, staticConstructorMember?, staticConstructor?_mapBodies]
  cases model.staticConstructor? with
  | none => rfl
  | some member =>
    rw [Option.map_some, Option.bind_some, Option.bind_some, Member.id_mapBodies,
      member?_mapBodies]

/-- Whether a type needs a seal does not depend on bodies. -/
@[simp]
theorem needsSeal_mapBodies : (model.mapBodies f).needsSeal = model.needsSeal := by
  rw [needsSeal, needsSeal, kind_mapBodies, staticConstructorMember?_mapBodies, Option.any_map]
  rfl

theorem groupOf?_mapBodies (id : MemberId) :
    (model.mapBodies f).groupOf? id =
      (model.groupOf? id).map fun found => (found.1.mapBodies f, found.2) := by
  simp only [groupOf?, groups_mapBodies]
  induction model.groups with
  | nil => rfl
  | cons group rest ih =>
    rw [List.map_cons, List.findSome?_cons, List.findSome?_cons, ih, MethodGroup.indexOf?_mapBodies]
    cases group.indexOf? id <;> rfl

@[simp]
theorem emittedName_mapBodies (member : Member) :
    (model.mapBodies f).emittedName (member.mapBodies f) = model.emittedName member := by
  rw [emittedName, emittedName, groupOf?_mapBodies, Member.id_mapBodies, Member.name_mapBodies]
  cases model.groupOf? member.id <;> rfl

theorem relatedTypes_mapBodies : (model.mapBodies f).relatedTypes = model.relatedTypes := by
  simp [relatedTypes, List.flatMap_map]

end TypeModel

namespace Cache

def mapBodies (f : Body → Body) (cache : Cache) : Cache :=
  ⟨cache.entries.map fun entry => (entry.1, entry.2.map (·.mapBodies f))⟩

variable (cache : Cache)

@[simp]
theorem mapBodies_id : (cache.mapBodies fun body => body) = cache := by
  simp [mapBodies]

theorem find?_mapBodies (id : TypeId) :
    (cache.mapBodies f).find? id = (cache.find? id).map (·.map (·.mapBodies f)) :=
  lookup_map_snd (Option.map (TypeModel.mapBodies f)) id cache.entries

@[simp]
theorem contains_mapBodies (id : TypeId) : (cache.mapBodies f).contains id = cache.contains id := by
  simp [contains, find?_mapBodies]

theorem model?_mapBodies (id : TypeId) :
    (cache.mapBodies f).model? id = (cache.model? id).map (·.mapBodies f) := by
  rw [model?, model?, find?_mapBodies]
  cases cache.find? id <;> rfl

theorem insert_mapBodies (id : TypeId) (model : Option TypeModel) :
    (cache.mapBodies f).insert id (model.map (·.mapBodies f)) =
      (cache.insert id model).mapBodies f := by
  rw [insert, insert, contains_mapBodies]
  split
  · rfl
  · simp [mapBodies]

theorem update_mapBodies (ids : List TypeId) {change changed : TypeModel → TypeModel}
    (h : ∀ model, changed (model.mapBodies f) = (change model).mapBodies f) :
    (cache.mapBodies f).update ids changed = (cache.update ids change).mapBodies f := by
  simp only [update, mapBodies, List.map_map, Function.comp_def]
  refine congrArg Cache.mk (List.map_congr_left fun entry _ => ?_)
  split
  · cases entry.2 <;> simp [h]
  · rfl

end Cache

namespace Program

def mapBodies (f : Body → Body) (program : Program) : Program :=
  { program with graph := program.graph.mapBodies f }

/-- The bodies that do not come from the graph are left alone. -/
structure Spared (f : Body → Body) (program : Program) : Prop where
  proxies : ∀ proxy ∈ program.proxies, proxy.definition.mapBodies f = proxy.definition
  synthesized : f (.tree 0 {}) = .tree 0 {}

variable (program : Program) (cache : Cache)

@[simp]
theorem mapBodies_id : (program.mapBodies fun body => body) = program := by
  simp [mapBodies]

theorem spared_id : program.Spared fun body => body :=
  ⟨fun proxy _ => proxy.definition.mapBodies_id, rfl⟩

@[simp]
theorem graph_mapBodies : (program.mapBodies f).graph = program.graph.mapBodies f := rfl

@[simp]
theorem proxiesFor_mapBodies (definition : TypeDef) :
    (program.mapBodies f).proxiesFor (definition.mapBodies f) = program.proxiesFor definition := by
  have happlies : ∀ proxy : Proxy,
      proxy.applies (program.graph.mapBodies f) (definition.mapBodies f) =
        proxy.applies program.graph definition := by
    intro proxy
    have htypes : proxy.matchesType (program.graph.mapBodies f) (definition.mapBodies f) =
        proxy.matchesType program.graph definition := by
      funext named
      simp [Proxy.matchesType]
    simp [Proxy.applies, htypes, Proxy.matchesName]
  exact congrArg (program.proxies.filter ·) (funext happlies)

@[simp]
theorem marksOf_mapBodies (definition : TypeDef) :
    (program.mapBodies f).marksOf (definition.mapBodies f) = program.marksOf definition := by
  simp [marksOf]

@[simp]
theorem moduleOf?_mapBodies (definition : TypeDef) :
    (program.mapBodies f).moduleOf? (definition.mapBodies f) = program.moduleOf? definition := by
  rw [moduleOf?, graph_mapBodies, Graph.moduleOf?_mapBodies, Option.map_map]
  rfl

@[simp]
theorem ignoresItself_mapBodies (definition : TypeDef) :
    (program.mapBodies f).ignoresItself (definition.mapBodies f) =
      program.ignoresItself definition := by
  simp only [ignoresItself, marksOf_mapBodies, moduleOf?_mapBodies, TypeDef.fullName_mapBodies]
  rfl

@[simp]
theorem ignoresDefinition_mapBodies (definition : TypeDef) :
    (program.mapBodies f).ignoresDefinition (definition.mapBodies f) =
      program.ignoresDefinition definition := by
  induction definition using ignoresDefinition.induct program with
  | case1 definition ih =>
    rw [ignoresDefinition_eq, ignoresDefinition_eq, ignoresItself_mapBodies, graph_mapBodies,
      Graph.declaringType?_mapBodies]
    cases houter : program.graph.declaringType? definition with
    | none => rfl
    | some outer => rw [Option.map_some, Option.any_some, Option.any_some, ih outer houter]

theorem ignoresNamed_mapBodies (signature : Signature) :
    (program.mapBodies f).ignoresNamed (cache.mapBodies f) signature =
      program.ignoresNamed cache signature := by
  simp only [ignoresNamed, graph_mapBodies, Graph.resolve?_mapBodies]
  cases program.graph.resolve? signature with
  | none => rfl
  | some definition =>
    simp only [Option.map_some, TypeDef.typeId_mapBodies, Cache.model?_mapBodies]
    cases cache.model? definition.typeId with
    | none => simp; rfl
    | some model => rfl

mutual

@[simp]
theorem ignores_mapBodies (signature : Signature) :
    (program.mapBodies f).ignores (cache.mapBodies f) signature =
      program.ignores cache signature := by
  cases signature with
  | pointer => rw [ignores, ignores]
  | typeParameter | methodParameter => rw [ignores, ignores]
  | byRef inner | vector inner | array inner =>
    rw [ignores, ignores]
    exact ignores_mapBodies inner
  | generic definition arguments =>
    rw [ignores, ignores, ignores_mapBodies definition, ignoresAny_mapBodies arguments]
  | primitive | reference | value =>
    rw [ignores, ignores]
    exact program.ignoresNamed_mapBodies cache _

theorem ignoresAny_mapBodies (signatures : List Signature) :
    (program.mapBodies f).ignoresAny (cache.mapBodies f) signatures =
      program.ignoresAny cache signatures := by
  cases signatures with
  | nil => rw [ignoresAny, ignoresAny]
  | cons signature rest =>
    rw [ignoresAny, ignoresAny, ignores_mapBodies signature, ignoresAny_mapBodies rest]

end

@[simp]
theorem needsStaticConstructor_mapBodies (signature : Signature) :
    (program.mapBodies f).needsStaticConstructor signature =
      program.needsStaticConstructor signature := by
  cases signature with
  | vector | array | byRef | pointer | typeParameter | methodParameter => rfl
  | primitive | reference | value | generic =>
    simp only [needsStaticConstructor, graph_mapBodies, Graph.isStruct_mapBodies,
      Graph.resolve?_mapBodies]
    cases program.graph.resolve? _ <;> simp

/-- A fold commutes with a map that commutes with its steps. -/
theorem foldl_hom_of_mem {α β : Type} {g : β → β} {step changed : β → α → β} {items : List α}
    {start : β} (h : ∀ item ∈ items, ∀ value, changed (g value) item = g (step value item)) :
    items.foldl changed (g start) = g (items.foldl step start) := by
  induction items generalizing start with
  | nil => rfl
  | cons item rest ih =>
    rw [List.foldl_cons, List.foldl_cons, h item List.mem_cons_self]
    exact ih fun other hother => h other (List.mem_cons_of_mem item hother)

theorem markField_mapBodies (member : Member) :
    (program.mapBodies f).markField (cache.mapBodies f) (member.mapBodies f) =
      (program.markField cache member).mapBodies f := by
  have hfield : ∀ field, (program.mapBodies f).isSetByStaticConstructor (cache.mapBodies f) field =
      program.isSetByStaticConstructor cache field := by
    intro field
    simp [isSetByStaticConstructor]
  simp only [markField, Member.definition_mapBodies, MemberDef.field?_mapBodies,
    funext hfield]
  rfl

theorem updateLast?_map {α : Type} {p : α → Bool} {g change changed : α → α}
    (hp : ∀ item, p (g item) = p item) (h : ∀ item, changed (g item) = g (change item))
    (items : List α) :
    updateLast? p changed (items.map g) = (updateLast? p change items).map (·.map g) := by
  induction items with
  | nil => rfl
  | cons item rest ih =>
    rw [List.map_cons, updateLast?, updateLast?, ih, hp, h]
    cases updateLast? p change rest with
    | some updated => rfl
    | none =>
      simp only [Option.map_none]
      split <;> rfl

theorem patchTable_mapBodies (proxy : String) (typeExternal : Bool) (members : List Member)
    {patching : MemberDef} (h : patching.mapBodies f = patching) :
    Member.patchTable proxy typeExternal (members.map (·.mapBodies f)) patching =
      (Member.patchTable proxy typeExternal members patching).map (·.mapBodies f) := by
  have hfinds : ∀ member : Member, ((member.mapBodies f).id == patching.id) =
      (member.id == patching.id) := fun member => by rw [Member.id_mapBodies]
  rw [Member.patchTable, Member.patchTable,
    updateLast?_map hfinds fun member => member.patch_mapBodies h]
  cases updateLast? (fun member => member.id == patching.id) (·.patch patching) members with
  | some patched => rfl
  | none => simp [Member.mapBodies, h]

/-- A proxy whose bodies are left alone patches with members whose bodies are. -/
theorem mapBodies_of_mem_memberDefs {proxy : Proxy}
    (h : proxy.definition.mapBodies f = proxy.definition) {patching : MemberDef}
    (hpatching : patching ∈ proxy.memberDefs) : patching.mapBodies f = patching := by
  have hdefinition : ∀ member ∈ proxy.definition.memberDefs, member.mapBodies f = member := by
    apply List.map_inj_left.1
    rw [← TypeDef.memberDefs_mapBodies, h, List.map_id']
  have hsublist : proxy.memberDefs.Sublist proxy.definition.memberDefs :=
    ((List.Sublist.refl _).append (List.filter_sublist.map _)).append (List.Sublist.refl _)
  exact hdefinition patching (hsublist.mem hpatching)

theorem applyProxy_mapBodies (typeExternal : Bool) (members : List Member) {proxy : Proxy}
    (h : proxy.definition.mapBodies f = proxy.definition) :
    Member.applyProxy typeExternal (members.map (·.mapBodies f)) proxy =
      (Member.applyProxy typeExternal members proxy).map (·.mapBodies f) := by
  exact foldl_hom_of_mem fun patching hpatching table =>
    patchTable_mapBodies proxy.fullName typeExternal table (mapBodies_of_mem_memberDefs h hpatching)

variable {program}

theorem Spared.patchedMembers_mapBodies (h : program.Spared f) (definition : TypeDef) :
    (program.mapBodies f).patchedMembers (definition.mapBodies f) =
      (program.patchedMembers definition).map (·.mapBodies f) := by
  have hdeclared : ∀ typeExternal, (definition.mapBodies f).memberDefs.map
      (fun member => ({ definition := member, typeExternal } : Member)) =
        (definition.memberDefs.map fun member =>
          ({ definition := member, typeExternal } : Member)).map (·.mapBodies f) := by
    intro typeExternal
    simp [TypeDef.memberDefs_mapBodies, Member.mapBodies]
  rw [patchedMembers, patchedMembers, proxiesFor_mapBodies, marksOf_mapBodies, hdeclared]
  exact foldl_hom_of_mem fun proxy hproxy members =>
    applyProxy_mapBodies _ members (h.proxies proxy (List.mem_of_mem_filter hproxy))

theorem Spared.withStaticConstructor_mapBodies (h : program.Spared f) (declaring : String)
    (members : List Member) :
    withStaticConstructor declaring (members.map (·.mapBodies f)) =
      (withStaticConstructor declaring members).map (·.mapBodies f) := by
  have hsynthesized :
      (synthesizedConstructor declaring).mapBodies f = synthesizedConstructor declaring :=
    MethodDef.mapBodies_eq_self _ fun body hbody => Option.some.inj hbody ▸ h.synthesized
  rw [withStaticConstructor, withStaticConstructor, List.any_map, List.any_map]
  have hany : TypeModel.isStaticConstructor ∘ Member.mapBodies f = TypeModel.isStaticConstructor :=
    funext TypeModel.isStaticConstructor_mapBodies
  have hset : Member.setByStaticConstructor ∘ Member.mapBodies f = Member.setByStaticConstructor :=
    rfl
  rw [hany, hset]
  split
  · simp [Member.mapBodies, MemberDef.mapBodies, hsynthesized]
  · rfl

theorem Spared.membersOf_mapBodies (h : program.Spared f) (definition : TypeDef) :
    (program.mapBodies f).membersOf (cache.mapBodies f) (definition.mapBodies f) =
      (program.membersOf cache definition).map (·.mapBodies f) := by
  have hmarked : ∀ members : List Member,
      (members.map (·.mapBodies f)).map
          ((program.mapBodies f).markField (cache.mapBodies f)) =
        (members.map (program.markField cache)).map (·.mapBodies f) := by
    intro members
    rw [List.map_map, List.map_map]
    exact List.map_congr_left fun member _ => program.markField_mapBodies cache member
  rw [membersOf, membersOf, h.patchedMembers_mapBodies, hmarked, TypeDef.kind_mapBodies,
    TypeDef.fullName_mapBodies, ← h.withStaticConstructor_mapBodies]
  split <;> rfl

/-- Building goes along with a change of bodies that spares the proxies. -/
theorem Spared.build_mapBodies (h : program.Spared f) (id : TypeId) (definition : TypeDef) :
    (program.mapBodies f).build (cache.mapBodies f) id (definition.mapBodies f) =
      (program.build cache id definition).mapBodies f := by
  simp [build, TypeModel.mapBodies, h.membersOf_mapBodies]

theorem complete_mapBodies (model : TypeModel) :
    (program.mapBodies f).complete (cache.mapBodies f) (model.mapBodies f) =
      (program.complete cache model).mapBodies f := by
  have hmembers : (model.mapBodies f).members.map
      ((program.mapBodies f).checkMember (cache.mapBodies f)) =
        (model.members.map (program.checkMember cache)).map (·.mapBodies f) := by
    rw [TypeModel.members_mapBodies, List.map_map, List.map_map]
    apply List.map_congr_left
    intro member _
    simp only [Function.comp_apply, checkMember, Member.types_mapBodies,
      Member.resolveIgnored_mapBodies, funext (program.ignores_mapBodies cache)]
  rw [complete, complete, hmembers, TypeModel.fullName_mapBodies, MethodGroup.construct_mapBodies]
  rfl

end Program

namespace Agenda

def mapBodies (f : Body → Body) (agenda : Agenda) : Agenda :=
  { agenda with queue := agenda.queue.map fun item => (item.1, item.2.mapBodies f) }

theorem queue_mapBodies_cons {agenda : Agenda} {id : TypeId} {definition : TypeDef}
    {rest : List (TypeId × TypeDef)} (hqueue : agenda.queue = (id, definition) :: rest) :
    (agenda.mapBodies f).queue =
      (id, definition.mapBodies f) :: (mapBodies f { agenda with queue := rest }).queue := by
  rw [mapBodies, hqueue]
  rfl

variable (graph : Graph) (cache : Cache) (agenda : Agenda)

theorem add_mapBodies (related : Signature) :
    (agenda.mapBodies f).add (graph.mapBodies f) (cache.mapBodies f) related =
      ((agenda.add graph cache related).1.mapBodies f,
        (agenda.add graph cache related).2.mapBodies f) := by
  have hqueued : (agenda.mapBodies f).queued = agenda.queued := rfl
  simp only [add, Cache.contains_mapBodies, Graph.resolve?_mapBodies, hqueued]
  split
  · rfl
  · cases graph.resolve? related with
    | none => exact Prod.ext (cache.insert_mapBodies related.typeId none) rfl
    | some definition => simp [mapBodies]

theorem addAll_mapBodies (related : List Signature) :
    (agenda.mapBodies f).addAll (graph.mapBodies f) (cache.mapBodies f) related =
      ((agenda.addAll graph cache related).1.mapBodies f,
        (agenda.addAll graph cache related).2.mapBodies f) := by
  induction related generalizing cache agenda with
  | nil => rfl
  | cons head rest ih =>
    rw [addAll, addAll, add_mapBodies]
    exact ih _ _

end Agenda

namespace Program

variable {program : Program} (cache : Cache)

/-- A turn of the first pass. -/
theorem buildAll_cons {agenda : Agenda} {id : TypeId} {definition : TypeDef}
    {rest : List (TypeId × TypeDef)} (hqueue : agenda.queue = (id, definition) :: rest)
    (built : List TypeId) :
    program.buildAll cache agenda built =
      if cache.contains id then program.buildAll cache { agenda with queue := rest } built
      else
        let model := program.build cache id definition
        let added := ({ agenda with queue := rest } : Agenda).addAll program.graph cache
          model.relatedTypes
        program.buildAll (added.1.insert id (some model)) added.2 (built ++ [id]) := by
  rw [buildAll]
  split
  · rename_i hnil
    simp [hqueue] at hnil
  · rename_i heq
    obtain ⟨hhead, rfl⟩ := List.cons.inj (hqueue.symm.trans heq)
    obtain ⟨rfl, rfl⟩ := Prod.mk.inj hhead
    rfl

theorem Spared.buildAll_mapBodies (h : program.Spared f) (agenda : Agenda) (built : List TypeId) :
    (program.mapBodies f).buildAll (cache.mapBodies f) (agenda.mapBodies f) built =
      ((program.buildAll cache agenda built).1.mapBodies f,
        (program.buildAll cache agenda built).2) := by
  fun_induction buildAll program cache agenda built with
  | case1 cache agenda built hqueue =>
    have hmapped : (agenda.mapBodies f).queue = [] := by simp [Agenda.mapBodies, hqueue]
    rw [buildAll]
    split
    · rfl
    · rename_i heq
      simp [hmapped] at heq
  | case2 cache agenda built id definition rest hqueue hcontains ih =>
    rw [buildAll_cons _ (Agenda.queue_mapBodies_cons hqueue), Cache.contains_mapBodies,
      if_pos hcontains]
    exact ih
  | case3 cache agenda built id definition rest hqueue hcontains model added ih =>
    have hadded := @Agenda.addAll_mapBodies f program.graph cache { agenda with queue := rest }
      model.relatedTypes
    rw [buildAll_cons _ (Agenda.queue_mapBodies_cons hqueue), Cache.contains_mapBodies,
      if_neg hcontains, h.build_mapBodies, ← ih, ← Cache.insert_mapBodies]
    dsimp only
    rw [TypeModel.relatedTypes_mapBodies]
    exact congrArg (fun result : Cache × Agenda => (program.mapBodies f).buildAll
      (result.1.insert id (some (model.mapBodies f))) result.2 (built ++ [id])) hadded

/-- The models of a changed program are those of the program, changed. -/
theorem Spared.construct_mapBodies (h : program.Spared f) (definition : TypeDef) :
    (program.mapBodies f).construct (cache.mapBodies f) (definition.mapBodies f) =
      (program.construct cache definition).mapBodies f := by
  have hstart : Agenda.start (definition.mapBodies f) = (Agenda.start definition).mapBodies f := by
    simp [Agenda.start, Agenda.mapBodies]
  rw [construct, construct, hstart, h.buildAll_mapBodies]
  exact Cache.update_mapBodies _ _ fun model => complete_mapBodies _ model

end Program

end Assemblage
