import Assemblage.Proofs.Model.Worklist

/-!
# What a construction adds to the cache

A construction leaves the entries it finds as they are.  Each entry it adds is
either the absence of a type that the graph lacks or a model that was built over
one cache and completed over a later one, and the types such a model is related
to have entries as well.  The invariant of the first pass carries this from turn
to turn.
-/

namespace Assemblage

namespace Graph

/-- The definition is one of those in the index. -/
def Indexes (graph : Graph) (definition : TypeDef) : Prop :=
  ∃ entry ∈ graph.index, entry.definition = definition

/-- No type of the graph has the identifier. -/
def Lacks (graph : Graph) (id : TypeId) : Prop :=
  ∀ definition, graph.Indexes definition → definition.typeId ≠ id

theorem resolve?_eq_none_of_lacks {graph : Graph} {signature : Signature}
    (h : graph.Lacks signature.typeId) : graph.resolve? signature = none := by
  cases hresolve : graph.resolve? signature with
  | none => rfl
  | some definition =>
    exact absurd (typeId_of_resolve? hresolve)
      (h definition (exists_index_of_resolve? hresolve))

/-- A name that is not resolved is one that the graph lacks. -/
theorem lacks_of_resolve?_eq_none {graph : Graph} {signature : Signature} {name : TypeName}
    (hname : signature.definitionName? = some name) (h : graph.resolve? signature = none) :
    graph.Lacks signature.typeId := by
  rintro definition ⟨entry, hentry, rfl⟩ hid
  rw [Signature.typeId_eq_ofName hname] at hid
  have hfull : entry.definition.fullName = name.fullName := congrArg TypeId.fullName hid
  exact (resolve?_eq_none_iff hname).1 h entry hentry hfull

end Graph

/-- A model is faithful under an identifier if it is the model of a type of the
graph with that identifier and ignored just when the type is. -/
structure TypeModel.Faithful (program : Program) (id : TypeId) (model : TypeModel) : Prop where
  id_eq : model.id = id
  typeId_eq : model.definition.typeId = id
  indexed : program.graph.Indexes model.definition
  ignored_eq : model.ignored = program.ignoresDefinition model.definition

/-- Every model in the cache is faithful under the identifier it is kept under. -/
def Cache.Faithful (program : Program) (cache : Cache) : Prop :=
  ∀ id model, cache.find? id = some (some model) → TypeModel.Faithful program id model

namespace Program

variable {program : Program}

/-- A model that was just built is faithful to its definition. -/
theorem build_faithful (cache : Cache) {definition : TypeDef}
    (h : program.graph.Indexes definition) :
    TypeModel.Faithful program definition.typeId
      (program.build cache definition.typeId definition) :=
  ⟨rfl, rfl, h, rfl⟩

/-- Completing a model keeps it faithful. -/
theorem complete_faithful {id : TypeId} {model : TypeModel} (cache : Cache)
    (h : TypeModel.Faithful program id model) :
    TypeModel.Faithful program id (program.complete cache model) :=
  ⟨h.id_eq, h.typeId_eq, h.indexed, h.ignored_eq⟩

theorem types_complete (cache : Cache) (model : TypeModel) :
    (program.complete cache model).members.flatMap (·.types) = model.members.flatMap (·.types) := by
  rw [complete, List.flatMap_map]
  rfl

theorem relatedTypes_complete (cache : Cache) (model : TypeModel) :
    (program.complete cache model).relatedTypes = model.relatedTypes := by
  rw [TypeModel.relatedTypes, types_complete, TypeModel.relatedTypes]

end Program

/-- A faithful model may be put into a faithful cache. -/
theorem Cache.Faithful.insert {program : Program} {cache : Cache} {id : TypeId}
    {entry : Option TypeModel} (h : cache.Faithful program)
    (hentry : ∀ model, entry = some model → TypeModel.Faithful program id model) :
    (cache.insert id entry).Faithful program := by
  intro other model hmodel
  rcases find?_insert_cases hmodel with hold | ⟨-, rfl, heq⟩
  · exact h other model hold
  · exact hentry model heq.symm

theorem updateLast?_eq_none_iff {α : Type} {p : α → Bool} {f : α → α} {items : List α} :
    updateLast? p f items = none ↔ ∀ item ∈ items, p item = false := by
  induction items with
  | nil => simp [updateLast?]
  | cons head rest ih =>
    rw [updateLast?, List.forall_mem_cons]
    cases hlast : updateLast? p f rest with
    | some further =>
      have hlater : ¬∀ item ∈ rest, p item = false := by
        rw [← ih, hlast]
        exact Option.some_ne_none _
      exact ⟨fun h => (by cases h), fun h => absurd h.2 hlater⟩
    | none =>
      cases hp : p head with
      | true => exact ⟨fun h => (by cases h), fun h => (by cases h.1)⟩
      | false => exact ⟨fun _ => ⟨rfl, ih.1 hlast⟩, fun _ => rfl⟩

/-- What is changed is the last item that satisfies the condition. -/
theorem exists_split_of_updateLast? {α : Type} {p : α → Bool} {f : α → α}
    {items updated : List α} (h : updateLast? p f items = some updated) :
    ∃ before item after, items = before ++ item :: after ∧ p item = true ∧
      (∀ other ∈ after, p other = false) ∧ updated = before ++ f item :: after := by
  induction items generalizing updated with
  | nil => cases h
  | cons head rest ih =>
    rw [updateLast?] at h
    cases hlast : updateLast? p f rest with
    | some further =>
      obtain ⟨before, item, after, rfl, hitem, hafter, rfl⟩ := ih hlast
      simp only [hlast, Option.some.injEq] at h
      exact ⟨head :: before, item, after, rfl, hitem, hafter, h.symm⟩
    | none =>
      simp only [hlast] at h
      split at h
      · rename_i hp
        exact ⟨[], head, rest, rfl, hp, updateLast?_eq_none_iff.1 hlast,
          (Option.some.inj h).symm⟩
      · cases h

/-- An update keeps what holds of all items. -/
theorem forall_updateLast? {α : Type} {p : α → Bool} {f : α → α} {q : α → Prop}
    (hf : ∀ item, q item → q (f item)) {items updated : List α}
    (h : updateLast? p f items = some updated) (hitems : ∀ item ∈ items, q item) :
    ∀ item ∈ updated, q item := by
  obtain ⟨before, item, after, rfl, -, -, rfl⟩ := exists_split_of_updateLast? h
  rw [List.forall_mem_append, List.forall_mem_cons] at hitems ⊢
  exact ⟨hitems.1, hf item hitems.2.1, hitems.2.2⟩

/-- The method by which a member of a proxy supplies a body. -/
def MemberDef.supplied? : MemberDef → Option MethodDef
  | .method definition =>
    if Member.hasTree definition && !definition.marks.external then some definition else none
  | _ => none

namespace Member

/-- Whether the member is ignored has not been decided. -/
def Undecided (member : Member) : Prop :=
  member.ignored? = none

/-- The first decision counts the marks and the types. -/
theorem Undecided.ignored?_resolveIgnored {member : Member} (h : member.Undecided)
    (mentionsIgnoredType : Bool) : (member.resolveIgnored mentionsIgnoredType).ignored? =
      some (member.marks.ignored || mentionsIgnoredType) := by
  rw [resolveIgnored, h]
  rfl

/-- A patch concerns nothing but marks and body. -/
theorem patch_eq (member : Member) (patching : MemberDef) :
    member.patch patching =
      { member with
        marks := member.marks.merge patching.marks
        replacement := patching.supplied?.or member.replacement } := by
  cases patching with
  | field | property => rfl
  | method method =>
    rw [patch, MemberDef.supplied?]
    split <;> rfl

theorem definition_patch (member : Member) (patching : MemberDef) :
    (member.patch patching).definition = member.definition := by
  rw [patch_eq]

theorem id_patch (member : Member) (patching : MemberDef) :
    (member.patch patching).id = member.id :=
  congrArg MemberDef.id (member.definition_patch patching)

theorem marks_patch (member : Member) (patching : MemberDef) :
    (member.patch patching).marks = member.marks.merge patching.marks := by
  rw [patch_eq]

theorem Undecided.patch {member : Member} (h : member.Undecided) (patching : MemberDef) :
    (member.patch patching).Undecided := by
  rw [patch_eq]
  exact h

/-- What holds of every new member and outlives each patch holds throughout a table. -/
theorem forall_patchTable {holds : Member → Prop} {typeExternal : Bool} {proxy : String}
    (hnew : ∀ definition origin, holds { definition, origin, typeExternal })
    (hpatch : ∀ member patching, holds member → holds (member.patch patching))
    {members : List Member} (patching : MemberDef) (h : ∀ member ∈ members, holds member) :
    ∀ member ∈ patchTable proxy typeExternal members patching, holds member := by
  rw [patchTable]
  split
  · rename_i patched hpatched
    exact forall_updateLast? (hpatch · patching) hpatched h
  · rw [List.forall_mem_append, List.forall_mem_singleton]
    exact ⟨h, hnew patching _⟩

end Member

namespace Program

/-- What holds of new members and is kept by patches holds of all patched members. -/
theorem forall_patchedMembers {holds : Member → Prop}
    (hnew : ∀ definition origin typeExternal, holds { definition, origin, typeExternal })
    (hpatch : ∀ member patching, holds member → holds (member.patch patching))
    (program : Program) (definition : TypeDef) :
    ∀ member ∈ program.patchedMembers definition, holds member := by
  rw [patchedMembers]
  apply List.foldlRecOn (motive := fun table => ∀ member ∈ table, holds member)
  · intro member hmember
    obtain ⟨declared, -, rfl⟩ := List.mem_map.1 hmember
    exact hnew declared _ _
  · intro table htable proxy _
    rw [Member.applyProxy]
    apply List.foldlRecOn (motive := fun table => ∀ member ∈ table, holds member)
    · exact htable
    · exact fun patched hpatched patching _ =>
        Member.forall_patchTable (hnew · · _) hpatch patching hpatched

theorem undecided_patchedMembers (program : Program) (definition : TypeDef) :
    ∀ member ∈ program.patchedMembers definition, member.Undecided :=
  forall_patchedMembers (fun _ _ _ => rfl) (fun _ patching h => h.patch patching) program definition

theorem undecided_withStaticConstructor (declaring : String) {members : List Member}
    (h : ∀ member ∈ members, member.Undecided) :
    ∀ member ∈ withStaticConstructor declaring members, member.Undecided := by
  rw [withStaticConstructor]
  split
  · rw [List.forall_mem_append, List.forall_mem_singleton]
    exact ⟨h, rfl⟩
  · exact h

/-- The first pass leaves it open which members are ignored. -/
theorem undecided_build (program : Program) (cache : Cache) (id : TypeId) (definition : TypeDef) :
    ∀ member ∈ (program.build cache id definition).members, member.Undecided := by
  have hpatched := program.undecided_patchedMembers definition
  apply undecided_withStaticConstructor
  split
  · exact hpatched
  · intro member hmember
    obtain ⟨raw, hraw, rfl⟩ := List.mem_map.1 hmember
    exact hpatched raw hraw

end Program

/-! ## The invariant of the first pass -/

namespace Worklist

/-- A model as the first pass leaves it: built for a type of the graph over a
cache that was faithful. -/
def Built (program : Program) (id : TypeId) (model : TypeModel) : Prop :=
  ∃ (definition : TypeDef) (earlier : Cache), program.graph.Indexes definition ∧
    definition.typeId = id ∧ earlier.Faithful program ∧ model = program.build earlier id definition

/-- Built models are faithful. -/
theorem Built.faithful {program : Program} {id : TypeId} {model : TypeModel}
    (h : Built program id model) : TypeModel.Faithful program id model := by
  obtain ⟨definition, earlier, hindexed, rfl, -, rfl⟩ := h
  exact Program.build_faithful earlier hindexed

/-- What every turn keeps. -/
structure Sound (program : Program) (initial : Cache) (root : TypeId) (work : Worklist) :
    Prop where
  extend : work.cache.Extends initial
  faithful : work.cache.Faithful program
  root : root ∈ work.agenda.queued
  queue : ∀ item ∈ work.agenda.queue, item.1 ∈ work.agenda.queued ∧
    item.2.typeId = item.1 ∧ program.graph.Indexes item.2
  queued : ∀ id ∈ work.agenda.queued,
    work.cache.contains id = true ∨ ∃ definition, (id, definition) ∈ work.agenda.queue
  built : ∀ id ∈ work.built, initial.find? id = none ∧
    ∃ model, work.cache.find? id = some (some model) ∧ Built program id model ∧
      ∀ named ∈ model.relatedTypes,
        work.cache.contains named.typeId = true ∨ named.typeId ∈ work.agenda.queued
  entry : ∀ id entry, work.cache.find? id = some entry →
    initial.find? id = some entry ∨ (entry = none ∧ program.graph.Lacks id) ∨ id ∈ work.built

variable {program : Program} {initial : Cache} {root : TypeId} {work : Worklist}

/-- The work starts with the definition alone on the agenda. -/
theorem sound_start {definition : TypeDef} (hinitial : initial.Faithful program)
    (hindexed : program.graph.Indexes definition) :
    Sound program initial definition.typeId (start initial definition) where
  extend := .refl initial
  faithful := hinitial
  root := List.mem_singleton.2 rfl
  queue item hitem := by
    rw [List.mem_singleton.1 hitem]
    exact ⟨List.mem_singleton.2 rfl, rfl, hindexed⟩
  queued id hid := by
    rw [List.mem_singleton.1 hid]
    exact .inr ⟨definition, List.mem_singleton.2 rfl⟩
  built _ hid := absurd hid List.not_mem_nil
  entry _ _ h := .inl h

/-- Dropping a type that has its entry. -/
theorem Sound.drop {id : TypeId} {definition : TypeDef} {rest : List (TypeId × TypeDef)}
    (h : Sound program initial root work) (hqueue : work.agenda.queue = (id, definition) :: rest)
    (hcontains : work.cache.contains id = true) :
    Sound program initial root { work with agenda := { work.agenda with queue := rest } } where
  extend := h.extend
  faithful := h.faithful
  root := h.root
  queue item hitem := h.queue item (by rw [hqueue]; exact List.mem_cons_of_mem _ hitem)
  queued other hother := by
    rcases h.queued other hother with hfound | ⟨found, hfound⟩
    · exact .inl hfound
    · rw [hqueue, List.mem_cons, Prod.mk.injEq] at hfound
      rcases hfound with ⟨rfl, -⟩ | hfound
      · exact .inl hcontains
      · exact .inr ⟨found, hfound⟩
  built := h.built
  entry := h.entry

/-- A turn that builds the model of a type without an entry, over the cache that it
finds, and adds what the model refers to. -/
structure Building (program : Program) (initial : Cache) (root : TypeId) (work : Worklist)
    (id : TypeId) (model : TypeModel) (rest : List (TypeId × TypeDef)) (added : Cache × Agenda) :
    Prop where
  sound : Sound program initial root work
  queue : ∃ definition, work.agenda.queue = (id, definition) :: rest ∧
    model = program.build work.cache id definition
  new : work.cache.contains id = false
  grown : Agenda.Grown program.graph model.relatedTypes work.cache
    { work.agenda with queue := rest } added

namespace Building

variable {id : TypeId} {model : TypeModel} {rest : List (TypeId × TypeDef)} {added : Cache × Agenda}

theorem built (h : Building program initial root work id model rest added) :
    Built program id model := by
  obtain ⟨definition, hqueue, hmodel⟩ := h.queue
  obtain ⟨-, hid, hindexed⟩ := h.sound.queue (id, definition) (by
    rw [hqueue]
    exact List.mem_cons_self)
  exact ⟨definition, work.cache, hindexed, hid, h.sound.faithful, hmodel⟩

theorem mem_queue (h : Building program initial root work id model rest added)
    {item : TypeId × TypeDef} (hitem : item ∈ rest) : item ∈ work.agenda.queue := by
  obtain ⟨definition, hqueue, -⟩ := h.queue
  rw [hqueue]
  exact List.mem_cons_of_mem _ hitem

/-- A type on the agenda has no entry of its own yet, so the new model is the one found. -/
theorem find?_self (h : Building program initial root work id model rest added) :
    (added.1.insert id (some model)).find? id = some (some model) := by
  obtain ⟨definition, hqueue, -⟩ := h.queue
  have hqueued : id ∈ work.agenda.queued := (h.sound.queue (id, definition) (by
    rw [hqueue]
    exact List.mem_cons_self)).1
  apply Cache.find?_insert_self
  rw [Cache.contains_eq_false_iff, h.grown.old_entry id hqueued]
  exact Cache.contains_eq_false_iff.1 h.new

theorem extend (h : Building program initial root work id model rest added) :
    (added.1.insert id (some model)).Extends work.cache :=
  h.grown.extend.trans (Cache.extends_insert added.1 id (some model))

/-- Besides the model only absences are added. -/
theorem old_or_lacks (h : Building program initial root work id model rest added)
    {other : TypeId} {entry : Option TypeModel} (hentry : added.1.find? other = some entry) :
    work.cache.find? other = some entry ∨ entry = none ∧ program.graph.Lacks other := by
  rcases h.grown.new_entry other entry hentry with hold | ⟨rfl, named, hnamed, rfl, hresolve⟩
  · exact .inl hold
  · obtain ⟨⟨_, _, _, _, hnames⟩, -⟩ := TypeModel.mem_relatedTypes_iff.1 hnamed
    obtain ⟨name, hname, -⟩ := hnames.exists_name
    exact .inr ⟨rfl, Graph.lacks_of_resolve?_eq_none hname hresolve⟩

theorem faithful (h : Building program initial root work id model rest added) :
    (added.1.insert id (some model)).Faithful program := by
  apply Cache.Faithful.insert
  · intro other found hfound
    cases h.old_or_lacks hfound with
    | inl hold => exact h.sound.faithful other found hold
    | inr hlacks => exact absurd hlacks.1 (Option.some_ne_none found)
  · intro found heq
    rw [← Option.some.inj heq]
    exact h.built.faithful

theorem queue_after (h : Building program initial root work id model rest added) :
    ∀ item ∈ added.2.queue, item.1 ∈ added.2.queued ∧ item.2.typeId = item.1 ∧
      program.graph.Indexes item.2 := by
  obtain ⟨further, hfurther, hitems⟩ := h.grown.queue
  intro item hitem
  rw [hfurther] at hitem
  cases List.mem_append.1 hitem with
  | inl hitem =>
    obtain ⟨hold, hkey, hindexed⟩ := h.sound.queue item (h.mem_queue hitem)
    exact ⟨h.grown.old_queued hold, hkey, hindexed⟩
  | inr hitem =>
    obtain ⟨hnew, named, -, hkey, hresolve⟩ := hitems item hitem
    exact ⟨hnew, by rw [Graph.typeId_of_resolve? hresolve, hkey],
      Graph.exists_index_of_resolve? hresolve⟩

theorem queued_after (h : Building program initial root work id model rest added) :
    ∀ other ∈ added.2.queued, (added.1.insert id (some model)).contains other = true ∨
      ∃ found, (other, found) ∈ added.2.queue := by
  obtain ⟨definition, hqueue, -⟩ := h.queue
  obtain ⟨further, hfurther, -⟩ := h.grown.queue
  intro other hother
  rcases h.grown.new_queued other hother with hold | hnew | hnew
  · rcases h.sound.queued other hold with hfound | ⟨found, hfound⟩
    · exact .inl (h.extend.contains hfound)
    · rw [hqueue, List.mem_cons, Prod.mk.injEq] at hfound
      rcases hfound with ⟨rfl, -⟩ | hfound
      · exact .inl (Cache.contains_iff.2 ⟨_, h.find?_self⟩)
      · exact .inr ⟨found, by rw [hfurther]; exact List.mem_append_left _ hfound⟩
  · exact .inl ((Cache.extends_insert added.1 id (some model)).contains hnew)
  · exact .inr hnew

theorem initial_eq_none (h : Building program initial root work id model rest added) :
    initial.find? id = none := by
  have hnew := h.new
  cases hinitial : initial.find? id with
  | none => rfl
  | some entry =>
    rw [Cache.contains_eq_false_iff, h.sound.extend id entry hinitial] at hnew
    exact absurd hnew (Option.some_ne_none entry)

theorem built_after (h : Building program initial root work id model rest added) :
    ∀ other ∈ work.built ++ [id], initial.find? other = none ∧
      ∃ found, (added.1.insert id (some model)).find? other = some (some found) ∧
        Built program other found ∧ ∀ named ∈ found.relatedTypes,
          (added.1.insert id (some model)).contains named.typeId = true ∨
            named.typeId ∈ added.2.queued := by
  intro other hother
  cases List.mem_append.1 hother with
  | inl hother =>
    obtain ⟨hinitial, found, hfound, hbefore, hrelated⟩ := h.sound.built other hother
    refine ⟨hinitial, found, h.extend _ _ hfound, hbefore, ?_⟩
    intro named hnamed
    cases hrelated named hnamed with
    | inl hnamed => exact .inl (h.extend.contains hnamed)
    | inr hnamed => exact .inr (h.grown.old_queued hnamed)
  | inr hother =>
    rw [List.mem_singleton.1 hother]
    refine ⟨h.initial_eq_none, model, h.find?_self, h.built, ?_⟩
    intro named hnamed
    cases h.grown.reached named hnamed with
    | inl hnamed => exact .inl ((Cache.extends_insert added.1 id (some model)).contains hnamed)
    | inr hnamed => exact .inr hnamed

theorem entry_after (h : Building program initial root work id model rest added) {other : TypeId}
    {entry : Option TypeModel}
    (hentry : (added.1.insert id (some model)).find? other = some entry) :
    initial.find? other = some entry ∨ (entry = none ∧ program.graph.Lacks other) ∨
      other ∈ work.built ++ [id] := by
  rcases Cache.find?_insert_cases hentry with hentry | ⟨-, rfl, -⟩
  · cases h.old_or_lacks hentry with
    | inl hold =>
      rcases h.sound.entry other entry hold with hold | hno | hold
      · exact .inl hold
      · exact .inr (.inl hno)
      · exact .inr (.inr (List.mem_append_left _ hold))
    | inr hno => exact .inr (.inl hno)
  · exact .inr (.inr (List.mem_append_right _ (List.mem_singleton.2 rfl)))

/-- Building a model keeps the invariant. -/
theorem sound_after (h : Building program initial root work id model rest added) :
    Sound program initial root
      { cache := added.1.insert id (some model), agenda := added.2,
        built := work.built ++ [id] } where
  extend := h.sound.extend.trans h.extend
  faithful := h.faithful
  root := h.grown.old_queued h.sound.root
  queue := h.queue_after
  queued := h.queued_after
  built := h.built_after
  entry _ _ := h.entry_after

end Building

/-- One turn keeps the invariant. -/
theorem Sound.turn (h : Sound program initial root work) :
    Sound program initial root (turn program work) := by
  rw [Worklist.turn]
  split
  · exact h
  · rename_i id definition rest hqueue
    split
    · rename_i hcontains
      exact h.drop hqueue hcontains
    · rename_i hnone
      have hbuilding : Building program initial root work id _ rest _ :=
        ⟨h, ⟨definition, hqueue, rfl⟩, Bool.eq_false_iff.2 hnone, Agenda.grown_addAll ..⟩
      exact hbuilding.sound_after

/-- Any number of turns keeps the work sound. -/
theorem Sound.iterate (h : Sound program initial root work) (turns : Nat) :
    Sound program initial root ((Worklist.turn program)^[turns] work) := by
  induction turns generalizing work with
  | zero => exact h
  | succ turns ih => exact ih h.turn

end Worklist

namespace Program

/-- A model that a construction left in its final cache. -/
structure Made (program : Program) (final : Cache) (id : TypeId) (model : TypeModel) :
    Prop where
  exists_build : ∃ (definition : TypeDef) (earlier later : Cache),
    program.graph.Indexes definition ∧ definition.typeId = id ∧ earlier.Faithful program ∧
      later.Faithful program ∧
      (∀ other, (later.model? other).map TypeModel.ignored =
        (final.model? other).map TypeModel.ignored) ∧
      model = program.complete later (program.build earlier id definition)
  related : ∀ named ∈ model.relatedTypes, final.contains named.typeId = true

/-- How the cache after a construction goes with the one before it. -/
structure Constructed (program : Program) (initial : Cache) (definition : TypeDef)
    (final : Cache) : Prop where
  extend : final.Extends initial
  faithful : final.Faithful program
  root : final.contains definition.typeId = true
  entry : ∀ id entry, final.find? id = some entry → initial.find? id = some entry ∨
    (entry = none ∧ program.graph.Lacks id) ∨
      ∃ model, entry = some model ∧ Made program final id model

variable {program : Program} {initial : Cache} {definition : TypeDef}

/-- The second pass marks members and leaves the types themselves as they are. -/
theorem ignored_update_complete (cache later : Cache) (ids : List TypeId) (id : TypeId) :
    ((cache.update ids (program.complete later)).model? id).map TypeModel.ignored =
      (cache.model? id).map TypeModel.ignored := by
  by_cases hid : id ∈ ids
  · cases hentry : cache.find? id with
    | none =>
      rw [Cache.model?, Cache.model?, Cache.find?_update, hentry]
      rfl
    | some entry =>
      rw [Cache.model?, Cache.model?, Cache.find?_update_of_mem _ hid hentry, hentry]
      cases entry <;> rfl
  · rw [Cache.model?, Cache.model?, Cache.find?_update_of_not_mem _ _ hid]

theorem faithful_update_complete {cache : Cache} (h : cache.Faithful program) (later : Cache)
    (ids : List TypeId) : (cache.update ids (program.complete later)).Faithful program := by
  intro id model hmodel
  by_cases hid : id ∈ ids
  · rw [Cache.find?_update] at hmodel
    obtain ⟨entry, hentry, heq⟩ := Option.map_eq_some_iff.1 hmodel
    rw [if_pos (List.contains_iff_mem.2 hid)] at heq
    obtain ⟨raw, rfl, rfl⟩ := Option.map_eq_some_iff.1 heq
    exact complete_faithful later (h id raw hentry)
  · rw [Cache.find?_update_of_not_mem _ _ hid] at hmodel
    exact h id model hmodel

section Finished

variable {work : Worklist} (h : Worklist.Sound program initial definition.typeId work)
  (hqueue : work.agenda.queue = [])

include h

/-- The completion leaves the models of the start alone. -/
theorem extends_update_complete :
    (work.cache.update work.built (program.complete work.cache)).Extends initial := by
  intro id entry hentry
  have hold : id ∉ work.built := by
    intro hid
    rw [(h.built id hid).1] at hentry
    exact absurd hentry.symm (Option.some_ne_none entry)
  rw [Cache.find?_update_of_not_mem _ _ hold]
  exact h.extend id entry hentry

include hqueue

/-- With an empty agenda every type that was queued has its entry. -/
theorem contains_of_queued {id : TypeId} (hid : id ∈ work.agenda.queued) :
    (work.cache.update work.built (program.complete work.cache)).contains id = true := by
  apply Cache.contains_update
  rcases h.queued id hid with hfound | ⟨found, hfound⟩
  · exact hfound
  · rw [hqueue] at hfound
    exact absurd hfound List.not_mem_nil

/-- Each model that was built is in the final cache, completed there. -/
theorem made_of_built {id : TypeId} (hid : id ∈ work.built) :
    ∃ model, (work.cache.update work.built (program.complete work.cache)).find? id =
        some (some model) ∧
      Made program (work.cache.update work.built (program.complete work.cache)) id model := by
  obtain ⟨-, model, hmodel, hbuilt, hrelated⟩ := h.built id hid
  refine ⟨program.complete work.cache model, Cache.find?_update_of_mem _ hid hmodel, ?_, ?_⟩
  · obtain ⟨found, earlier, hindexed, hkey, hearlier, rfl⟩ := hbuilt
    have hsame : ∀ other, (work.cache.model? other).map TypeModel.ignored =
        ((work.cache.update work.built (program.complete work.cache)).model? other).map
          TypeModel.ignored :=
      fun other => (ignored_update_complete work.cache work.cache work.built other).symm
    exact ⟨found, earlier, work.cache, hindexed, hkey, hearlier, h.faithful, hsame, rfl⟩
  · intro named hnamed
    rw [relatedTypes_complete] at hnamed
    cases hrelated named hnamed with
    | inl hnamed => exact Cache.contains_update _ _ hnamed
    | inr hnamed => exact contains_of_queued h hqueue hnamed

/-- What the second pass makes of a first pass that has come to its end. -/
theorem constructed_of_sound :
    Constructed program initial definition
      (work.cache.update work.built (program.complete work.cache)) where
  extend := extends_update_complete h
  faithful := faithful_update_complete h.faithful work.cache work.built
  root := contains_of_queued h hqueue h.root
  entry id entry hentry := by
    by_cases hid : id ∈ work.built
    · obtain ⟨model, hmodel, hmade⟩ := made_of_built h hqueue hid
      rw [hmodel, Option.some.injEq] at hentry
      exact .inr (.inr ⟨model, hentry.symm, hmade⟩)
    · rw [Cache.find?_update_of_not_mem _ _ hid] at hentry
      rcases h.entry id entry hentry with hold | hlacks | hnew
      · exact .inl hold
      · exact .inr (.inl hlacks)
      · exact absurd hnew hid

end Finished

/-- A construction does what the work list says, whatever was in the cache. -/
theorem constructed_construct (hinitial : initial.Faithful program)
    (hindexed : program.graph.Indexes definition) :
    Constructed program initial definition (program.construct initial definition) := by
  obtain ⟨turns, -, hqueue, heq⟩ :=
    Worklist.exists_turns program (Worklist.start initial definition)
  have hsound := (Worklist.sound_start hinitial hindexed).iterate turns
  have hconstruct := constructed_of_sound hsound hqueue
  rw [construct]
  simp only [Worklist.start] at heq
  rw [heq]
  exact hconstruct

end Program

end Assemblage
