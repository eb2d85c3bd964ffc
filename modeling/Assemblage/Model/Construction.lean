import Assemblage.Model.Program

/-!
# Construction of models

A model is built together with those of all types its members mention, and of
all types theirs mention.  A first pass over an agenda builds the member tables;
a second one checks all new members for ignored types and forms the method
groups.  Every further item of the agenda is a type of the graph that was not on
it before, so the first pass ends.
-/

namespace Assemblage

/-- Changes the last item that satisfies a condition. -/
def updateLast? {α : Type} (p : α → Bool) (f : α → α) : List α → Option (List α)
  | [] => none
  | item :: rest =>
    match updateLast? p f rest with
    | some updated => some (item :: updated)
    | none => if p item then some (f item :: rest) else none

namespace Member

/-- Patches the member with the identifier of a proxy member, or adds that one. -/
def patchTable (proxy : String) (typeExternal : Bool) (members : List Member)
    (patching : MemberDef) : List Member :=
  match updateLast? (·.id == patching.id) (·.patch patching) members with
  | some patched => patched
  | none => members ++ [{ definition := patching, origin := .proxy proxy, typeExternal }]

def applyProxy (typeExternal : Bool) (members : List Member) (proxy : Proxy) : List Member :=
  proxy.memberDefs.foldl (patchTable proxy.fullName typeExternal) members

end Member

/-- The static constructor of a type that needs one and declares none. -/
def synthesizedConstructor (declaring : String) : MethodDef :=
  { name := ".cctor"
    flags := MethodFlag.isStatic ||| MethodFlag.isPrivate ||| MethodFlag.specialName |||
      MethodFlag.runtimeSpecialName
    body := some (.tree 0 {})
    declaring }

namespace Program

/-- Whether the static constructor has to set a field.  Only the field's own
attributes are asked whether it is ignored. -/
def isSetByStaticConstructor (program : Program) (cache : Cache) (field : FieldDef) : Bool :=
  field.isStatic && !field.isLiteral && !field.marks.ignored &&
    !program.ignores cache field.type && program.needsStaticConstructor field.type

def markField (program : Program) (cache : Cache) (member : Member) : Member :=
  { member with
    setByStaticConstructor :=
      member.definition.field?.any (program.isSetByStaticConstructor cache) }

/-- The members of a type with those of its proxies. -/
def patchedMembers (program : Program) (definition : TypeDef) : List Member :=
  let typeExternal := (program.marksOf definition).external
  let declared := definition.memberDefs.map fun member =>
    ({ definition := member, typeExternal } : Member)
  (program.proxiesFor definition).foldl (Member.applyProxy typeExternal) declared

/-- Adds a static constructor where fields need one and there is none. -/
def withStaticConstructor (declaring : String) (members : List Member) : List Member :=
  if !members.any TypeModel.isStaticConstructor && members.any (·.setByStaticConstructor) then
    members ++ [{ definition := .method (synthesizedConstructor declaring)
                  origin := .synthesized
                  typeExternal := false }]
  else members

/-- The member table of a type. -/
def membersOf (program : Program) (cache : Cache) (definition : TypeDef) : List Member :=
  let patched := program.patchedMembers definition
  let marked :=
    if definition.kind.isDeclaredInFull then patched
    else patched.map (program.markField cache)
  withStaticConstructor definition.fullName marked

/-- A model without method groups. -/
def build (program : Program) (cache : Cache) (id : TypeId) (definition : TypeDef) : TypeModel :=
  { id, definition
    module := program.moduleOf? definition
    proxies := program.proxiesFor definition
    members := program.membersOf cache definition
    marks := program.marksOf definition
    ignored := program.ignoresDefinition definition }

end Program

namespace Signature

mutual

/-- The named types a signature is made of, the last generic argument first. -/
def namedTypes : Signature → List Signature
  | .byRef inner | .pointer inner | .vector inner | .array inner _ => inner.namedTypes
  | .generic definition arguments => namedTypesOfList arguments ++ definition.namedTypes
  | .reference name =>
    if (Primitive.ofFullName? name.fullName).isNone then [.reference name] else []
  | .value name => if (Primitive.ofFullName? name.fullName).isNone then [.value name] else []
  | .primitive _ | .typeParameter _ | .methodParameter _ => []

def namedTypesOfList : List Signature → List Signature
  | [] => []
  | signature :: rest => namedTypesOfList rest ++ signature.namedTypes

end

end Signature

/-- The named types that the members of a model mention, last to first. -/
def TypeModel.relatedTypes (model : TypeModel) : List Signature :=
  Signature.namedTypesOfList (model.members.flatMap (·.types))

/-! ## First pass -/

/-- Types whose models are to be built, and all that have been on the list. -/
structure Agenda where
  queue : List (TypeId × TypeDef)
  queued : List TypeId

namespace Agenda

def start (definition : TypeDef) : Agenda :=
  { queue := [(definition.typeId, definition)], queued := [definition.typeId] }

/-- How many types can still come up. -/
def weight (graph : Graph) (agenda : Agenda) : Nat :=
  Graph.unseen TypeDef.typeId graph agenda.queued + agenda.queue.length

/-- Puts a type on the agenda unless its model is there or was on the agenda.
For a type that cannot be found, its absence is recorded at once. -/
def add (graph : Graph) (cache : Cache) (agenda : Agenda) (related : Signature) :
    Cache × Agenda :=
  let id := related.typeId
  if cache.contains id || agenda.queued.contains id then (cache, agenda)
  else
    match graph.resolve? related with
    | some definition =>
      (cache, { queue := agenda.queue ++ [(id, definition)], queued := id :: agenda.queued })
    | none => (cache.insert id none, { agenda with queued := id :: agenda.queued })

def addAll (graph : Graph) (cache : Cache) (agenda : Agenda) : List Signature → Cache × Agenda
  | [] => (cache, agenda)
  | related :: rest =>
    let (cache, agenda) := agenda.add graph cache related
    addAll graph cache agenda rest

theorem weight_add_le (graph : Graph) (cache : Cache) (agenda : Agenda) (related : Signature) :
    (agenda.add graph cache related).2.weight graph ≤ agenda.weight graph := by
  simp only [add]
  split
  · exact Nat.le_refl _
  · rename_i hnew
    simp only [Bool.or_eq_true, not_or, Bool.not_eq_true] at hnew
    split
    · rename_i definition hresolve
      obtain ⟨name, entry, hname, hmem, rfl, hfull⟩ := Graph.exists_entry_of_resolve? hresolve
      have hid : entry.definition.typeId = related.typeId := by
        rw [Signature.typeId_eq_ofName hname, TypeDef.typeId, hfull, TypeId.ofName_eq]
      have hlt : Graph.unseen TypeDef.typeId graph (entry.definition.typeId :: agenda.queued) <
          Graph.unseen TypeDef.typeId graph agenda.queued :=
        Graph.unseen_cons_lt TypeDef.typeId hmem (by rw [hid]; exact hnew.2)
      rw [hid] at hlt
      simp only [weight, List.length_append, List.length_singleton]
      omega
    · have hle := Graph.unseen_cons_le TypeDef.typeId graph agenda.queued related.typeId
      simp only [weight]
      omega

theorem weight_addAll_le (graph : Graph) (cache : Cache) (agenda : Agenda)
    (related : List Signature) :
    (agenda.addAll graph cache related).2.weight graph ≤ agenda.weight graph := by
  induction related generalizing cache agenda with
  | nil => exact Nat.le_refl _
  | cons head rest ih =>
    exact Nat.le_trans (ih _ _) (weight_add_le graph cache agenda head)

end Agenda

namespace Program

/-- Builds the models on an agenda and returns the identifiers of the new ones. -/
def buildAll (program : Program) (cache : Cache) (agenda : Agenda) (built : List TypeId) :
    Cache × List TypeId :=
  match _hqueue : agenda.queue with
  | [] => (cache, built)
  | (id, definition) :: rest =>
    if cache.contains id then program.buildAll cache { agenda with queue := rest } built
    else
      let model := program.build cache id definition
      let added := ({ agenda with queue := rest } : Agenda).addAll program.graph cache
        model.relatedTypes
      program.buildAll (added.1.insert id (some model)) added.2 (built ++ [id])
termination_by agenda.weight program.graph
decreasing_by
  · simp [Agenda.weight, _hqueue]
  · have hle := Agenda.weight_addAll_le program.graph cache { agenda with queue := rest }
      (program.build cache id definition).relatedTypes
    have hlt : ({ agenda with queue := rest } : Agenda).weight program.graph <
        agenda.weight program.graph := by
      simp [Agenda.weight, _hqueue]
    omega

def checkMember (program : Program) (cache : Cache) (member : Member) : Member :=
  member.resolveIgnored (member.types.any (program.ignores cache))

/-- Checks the members of a model and forms its groups. -/
def complete (program : Program) (cache : Cache) (model : TypeModel) : TypeModel :=
  let members := model.members.map (program.checkMember cache)
  { model with members, groups := MethodGroup.construct model.fullName members }

/-- Builds the model of a type and of all types it leads to. -/
def construct (program : Program) (cache : Cache) (definition : TypeDef) : Cache :=
  let (cache, built) := program.buildAll cache (Agenda.start definition) []
  cache.update built (program.complete cache)

end Program

end Assemblage
