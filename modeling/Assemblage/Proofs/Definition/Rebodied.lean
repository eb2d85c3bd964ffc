import Assemblage.Proofs.Definition.Bodies
import Mathlib.Algebra.Order.BigOperators.Group.List
import Mathlib.Algebra.Order.Group.Nat

/-!
# One method with another body

Two definitions that differ in the body of one method come from a third that has a
mark in its place.  The mark is a body that occurs nowhere else, so whatever is said
about exchanging bodies applies to that one alone.
-/

namespace Assemblage

namespace Body

/-- A body that stands for another one, known by its count. -/
def mark (count : Nat) : Body :=
  .undecompilable count ""

/-- Puts a body in the place of the mark. -/
def fill (count : Nat) (body : Body) : Body → Body
  | .tree size content => .tree size content
  | .undecompilable size message =>
    if size = count ∧ message = "" then body else .undecompilable size message

variable {count : Nat} {body other : Body}

@[simp]
theorem fill_mark : fill count body (mark count) = body :=
  if_pos ⟨rfl, rfl⟩

theorem fill_of_ne (h : other ≠ mark count) : fill count body other = other := by
  cases other with
  | tree => rfl
  | undecompilable size message =>
    apply if_neg
    rintro ⟨rfl, rfl⟩
    exact h rfl

/-- A body with a smaller count is not the mark. -/
theorem ne_mark_of_count_lt (h : other.count < count) : other ≠ mark count := by
  rintro rfl
  exact Nat.lt_irrefl count h

end Body

section

variable {method : MethodDef} {count : Nat} {old body : Body}

namespace MethodDef

def withBody (method : MethodDef) (body : Body) : MethodDef :=
  { method with body := some body }

theorem withBody_eq_self (h : method.body = some body) : method.withBody body = method := by
  rw [withBody, ← h]

/-- The method with a mark has either body, depending on what the mark is filled with. -/
theorem mapBodies_withBody_mark (method : MethodDef) (count : Nat) (body : Body) :
    (method.withBody (.mark count)).mapBodies (.fill count body) = method.withBody body := by
  simp [mapBodies, withBody]

def IsMarked (count : Nat) (method : MethodDef) : Prop :=
  method.body = some (.mark count)

theorem mapBodies_fill_of_not_isMarked (h : ¬method.IsMarked count) :
    method.mapBodies (.fill count body) = method := by
  refine method.mapBodies_eq_self fun other hother => Body.fill_of_ne ?_
  rintro rfl
  exact h hother

/-- Where one of some methods has the mark, only that one is changed. -/
theorem map_mapBodies_fill {before after : List MethodDef}
    (h : ∀ other ∈ before ++ after, ¬other.IsMarked count) (method : MethodDef) (body : Body) :
    (before ++ method.withBody (.mark count) :: after).map (·.mapBodies (.fill count body)) =
      before ++ method.withBody body :: after := by
  rw [map_middle fun other hother => mapBodies_fill_of_not_isMarked (h other hother),
    mapBodies_withBody_mark]

/-- An accessor is the same, or it is the method and changes with it. -/
def Follows (method : MethodDef) (body : Body) (accessor changed : Option MethodDef) : Prop :=
  changed = accessor ∨ accessor = some method ∧ changed = some (method.withBody body)

theorem Follows.exists_marked {accessor changed : Option MethodDef}
    (h : method.Follows body accessor changed) (hold : method.body = some old)
    (hfresh : ∀ own ∈ accessor, ¬own.IsMarked count) :
    ∃ marked : Option MethodDef, marked.map (·.mapBodies (.fill count old)) = accessor ∧
      marked.map (·.mapBodies (.fill count body)) = changed := by
  rcases h with rfl | ⟨rfl, rfl⟩
  · have hsame : ∀ other, changed.map (·.mapBodies (.fill count other)) = changed := by
      intro other
      cases changed with
      | none => rfl
      | some own => rw [Option.map_some, mapBodies_fill_of_not_isMarked (hfresh own rfl)]
    exact ⟨changed, hsame old, hsame body⟩
  · refine ⟨some (method.withBody (.mark count)), ?_, ?_⟩
    · rw [Option.map_some, mapBodies_withBody_mark, withBody_eq_self hold]
    · rw [Option.map_some, mapBodies_withBody_mark]

end MethodDef

namespace PropertyDef

/-- A property is the same but for accessors that are the method. -/
def Rebodied (method : MethodDef) (body : Body) (property changed : PropertyDef) : Prop :=
  ∃ getter setter, changed = { property with getter, setter } ∧
    method.Follows body property.getter getter ∧ method.Follows body property.setter setter

theorem Rebodied.exists_marked {property changed : PropertyDef}
    (h : property.Rebodied method body changed) (hold : method.body = some old)
    (hfresh : ∀ other ∈ property.bodies, other ≠ .mark count) :
    ∃ marked : PropertyDef, marked.mapBodies (.fill count old) = property ∧
      marked.mapBodies (.fill count body) = changed := by
  obtain ⟨getter, setter, rfl, hgetter, hsetter⟩ := h
  have haccessor : ∀ own ∈ property.getter.toList ++ property.setter.toList,
      ¬own.IsMarked count := by
    intro own hown hmarked
    exact hfresh (.mark count)
      (List.mem_flatMap.2 ⟨own, hown, Option.mem_toList.2 hmarked⟩) rfl
  obtain ⟨first, hfirst, hfirst'⟩ := hgetter.exists_marked hold fun own hown =>
    haccessor own (List.mem_append_left _ (Option.mem_toList.2 hown))
  obtain ⟨second, hsecond, hsecond'⟩ := hsetter.exists_marked hold fun own hown =>
    haccessor own (List.mem_append_right _ (Option.mem_toList.2 hown))
  refine ⟨{ property with getter := first, setter := second }, ?_, ?_⟩
  · simp only [mapBodies, hfirst, hsecond]
  · simp only [mapBodies, hfirst', hsecond']

theorem map_mapBodies_fill {properties : List PropertyDef}
    (h : ∀ other ∈ properties.flatMap bodies, other ≠ .mark count) (body : Body) :
    properties.map (·.mapBodies (.fill count body)) = properties :=
  map_eq_self fun property hproperty => property.mapBodies_eq_self fun other hother =>
    Body.fill_of_ne (h other (List.mem_flatMap.2 ⟨property, hproperty, hother⟩))

/-- Properties that differ in the body come from marked ones. -/
theorem exists_marked_all {properties changed : List PropertyDef}
    (h : List.Forall₂ (Rebodied method body) properties changed) (hold : method.body = some old)
    (hfresh : ∀ other ∈ properties.flatMap bodies, other ≠ .mark count) :
    ∃ marked : List PropertyDef, marked.map (·.mapBodies (.fill count old)) = properties ∧
      marked.map (·.mapBodies (.fill count body)) = changed := by
  induction h with
  | nil => exact ⟨[], rfl, rfl⟩
  | cons hhead _ ih =>
    rw [List.flatMap_cons, List.forall_mem_append] at hfresh
    obtain ⟨first, hfirst, hfirst'⟩ := hhead.exists_marked hold hfresh.1
    obtain ⟨rest, hrest, hrest'⟩ := ih hfresh.2
    refine ⟨first :: rest, ?_, ?_⟩
    · rw [List.map_cons, hfirst, hrest]
    · rw [List.map_cons, hfirst', hrest']

end PropertyDef

/-! ## Types -/

namespace TypeDef

/-- A type and its like with another body for a method of the type itself, the
`owner`, or of one nested in it. -/
inductive Rebodied (method : MethodDef) (body : Body) (owner : TypeDef) : TypeDef → TypeDef → Prop
  | own {before after : List MethodDef} {properties : List PropertyDef}
      (hmethods : owner.methods = before ++ method :: after)
      (hproperties : List.Forall₂ (PropertyDef.Rebodied method body) owner.properties properties) :
      Rebodied method body owner owner
        { owner with methods := before ++ method.withBody body :: after, properties }
  | nested {outer inner changed : TypeDef} {before after : List TypeDef}
      (hnested : outer.nested = before ++ inner :: after)
      (hinner : Rebodied method body owner inner changed) :
      Rebodied method body owner outer { outer with nested := before ++ changed :: after }

def HoldsMark (count : Nat) (definition : TypeDef) : Prop :=
  ∃ method ∈ definition.methods, method.IsMarked count

/-- The mark is in the place of the body of one method, and nowhere else in the type. -/
def MarksOnly (count : Nat) (method : MethodDef) (place : TypeDef) : Prop :=
  ∃ before after, place.methods = before ++ method.withBody (.mark count) :: after ∧
    ∀ other ∈ before ++ after, ¬other.IsMarked count

/-- The mark is found in one position. -/
theorem MarksOnly.exists_position {place : TypeDef} (h : place.MarksOnly count method) :
    ∃ position : Nat, ∀ (other : Nat) own, place.methods[other]? = some own →
      own.IsMarked count → other = position ∧ own = method.withBody (.mark count) := by
  obtain ⟨before, after, hmethods, hothers⟩ := h
  rw [List.forall_mem_append] at hothers
  refine ⟨before.length, fun other own hown hmarked => ?_⟩
  rw [hmethods] at hown
  rcases Nat.lt_trichotomy other before.length with hlt | rfl | hgt
  · rw [List.getElem?_append_left hlt] at hown
    exact absurd hmarked (hothers.1 own (List.mem_of_getElem? hown))
  · rw [List.getElem?_append_right (Nat.le_refl _), Nat.sub_self] at hown
    exact ⟨rfl, (Option.some.inj hown).symm⟩
  · rw [List.getElem?_append_right (Nat.le_of_lt hgt),
      ← Nat.succ_pred_eq_of_pos (Nat.sub_pos_of_lt hgt), List.getElem?_cons_succ] at hown
    exact absurd hmarked (hothers.2 own (List.mem_of_getElem? hown))

/-- The mark does not occur in the type. -/
def IsFresh (count : Nat) (definition : TypeDef) : Prop :=
  ∀ other ∈ definition.bodies, other ≠ .mark count

/-- A mark is fresh in a type if no method, no property and no nested type holds it. -/
theorem isFresh_iff {definition : TypeDef} :
    definition.IsFresh count ↔
      (∀ other ∈ definition.methods, ¬other.IsMarked count) ∧
        (∀ other ∈ definition.properties.flatMap PropertyDef.bodies, other ≠ .mark count) ∧
        ∀ inner ∈ definition.nested, inner.IsFresh count := by
  rw [IsFresh, bodies, withNested_eq_cons, List.flatMap_cons, List.flatMap_assoc,
    List.forall_mem_append, List.forall_mem_append, and_assoc]
  refine and_congr ?_ (and_congr_right fun _ => ?_)
  · simp only [List.mem_flatMap, Option.mem_toList, MethodDef.IsMarked]
    constructor
    · exact fun h method hmethod hmarked => h _ ⟨method, hmethod, hmarked⟩ rfl
    · rintro h _ ⟨method, hmethod, hbody⟩ rfl
      exact h method hmethod hbody
  · simp only [List.mem_flatMap]
    constructor
    · exact fun h inner hinner other hother =>
        h other ⟨inner, hinner, List.mem_flatMap.1 hother⟩
    · rintro h other ⟨inner, hinner, hother⟩
      exact h inner hinner other (List.mem_flatMap.2 hother)

/-- A type in which the mark is fresh is left alone when it is filled. -/
theorem IsFresh.mapBodies_fill {definition : TypeDef} (h : definition.IsFresh count)
    (body : Body) : definition.mapBodies (.fill count body) = definition :=
  mapBodies_eq_self fun other hother => Body.fill_of_ne (h other hother)

/-- No type inside one in which the mark is fresh holds it. -/
theorem IsFresh.not_holdsMark {definition : TypeDef} (h : definition.IsFresh count) :
    ∀ inside ∈ definition.withNested, ¬inside.HoldsMark count := by
  have hall : ∀ inside ∈ definition.withNested, inside.IsFresh count :=
    forall_withNested (fun _ _ houter => (isFresh_iff.1 houter).2.2) h
  rintro inside hinside ⟨method, hmethod, hmarked⟩
  exact (isFresh_iff.1 (hall inside hinside)).1 method hmethod hmarked

/-- Where all but one of some types are fresh, only that one is changed. -/
theorem map_mapBodies_fill {before after : List TypeDef} {marked : TypeDef}
    (hfresh : ∀ other ∈ before ++ after, other.IsFresh count) (body : Body) :
    (before ++ marked :: after).map (mapBodies (.fill count body)) =
      before ++ marked.mapBodies (.fill count body) :: after :=
  map_middle fun other hother => (hfresh other hother).mapBodies_fill body

/-- Where all but one of some types are fresh, the mark is in that one. -/
theorem mem_withNested_of_holdsMark {before after : List TypeDef} {marked outer inside : TypeDef}
    (hfresh : ∀ other ∈ before ++ after, other.IsFresh count)
    (houter : outer ∈ before ++ marked :: after) (hinside : inside ∈ outer.withNested)
    (hmark : inside.HoldsMark count) : inside ∈ marked.withNested := by
  rcases mem_middle.1 houter with rfl | hother
  · exact hinside
  · exact absurd hmark ((hfresh outer hother).not_holdsMark inside hinside)

/-- The mark goes into the type of the method. -/
theorem exists_marked_own {owner : TypeDef} {before after : List MethodDef}
    {properties : List PropertyDef} (hmethods : owner.methods = before ++ method :: after)
    (hproperties : List.Forall₂ (PropertyDef.Rebodied method body) owner.properties properties)
    (hold : method.body = some old) (hfresh : owner.IsFresh count) :
    ∃ marked : TypeDef, marked.mapBodies (.fill count old) = owner ∧
      marked.mapBodies (.fill count body) =
        { owner with methods := before ++ method.withBody body :: after, properties } ∧
      marked.MarksOnly count method ∧
      ∀ inside ∈ marked.withNested, inside.HoldsMark count → inside = marked := by
  obtain ⟨hown, haccessors, hnested⟩ := isFresh_iff.1 hfresh
  obtain ⟨accessors, hself, hnew⟩ := PropertyDef.exists_marked_all hproperties hold haccessors
  rw [hmethods] at hown
  have hothers : ∀ other ∈ before ++ after, ¬other.IsMarked count :=
    fun other hother => hown other (mem_middle.2 (.inr hother))
  let marked : TypeDef :=
    { owner with
      methods := before ++ method.withBody (.mark count) :: after, properties := accessors }
  have hmap : ∀ other, marked.mapBodies (.fill count other) =
      { owner with
        methods := before ++ method.withBody other :: after
        properties := accessors.map (·.mapBodies (.fill count other)) } := by
    intro other
    have hinner : owner.nested.map (mapBodies (.fill count other)) = owner.nested :=
      map_eq_self fun inner hinner => (hnested inner hinner).mapBodies_fill other
    rw [mapBodies_eq]
    simp only [marked, hinner, MethodDef.map_mapBodies_fill hothers]
  refine ⟨marked, ?_, ?_, ⟨before, after, rfl, hothers⟩, ?_⟩
  · rw [hmap, hself, MethodDef.withBody_eq_self hold, ← hmethods]
    cases owner
    rfl
  · rw [hmap, hnew]
  · intro inside hinside hmark
    rw [withNested_eq_cons, List.mem_cons, List.mem_flatMap] at hinside
    rcases hinside with rfl | ⟨inner, hinner, hinside⟩
    · rfl
    · exact absurd hmark ((hnested inner hinner).not_holdsMark inside hinside)

/-- Where a type is fresh but for one that is nested in it, only that one is changed. -/
theorem mapBodies_fill_nested {outer marked : TypeDef} {before after : List TypeDef}
    (hmethods : ∀ own ∈ outer.methods, ¬own.IsMarked count)
    (hproperties : ∀ other ∈ outer.properties.flatMap PropertyDef.bodies, other ≠ .mark count)
    (hothers : ∀ other ∈ before ++ after, other.IsFresh count) (body : Body) :
    ({ outer with nested := before ++ marked :: after } : TypeDef).mapBodies (.fill count body) =
      { outer with nested := before ++ marked.mapBodies (.fill count body) :: after } := by
  have hown : outer.methods.map (·.mapBodies (.fill count body)) = outer.methods :=
    map_eq_self fun own howner => MethodDef.mapBodies_fill_of_not_isMarked (hmethods own howner)
  rw [mapBodies_eq]
  simp only [hown, PropertyDef.map_mapBodies_fill hproperties, map_mapBodies_fill hothers]

theorem Rebodied.exists_marked {owner outer changed : TypeDef}
    (h : Rebodied method body owner outer changed) (hold : method.body = some old)
    (hfresh : outer.IsFresh count) :
    ∃ marked place : TypeDef, marked.mapBodies (.fill count old) = outer ∧
      marked.mapBodies (.fill count body) = changed ∧
      place.mapBodies (.fill count old) = owner ∧ place.MarksOnly count method ∧
      ∀ inside ∈ marked.withNested, inside.HoldsMark count → inside = place := by
  induction h with
  | own hmethods hproperties =>
    obtain ⟨marked, hself, hnew, honly, hwhere⟩ :=
      exists_marked_own hmethods hproperties hold hfresh
    exact ⟨marked, marked, hself, hnew, hself, honly, hwhere⟩
  | @nested outer inner changed before after hnested hinner ih =>
    obtain ⟨hmethods, hproperties, hall⟩ := isFresh_iff.1 hfresh
    rw [hnested] at hall
    have hothers : ∀ other ∈ before ++ after, other.IsFresh count :=
      fun other hother => hall other (mem_middle.2 (.inr hother))
    obtain ⟨marked, place, hself, hnew, hplace, honly, hwhere⟩ :=
      ih (hall inner (mem_middle.2 (.inl rfl)))
    refine ⟨{ outer with nested := before ++ marked :: after }, place, ?_, ?_, hplace, honly, ?_⟩
    · rw [mapBodies_fill_nested hmethods hproperties hothers, hself, ← hnested]
      cases outer
      rfl
    · rw [mapBodies_fill_nested hmethods hproperties hothers, hnew]
    · intro inside hinside hmark
      rw [withNested_eq_cons, List.mem_cons, List.mem_flatMap] at hinside
      rcases hinside with rfl | ⟨other, hother, hinside⟩
      · obtain ⟨own, howner, hmarked⟩ := hmark
        exact absurd hmarked (hmethods own howner)
      · exact hwhere inside (mem_withNested_of_holdsMark hothers hother hinside hmark) hmark

end TypeDef

theorem ModuleDef.mapBodies_fill {part : ModuleDef} (h : ∀ top ∈ part.types, top.IsFresh count)
    (body : Body) : part.mapBodies (.fill count body) = part := by
  rw [mapBodies, map_eq_self fun top htop => (h top htop).mapBodies_fill body]

namespace AssemblyDef

/-- An assembly and its like with another body for a method of one of its types. -/
inductive Rebodied (method : MethodDef) (body : Body) (owner : TypeDef) :
    AssemblyDef → AssemblyDef → Prop
  | intro {assembly : AssemblyDef} {part : ModuleDef} {top changed : TypeDef}
      {parts others : List ModuleDef} {before after : List TypeDef}
      (hmodules : assembly.modules = parts ++ part :: others)
      (htypes : part.types = before ++ top :: after)
      (htop : TypeDef.Rebodied method body owner top changed) :
      Rebodied method body owner assembly
        { assembly with
          modules := parts ++ { part with types := before ++ changed :: after } :: others }

theorem mem_allTypes_of_withNested {assembly : AssemblyDef} {outer inside : TypeDef}
    (houter : outer ∈ assembly.allTypes) (hinside : inside ∈ outer.withNested) :
    inside ∈ assembly.allTypes := by
  obtain ⟨part, hpart, top, htop, houter⟩ := mem_allTypes_iff.1 houter
  exact mem_allTypes_iff.2 ⟨part, hpart, top, htop, TypeDef.withNested_subset houter hinside⟩

/-- The mark does not occur in the assembly. -/
def IsFresh (count : Nat) (assembly : AssemblyDef) : Prop :=
  ∀ part ∈ assembly.modules, ∀ top ∈ part.types, top.IsFresh count

theorem IsFresh.mapBodies_fill {assembly : AssemblyDef} (h : assembly.IsFresh count)
    (body : Body) : assembly.mapBodies (.fill count body) = assembly := by
  rw [mapBodies, map_eq_self fun part hpart => ModuleDef.mapBodies_fill (h part hpart) body]

theorem IsFresh.not_holdsMark {assembly : AssemblyDef} (h : assembly.IsFresh count) :
    ∀ inside ∈ assembly.allTypes, ¬inside.HoldsMark count := by
  intro inside hinside
  obtain ⟨part, hpart, top, htop, hinside⟩ := mem_allTypes_iff.1 hinside
  exact (h part hpart top htop).not_holdsMark inside hinside

/-- Assemblies that differ in the body come from a marked one, at the place of the method. -/
theorem Rebodied.exists_marked {owner : TypeDef} {assembly changed : AssemblyDef}
    (h : Rebodied method body owner assembly changed) (hold : method.body = some old)
    (hfresh : assembly.IsFresh count) :
    ∃ (marked : AssemblyDef) (place : TypeDef), marked.mapBodies (.fill count old) = assembly ∧
      marked.mapBodies (.fill count body) = changed ∧
      place.mapBodies (.fill count old) = owner ∧ place.MarksOnly count method ∧
      ∀ inside ∈ marked.allTypes, inside.HoldsMark count → inside = place := by
  cases h with
  | @intro part top altered parts others before after hmodules htypes htop =>
  have hparts : ∀ own ∈ parts ++ part :: others, ∀ definition ∈ own.types,
      definition.IsFresh count := by
    rw [← hmodules]
    exact hfresh
  have hpart : ∀ definition ∈ before ++ top :: after, definition.IsFresh count := by
    rw [← htypes]
    exact hparts part (mem_middle.2 (.inl rfl))
  have hothers : ∀ own ∈ parts ++ others, ∀ definition ∈ own.types, definition.IsFresh count :=
    fun own hown => hparts own (mem_middle.2 (.inr hown))
  have hbeside : ∀ definition ∈ before ++ after, definition.IsFresh count :=
    fun definition hdefinition => hpart definition (mem_middle.2 (.inr hdefinition))
  obtain ⟨marked, place, hself, hnew, hplace, honly, hwhere⟩ :=
    htop.exists_marked hold (hpart top (mem_middle.2 (.inl rfl)))
  let around (definition : TypeDef) : AssemblyDef :=
    { assembly with
      modules := parts ++ { part with types := before ++ definition :: after } :: others }
  have hmap : ∀ other, (around marked).mapBodies (.fill count other) =
      around (marked.mapBodies (.fill count other)) := by
    intro other
    have hmodules : (around marked).modules.map (·.mapBodies (.fill count other)) = _ :=
      map_middle fun own hown => ModuleDef.mapBodies_fill (hothers own hown) other
    rw [ModuleDef.mapBodies, TypeDef.map_mapBodies_fill hbeside] at hmodules
    rw [mapBodies, hmodules]
  refine ⟨around marked, place, ?_, ?_, hplace, honly, ?_⟩
  · rw [hmap, hself]
    simp only [around, ← htypes, ← hmodules]
  · rw [hmap, hnew]
  · intro inside hinside hmark
    obtain ⟨own, hown, definition, hdefinition, hinside⟩ := mem_allTypes_iff.1 hinside
    rcases mem_middle.1 hown with rfl | hown
    · exact hwhere inside
        (TypeDef.mem_withNested_of_holdsMark hbeside hdefinition hinside hmark) hmark
    · exact absurd hmark
        ((hothers own hown definition hdefinition).not_holdsMark inside hinside)

/-- There is always a mark that does not occur yet. -/
theorem exists_isFresh (assemblies : List AssemblyDef) (definitions : List TypeDef) (old : Body) :
    ∃ count, (∀ assembly ∈ assemblies, assembly.IsFresh count) ∧
      (∀ definition ∈ definitions, definition.IsFresh count) ∧ old ≠ .mark count := by
  let types := assemblies.flatMap (fun assembly => assembly.modules.flatMap (·.types)) ++
    definitions
  let counts := (old :: types.flatMap (·.bodies)).map Body.count
  have hcount : ∀ other ∈ old :: types.flatMap (·.bodies), other ≠ .mark (counts.sum + 1) :=
    fun other hother => Body.ne_mark_of_count_lt
      (Nat.lt_succ_of_le (List.le_sum_of_mem (List.mem_map_of_mem hother)))
  have htypes : ∀ definition ∈ types, definition.IsFresh (counts.sum + 1) :=
    fun definition hdefinition other hother => hcount other
      (List.mem_cons_of_mem _ (List.mem_flatMap.2 ⟨definition, hdefinition, hother⟩))
  refine ⟨counts.sum + 1, fun assembly hassembly part hpart top htop => ?_,
    fun definition hdefinition => htypes definition (List.mem_append_right _ hdefinition),
    hcount old List.mem_cons_self⟩
  refine htypes top (List.mem_append_left _ ?_)
  exact List.mem_flatMap.2 ⟨assembly, hassembly, List.mem_flatMap.2 ⟨part, hpart, htop⟩⟩

end AssemblyDef

end

end Assemblage
