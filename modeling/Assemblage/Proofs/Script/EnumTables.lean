import Assemblage.Proofs.Script.Attribution

/-!
# Tables of enumerations

The members of an enumeration are its static constants that stand for numbers, in the order
of the fields.  A table holds signed numbers of 64 bits.  So a constant of an unsigned type
from 2^63 on has no entry, and each of the others has one; what a run declares as an
enumeration has the entries of the table and no others.
-/

namespace Assemblage

namespace Constant

/-- The number that a constant stands for, however large it is. -/
def number? : Constant → Option Int
  | .int value => some value
  | .unsigned value => some value
  | .char value => some value.toNat
  | .boolean value => some value.toInt
  | .null | .float _ | .string _ => none

/-- Whether the constant is no unsigned one beyond the signed numbers of 64 bits. -/
def fits : Constant → Bool
  | .unsigned value => decide (value < Nat.pow 2 63)
  | _ => true

/-- A constant has a value in the table exactly if it is a number that fits. -/
theorem int?_eq (constant : Constant) :
    constant.int? = if constant.fits then constant.number? else none := by
  cases constant with
  | unsigned value => simp only [int?, fits, number?, decide_eq_true_eq]
  | boolean value => cases value <;> rfl
  | _ => rfl

end Constant

namespace FieldDef

/-- The number of a static constant. -/
def number? (field : FieldDef) : Option Int :=
  if field.isLiteral && field.isStatic then field.constant.bind Constant.number? else none

def isNumbered (field : FieldDef) : Bool :=
  field.number?.isSome

def fits (field : FieldDef) : Bool :=
  field.constant.all Constant.fits

/-- A field has an entry if its number fits. -/
theorem enumMember?_eq (field : FieldDef) :
    TypeModel.enumMember? field =
      if field.fits then field.number?.map fun value => { name := field.name, value }
      else none := by
  rw [TypeModel.enumMember?, number?, fits]
  cases field.constant with
  | none => simp
  | some constant =>
    rw [Option.bind_some, Option.bind_some, Option.all_some, constant.int?_eq]
    cases constant.fits <;> cases field.isLiteral && field.isStatic <;> rfl

end FieldDef

/-- Each of the fields that stands for a number has exactly one entry, in the order of the
fields, with its name as it is spelled and its number. -/
def ListsNumbers (spell : String → String) (fields : List FieldDef)
    (entries : List (String × Int)) : Prop :=
  List.Forall₂ (fun field entry => entry.1 = spell field.name ∧ field.number? = some entry.2)
    (fields.filter FieldDef.isNumbered) entries

section

variable {spell : String → String} {fields : List FieldDef} {entries : List (String × Int)}

theorem listsNumbers_filterMap (spell : String → String) (fields : List FieldDef) :
    ListsNumbers spell fields
      (fields.filterMap fun field => field.number?.map fun value => (spell field.name, value)) := by
  rw [ListsNumbers]
  induction fields with
  | nil => exact .nil
  | cons field rest ih =>
    rw [List.filter_cons, List.filterMap_cons, FieldDef.isNumbered]
    cases hnumber : field.number? with
    | none => exact ih
    | some value => exact .cons ⟨rfl, hnumber⟩ ih

/-- A table of the numbers that fit is one of all numbers exactly if all of them fit. -/
theorem ListsNumbers.all_iff (h : ListsNumbers spell (fields.filter FieldDef.fits) entries) :
    ListsNumbers spell fields entries ↔
      ∀ field ∈ fields, field.isNumbered = true → field.fits = true := by
  have hfilter : (fields.filter FieldDef.fits).filter FieldDef.isNumbered =
      (fields.filter FieldDef.isNumbered).filter FieldDef.fits := by
    rw [List.filter_filter, List.filter_filter]
    exact List.filter_congr fun field _ => Bool.and_comm _ _
  rw [ListsNumbers, hfilter] at h
  constructor
  · intro hall field hfield hnumbered
    have hlength := h.length_eq.trans hall.length_eq.symm
    exact List.length_filter_eq_length_iff.1 hlength field (List.mem_filter.2 ⟨hfield, hnumbered⟩)
  · intro hall
    have hfit : (fields.filter FieldDef.isNumbered).filter FieldDef.fits =
        fields.filter FieldDef.isNumbered := by
      rw [List.filter_eq_self]
      intro field hfield
      obtain ⟨hmem, hnumbered⟩ := List.mem_filter.1 hfield
      exact hall field hmem hnumbered
    rwa [hfit] at h

end

/-- The table lists the numbers that fit, and so all numbers exactly if all of them fit. -/
structure ListsFitting (spell : String → String) (fields : List FieldDef)
    (entries : List (String × Int)) : Prop where
  fitting : ListsNumbers spell (fields.filter FieldDef.fits) entries
  complete_iff : ListsNumbers spell fields entries ↔
    ∀ field ∈ fields, field.isNumbered = true → field.fits = true

namespace TypeModel

variable {model : TypeModel}

/-- The table of an enumeration with its names spelled in some way. -/
theorem listsFitting_enumMembers (hkind : model.kind = .enumeration) (spell : String → String) :
    ListsFitting spell model.definition.fields
      (model.enumMembers.map fun member => (spell member.name, member.value)) := by
  have hentries : model.enumMembers.map (fun member => (spell member.name, member.value)) =
      (model.definition.fields.filter FieldDef.fits).filterMap fun field =>
        field.number?.map fun value => (spell field.name, value) := by
    rw [enumMembers, if_pos hkind, List.map_filterMap, List.filterMap_filter]
    apply List.filterMap_congr
    intro field _
    rw [field.enumMember?_eq]
    split
    · rw [Option.map_map]
      rfl
    · rfl
  have hfitting := listsNumbers_filterMap spell (model.definition.fields.filter FieldDef.fits)
  rw [← hentries] at hfitting
  exact ⟨hfitting, hfitting.all_iff⟩

end TypeModel

namespace Script

/-- Only the declaration of a type itself can be that of an enumeration. -/
theorem Declaration.BelongsTo.eq_typeDeclaration {model : TypeModel} {location : Location}
    {fullName : String} {values : List (String × Int)} {isFlags : Bool}
    (h : (Declaration.enumeration location fullName values isFlags).BelongsTo model) :
    typeDeclaration model = .enumeration location fullName values isFlags := by
  generalize hdeclaration : Declaration.enumeration location fullName values isFlags = declaration
    at h
  cases h with
  | type => rfl
  | method _ hplace =>
    rw [← hdeclaration] at hplace
    cases hplace
  | overloads | sealed => cases hdeclaration
  | detail hmem =>
    have hdetail := (isDetail_and_path?_of_mem_tail hmem).1
    rw [← hdeclaration] at hdetail
    cases hdetail

theorem typeDeclaration_of_enumeration {model : TypeModel} (hkind : model.kind = .enumeration) :
    typeDeclaration model = .enumeration model.definition.location model.fullName
      (enumerationValues model) model.isFlags := by
  rw [typeDeclaration, hkind]

theorem kind_of_typeDeclaration_eq {model : TypeModel} {location : Location}
    {fullName : String} {values : List (String × Int)} {isFlags : Bool}
    (h : typeDeclaration model = .enumeration location fullName values isFlags) :
    model.kind = .enumeration := by
  rw [typeDeclaration] at h
  split at h
  case h_2 hkind => exact hkind
  all_goals cases h

/-- All types, as the realm of runs over a program. -/
def Realm.everything (program : Program) : Realm where
  program := program
  admits _ := True

theorem Realm.closed_everything (program : Program) : (everything program).Closed where
  indexed _ _ := trivial
  nested _ _ _ _ := trivial

/-- The table of an enumeration lists its signed constants, characters, booleans, and
unsigned constants below 2^63, each once and in the order of the fields, with its number.
So it lists all numbers exactly if no unsigned constant is larger.  The declaration of the
enumeration has the same members, with their names escaped, and every enumeration that a
run declares is declared so. -/
theorem enumeration_lists_numbers_iff (translator : Translator)
    (hlearned : translator.store.program.FinishesAll (fun _ => True) translator.store.cache)
    (sink : Sink) (listed : List AssemblyDef) :
    (∀ model : TypeModel, model.kind = .enumeration →
      ListsFitting id model.definition.fields
        (model.enumMembers.map fun member => (member.name, member.value)) ∧
      ∃ values, typeDeclaration model =
          .enumeration model.definition.location model.fullName values model.isFlags ∧
        ListsFitting Identifier.escape model.definition.fields values) ∧
    ∀ location fullName values isFlags,
      .enumeration location fullName values isFlags ∈ (translator.translate sink listed).output →
      ∃ model, translator.store.program.Finishes model ∧ model.kind = .enumeration ∧
        typeDeclaration model = .enumeration location fullName values isFlags := by
  constructor
  · intro model hkind
    exact ⟨model.listsFitting_enumMembers hkind id, enumerationValues model,
      typeDeclaration_of_enumeration hkind, model.listsFitting_enumMembers hkind Identifier.escape⟩
  · intro location fullName values isFlags hmem
    have hclosed := Realm.closed_everything translator.store.program
    have hroots : ∀ assembly ∈ listed, ∀ top ∈ Run.roots assembly,
        (Realm.everything translator.store.program).admits top := fun _ _ _ _ => trivial
    obtain ⟨-, -, howns⟩ := hclosed.holds_translate rfl hlearned sink hroots
    rcases howns _ hmem with ⟨path, hspace⟩ | ⟨model, hknows, hbelongs⟩
    · cases hspace
    · have hdeclaration := hbelongs.eq_typeDeclaration
      exact ⟨model, hknows.finishes, kind_of_typeDeclaration_eq hdeclaration, hdeclaration⟩

/-- An enumeration with a member for the lowest bit and one with the given constant. -/
def maskBlueprint (constant : Constant) : TypeBlueprint :=
  ((TypeBlueprint.enumeration "App" "Mask").addEnumValue "Low" 1).addField
    (({ name := "All", type := .primitive .uint64 } : FieldDef).asLiteral constant)

def maskAssembly (constant : Constant) : AssemblyBlueprint :=
  { identity := { name := "App" }, mainTypes := [maskBlueprint constant] }

def maskModel (constant : Constant) : TypeModel :=
  let definition := (maskBlueprint constant).build sampleScope none
  let program := (Translator.ofBlueprint (maskAssembly constant)).store.program
  program.build {} definition.typeId definition

/-- The values of a declared enumeration. -/
def Declaration.values? : Declaration → Option (List (String × Int))
  | .enumeration _ _ values _ => some values
  | _ => none

/-- The largest signed number is the last one in the table and in the declaration. -/
theorem enumeration_lists_numbers_iff_maskAssembly :
    let blueprint := maskAssembly (.unsigned 9223372036854775807)
    let translator := Translator.ofBlueprint blueprint
    let outcome := translator.translate .collecting [blueprint.build]
    let model := maskModel (.unsigned 9223372036854775807)
    translator.store.program.FinishesAll (fun _ => True) translator.store.cache ∧
      model.kind = .enumeration ∧
      ListsNumbers id model.definition.fields
        (model.enumMembers.map fun member => (member.name, member.value)) ∧
      ∃ location fullName isFlags,
        .enumeration location fullName [("Low", 1), ("All", 9223372036854775807)] isFlags ∈
          outcome.output ∧
        ∃ declared, translator.store.program.Finishes declared ∧ declared.kind = .enumeration ∧
          typeDeclaration declared =
            .enumeration location fullName [("Low", 1), ("All", 9223372036854775807)] isFlags := by
  intro blueprint translator outcome model
  have hfinishes : translator.store.program.FinishesAll (fun _ => True) translator.store.cache :=
    Program.finishesAll_empty
  obtain ⟨htables, hdeclared⟩ :=
    enumeration_lists_numbers_iff translator hfinishes .collecting [blueprint.build]
  have hkind : model.kind = .enumeration := by decide +kernel
  have hfits : ∀ field ∈ model.definition.fields, field.isNumbered = true → field.fits = true := by
    decide +kernel
  have hlists := (htables model hkind).1.complete_iff.2 hfits
  have hvalues : outcome.output.map Declaration.values? =
      [none, some [("Low", 1), ("All", 9223372036854775807)]] := by decide +kernel
  have hmem : some [("Low", 1), ("All", 9223372036854775807)] ∈
      outcome.output.map Declaration.values? := by
    rw [hvalues]
    exact .tail _ (.head _)
  obtain ⟨declaration, hdeclaration, hsome⟩ := List.mem_map.1 hmem
  cases declaration with
  | enumeration location fullName values isFlags =>
    obtain rfl : values = [("Low", 1), ("All", 9223372036854775807)] := Option.some.inj hsome
    exact ⟨hfinishes, hkind, hlists, location, fullName, isFlags, hdeclaration,
      hdeclared location fullName _ isFlags hdeclaration⟩
  | _ => cases hsome

/-- The largest number of 64 bits has no entry. -/
theorem not_listsNumbers_maskModel :
    let model := maskModel (.unsigned 18446744073709551615)
    model.kind = .enumeration ∧
      model.definition.fields.filterMap FieldDef.number? = [1, 18446744073709551615] ∧
      model.enumMembers = [{ name := "Low", value := 1 }] ∧
      ¬ListsNumbers id model.definition.fields
        (model.enumMembers.map fun member => (member.name, member.value)) := by
  intro model
  have hmembers : model.enumMembers = [{ name := "Low", value := 1 }] := by decide +kernel
  refine ⟨by decide +kernel, by decide +kernel, hmembers, fun h => ?_⟩
  have hlength := h.length_eq
  rw [hmembers] at hlength
  revert hlength
  decide +kernel

end Script

end Assemblage
