import Assemblage.Identity.Assembly
import Assemblage.Proofs.Text.Decimal
import Mathlib.Data.Bool.AllAny
import Mathlib.Data.Set.Function

/-!
# Display names are read as what they name

A display name may leave out components, repeat them, add some of its own and put
them in any order.  Whatever it is like, the identity that is read from it has a
display name of a fixed form, and that one is read as the same identity.  So
assemblies are kept apart by their display names.
-/

namespace Assemblage

namespace Version

variable {version : Version}

theorem toList_text (version : Version) :
    version.text.toList =
      Text.joinWith '.' (version.parts.map fun part => (toString part).toList) := by
  have hperiod : (toString ".").toList = ['.'] := rfl
  simp [text, parts, Text.joinWith, String.toList_append, hperiod]

theorem text_ne_nil (version : Version) : version.text.toList ≠ [] := by
  rw [toList_text]
  simp [parts, Text.joinWith]

/-- A version has neither commas nor blanks. -/
theorem isBlank_of_mem_text {c : Char} (h : c ∈ version.text.toList) :
    c ≠ ',' ∧ Text.isBlank c = false := by
  rw [toList_text] at h
  rcases Text.mem_joinWith h with rfl | ⟨piece, hpiece, hc⟩
  · decide
  · obtain ⟨part, -, rfl⟩ := List.mem_map.1 hpiece
    have hdigit := Text.isDigit_of_mem_toString hc
    refine ⟨?_, Text.isBlank_of_isDigit hdigit⟩
    rintro rfl
    cases hdigit

/-- Parts that fit are read back. -/
theorem readParts_map_toString {values : List Nat} (h : ∀ value ∈ values, value < Nat.pow 2 16) :
    readParts (values.map fun value => (toString value).toList) = .ok values := by
  induction values with
  | nil => rfl
  | cons value rest ih =>
    obtain ⟨hvalue, hrest⟩ := List.forall_mem_cons.1 h
    rw [List.map_cons, readParts, Text.Numeral.read?_toString hvalue]
    simp only [ih hrest]

theorem parts_lt (version : Version) : ∀ part ∈ version.parts, part < Nat.pow 2 16 := by
  simp only [parts, List.forall_mem_cons]
  exact ⟨version.major.toNat_lt, version.minor.toNat_lt, version.build.toNat_lt,
    version.revision.toNat_lt, fun _ h => absurd h List.not_mem_nil⟩

theorem ofParts_parts (version : Version) : ofParts version.parts = version := by
  simp [ofParts, partAt, parts]

/-- A version is read back from its text. -/
theorem parse_text (version : Version) : parse version.text.toList = .ok version := by
  have hpieces : Text.segments '.' version.text.toList =
      version.parts.map fun part => (toString part).toList := by
    rw [toList_text]
    refine Text.segments_joinWith (List.cons_ne_nil _ _) ?_
    rw [List.forall_mem_map]
    intro part _ hperiod
    exact absurd (Text.isDigit_of_mem_toString hperiod) (by decide)
  have hlength : ¬4 < (version.parts.map fun part => (toString part).toList).length := by
    simp [parts]
  rw [parse]
  simp only [hpieces, if_neg hlength, readParts_map_toString version.parts_lt, ofParts_parts]

end Version

namespace AssemblyIdentity

variable {identity : AssemblyIdentity}

/-- A culture in a display name.  A blank may stand in front, where it follows the
sign of equality. -/
structure IsCulture (culture : String) : Prop where
  ne_empty : culture ≠ ""
  ne_neutral : culture ≠ "neutral"
  no_comma : ',' ∉ culture.toList
  no_blank : culture.toList.getLast?.any Text.isBlank = false

def lowerDigits : List Char :=
  "0123456789abcdef".toList

structure IsLowerToken (token : String) : Prop where
  length_eq : token.toList.length = 16
  digits : ∀ c ∈ token.toList, c ∈ lowerDigits

/-- An identity that can be told by its display name. -/
structure IsCanonical (identity : AssemblyIdentity) : Prop where
  name_ne_empty : identity.name ≠ ""
  name_no_comma : ',' ∉ identity.name.toList
  name_trimmed : Text.IsTrimmed identity.name.toList
  culture : ∀ culture, identity.culture = some culture → IsCulture culture
  token : ∀ token, identity.token = some token → IsLowerToken token

theorem of_mem_lowerDigits : ∀ c ∈ lowerDigits,
    c ≠ ',' ∧ Text.isBlank c = false ∧ isTokenDigit c = true ∧ c.toLower = c :=
  List.all_iff_forall_prop.1 (by decide)

theorem toLower_mem_lowerDigits :
    ∀ c ∈ "0123456789abcdefABCDEF".toList, c.toLower ∈ lowerDigits :=
  List.all_iff_forall_prop.1 (by decide)

theorem mem_of_range {c first last : Char} {text : List Char} (h : first ≤ c ∧ c ≤ last)
    (hall : ∀ code < last.toNat + 1, first.toNat ≤ code → Char.ofNat code ∈ text) : c ∈ text := by
  rw [← Char.ofNat_toNat c]
  exact hall c.toNat (Nat.lt_succ_of_le h.2) h.1

theorem mem_of_isTokenDigit {c : Char} (h : isTokenDigit c = true) :
    c ∈ "0123456789abcdefABCDEF".toList := by
  have hranges : ('0' ≤ c ∧ c ≤ '9') ∨ ('a' ≤ c ∧ c ≤ 'f') ∨ ('A' ≤ c ∧ c ≤ 'F') := by
    by_contra hnone
    simp only [not_or] at hnone
    simp [isTokenDigit, Text.Numeral.digitValue?, hnone.1, hnone.2.1, hnone.2.2] at h
  rcases hranges with hdigit | hlower | hupper
  · exact mem_of_range hdigit (by decide)
  · exact mem_of_range hlower (by decide)
  · exact mem_of_range hupper (by decide)

/-- A token is in lower case after it is read. -/
theorem isLowerToken_of_isToken {value : List Char} (h : isToken value = true) :
    IsLowerToken (Text.lowerAscii (String.ofList value)) := by
  rw [isToken, Bool.and_eq_true, List.all_eq_true] at h
  have hlower : (Text.lowerAscii (String.ofList value)).toList = value.map Char.toLower := by
    rw [Text.lowerAscii, String.toList_ofList, String.toList_ofList]
  constructor
  · rw [hlower, List.length_map]
    exact beq_iff_eq.1 h.1
  · rw [hlower, List.forall_mem_map]
    exact fun c hc => toLower_mem_lowerDigits _ (mem_of_isTokenDigit (h.2 c hc))

theorem IsLowerToken.isToken {token : String} (h : IsLowerToken token) :
    isToken token.toList = true := by
  rw [AssemblyIdentity.isToken, Bool.and_eq_true, List.all_eq_true]
  exact ⟨beq_iff_eq.2 h.length_eq, fun c hc => (of_mem_lowerDigits c (h.digits c hc)).2.2.1⟩

theorem IsLowerToken.lowerAscii_eq {token : String} (h : IsLowerToken token) :
    Text.lowerAscii token = token := by
  have hsame : token.toList.map Char.toLower = token.toList.map id :=
    List.map_congr_left fun c hc => (of_mem_lowerDigits c (h.digits c hc)).2.2.2
  rw [Text.lowerAscii, hsame, List.map_id, String.ofList_toList]

/-! ## What is read is canonical -/

theorem afterStart?_eq_some_iff {start text rest : List Char} :
    afterStart? start text = some rest ↔ text = start ++ rest := by
  induction start generalizing text with
  | nil => simp [afterStart?, eq_comm]
  | cons c start ih =>
    cases text with
    | nil => simp [afterStart?]
    | cons d text =>
      rw [afterStart?, List.cons_append, List.cons.injEq]
      split
      · rename_i heq
        rw [ih, heq]
        simp
      · rename_i hne
        simp [Ne.symm hne]

theorem valueOf?_eq_some_iff {key : String} {component value : List Char} :
    valueOf? key component = some value ↔ component = key.toList ++ '=' :: value := by
  rw [valueOf?, afterStart?_eq_some_iff, List.append_assoc, List.singleton_append]

theorem isCulture_of_valueOf? {component value : List Char} (hcomma : ',' ∉ component)
    (htrimmed : Text.IsTrimmed component) (h : valueOf? "Culture" component = some value)
    (hvalue : ¬(value = "neutral".toList ∨ value = [])) : IsCulture (String.ofList value) := by
  obtain ⟨hneutral, hempty⟩ := not_or.1 hvalue
  obtain rfl := valueOf?_eq_some_iff.1 h
  rw [List.mem_append, List.mem_cons, not_or, not_or] at hcomma
  have hlast := htrimmed.2
  rw [List.getLast?_append, List.getLast?_cons_of_ne_nil hempty,
    Option.or_of_isSome (by simpa using hempty)] at hlast
  refine ⟨?_, ?_, ?_, ?_⟩
  · exact fun heq => hempty (by simpa using heq)
  · exact fun heq => hneutral (by rw [← heq, String.toList_ofList])
  · rw [String.toList_ofList]
    exact hcomma.2.2
  · rwa [String.toList_ofList]

/-- A component leaves an identity canonical, whatever it says. -/
theorem IsCanonical.applyComponent {result : AssemblyIdentity} {component : List Char}
    (h : identity.IsCanonical) (hcomma : ',' ∉ component) (htrimmed : Text.IsTrimmed component)
    (hresult : identity.applyComponent component = .ok result) : result.IsCanonical := by
  rw [AssemblyIdentity.applyComponent] at hresult
  split at hresult
  · split at hresult
    · cases hresult
      exact { h with }
    · cases hresult
  split at hresult
  · rename_i value hculture
    split at hresult
    · cases hresult
      exact h
    · rename_i hvalue
      cases hresult
      refine { h with culture := ?_ }
      rintro _ ⟨⟩
      exact isCulture_of_valueOf? hcomma htrimmed hculture hvalue
  split at hresult
  · split at hresult
    · cases hresult
      exact h
    split at hresult
    · rename_i hdigits
      cases hresult
      refine { h with token := ?_ }
      rintro _ ⟨⟩
      exact isLowerToken_of_isToken hdigits
    · cases hresult
  · cases hresult
    exact h

theorem IsCanonical.applyComponents {components : List (List Char)}
    (hcomponents : ∀ component ∈ components, ',' ∉ component ∧ Text.IsTrimmed component)
    {result : AssemblyIdentity} (h : identity.IsCanonical)
    (hresult : identity.applyComponents components = .ok result) : result.IsCanonical := by
  induction components generalizing identity with
  | nil =>
    cases hresult
    exact h
  | cons component rest ih =>
    obtain ⟨⟨hcomma, htrimmed⟩, hrest⟩ := List.forall_mem_cons.1 hcomponents
    rw [AssemblyIdentity.applyComponents] at hresult
    split at hresult
    · rename_i next hnext
      exact ih hrest (h.applyComponent hcomma htrimmed hnext) hresult
    · cases hresult

/-- What is read is canonical. -/
theorem isCanonical_of_parse {text : String} (h : parse text = .ok identity) :
    identity.IsCanonical := by
  have hpieces : ∀ piece ∈ (Text.segments ',' text.toList).map Text.trim,
      ',' ∉ piece ∧ Text.IsTrimmed piece := by
    rw [List.forall_mem_map]
    intro piece hpiece
    refine ⟨fun hcomma => ?_, Text.isTrimmed_trim piece⟩
    exact (Text.mem_of_mem_segments hpiece (Text.trim_subset piece hcomma)).2 rfl
  rw [parse] at h
  split at h
  · cases h
  · cases h
  · rename_i name components hne heq
    rw [heq, List.forall_mem_cons] at hpieces
    obtain ⟨⟨hcomma, htrimmed⟩, hcomponents⟩ := hpieces
    refine IsCanonical.applyComponents hcomponents ?_ h
    constructor
    · exact fun hempty => hne (by simpa using hempty)
    · rwa [String.toList_ofList]
    · rwa [String.toList_ofList]
    · exact fun _ hculture => absurd hculture.symm (Option.some_ne_none _)
    · exact fun _ htoken => absurd htoken.symm (Option.some_ne_none _)

/-- What follows the simple name in a display name. -/
def components (identity : AssemblyIdentity) : List (List Char) :=
  ["Version=".toList ++ identity.version.text.toList,
   "Culture=".toList ++ (identity.culture.getD "neutral").toList,
   "PublicKeyToken=".toList ++ (identity.token.getD "null").toList]

/-- A display name is the name and the components with commas between. -/
theorem toList_displayName (identity : AssemblyIdentity) :
    identity.displayName.toList =
      Text.joinWith ',' (identity.name.toList :: identity.components.map (' ' :: ·)) := by
  simp [displayName, components, Text.joinWith, String.toList_append]

theorem applyComponent_version (identity : AssemblyIdentity) (version : Version) :
    identity.applyComponent ("Version=".toList ++ version.text.toList) =
      .ok { identity with version } := by
  have hvalue : valueOf? "Version" ("Version=".toList ++ version.text.toList) =
      some version.text.toList := valueOf?_eq_some_iff.2 rfl
  simp only [applyComponent, hvalue, Version.parse_text]

/-- A culture is read back, neutral for none. -/
theorem applyComponent_culture (h : identity.culture = none) {culture : Option String}
    (hculture : ∀ name, culture = some name → IsCulture name) :
    identity.applyComponent ("Culture=".toList ++ (culture.getD "neutral").toList) =
      .ok { identity with culture } := by
  have hversion : valueOf? "Version" ("Culture=".toList ++ (culture.getD "neutral").toList) =
      none := rfl
  have hvalue : valueOf? "Culture" ("Culture=".toList ++ (culture.getD "neutral").toList) =
      some (culture.getD "neutral").toList := valueOf?_eq_some_iff.2 rfl
  simp only [applyComponent, hversion, hvalue]
  cases culture with
  | none => rw [if_pos (.inl rfl), ← h]
  | some name =>
    have hname := hculture name rfl
    have hproper : ¬(name.toList = "neutral".toList ∨ name.toList = []) := by
      rw [not_or, String.toList_inj, String.toList_eq_nil_iff]
      exact ⟨hname.ne_neutral, hname.ne_empty⟩
    rw [Option.getD_some, if_neg hproper, String.ofList_toList]

theorem applyComponent_token (h : identity.token = none) {token : Option String}
    (htoken : ∀ digits, token = some digits → IsLowerToken digits) :
    identity.applyComponent ("PublicKeyToken=".toList ++ (token.getD "null").toList) =
      .ok { identity with token } := by
  have hversion : valueOf? "Version" ("PublicKeyToken=".toList ++ (token.getD "null").toList) =
      none := rfl
  have hculture : valueOf? "Culture" ("PublicKeyToken=".toList ++ (token.getD "null").toList) =
      none := rfl
  have hvalue : valueOf? "PublicKeyToken" ("PublicKeyToken=".toList ++ (token.getD "null").toList) =
      some (token.getD "null").toList := valueOf?_eq_some_iff.2 rfl
  simp only [applyComponent, hversion, hculture, hvalue]
  cases token with
  | none => rw [if_pos (.inl rfl), ← h]
  | some digits =>
    have hdigits := htoken digits rfl
    have hproper : ¬(digits.toList = "null".toList ∨ digits.toList = []) := by
      rintro (hnull | hempty)
      · exact absurd (hnull ▸ hdigits.length_eq) (by decide)
      · exact absurd (hempty ▸ hdigits.length_eq) (by decide)
    rw [Option.getD_some, if_neg hproper, if_pos hdigits.isToken, String.ofList_toList, withToken,
      hdigits.lowerAscii_eq]

/-- The components of an identity are read back. -/
theorem applyComponents_components (h : identity.IsCanonical) :
    applyComponents { name := identity.name } identity.components = .ok identity := by
  rw [components, applyComponents, applyComponent_version]
  simp only [applyComponents]
  rw [applyComponent_culture rfl h.culture]
  simp only
  rw [applyComponent_token rfl h.token]

/-- A key with a value is a component as it stands. -/
theorem isComponent_append {key value : List Char} (hkey : Text.IsTrimmed key ∧ key ≠ [])
    (hcomma : ',' ∉ key) (hvalue : value ≠ []) (hcomma' : ',' ∉ value)
    (hlast : value.getLast?.any Text.isBlank = false) :
    ',' ∉ key ++ value ∧ Text.IsTrimmed (key ++ value) := by
  refine ⟨?_, Text.isTrimmed_append hkey.1.1 hkey.2 hlast hvalue⟩
  rw [List.mem_append, not_or]
  exact ⟨hcomma, hcomma'⟩

theorem any_getLast?_isBlank {text : List Char} (h : ∀ c ∈ text, Text.isBlank c = false) :
    text.getLast?.any Text.isBlank = false := by
  rw [Option.any_eq_false]
  exact fun c hc => by simp [h c (List.mem_of_getLast? hc)]

theorem IsCanonical.isComponent (h : identity.IsCanonical) :
    ∀ component ∈ identity.components, ',' ∉ component ∧ Text.IsTrimmed component := by
  have hkey : ∀ key ∈ ["Version=", "Culture=", "PublicKeyToken="],
      (Text.IsTrimmed key.toList ∧ key.toList ≠ []) ∧ ',' ∉ key.toList := by
    simp only [Text.IsTrimmed]
    decide
  simp only [List.forall_mem_cons] at hkey
  obtain ⟨hversion, hculture, htoken, -⟩ := hkey
  simp only [components, List.forall_mem_cons]
  refine ⟨?_, ?_, ?_, fun _ hnone => absurd hnone List.not_mem_nil⟩
  · exact isComponent_append hversion.1 hversion.2 identity.version.text_ne_nil
      (fun hcomma => (Version.isBlank_of_mem_text hcomma).1 rfl)
      (any_getLast?_isBlank fun c hc => (Version.isBlank_of_mem_text hc).2)
  · cases hname : identity.culture with
    | none => exact isComponent_append hculture.1 hculture.2 (by decide) (by decide) (by decide)
    | some name =>
      have hname := h.culture name hname
      exact isComponent_append hculture.1 hculture.2 (by simpa using hname.ne_empty)
        hname.no_comma hname.no_blank
  · cases hdigits : identity.token with
    | none => exact isComponent_append htoken.1 htoken.2 (by decide) (by decide) (by decide)
    | some digits =>
      have hdigits := h.token digits hdigits
      refine isComponent_append htoken.1 htoken.2 ?_ ?_ ?_
      · exact fun hempty => absurd (hempty ▸ hdigits.length_eq) (by decide)
      · exact fun hcomma => (of_mem_lowerDigits _ (hdigits.digits _ hcomma)).1 rfl
      · exact any_getLast?_isBlank fun c hc => (of_mem_lowerDigits c (hdigits.digits c hc)).2.1

/-- A canonical identity is read back from its display name. -/
theorem IsCanonical.parse_eq (h : identity.IsCanonical) :
    parse identity.displayName = .ok identity := by
  have hcomponents := h.isComponent
  have hpieces : Text.segments ',' identity.displayName.toList =
      identity.name.toList :: identity.components.map (' ' :: ·) := by
    rw [toList_displayName]
    refine Text.segments_joinWith (List.cons_ne_nil _ _) ?_
    rw [List.forall_mem_cons, List.forall_mem_map]
    refine ⟨h.name_no_comma, fun component hcomponent hcomma => ?_⟩
    rcases List.mem_cons.1 hcomma with hblank | hcomma
    · exact absurd hblank (by decide)
    · exact (hcomponents component hcomponent).1 hcomma
  have htrimmed : (identity.components.map (' ' :: ·)).map Text.trim = identity.components := by
    rw [List.map_map]
    refine (List.map_congr_left fun component hcomponent => ?_).trans (List.map_id _)
    rw [Function.comp_apply, Text.trim_cons rfl, (hcomponents component hcomponent).2.trim_eq, id]
  obtain ⟨c, rest, hname⟩ := List.exists_cons_of_ne_nil
    (mt String.toList_eq_nil_iff.1 h.name_ne_empty)
  rw [parse, hpieces, List.map_cons, htrimmed, h.name_trimmed.trim_eq, hname]
  simp only
  rw [← hname, String.ofList_toList, applyComponents_components h]

/-- Reading yields the canonical identities and no others. -/
theorem exists_parse_iff : (∃ text, parse text = .ok identity) ↔ identity.IsCanonical :=
  ⟨fun ⟨_, h⟩ => isCanonical_of_parse h, fun h => ⟨_, h.parse_eq⟩⟩

/-- Canonical identities with one display name are one. -/
theorem IsCanonical.eq_of_displayName_eq {other : AssemblyIdentity} (h : identity.IsCanonical)
    (hother : other.IsCanonical) (hname : identity.displayName = other.displayName) :
    identity = other := by
  have hparse := h.parse_eq
  rw [hname, hother.parse_eq] at hparse
  exact (Except.ok.inj hparse).symm

/-- What has been read from any text is read again from its display name, no two such
identities have one display name, and every canonical identity is among them. -/
theorem parse_displayName :
    (∀ text identity, parse text = .ok identity → parse identity.displayName = .ok identity) ∧
      Set.InjOn displayName {identity | ∃ text, parse text = .ok identity} ∧
      ∀ identity : AssemblyIdentity, identity.IsCanonical →
        parse identity.displayName = .ok identity := by
  refine ⟨fun text identity h => (isCanonical_of_parse h).parse_eq, ?_, fun _ h => h.parse_eq⟩
  intro identity hidentity other hother hname
  exact (exists_parse_iff.1 hidentity).eq_of_displayName_eq (exists_parse_iff.1 hother) hname

/-- A text with blanks around its parts, a short version, a token in upper case, a
component of its own, and a culture that a later component does not take back. -/
theorem parse_displayName_scattered :
    let text :=
      " Lib ,PublicKeyToken=B77A5C561934E089,  Version=1.2,Culture= de,Mark=x,Culture=neutral"
    let identity : AssemblyIdentity :=
      { name := "Lib", version := ⟨1, 2, 0, 0⟩, culture := some " de"
        token := some "b77a5c561934e089" }
    parse text = .ok identity ∧ parse identity.displayName = .ok identity := by
  intro text identity
  have htext : parse text = .ok identity := by
    have hread : (parse text).toOption = some identity := by decide +kernel
    cases hparse : parse text with
    | ok result => exact congrArg Except.ok (Option.some.inj (by rwa [hparse] at hread))
    | error fault =>
      rw [hparse] at hread
      cases hread
  exact ⟨htext, parse_displayName.1 text identity htext⟩

end AssemblyIdentity

end Assemblage
