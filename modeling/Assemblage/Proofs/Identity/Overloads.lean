import Assemblage.Proofs.Identity.TypeForm

/-!
# Identifiers of overloads

The identifier of a method holds the full names of its result and parameters.
Read from the end, a full name gives away its form step by step: the last
character tells what kind of type it is, and what stands in front of it can be
told from it.
-/

namespace Assemblage

namespace Text

/-- Where a text was put together shows if the characters on both sides differ in kind. -/
theorem append_inj_of_getLast? {P : Char → Prop} {left right first second : List Char}
    (hfirst : ∀ c ∈ first, P c) (hsecond : ∀ c ∈ second, P c)
    (hleft : ∀ c ∈ left.getLast?, ¬P c) (hright : ∀ c ∈ right.getLast?, ¬P c)
    (h : left ++ first = right ++ second) : left = right ∧ first = second := by
  -- Nothing of the one kind is left over between the two places.
  have hnone : ∀ {front middle : List Char}, (∀ c ∈ (front ++ middle).getLast?, ¬P c) →
      (∀ c ∈ middle, P c) → middle = [] := by
    intro front middle hlast hmiddle
    by_contra hne
    rw [List.getLast?_append, List.getLast?_eq_some_getLast hne] at hlast
    exact hlast _ rfl (hmiddle _ (List.getLast_mem hne))
  obtain ⟨middle, rfl, rfl⟩ | ⟨middle, rfl, rfl⟩ := List.append_eq_append_iff.1 h
  · obtain rfl := hnone hright fun c hc => hfirst c (List.mem_append_left _ hc)
    simp
  · obtain rfl := hnone hleft fun c hc => hsecond c (List.mem_append_left _ hc)
    simp

theorem isDigit_notMem_marks {c : Char} (h : c.isDigit = true) : c ∉ Signature.marks := by
  have hmarks : Signature.marks.all (!·.isDigit) = true := by decide
  intro hmem
  have hother := List.all_eq_true.1 hmarks c hmem
  rw [h] at hother
  cases hother

end Text

open Signature (marks IsLegibleName)

namespace TypeForm

/-- All names in the form are legible. -/
inductive IsLegible : TypeForm → Prop
  | named {name : String} (h : IsLegibleName name) : IsLegible (.named name)
  | generic {definition : TypeForm} {arguments : List TypeForm} (hdefinition : IsLegible definition)
      (harguments : ∀ argument ∈ arguments, IsLegible argument) :
    IsLegible (.generic definition arguments)
  | vector {element : TypeForm} (h : IsLegible element) : IsLegible (.vector element)
  | array {element : TypeForm} (rank : Nat) (h : IsLegible element) :
    IsLegible (.array element rank)
  | byRef {target : TypeForm} (h : IsLegible target) : IsLegible (.byRef target)
  | pointer {target : TypeForm} (h : IsLegible target) : IsLegible (.pointer target)
  | typeParameter (index : Nat) : IsLegible (.typeParameter index)
  | methodParameter (index : Nat) : IsLegible (.methodParameter index)

/-- The mark that ends a form which is built around others. -/
def closing : TypeForm → Option Char
  | generic .. => some '>'
  | vector _ | array .. => some ']'
  | byRef _ => some '&'
  | pointer _ => some '*'
  | named _ | typeParameter _ | methodParameter _ => none

/-- The number of exclamation marks and the name of a form that is not. -/
def leaf : TypeForm → Nat × List Char
  | named name => (0, name.toList)
  | typeParameter index => (1, (toString index).toList)
  | methodParameter index => (2, (toString index).toList)
  | _ => (0, [])

variable {form left right : TypeForm} {before after : List Char}

theorem text_eq_leaf (h : form.closing = none) :
    form.text = List.replicate form.leaf.1 '!' ++ form.leaf.2 := by
  cases form with
  | named | typeParameter | methodParameter => rfl
  | _ => cases h

theorem leaf_inj (hleft : left.closing = none) (hright : right.closing = none)
    (h : left.leaf = right.leaf) : left = right := by
  cases left with
  | named name =>
    cases right with
    | named other => rw [String.toList_injective (Prod.mk.inj h).2]
    | typeParameter | methodParameter => cases (Prod.mk.inj h).1
    | _ => cases hright
  | typeParameter index =>
    cases right with
    | typeParameter other =>
      rw [Text.toString_injective (String.toList_injective (Prod.mk.inj h).2)]
    | named | methodParameter => cases (Prod.mk.inj h).1
    | _ => cases hright
  | methodParameter index =>
    cases right with
    | methodParameter other =>
      rw [Text.toString_injective (String.toList_injective (Prod.mk.inj h).2)]
    | named | typeParameter => cases (Prod.mk.inj h).1
    | _ => cases hright
  | _ => cases hleft

theorem IsLegible.not_mem_marks (h : form.IsLegible) : ∀ c ∈ form.leaf.2, c ∉ marks := by
  cases h with
  | named h => exact h.2
  | typeParameter | methodParameter =>
    exact fun c hc => Text.isDigit_notMem_marks (Text.isDigit_of_mem_toString hc)
  | _ => exact fun c hc => absurd hc List.not_mem_nil

theorem IsLegible.leaf_ne_nil (h : form.IsLegible) (hclosing : form.closing = none) :
    form.leaf.2 ≠ [] := by
  cases h with
  | named h => simpa [leaf] using h.1
  | typeParameter index | methodParameter index => simp [leaf]
  | _ => cases hclosing

/-- The last character tells what kind of form it is. -/
theorem IsLegible.getLast?_text (h : form.IsLegible) :
    ∃ c, form.text.getLast? = some c ∧ form.closing = if c ∈ marks then some c else none := by
  cases hclosing : form.closing with
  | some c =>
    have hlast : form.text.getLast? = some c ∧ c ∈ marks := by
      cases form with
      | named | typeParameter | methodParameter => cases hclosing
      | generic | array =>
        obtain rfl := Option.some.inj hclosing
        rw [text, ← List.cons_append, ← List.append_assoc, List.getLast?_concat]
        exact ⟨rfl, by decide⟩
      | _ =>
        obtain rfl := Option.some.inj hclosing
        simp [text, marks]
    exact ⟨c, hlast.1, (if_pos hlast.2).symm⟩
  | none =>
    have hne := h.leaf_ne_nil hclosing
    refine ⟨form.leaf.2.getLast hne, ?_, (if_neg (h.not_mem_marks _ (List.getLast_mem hne))).symm⟩
    rw [text_eq_leaf hclosing, List.getLast?_append, List.getLast?_eq_some_getLast hne]
    rfl

/-- Two forms that end a text in the same way close in the same way. -/
theorem closing_eq (hleft : left.IsLegible) (hright : right.IsLegible)
    (h : before ++ left.text = after ++ right.text) : left.closing = right.closing := by
  obtain ⟨c, hc, hfirst⟩ := hleft.getLast?_text
  obtain ⟨d, hd, hsecond⟩ := hright.getLast?_text
  have hlast := congrArg List.getLast? h
  rw [List.getLast?_append, List.getLast?_append, hc, hd] at hlast
  obtain rfl : c = d := Option.some.inj hlast
  rw [hfirst, hsecond]

/-! ## Reading from the end -/

/-- What can stand before a type in a full name: nothing, or an argument list that
has been opened or goes on. -/
def Breaks (before : List Char) : Prop :=
  ∀ c ∈ before.getLast?, c = '<' ∨ c = ','

theorem breaks_concat {c : Char} (hc : c = '<' ∨ c = ',') : Breaks (before ++ [c]) := by
  intro d hd
  rw [List.getLast?_concat] at hd
  rwa [← Option.some.inj hd]

/-- Names and parameters are read in one way. -/
theorem leaf_text_inj (hleft : left.IsLegible) (hright : right.IsLegible)
    (hnone : left.closing = none) (hbefore : Breaks before) (hafter : Breaks after)
    (h : before ++ left.text = after ++ right.text) : left = right ∧ before = after := by
  have hother : right.closing = none := (closing_eq hleft hright h).symm.trans hnone
  rw [text_eq_leaf hnone, text_eq_leaf hother, ← List.append_assoc, ← List.append_assoc] at h
  have hbreak : ∀ {front : List Char} (count : Nat), Breaks front →
      ∀ c ∈ (front ++ List.replicate count '!').getLast?, ¬c ∉ marks := by
    intro front count hfront c hc
    rw [not_not]
    cases count with
    | zero =>
      rw [List.replicate_zero, List.append_nil] at hc
      rcases hfront c hc with rfl | rfl <;> decide
    | succ count =>
      rw [List.replicate_succ', ← List.append_assoc, List.getLast?_concat] at hc
      rw [← Option.some.inj hc]
      decide
  obtain ⟨hfront, hname⟩ := Text.append_inj_of_getLast? hleft.not_mem_marks
    hright.not_mem_marks (hbreak _ hbefore) (hbreak _ hafter) h
  -- The exclamation marks belong to the parameter, whatever its number.
  have hopen : ∀ {front : List Char}, Breaks front → ∀ c ∈ front.getLast?, ¬c = '!' := by
    intro front hfront c hc
    rcases hfront c hc with rfl | rfl <;> decide
  obtain ⟨hbefore, hcount⟩ := Text.append_inj_of_getLast? (P := (· = '!'))
    (fun c hc => List.eq_of_mem_replicate hc) (fun c hc => List.eq_of_mem_replicate hc)
    (hopen hbefore) (hopen hafter) hfront
  have hcounts : left.leaf.1 = right.leaf.1 := by simpa using congrArg List.length hcount
  exact ⟨leaf_inj hnone hother (Prod.ext hcounts hname), hbefore⟩

/-- The brackets of an array tell how many commas are between them. -/
theorem brackets_inj {commas others : Nat}
    (h : before ++ '[' :: (List.replicate commas ',' ++ [']']) =
      after ++ '[' :: (List.replicate others ',' ++ [']'])) : before = after ∧ commas = others := by
  have hfree : ∀ count, '[' ∉ List.replicate count ',' ++ [']'] := by
    intro count
    simp [List.mem_replicate]
  obtain ⟨hfront, hinside⟩ := Text.append_separator_inj (hfree commas) (hfree others) h
  exact ⟨hfront, by simpa using congrArg List.length hinside⟩

/-- A form that ends the same text is the same up to ranks of one, and in the same place. -/
def ReadsAlike (left : TypeForm) : Prop :=
  ∀ {right : TypeForm} {before after : List Char}, right.IsLegible → Breaks before →
    Breaks after → before ++ left.text = after ++ right.text →
      left.flattened = right.flattened ∧ before = after

/-- A legible name is read in one way. -/
theorem ReadsAlike.of_leaf (h : form.IsLegible) (hnone : form.closing = none) :
    form.ReadsAlike := by
  intro right before after hright hbefore hafter heq
  obtain ⟨rfl, hplace⟩ := leaf_text_inj h hright hnone hbefore hafter heq
  exact ⟨rfl, hplace⟩

/-- What stands before the last of the arguments. -/
def lead (before : List Char) (arguments : List TypeForm) : List Char :=
  if arguments = [] then before ++ ['<']
  else before ++ '<' :: Text.joinWith ',' (texts arguments) ++ [',']

theorem breaks_lead (before : List Char) (arguments : List TypeForm) :
    Breaks (lead before arguments) := by
  rw [lead]
  split
  · exact breaks_concat (.inl rfl)
  · exact breaks_concat (.inr rfl)

theorem joinWith_texts_concat (before : List Char) (arguments : List TypeForm) (last : TypeForm) :
    before ++ '<' :: Text.joinWith ',' (texts (arguments ++ [last])) =
      lead before arguments ++ last.text := by
  rw [texts_eq_map, List.map_append, lead]
  split
  · rename_i hnil
    rw [hnil]
    simp [Text.joinWith]
  · rename_i hne
    rw [List.map_singleton, Text.joinWith_concat (by simpa using hne), texts_eq_map]
    simp

/-- What stands before the last of the arguments tells whether there are others. -/
theorem lead_inj {arguments others : List TypeForm}
    (h : lead before arguments = lead after others) :
    before ++ '<' :: Text.joinWith ',' (texts arguments) =
      after ++ '<' :: Text.joinWith ',' (texts others) := by
  rw [lead, lead] at h
  have hmark := congrArg List.getLast? h
  by_cases hnone : arguments = []
  · by_cases hempty : others = []
    · rw [if_pos hnone, if_pos hempty] at h
      rw [hnone, hempty]
      exact h
    · rw [if_pos hnone, if_neg hempty, List.getLast?_concat, List.getLast?_concat] at hmark
      cases hmark
  · by_cases hempty : others = []
    · rw [if_neg hnone, if_pos hempty, List.getLast?_concat, List.getLast?_concat] at hmark
      cases hmark
    · rw [if_neg hnone, if_neg hempty] at h
      exact List.append_cancel_right h

/-- An opened list of arguments does not end like an argument. -/
theorem lead_append_ne {last : TypeForm} (h : last.IsLegible) {arguments : List TypeForm} :
    after ++ ['<'] ≠ lead before arguments ++ last.text := by
  intro heq
  obtain ⟨c, hc, hclosing⟩ := h.getLast?_text
  have hlast := congrArg List.getLast? heq
  rw [List.getLast?_concat, List.getLast?_append, hc] at hlast
  obtain rfl : '<' = c := Option.some.inj hlast
  rw [if_pos (by decide)] at hclosing
  cases last <;> cases hclosing

/-- Arguments are read from the last to the first, until their list was opened. -/
theorem arguments_inj {arguments others : List TypeForm}
    (hread : ∀ argument ∈ arguments, ReadsAlike argument)
    (harguments : ∀ argument ∈ arguments, argument.IsLegible)
    (hothers : ∀ argument ∈ others, argument.IsLegible)
    (h : before ++ '<' :: Text.joinWith ',' (texts arguments) =
      after ++ '<' :: Text.joinWith ',' (texts others)) :
    arguments.map flattened = others.map flattened ∧ before = after := by
  induction arguments using List.reverseRecOn generalizing others with
  | nil =>
    obtain rfl | ⟨rest, last, rfl⟩ := others.eq_nil_or_concat
    · exact ⟨rfl, List.append_cancel_right h⟩
    · rw [List.concat_eq_append, joinWith_texts_concat] at h
      exact absurd h (lead_append_ne (hothers last (by simp)))
  | append_singleton arguments last ih =>
    rw [joinWith_texts_concat] at h
    obtain rfl | ⟨rest, other, rfl⟩ := others.eq_nil_or_concat
    · exact absurd h.symm (lead_append_ne (harguments last (by simp)))
    rw [List.concat_eq_append] at hothers h ⊢
    rw [joinWith_texts_concat] at h
    obtain ⟨hlast, hlead⟩ := hread last (by simp) (hothers other (by simp))
      (breaks_lead before arguments) (breaks_lead after rest) h
    obtain ⟨hrest, hbefore⟩ := ih
      (fun argument hmem => hread argument (List.mem_append_left _ hmem))
      (fun argument hmem => harguments argument (List.mem_append_left _ hmem))
      (fun argument hmem => hothers argument (List.mem_append_left _ hmem)) (lead_inj hlead)
    rw [List.map_append, List.map_append, hrest, List.map_singleton, List.map_singleton, hlast]
    exact ⟨rfl, hbefore⟩

/-- What is read back from an array with so many commas between its brackets. -/
def bracketed (element : TypeForm) (commas : Nat) : TypeForm :=
  if commas = 0 then vector element else array element (commas + 1)

/-- An array is flattened to its element and brackets with one comma less than its rank. -/
theorem flattened_array (element : TypeForm) (rank : Nat) :
    (array element rank).flattened = bracketed element.flattened (rank - 1) := by
  rw [flattened, bracketed]
  by_cases hrank : rank ≤ 1
  · rw [if_pos hrank, if_pos (Nat.sub_eq_zero_of_le hrank)]
  · rw [if_neg hrank, if_neg (by omega), Nat.sub_add_cancel (by omega)]

/-- An array is read back up to the difference between no rank and a rank of one. -/
theorem exists_element (h : form.IsLegible) (hclosing : form.closing = some ']') :
    ∃ (element : TypeForm) (commas : Nat), element.IsLegible ∧
      form.text = element.text ++ '[' :: (List.replicate commas ',' ++ [']']) ∧
      form.flattened = bracketed element.flattened commas := by
  cases h with
  | vector h => exact ⟨_, 0, h, rfl, rfl⟩
  | array rank h => exact ⟨_, rank - 1, h, rfl, flattened_array _ rank⟩
  | _ => cases hclosing

/-- A form is read through the one inside it, if whatever ends the same text has one in
the same place. -/
theorem ReadsAlike.of_inner {inner : TypeForm} (h : inner.ReadsAlike)
    (hinner : ∀ {right : TypeForm} {before after : List Char}, right.IsLegible →
      before ++ form.text = after ++ right.text → ∃ other : TypeForm, other.IsLegible ∧
        before ++ inner.text = after ++ other.text ∧
        (inner.flattened = other.flattened → form.flattened = right.flattened)) :
    form.ReadsAlike := by
  intro right before after hright hbefore hafter heq
  obtain ⟨other, hother, hfront, hflat⟩ := hinner hright heq
  obtain ⟨hsame, hplace⟩ := h hother hbefore hafter hfront
  exact ⟨hflat hsame, hplace⟩

/-- An array is read through its element. -/
theorem ReadsAlike.of_element {element : TypeForm} (h : element.ReadsAlike) (commas : Nat)
    (hlegible : form.IsLegible) (hclosing : form.closing = some ']')
    (htext : form.text = element.text ++ '[' :: (List.replicate commas ',' ++ [']']))
    (hflat : form.flattened = bracketed element.flattened commas) : form.ReadsAlike := by
  refine h.of_inner fun hright heq => ?_
  obtain ⟨other, count, hother, hothertext, hotherflat⟩ :=
    exists_element hright ((closing_eq hlegible hright heq).symm.trans hclosing)
  rw [htext, hothertext, ← List.append_assoc, ← List.append_assoc] at heq
  obtain ⟨hfront, rfl⟩ := brackets_inj heq
  refine ⟨other, hother, hfront, fun hsame => ?_⟩
  rw [hflat, hotherflat, hsame]

/-- A form can be read from the end of a text, whatever breaks off before it. -/
theorem IsLegible.readsAlike (h : form.IsLegible) : form.ReadsAlike := by
  induction h with
  | named hname => exact ReadsAlike.of_leaf (.named hname) rfl
  | typeParameter index => exact ReadsAlike.of_leaf (.typeParameter index) rfl
  | methodParameter index => exact ReadsAlike.of_leaf (.methodParameter index) rfl
  | vector helement ih => exact ih.of_element 0 (.vector helement) rfl rfl rfl
  | array rank helement ih =>
    exact ih.of_element (rank - 1) (.array rank helement) rfl rfl (flattened_array _ rank)
  | byRef htarget ih =>
    refine ih.of_inner fun hright heq => ?_
    have hclosing := closing_eq (.byRef htarget) hright heq
    cases hright with
    | byRef hother =>
      rw [text, text, ← List.append_assoc, ← List.append_assoc] at heq
      exact ⟨_, hother, List.append_cancel_right heq, congrArg TypeForm.byRef⟩
    | _ => cases hclosing
  | pointer htarget ih =>
    refine ih.of_inner fun hright heq => ?_
    have hclosing := closing_eq (.pointer htarget) hright heq
    cases hright with
    | pointer hother =>
      rw [text, text, ← List.append_assoc, ← List.append_assoc] at heq
      exact ⟨_, hother, List.append_cancel_right heq, congrArg TypeForm.pointer⟩
    | _ => cases hclosing
  | generic hdefinition harguments ih iharguments =>
    intro right before after hright hbefore hafter heq
    have hclosing := closing_eq (.generic hdefinition harguments) hright heq
    cases hright with
    | generic hother hothers =>
      rw [text, text, ← List.append_assoc, ← List.append_assoc, ← List.cons_append,
        ← List.cons_append, ← List.append_assoc, ← List.append_assoc] at heq
      obtain ⟨hall, hfront⟩ :=
        arguments_inj iharguments harguments hothers (List.append_cancel_right heq)
      obtain ⟨hsame, rfl⟩ := ih hother hbefore hafter hfront
      rw [flattened, flattened, hsame, flattenedAll_eq_map, flattenedAll_eq_map, hall]
      exact ⟨rfl, rfl⟩
    | _ => cases hclosing

/-- Legible forms with the same text differ in ranks of one at most. -/
theorem text_eq_iff (hleft : left.IsLegible) (hright : right.IsLegible) :
    left.text = right.text ↔ left.flattened = right.flattened := by
  constructor
  · intro h
    have hnothing : Breaks [] := fun c hc => by cases hc
    exact (hleft.readsAlike hright hnothing hnothing h).1
  · intro h
    rw [← text_flattened left, h, text_flattened]

end TypeForm

namespace Signature

mutual

/-- A signature is written as its form. -/
theorem toList_fullName : ∀ signature : Signature,
    signature.fullName.toList = signature.form.text
  | .primitive _ | .reference _ | .value _ => rfl
  | .generic definition arguments => by
    have hcomma : ",".toList = [','] := rfl
    rw [form, TypeForm.text, ← toList_fullName definition, ← toList_fullNames arguments,
      ← Text.toList_intercalate hcomma, fullName]
    simp
  | .vector element => by
    rw [form, TypeForm.text, ← toList_fullName element, fullName]
    simp
  | .array element rank => by
    rw [form, TypeForm.text, ← toList_fullName element, fullName, arraySuffix]
    simp
  | .byRef target => by
    rw [form, TypeForm.text, ← toList_fullName target, fullName]
    simp
  | .pointer target => by
    rw [form, TypeForm.text, ← toList_fullName target, fullName]
    simp
  | .typeParameter index | .methodParameter index => by
    rw [form, TypeForm.text, fullName]
    simp

theorem toList_fullNames : ∀ signatures : List Signature,
    (fullNames signatures).map String.toList = TypeForm.texts (forms signatures)
  | [] => rfl
  | signature :: rest => by
    rw [fullNames, List.map_cons, forms, TypeForm.texts, toList_fullName signature,
      toList_fullNames rest]

end

/-- A name that spells a primitive is legible like the others. -/
theorem IsLegible.isLegibleName {signature named : Signature} (h : signature.IsLegible)
    (hnames : Names signature named) : IsLegibleName named.fullName := by
  cases hprimitive : named.primitive? with
  | none => exact h named (hnames.mem_namedTypes hprimitive)
  | some p =>
    rw [fullName_eq_of_primitive? hprimitive]
    exact isLegibleName_fullName p

mutual

/-- A legible signature has a legible form. -/
theorem isLegible_form : ∀ {signature : Signature}, signature.IsLegible → signature.form.IsLegible
  | .primitive p, _ => .named (isLegibleName_fullName p)
  | .reference name, h => .named (h.isLegibleName (.reference name))
  | .value name, h => .named (h.isLegibleName (.value name))
  | .generic definition arguments, h => by
    simp only [IsLegible, namedTypes, List.mem_append] at h
    exact .generic (isLegible_form fun named hnamed => h named (.inr hnamed))
      (isLegible_forms fun named hnamed => h named (.inl hnamed))
  | .vector element, h => .vector (@isLegible_form element h)
  | .array element rank, h => .array rank (@isLegible_form element h)
  | .byRef target, h => .byRef (@isLegible_form target h)
  | .pointer target, h => .pointer (@isLegible_form target h)
  | .typeParameter index, _ => .typeParameter index
  | .methodParameter index, _ => .methodParameter index

theorem isLegible_forms : ∀ {signatures : List Signature},
    (∀ named ∈ namedTypesOfList signatures, IsLegibleName named.fullName) →
      ∀ form ∈ forms signatures, form.IsLegible
  | [], _ => fun _ hform => absurd hform List.not_mem_nil
  | signature :: rest, h => by
    simp only [namedTypesOfList, List.mem_append] at h
    intro form hform
    cases hform with
    | head => exact isLegible_form fun named hnamed => h named (.inr hnamed)
    | tail _ hform => exact isLegible_forms (fun named hnamed => h named (.inl hnamed)) form hform

end

/-- Legible signatures have one full name exactly if they stand for the same type, arrays
of rank one taken for arrays of one dimension. -/
theorem fullName_eq_iff {left right : Signature} (hleft : left.IsLegible)
    (hright : right.IsLegible) :
    left.fullName = right.fullName ↔ left.form.flattened = right.form.flattened := by
  rw [← String.toList_inj, toList_fullName, toList_fullName,
    TypeForm.text_eq_iff (isLegible_form hleft) (isLegible_form hright)]

/-- Legible parameter lists are written alike exactly if they are alike when flattened. -/
theorem map_fullName_eq_iff {left right : List Signature}
    (hleft : ∀ signature ∈ left, signature.IsLegible)
    (hright : ∀ signature ∈ right, signature.IsLegible) :
    left.map fullName = right.map fullName ↔
      left.map (·.form.flattened) = right.map (·.form.flattened) := by
  induction left generalizing right with
  | nil => cases right <;> simp
  | cons signature rest ih =>
    cases right with
    | nil => simp
    | cons other others =>
      rw [List.forall_mem_cons] at hleft hright
      simp only [List.map_cons, List.cons.injEq, fullName_eq_iff hleft.1 hright.1,
        ih hleft.2 hright.2]

theorem map_flattened_form {signatures : List Signature}
    (h : ∀ signature ∈ signatures, ∀ rank ∈ signature.form.ranks, 2 ≤ rank) :
    signatures.map (·.form.flattened) = signatures.map form :=
  List.map_congr_left fun signature hmem => signature.form.flattened_eq_self (h signature hmem)

end Signature

namespace MemberId

/-- Methods whose types are legible have the same key exactly if they have the same name,
arity, result and parameters, arrays of rank one taken for arrays of one dimension; where no
array has rank one, exactly if all types are the same. -/
theorem ofMethod_eq_iff {name name' : String} {arity arity' : Nat} {result result' : Signature}
    {parameters parameters' : List Signature}
    (h : ∀ signature ∈ result :: parameters, signature.IsLegible)
    (h' : ∀ signature ∈ result' :: parameters', signature.IsLegible) :
    (ofMethod name arity result parameters = ofMethod name' arity' result' parameters' ↔
      name = name' ∧ arity = arity' ∧ result.form.flattened = result'.form.flattened ∧
        parameters.map (·.form.flattened) = parameters'.map (·.form.flattened)) ∧
    ((∀ signature ∈ result :: parameters, ∀ rank ∈ signature.form.ranks, 2 ≤ rank) →
      (∀ signature ∈ result' :: parameters', ∀ rank ∈ signature.form.ranks, 2 ≤ rank) →
      (ofMethod name arity result parameters = ofMethod name' arity' result' parameters' ↔
        name = name' ∧ arity = arity' ∧ result.form = result'.form ∧
          parameters.map Signature.form = parameters'.map Signature.form)) := by
  rw [List.forall_mem_cons] at h h'
  have hkeys : ofMethod name arity result parameters = ofMethod name' arity' result' parameters' ↔
      name = name' ∧ arity = arity' ∧ result.form.flattened = result'.form.flattened ∧
        parameters.map (·.form.flattened) = parameters'.map (·.form.flattened) := by
    rw [ofMethod, ofMethod, MemberId.method.injEq, Signature.fullName_eq_iff h.1 h'.1,
      Signature.map_fullName_eq_iff h.2 h'.2]
  refine ⟨hkeys, fun hranks hranks' => ?_⟩
  rw [List.forall_mem_cons] at hranks hranks'
  rw [hkeys, result.form.flattened_eq_self hranks.1, result'.form.flattened_eq_self hranks'.1,
    Signature.map_flattened_form hranks.2, Signature.map_flattened_form hranks'.2]

/-- The encoding of a name as a class or a value type makes no other overload, the place of
the brackets does. -/
theorem ofMethod_eq_iff_grids :
    ofMethod "Fill" 0 (.primitive .void)
        [.generic (.reference ⟨none, "App", "Grid\x601"⟩)
          [.array (.vector (.value ⟨none, "System", "Int32"⟩)) 2]] =
      ofMethod "Fill" 0 (.primitive .void)
        [.generic (.value ⟨none, "App", "Grid\x601"⟩) [.array (.vector (.primitive .int32)) 2]] ∧
    ofMethod "Fill" 0 (.primitive .void) [.array (.vector (.primitive .int32)) 2] ≠
      ofMethod "Fill" 0 (.primitive .void) [.vector (.array (.primitive .int32) 2)] := by
  constructor
  · exact ((ofMethod_eq_iff (by decide) (by decide)).2 (by decide) (by decide)).2
      ⟨rfl, rfl, rfl, rfl⟩
  · intro heq
    obtain ⟨-, -, -, hparameters⟩ :=
      ((ofMethod_eq_iff (by decide) (by decide)).2 (by decide) (by decide)).1 heq
    cases hparameters

/-- An array of rank one has the name of an array of one dimension, though it is another
type. -/
theorem not_ofMethod_eq_iff_form :
    ¬∀ (name name' : String) (arity arity' : Nat) (result result' : Signature)
        (parameters parameters' : List Signature),
      (∀ signature ∈ result :: parameters,
        signature.IsLegible ∧ ∀ rank ∈ signature.form.ranks, 1 ≤ rank) →
      (∀ signature ∈ result' :: parameters',
        signature.IsLegible ∧ ∀ rank ∈ signature.form.ranks, 1 ≤ rank) →
      (ofMethod name arity result parameters = ofMethod name' arity' result' parameters' ↔
        name = name' ∧ arity = arity' ∧ result.form = result'.form ∧
          parameters.map Signature.form = parameters'.map Signature.form) := by
  intro h
  have hapart := h "F" "F" 0 0 (.primitive .void) (.primitive .void)
    [.vector (.primitive .int32)] [.array (.primitive .int32) 1] (by decide) (by decide)
  obtain ⟨-, -, -, hparameters⟩ := hapart.1 (by decide)
  cases hparameters

end MemberId

end Assemblage
