import Assemblage.Proofs.Model.NamedTypes
import Assemblage.Proofs.Text.Decimal
import Mathlib.Data.List.Induction

/-!
# The form of a type

Signatures stand for the same type if they have the same form: the same arrays,
references, pointers, instances and parameters over the same names, no matter
how the names are encoded.  A full name can be read back from its end in one
way only, as long as no name in it is empty or holds one of the marks around
names.  It tells everything about the form but whether an array of one
dimension was given with that rank.
-/

namespace Assemblage

/-- What a signature stands for. -/
inductive TypeForm where
  | named (name : String)
  | generic (definition : TypeForm) (arguments : List TypeForm)
  | vector (element : TypeForm)
  | array (element : TypeForm) (rank : Nat)
  | byRef (target : TypeForm)
  | pointer (target : TypeForm)
  | typeParameter (index : Nat)
  | methodParameter (index : Nat)

namespace Signature

mutual

def form : Signature → TypeForm
  | .primitive p => .named p.fullName
  | .reference name | .value name => .named name.fullName
  | .generic definition arguments => .generic definition.form (forms arguments)
  | .vector element => .vector element.form
  | .array element rank => .array element.form rank
  | .byRef target => .byRef target.form
  | .pointer target => .pointer target.form
  | .typeParameter index => .typeParameter index
  | .methodParameter index => .methodParameter index

def forms : List Signature → List TypeForm
  | [] => []
  | signature :: rest => signature.form :: forms rest

end

/-- The characters that stand around names in a full name. -/
def marks : List Char :=
  ['[', ']', '<', '>', ',', '&', '*', '!']

/-- A name that is told from what stands around it. -/
def IsLegibleName (name : String) : Prop :=
  name ≠ "" ∧ ∀ c ∈ name.toList, c ∉ marks

instance (name : String) : Decidable (IsLegibleName name) :=
  have : Decidable (∀ c ∈ name.toList, c ∉ marks) := List.decidableBAll _ _
  instDecidableAnd

/-- All named types of the signature, at any depth, have legible names. -/
def IsLegible (signature : Signature) : Prop :=
  ∀ named ∈ signature.namedTypes, IsLegibleName named.fullName

instance (signature : Signature) : Decidable signature.IsLegible :=
  List.decidableBAll _ _

theorem isLegibleName_fullName (p : Primitive) : IsLegibleName p.fullName := by
  cases p <;> decide

end Signature

open Signature (marks IsLegibleName)

namespace TypeForm

mutual

def text : TypeForm → List Char
  | named name => name.toList
  | generic definition arguments =>
    definition.text ++ '<' :: (Text.joinWith ',' (texts arguments) ++ ['>'])
  | vector element => element.text ++ ['[', ']']
  | array element rank => element.text ++ '[' :: (List.replicate (rank - 1) ',' ++ [']'])
  | byRef target => target.text ++ ['&']
  | pointer target => target.text ++ ['*']
  | typeParameter index => '!' :: (toString index).toList
  | methodParameter index => '!' :: '!' :: (toString index).toList

def texts : List TypeForm → List (List Char)
  | [] => []
  | form :: rest => form.text :: texts rest

end

theorem texts_eq_map (forms : List TypeForm) : texts forms = forms.map text := by
  induction forms with
  | nil => rfl
  | cons form rest ih => rw [texts, ih, List.map_cons]

mutual

/-- The form with arrays of rank one, or none, as arrays of one dimension. -/
def flattened : TypeForm → TypeForm
  | generic definition arguments => generic definition.flattened (flattenedAll arguments)
  | vector element => vector element.flattened
  | array element rank =>
    if rank ≤ 1 then vector element.flattened else array element.flattened rank
  | byRef target => byRef target.flattened
  | pointer target => pointer target.flattened
  | other => other

def flattenedAll : List TypeForm → List TypeForm
  | [] => []
  | form :: rest => form.flattened :: flattenedAll rest

end

theorem flattenedAll_eq_map (forms : List TypeForm) :
    flattenedAll forms = forms.map flattened := by
  induction forms with
  | nil => rfl
  | cons form rest ih => rw [flattenedAll, ih, List.map_cons]

mutual

/-- The ranks of the arrays in a form. -/
def ranks : TypeForm → List Nat
  | generic definition arguments => definition.ranks ++ ranksAll arguments
  | vector element => element.ranks
  | array element rank => rank :: element.ranks
  | byRef target | pointer target => target.ranks
  | _ => []

def ranksAll : List TypeForm → List Nat
  | [] => []
  | form :: rest => form.ranks ++ ranksAll rest

end

mutual

theorem flattened_eq_self : ∀ form : TypeForm, (∀ rank ∈ form.ranks, 2 ≤ rank) →
    form.flattened = form
  | named _, _ | typeParameter _, _ | methodParameter _, _ => rfl
  | generic definition arguments, h => by
    simp only [ranks, List.mem_append] at h
    rw [flattened, flattened_eq_self definition fun rank hrank => h rank (.inl hrank),
      flattenedAll_eq_self arguments fun rank hrank => h rank (.inr hrank)]
  | vector element, h => by rw [flattened, flattened_eq_self element h]
  | array element rank, h => by
    simp only [ranks, List.mem_cons, forall_eq_or_imp] at h
    rw [flattened, if_neg (Nat.not_le_of_lt h.1), flattened_eq_self element h.2]
  | byRef target, h => by rw [flattened, flattened_eq_self target h]
  | pointer target, h => by rw [flattened, flattened_eq_self target h]

theorem flattenedAll_eq_self : ∀ forms : List TypeForm, (∀ rank ∈ ranksAll forms, 2 ≤ rank) →
    flattenedAll forms = forms
  | [], _ => rfl
  | form :: rest, h => by
    simp only [ranksAll, List.mem_append] at h
    rw [flattenedAll, flattened_eq_self form fun rank hrank => h rank (.inl hrank),
      flattenedAll_eq_self rest fun rank hrank => h rank (.inr hrank)]

end

mutual

/-- A rank of one cannot be seen in the text. -/
theorem text_flattened : ∀ form : TypeForm, form.flattened.text = form.text
  | named _ | typeParameter _ | methodParameter _ => rfl
  | generic definition arguments => by
    rw [flattened, text, text, text_flattened definition, texts_flattenedAll arguments]
  | vector element => by rw [flattened, text, text, text_flattened element]
  | array element rank => by
    rw [flattened]
    split
    · rename_i hrank
      rw [text, text, text_flattened element, Nat.sub_eq_zero_of_le hrank]
      rfl
    · rw [text, text, text_flattened element]
  | byRef target => by rw [flattened, text, text, text_flattened target]
  | pointer target => by rw [flattened, text, text, text_flattened target]

/-- Flattening does not change what is written. -/
theorem texts_flattenedAll : ∀ forms : List TypeForm, texts (flattenedAll forms) = texts forms
  | [] => rfl
  | form :: rest => by rw [flattenedAll, texts, texts, text_flattened form, texts_flattenedAll rest]

end

end TypeForm

end Assemblage
