import Mathlib.Logic.Function.Basic
import Assemblage.Text.Blank
import Assemblage.Text.Numeral

/-!
# Numbers in names

Names that have to differ are extended by a number in decimal notation, and so are
the parts of a version.  Such a number is not empty and consists of digits, and it
can be read back.
-/

namespace Assemblage.Text

theorem toList_toString (number : Nat) : (toString number).toList = Nat.toDigits 10 number := by
  simp [toString, Nat.repr]

theorem toString_ne_empty (number : Nat) : toString number ≠ "" :=
  Nat.repr_ne_empty

theorem isDigit_of_mem_toString {number : Nat} {c : Char} (h : c ∈ (toString number).toList) :
    c.isDigit = true := by
  rw [toList_toString] at h
  exact Nat.isDigit_of_mem_toDigits (by decide) (by decide) h

/-- Different numbers are written differently. -/
theorem toString_injective : Function.Injective (toString : Nat → String) := by
  intro left right h
  have hdigits : Nat.toDigits 10 left = Nat.toDigits 10 right := by
    rw [← toList_toString, ← toList_toString]
    exact congrArg String.toList h
  calc
    left = Nat.ofDigitChars 10 (Nat.toDigits 10 left) 0 := Nat.ofDigitChars_ten_toDigits.symm
    _ = right := by rw [hdigits, Nat.ofDigitChars_ten_toDigits]

theorem isBlank_of_isDigit {c : Char} (h : c.isDigit = true) : isBlank c = false := by
  have hbounds : 48 ≤ c.toNat ∧ c.toNat ≤ 57 := by
    simpa [Char.isDigit, UInt32.le_iff_toNat_le] using h
  simp only [isBlank, Bool.or_eq_false_iff, Bool.and_eq_false_iff, decide_eq_false_iff_not,
    beq_eq_false_iff_ne]
  omega

namespace Numeral

theorem digitValue?_of_isDigit {c : Char} (h : c.isDigit = true) :
    digitValue? 10 c = some (c.toNat - '0'.toNat) := by
  have hbounds : '0' ≤ c ∧ c ≤ '9' := by
    simpa [Char.isDigit, Char.le_def] using h
  have hless : c.toNat - '0'.toNat < 10 := by
    have hlast : c.toNat ≤ '9'.toNat := hbounds.2
    have hnine : '9'.toNat = 57 := rfl
    have hzero : '0'.toNat = 48 := rfl
    omega
  rw [digitValue?]
  simp only [if_pos hbounds, Option.filter_some, hless, decide_true, if_true]

/-- Digits are read as a number to the base ten. -/
theorem valueFrom?_eq_ofDigitChars {text : List Char} (h : ∀ c ∈ text, c.isDigit = true)
    (value : Nat) : valueFrom? 10 value text = some (Nat.ofDigitChars 10 text value) := by
  induction text generalizing value with
  | nil => rfl
  | cons c rest ih =>
    obtain ⟨hc, hrest⟩ := List.forall_mem_cons.1 h
    rw [valueFrom?, digitValue?_of_isDigit hc]
    simp only [ih hrest]
    rw [Nat.ofDigitChars_cons, Nat.mul_comm]

/-- A number in decimal notation is read as that number. -/
theorem read?_toString {number bound : Nat} (h : number < bound) :
    read? 10 bound (toString number).toList = some number := by
  have hdigits : ∀ c ∈ (toString number).toList, c.isDigit = true :=
    fun c hc => isDigit_of_mem_toString hc
  have hvalue : valueFrom? 10 0 (toString number).toList = some number := by
    rw [valueFrom?_eq_ofDigitChars hdigits, toList_toString, Nat.ofDigitChars_ten_toDigits]
  cases htext : (toString number).toList with
  | nil => exact absurd (String.toList_eq_nil_iff.1 htext) (toString_ne_empty number)
  | cons c rest =>
    rw [htext] at hdigits hvalue
    have hsign : c ≠ '+' := by
      rintro rfl
      exact absurd (hdigits '+' List.mem_cons_self) (by decide)
    simp [read?, hsign, hvalue, h]

end Numeral

end Assemblage.Text
